import LiveValue.Yaml.Flow

/-!
# Blocks

Sequences and mappings that are set out over lines by their indentation. A block starts at the
column of its first dash or key and goes on with every dash or key in that column. Every reader
gives the place of the next token, which stands in another line; a token that fits no open block
is left over and makes the text malformed.
-/

namespace LiveValue.Yaml.Block

/-- The place behind the dash of a sequence item, if there is one. -/
def dash? (c : Cursor) : Option Cursor :=
  match c.line with
  | '-' :: rest => if startsBlank rest then some { c with line := rest } else none
  | _ => none

/-- The key of a mapping entry, and the place behind its colon. -/
def readKey? (c : Cursor) : Option (Node × Cursor) := do
  let (key, stop) ← match Flow.readMarked? c with
    | some found => some found
    | none => (Plain.readLine? false c).map fun (s, stop) => (Node.plain s, stop)
  let colon : Cursor := { stop with line := skipSpaces stop.line }
  match colon.line with
  | ':' :: rest => do
      guard (c.reaches colon && startsBlank rest)
      return (key, { colon with line := rest })
  | _ => none

def readScalar? (least : Nat) (c : Cursor) : Option (Node × Cursor) := do
  let (node, stop) ← match Flow.readMarked? c with
    | some found => some found
    | none => (Plain.read? false least c).map fun (s, stop) => (Node.plain s, stop)
  let (crossed, after) := stop.gap
  guard crossed
  return (node, after)

mutual
/-- The node at a cursor, where a block may start. -/
def readNode? : Nat → Nat → Cursor → Option (Node × Cursor)
  | 0, _, _ => none
  | fuel + 1, least, c =>
      if (dash? c).isSome then do
        let (items, after) ← readItems? fuel c.column c
        return (.sequence items, after)
      else if (readKey? c).isSome then do
        let (entries, after) ← readEntries? fuel c.column c
        return (.mapping entries, after)
      else readScalar? least c

/-- The items in a column. An item may be left out. -/
def readItems? : Nat → Nat → Cursor → Option (List Node × Cursor)
  | 0, _, _ => none
  | fuel + 1, column, c =>
      if c.isEnd || c.column != column then some ([], c)
      else match dash? c with
        | none => some ([], c)
        | some behind => do
            let (crossed, start) := behind.gap
            let (item, after) ←
              if crossed && (start.isEnd || start.column ≤ column) then some (.plain [], start)
              else readNode? fuel (column + 1) start
            let (items, after) ← readItems? fuel column after
            return (item :: items, after)

/-- The value behind a colon, which may be left out: a node with the least indentation, or in the
same line a node that is no block. The items of a sequence may also stand in the column of the
key. -/
def readValue? : Nat → Nat → Cursor → Option (Node × Cursor)
  | 0, _, _ => none
  | fuel + 1, least, c =>
      let (crossed, start) := c.gap
      if !crossed then readScalar? least start
      else if start.isEnd then some (.plain [], start)
      else if start.column + 1 == least && (dash? start).isSome then do
        let (items, after) ← readItems? fuel start.column start
        return (.sequence items, after)
      else if start.column < least then some (.plain [], start)
      else readNode? fuel least start

/-- The entries in a column. -/
def readEntries? : Nat → Nat → Cursor → Option (List (Node × Node) × Cursor)
  | 0, _, _ => none
  | fuel + 1, column, c =>
      if c.isEnd || c.column != column then some ([], c)
      else match readKey? c with
        | none => some ([], c)
        | some (key, behind) => do
            let (value, after) ← readValue? fuel (column + 1) behind
            let (entries, after) ← readEntries? fuel column after
            return ((key, value) :: entries, after)
end

end LiveValue.Yaml.Block
