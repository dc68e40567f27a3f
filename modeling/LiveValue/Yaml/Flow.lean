import LiveValue.Yaml.Node
import LiveValue.Yaml.Plain
import LiveValue.Yaml.Quoted

/-!
# Brackets and braces

Sequences in brackets and mappings in braces, with gaps of any kind between their parts. Every
reader takes a cursor and gives a node and the place behind it; what is malformed gives nothing.
-/

namespace LiveValue.Yaml.Flow

def next (c : Cursor) : Cursor := { c with line := c.line.drop 1 }

/-- The place behind the colon of a key that starts at a cursor and ends at another one, if there is
a colon. Nothing, if the colon is there but does not belong to the key. -/
def colon? (start stop : Cursor) : Option (Option Cursor) :=
  let colon := stop.gap.2
  match colon.line with
  | ':' :: _ => if start.reaches colon then some (some (next colon)) else none
  | _ => some none

mutual
/-- A node within brackets or braces. -/
def readNode? : Nat → Cursor → Option (Node × Cursor)
  | 0, _ => none
  | fuel + 1, c =>
      match c.line with
      | '[' :: _ => do
          let (items, after) ← readItems? fuel (next c).gap.2
          return (.sequence items, after)
      | '{' :: _ => do
          let (entries, after) ← readEntries? fuel (next c).gap.2
          return (.mapping entries, after)
      | _ =>
          match Quoted.read? c with
          | some (s, after) => some (.quoted s, after)
          | none => (Plain.read? true 0 c).map fun (s, after) => (.plain s, after)

/-- The value behind a colon, which may be left out. -/
def readValue? : Nat → Cursor → Option (Node × Cursor)
  | 0, _ => none
  | fuel + 1, c =>
      let start := c.gap.2
      match start.line with
      | ',' :: _ | ']' :: _ | '}' :: _ => some (.plain [], start)
      | _ => readNode? fuel start

/-- The items up to the closing bracket. An item with a colon is a mapping of one entry. -/
def readItems? : Nat → Cursor → Option (List Node × Cursor)
  | 0, _ => none
  | fuel + 1, c =>
      match c.line with
      | ']' :: _ => some ([], next c)
      | _ => do
          let (node, stop) ← readNode? fuel c
          let (item, stop) ← match ← colon? c stop with
            | some value => do
                let (value, stop) ← readValue? fuel value
                some (.mapping [(node, value)], stop)
            | none => some (node, stop)
          let stop := stop.gap.2
          match stop.line with
          | ',' :: _ => do
              let (items, after) ← readItems? fuel (next stop).gap.2
              return (item :: items, after)
          | ']' :: _ => return ([item], next stop)
          | _ => none

/-- The entries up to the closing brace. A key without a colon has no value. -/
def readEntries? : Nat → Cursor → Option (List (Node × Node) × Cursor)
  | 0, _ => none
  | fuel + 1, c =>
      match c.line with
      | '}' :: _ => some ([], next c)
      | _ => do
          let (key, stop) ← readNode? fuel c
          let (value, stop) ← match ← colon? c stop with
            | some value => readValue? fuel value
            | none => some (.plain [], stop)
          let stop := stop.gap.2
          match stop.line with
          | ',' :: _ => do
              let (entries, after) ← readEntries? fuel (next stop).gap.2
              return ((key, value) :: entries, after)
          | '}' :: _ => return ([(key, value)], next stop)
          | _ => none
end

/-- A quoted scalar, a sequence in brackets or a mapping in braces. -/
def readMarked? (c : Cursor) : Option (Node × Cursor) :=
  match c.line with
  | '[' :: _ | '{' :: _ => readNode? c.fuel c
  | _ => (Quoted.read? c).map fun (s, after) => (.quoted s, after)

end LiveValue.Yaml.Flow
