import LiveValue.Text.Pieces
import LiveValue.Yaml.Block

/-!
# Documents

The subset of YAML that configuration files are written in: one document, which may stand between
the marks `---` and `...`. `Yaml.read` gives the value of a text, which is `null` if there is
nothing in it.
-/

namespace LiveValue.Yaml

namespace Document

/-! ## Lines -/

def isAllowed (c : Char) : Bool :=
  let n := c.toNat
  n == 0x09 || n == 0x0A || n == 0x85 || (0x20 ≤ n && n ≤ 0x7E) ||
    (0xA0 ≤ n && n ≤ 0xFFFD) || 0x10000 ≤ n

/-- A text in which every line ends with the same character. -/
def withLineFeeds : List Char → List Char
  | '\r' :: '\n' :: rest => '\n' :: withLineFeeds rest
  | '\r' :: rest => '\n' :: withLineFeeds rest
  | c :: rest => c :: withLineFeeds rest
  | [] => []

def isBreak (c : Char) : Bool := c == '\n' || c == '\u0085' || c == '\u2028' || c == '\u2029'

/-- A text without the mark of its byte order. -/
def withoutByteOrder : List Char → List Char
  | '\ufeff' :: rest => rest
  | s => s

/-! ## Marks -/

/-- Whether a line starts with a mark. -/
def startsWith (mark : String) (line : List Char) : Bool :=
  line.take 3 == mark.toList && startsBlank (line.drop 3)

def startMark : String := "---"

def endMark : String := "..."

def isMark (line : List Char) : Bool := startsWith startMark line || startsWith endMark line

/-- Whether lines hold nothing but comments and marks of an end. -/
def areOver (lines : List (List Char)) : Bool :=
  lines.all fun line => isOver line || (startsWith endMark line && isOver (line.drop 3))

/-! ## Nodes -/

/-- The node of a document without a mark at its start. -/
def readBare? (lines : List (List Char)) : Option Node :=
  let start := Cursor.ofLines lines
  if start.isEnd then some (.plain [])
  else do
    let (node, after) ← Block.readNode? start.fuel 0 start
    guard after.isEnd
    return node

/-- The node of a document, given what follows the mark at its start. -/
def readMarked? (start : Cursor) : Option Node := do
  let (node, after) ← Block.readValue? start.fuel 0 start
  guard after.isEnd
  return node

/-- The node of the only document in some lines. -/
def read? (lines : List (List Char)) : Option Node :=
  let (front, rest) := lines.span fun line => !isMark line
  match rest with
  | [] => readBare? front
  | mark :: below =>
      if !front.all isOver then do
        guard (areOver rest)
        readBare? front
      else do
        guard (startsWith startMark mark)
        let (body, after) := below.span fun line => !isMark line
        guard (areOver after)
        readMarked? ⟨mark.length, mark.drop 3, body⟩

end Document

def read (text : String) : Except Failure Value :=
  let s := Document.withLineFeeds text.toList
  if s.all Document.isAllowed then
    let lines := (Text.Pieces.split Document.isBreak (Document.withoutByteOrder s)).toList
    match Document.read? lines with
    | some node => node.value
    | none => .error .malformed
  else .error .malformed

end LiveValue.Yaml
