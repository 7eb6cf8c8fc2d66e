import CatalogAccess.Toml.Table
import CatalogAccess.Toml.Token

/-!
# TOML documents

`Toml.parse?` reads a TOML text into a document, by one step for each lexical element. Lists, inline
tables and dotted keys can be nested up to a fixed depth.
-/

namespace CatalogAccess.Toml

/-- How many lists and inline tables, or parts of a key, are too many. -/
def nestingLimit : Nat := 80

/-- A dotted key that is being read. -/
structure Key where
  /-- The parts so far, last first. -/
  parts : List String := []
  /-- Whether a part must follow. -/
  isOpen : Bool := true

namespace Key

/-- The key with one more part. -/
def push (k : Key) (part : String) : Option Key :=
  if k.isOpen then some ⟨part :: k.parts, false⟩ else none

/-- The key with a dot behind it. -/
def dot (k : Key) : Option Key := if k.isOpen then none else some { k with isOpen := true }

/-- The characters of parts without quotes. -/
def isBareChar (c : Char) : Bool := c.isAlphanum || c == '_' || c == '-'

/-- The key with one more part without quotes, if there is something of it. -/
def pushBare (k : Key) (part : List Char) : Option Key :=
  if part.isEmpty then some k
  else if part.all isBareChar then k.push (String.ofList part) else none

/-- The key with the parts of a word, between which there are dots. -/
def pushParts (k : Key) : List (List Char) → Option Key
  | [] => some k
  | [part] => k.pushBare part
  | part :: parts => ((k.pushBare part).bind dot).bind fun k => k.pushParts parts

/-- The key with one more lexical element. -/
def read (k : Key) : Token → Option Key
  | .word w => k.pushParts (split '.' w)
  | .str s => k.push s
  | _ => none

/-- The parts of a complete key. -/
def path? (k : Key) : Option (List String) :=
  if k.isOpen || nestingLimit ≤ k.parts.length then none else some k.parts.reverse

end Key

/-- A list or inline table that has been opened and not yet closed. -/
inductive Frame where
  /-- A list with its items so far, last first. -/
  | items (done : List Document)
  /-- An inline table with its members so far, and the key of the value being read. -/
  | members (done : Members) (key : List String)

/-- What may follow at a point of a text. -/
inductive Expected where
  /-- A line: a header, a key with its value, or nothing. -/
  | line
  /-- The second bracket of the header of a list of tables. -/
  | secondBracket
  /-- More of a header, or its end; `item` for a list of tables. -/
  | header (item : Bool) (key : Key)
  /-- The last bracket of the header of a list of tables. -/
  | lastBracket (path : List String)
  /-- More of a key, or the sign behind it. -/
  | key (key : Key)
  /-- A key or the end of an inline table. -/
  | firstKey
  /-- A value, or the end of a list. -/
  | value
  /-- A comma or the end of the innermost list or inline table. -/
  | separator
  /-- The end of the line. -/
  | lineEnd

/-- A point of a text. -/
structure Reading where
  /-- What has been read. -/
  root : Members := []
  /-- The path of the last header. -/
  path : List String := []
  /-- The key of the value being read, on its line. -/
  key : List String := []
  /-- The open lists and inline tables, innermost first. -/
  frames : List Frame := []
  /-- What may follow. -/
  expected : Expected := .line

namespace Reading

/-- The point behind a value. -/
def complete (r : Reading) (d : Document) : Option Reading :=
  match r.frames with
  | [] =>
    (r.root.within (Members.assign d r.key) r.path).map fun root =>
      { r with root, expected := .lineEnd }
  | .items done :: rest =>
    some { r with frames := .items (d :: done) :: rest, expected := .separator }
  | .members done key :: rest =>
    (done.assign d key).map fun done =>
      { r with frames := .members done [] :: rest, expected := .separator }

/-- The point behind the start of a list or inline table. -/
def push (r : Reading) (f : Frame) (expected : Expected) : Option Reading :=
  if r.frames.length + 1 < nestingLimit then some { r with frames := f :: r.frames, expected }
  else none

/-- The point behind the end of the innermost list or inline table. -/
def close (r : Reading) : Token → Option Reading
  | .closeBracket _ =>
    match r.frames with
    | .items done :: rest => { r with frames := rest }.complete (.arr done.reverse)
    | _ => none
  | .closeBrace =>
    match r.frames with
    | .members done _ :: rest => { r with frames := rest }.complete (.obj (memberDocuments done))
    | _ => none
  | _ => none

/-- Whether the innermost open thing is a list, in which lines may end. -/
def isInList (r : Reading) : Bool :=
  match r.frames with
  | .items _ :: _ => true
  | _ => false

/-- The point behind a value or what starts one; a list may also end. -/
def readValue (r : Reading) : Token → Option Reading
  | .word w => (scalar? w).bind r.complete
  | .str s | .text s => r.complete (.str s)
  | .openBracket _ => r.push (.items []) .value
  | .openBrace => r.push (.members [] []) .firstKey
  | .newline => if r.isInList then some r else none
  | t => if r.isInList then r.close t else none

/-- The point behind more of a key, or the sign behind it. -/
def readKey (r : Reading) (k : Key) : Token → Option Reading
  | .equals =>
    k.path?.map fun path =>
      match r.frames with
      | .members done _ :: rest =>
        { r with frames := .members done path :: rest, expected := .value }
      | _ => { r with key := path, expected := .value }
  | t => (k.read t).map fun k => { r with expected := .key k }

/-- The point behind a header. -/
def enter (r : Reading) (path : List String) (openLast : String → Members → Option Members) :
    Option Reading :=
  path.getLast?.bind fun last =>
    (r.root.within (openLast last) path.dropLast).map fun root =>
      { r with root, path, expected := .lineEnd }

/-- The point behind one more lexical element. -/
def step (r : Reading) (t : Token) : Option Reading :=
  match r.expected, t with
  | .line, .newline => some r
  | .line, .openBracket true => some { r with expected := .secondBracket }
  | .line, .openBracket false => some { r with expected := .header false {} }
  | .line, t => r.readKey {} t
  | .secondBracket, .openBracket _ => some { r with expected := .header true {} }
  | .secondBracket, _ => none
  | .header false k, .closeBracket _ => k.path?.bind fun path => r.enter path Members.openTable
  | .header true k, .closeBracket double =>
    if double then k.path?.map fun path => { r with expected := .lastBracket path } else none
  | .header item k, t => (k.read t).map fun k => { r with expected := .header item k }
  | .lastBracket path, .closeBracket _ => r.enter path Members.openItem
  | .lastBracket _, _ => none
  | .key k, t => r.readKey k t
  | .firstKey, t => (r.close t).or (r.readKey {} t)
  | .value, t => r.readValue t
  | .separator, .comma => some { r with expected := if r.isInList then .value else .key {} }
  | .separator, .newline => if r.isInList then some r else none
  | .separator, t => r.close t
  | .lineEnd, .newline => some { r with expected := .line }
  | .lineEnd, _ => none

/-- The document, when the last line is complete. -/
def result? (r : Reading) : Option Document :=
  match r.expected with
  | .line => some (.obj (memberDocuments r.root))
  | _ => none

end Reading

/-- Reads a TOML text. -/
def parse? (text : String) : Option Document := do
  let ts ← tokens? text
  let r ← (ts ++ [Token.newline]).foldlM Reading.step {}
  r.result?

end CatalogAccess.Toml
