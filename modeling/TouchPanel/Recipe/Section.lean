import TouchPanel.Output.Rows
import TouchPanel.Recipe.Marker

/-!
# Top-level sections

A section is a line with a key at the margin and the lines up to the next such
line. The lines in front of the first key form a section without a key. Sections
are moved and extended as lists of lines.
-/

namespace TouchPanel.Recipe

def isKeyStart (c : Char) : Bool := c.isAlpha || c == '_'

def isKeyChar (c : Char) : Bool := c.isAlphanum || c == '_' || c == '.' || c == '-'

/-- The key of a line that opens a section: a name at the margin and a colon that a
blank or the end of the line follows. -/
def topLevelKey? (line : Text) : Option Text :=
  if line.head?.any isKeyStart then
    match Text.trimStart (line.dropWhile isKeyChar) with
    | ':' :: r => if r.head?.all Text.isBlank then some (line.takeWhile isKeyChar) else none
    | _ => none
  else none

structure Section where
  key : Option Text
  lines : List Text
  deriving DecidableEq

namespace Section

/-- Puts a line in front of the sections that follow it. -/
def attach (line : Text) (rest : List Section) : List Section :=
  match topLevelKey? line with
  | some key =>
    match rest with
    | ⟨none, more⟩ :: r => ⟨some key, line :: more⟩ :: r
    | r => ⟨some key, [line]⟩ :: r
  | none =>
    match rest with
    | ⟨none, more⟩ :: r => ⟨none, line :: more⟩ :: r
    | r => ⟨none, [line]⟩ :: r

def ofLines (lines : List Text) : List Section := lines.foldr attach []

/-- The sections of a text. Only the first can be without a key. -/
def split (t : Text) : List Section := ofLines (Text.lines t)

/-- The section without blank lines at its end. -/
def text (s : Section) : Text :=
  Text.joinLines ((s.lines.reverse.dropWhile Text.allBlank).reverse)

/-- What stands on the line of the key after its colon, without a comment. -/
def inlineValue (s : Section) : Text :=
  match s.lines with
  | [] => []
  | first :: _ =>
    match Text.splitAt? ':' first with
    | none => []
    | some (_, rest) => Text.trim ((Text.cut [' ', '#'] rest).headD [])

/-- The first line of content after the line of the key. -/
def firstChild? (s : Section) : Option Text := (s.lines.drop 1).find? isContent

/-- Indentation of the first line of content, or 2 for an empty section. -/
def childIndent (s : Section) : Nat := (s.firstChild?.map indentOf).getD 2

def isListItem (line : Text) : Bool :=
  Text.startsWith ['-', ' '] (Text.trimStart line) || Text.trim line == ['-']

/-- The lines up to the last one that is neither blank nor a comment at the margin,
and the lines after it. The line of the key always belongs to the first part. -/
def splitTail (lines : List Text) : List Text × List Text :=
  let isTail (line : Text) := Text.allBlank line || line.head? == some '#'
  let count := (lines.reverse.dropWhile isTail).length
  lines.splitAt (if count = 0 then 1 else count)

/-- Adds entries at the end of the section's block list. A section that holds a
mapping or a value on the line of its key cannot take them. -/
def append? (s : Section) (entries : List Node) : Option Section := do
  let inline := s.inlineValue
  if !inline.isEmpty && inline != ['[', ']'] then none
  let indent ← match s.firstChild? with
    | some line => if isListItem line then some (indentOf line) else none
    | none => some 2
  let lines := match s.key, s.lines with
    | some key, first :: r => (if inline.isEmpty then first else key ++ [':']) :: r
    | _, lines => lines
  let (body, tail) := splitTail lines
  return { s with lines := body ++ Text.lines (Node.renderList entries indent) ++ tail }

end Section

/-- Whether a text has a section with the key. -/
def hasSection (t key : Text) : Bool := (Text.lines t).any (topLevelKey? · == some key)

end TouchPanel.Recipe
