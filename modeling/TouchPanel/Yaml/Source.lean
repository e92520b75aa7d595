import TouchPanel.Text.Blank

/-!
# YAML source

The characters of a document, each with its line and its column. A carriage return,
a carriage return with a newline and U+0085 are read as one newline.
-/

namespace TouchPanel.Yaml

/-- A character that may stand in a document. -/
def isAllowed (c : Char) : Bool :=
  let n := c.toNat
  n == 0x09 || n == 0x0A || n == 0x0D || (0x20 ≤ n && n ≤ 0x7E) || n == 0x85 ||
    (0xA0 ≤ n && n ≤ 0xD7FF) || (0xE000 ≤ n && n ≤ 0xFFFD) || 0x10000 ≤ n

/-- A newline, a line separator or a paragraph separator. -/
def isBreak (c : Char) : Bool := c = '\n' || c = '\u2028' || c = '\u2029'

/-- A space or a tab. -/
def isSpace (c : Char) : Bool := c = ' ' || c = '\t'

/-- A character of the name of an anchor or a directive. -/
def isWordChar (c : Char) : Bool := c.isAlphanum || c = '_' || c = '-'

def byteOrderMark : Char := '\uFEFF'

/-- A character at its place. -/
structure Glyph where
  char : Char
  line : Nat
  column : Nat
  /-- How many octets its line has before it. -/
  offset : Nat

abbrev Source := List Glyph

namespace Source

/-- The characters of a text that begins at the given place. -/
def place (line column offset : Nat) : Text → Source
  | [] => []
  | '\r' :: '\n' :: r => ⟨'\n', line, column, offset⟩ :: place (line + 1) 0 0 r
  | c :: r =>
    if c = '\n' ∨ c = '\r' ∨ c = '\x85' then
      ⟨'\n', line, column, offset⟩ :: place (line + 1) 0 0 r
    else if isBreak c then ⟨c, line, column, offset⟩ :: place (line + 1) 0 0 r
    else ⟨c, line, column, offset⟩ :: place line (column + 1) (offset + c.utf8Size) r

/-- The source of a text in which all characters may stand. -/
def ofText? (t : Text) : Option Source :=
  if t.all isAllowed then some (place 0 0 0 t) else none

/-- Whether a line break or the end comes next. -/
def atLineEnd : Source → Bool
  | [] => true
  | g :: _ => isBreak g.char

/-- Whether a space, a tab, a line break or the end comes next. -/
def atSeparator : Source → Bool
  | [] => true
  | g :: _ => isSpace g.char || isBreak g.char

/-- Whether a character that satisfies `p` comes next. -/
def next (p : Char → Bool) : Source → Bool
  | [] => false
  | g :: _ => p g.char

/-- Whether three times `c` stand alone at the beginning of a line. -/
def indicates (c : Char) : Source → Bool
  | g₁ :: g₂ :: g₃ :: r =>
    g₁.column == 0 && g₁.char == c && g₂.char == c && g₃.char == c && atSeparator r
  | _ => false

/-- Whether the line is the beginning or the end of a document. -/
def atDocumentIndicator (s : Source) : Bool := indicates '-' s || indicates '.' s

def skipSpaces (s : Source) : Source := s.dropWhile (isSpace ·.char)

/-- The characters up to the first that does not satisfy `p`, and the rest. -/
def readWhile (p : Char → Bool) (s : Source) : Text × Source :=
  ((s.takeWhile (p ·.char)).map (·.char), s.dropWhile (p ·.char))

/-- What follows a line of which only spaces and a comment may be left. -/
def nextLine? (s : Source) : Option Source :=
  let s := skipSpaces s
  let s := if next (· == '#') s then s.dropWhile (!isBreak ·.char) else s
  match s with
  | [] => some []
  | g :: r => if isBreak g.char then some r else none

end Source

end TouchPanel.Yaml
