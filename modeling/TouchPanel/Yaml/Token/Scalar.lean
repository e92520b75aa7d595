import TouchPanel.Yaml.Source
import TouchPanel.Yaml.Token.Basic
import TouchPanel.Json.Token

/-!
# Scalars

The text of a scalar in each of its styles, and what follows it. In a plain or
quoted scalar that goes over several lines, a single line break is read as a space.
-/

namespace TouchPanel.Yaml

/-- What stands between two characters of a scalar that are no white space. -/
inductive Gap where
  /-- Spaces and tabs within a line. -/
  | spaces (s : Text)
  /-- A line break, unless that is escaped, and the breaks after it. -/
  | breaks (first : Option Char) (more : Text)

namespace Gap

def none : Gap := spaces []

def isNone : Gap → Bool
  | spaces s => s.isEmpty
  | breaks .. => false

def isBroken : Gap → Bool
  | spaces _ => false
  | breaks .. => true

def addSpace (c : Char) : Gap → Gap
  | spaces s => spaces (s ++ [c])
  | breaks first more => breaks first more

def addBreak (c : Char) : Gap → Gap
  | spaces _ => breaks c []
  | breaks first more => breaks first (more ++ [c])

/-- A newline alone becomes a space; before further breaks it is left out. -/
def text : Gap → Text
  | spaces s => s
  | breaks (some '\n') more => if more.isEmpty then [' '] else more
  | breaks first more => first.toList ++ more

end Gap

/-! ## Plain scalars -/

def isFlowIndicator (c : Char) : Bool := ",[]\x7b\x7d".toList.contains c

/-- Whether a plain scalar cannot go on here. -/
def endsPlain (inFlow : Bool) (indent : Nat) (gap : Gap) (g : Glyph) (r : Source) : Bool :=
  (gap.isBroken && !inFlow && g.column < indent) ||
    (!gap.isNone && (g.char == '#' || Source.atDocumentIndicator (g :: r))) ||
    (g.char == ':' && Source.atSeparator r) || (inFlow && isFlowIndicator g.char)

/-- A plain scalar whose lines have at least the given indentation, and whether line
breaks follow it. -/
def plain? (inFlow : Bool) (indent : Nat) : Gap → Source → Option (Text × Bool × Source)
  | gap, [] => some ([], gap.isBroken, [])
  | gap, g :: r =>
    if isSpace g.char then
      if gap.isBroken && g.column < indent && g.char = '\t' then none
      else plain? inFlow indent (gap.addSpace g.char) r
    else if isBreak g.char then plain? inFlow indent (gap.addBreak g.char) r
    else if endsPlain inFlow indent gap g r then some ([], gap.isBroken, g :: r)
    else if inFlow && g.char = ':' &&
        Source.next (fun c => c == '?' || isFlowIndicator c) r then none
    else (plain? inFlow indent .none r).map fun (t, broken, rest) =>
      (gap.text ++ g.char :: t, broken, rest)

/-! ## Quoted scalars -/

/-- The character that a backslash and a letter stand for. -/
def letterEscape? (c : Char) : Option Char :=
  match c with
  | '0' => some '\x00'
  | 'a' => some '\x07'
  | 'b' => some '\x08'
  | 't' | '\t' => some '\t'
  | 'n' => some '\n'
  | 'v' => some '\x0b'
  | 'f' => some '\x0c'
  | 'r' => some '\r'
  | 'e' => some '\x1b'
  | ' ' | '"' | '/' | '\\' => some c
  | 'N' => some '\u0085'
  | '_' => some '\u00a0'
  | 'L' => some '\u2028'
  | 'P' => some '\u2029'
  | _ => none

/-- How many hexadecimal digits follow a letter. -/
def hexEscape? (c : Char) : Option Nat :=
  match c with
  | 'x' => some 2
  | 'u' => some 4
  | 'U' => some 8
  | _ => none

def hexValue? (digits : Text) : Option Nat :=
  digits.foldlM (fun n c => (Json.Token.hexValue? c).map (16 * n + ·)) 0

/-- The character of an escape, of which the backslash has been taken off, and the
length of the rest. -/
def escape? : Source → Option (Char × Nat)
  | [] => none
  | g :: r =>
    match hexEscape? g.char with
    | some k =>
      if r.length < k then none
      else match hexValue? ((r.take k).map (·.char)) with
        | some n => if h : n.isValidChar then some (Char.ofNatAux n h, k + 1) else none
        | none => none
    | none => (letterEscape? g.char).map (·, 1)

/-- A quoted scalar up to its closing quote. The first `skip` characters belong to an
escape that has been read. -/
def quoted? (quote : Char) : Nat → Gap → Source → Option (Text × Source)
  | _, _, [] => none
  | skip + 1, gap, _ :: r => quoted? quote skip gap r
  | 0, gap, g :: r =>
    if isSpace g.char then quoted? quote 0 (gap.addSpace g.char) r
    else if isBreak g.char then quoted? quote 0 (gap.addBreak g.char) r
    else if Source.atDocumentIndicator (g :: r) then none
    else if g.char = quote then
      if quote = '\'' && Source.next (· == quote) r then
        (quoted? quote 1 .none r).map fun (t, rest) => (gap.text ++ quote :: t, rest)
      else some (gap.text, r)
    else if quote = '"' && g.char = '\\' then
      if Source.next isBreak r then
        (quoted? quote 1 (.breaks none []) r).map fun (t, rest) => (gap.text ++ t, rest)
      else match escape? r with
        | some (c, k) => (quoted? quote k .none r).map fun (t, rest) => (gap.text ++ c :: t, rest)
        | none => none
    else (quoted? quote 0 .none r).map fun (t, rest) => (gap.text ++ g.char :: t, rest)

/-! ## Block scalars -/

/-- What becomes of the line breaks at the end of a block scalar. -/
inductive Chomping where
  | strip
  | clip
  | keep

/-- The header of a block scalar: the chomping and the indentation, if it is given. -/
structure BlockHeader where
  chomping : Chomping
  indentation : Option Nat

def chomping? (c : Char) : Option Chomping :=
  if c = '-' then some .strip else if c = '+' then some .keep else none

/-- An indentation is given as one digit other than zero. -/
def indentation? (c : Char) : Option Nat :=
  if c.isDigit && c != '0' then some (c.toNat - 48) else none

/-- The header without its first character, up to the end of the line. -/
def blockHeader? (s : Source) : Option (BlockHeader × Source) :=
  let takeChomping : Source → Option Chomping × Source
    | [] => (none, [])
    | g :: r => match chomping? g.char with
      | some c => (some c, r)
      | none => (none, g :: r)
  let takeIndentation : Source → Option Nat × Source
    | [] => (none, [])
    | g :: r => match indentation? g.char with
      | some n => (some n, r)
      | none => (none, g :: r)
  let (chomping, s) := takeChomping s
  let (indentation, s) := takeIndentation s
  let (chomping, s) := match chomping with
    | some c => (some c, s)
    | none => takeChomping s
  (Source.nextLine? s).map fun rest => (⟨chomping.getD .clip, indentation⟩, rest)

/-- What has been read of a block scalar. -/
structure BlockText where
  /-- The text of the lines, from the last character to the first. -/
  reversed : Text := []
  /-- The break after the last line that is not empty. -/
  lineEnd : Text := []
  /-- The breaks of the empty lines after that. -/
  empty : Text := []
  /-- Whether the last line that is not empty begins with a space or a tab. -/
  spaced : Bool := false
  /-- The indentation, once it is known. -/
  indentation : Option Nat
  /-- The largest column at which a line has ended or begun. -/
  deepest : Nat := 0

namespace BlockText

/-- The breaks between two lines. In a folded scalar a newline between two lines
that begin with no space becomes a space, or is left out before empty lines. -/
def between (b : BlockText) (folded spaced : Bool) : Text :=
  if folded && b.lineEnd = ['\n'] && !b.spaced && !spaced then
    if b.empty.isEmpty then [' '] else b.empty
  else b.lineEnd ++ b.empty

/-- Begins a line with the character `c`. -/
def beginLine (b : BlockText) (folded : Bool) (c : Char) : BlockText :=
  { b with
    reversed := c :: ((b.between folded (isSpace c)).reverse ++ b.reversed)
    lineEnd := []
    empty := []
    spaced := isSpace c }

def text (b : BlockText) : Chomping → Text
  | .strip => b.reversed.reverse
  | .clip => b.reversed.reverse ++ b.lineEnd
  | .keep => b.reversed.reverse ++ b.lineEnd ++ b.empty

end BlockText

/-- The lines of a block scalar. An indentation that is not given is that of the
first line that is not empty, but at least `least` and not below that of an empty
line before it. -/
def blockLines? (folded : Bool) (least : Nat) :
    (inLine : Bool) → BlockText → Source → Option (BlockText × Source)
  | _, b, [] => some (b, [])
  | true, b, g :: r =>
    if isBreak g.char then blockLines? folded least false { b with lineEnd := [g.char] } r
    else blockLines? folded least true { b with reversed := g.char :: b.reversed } r
  | false, b, g :: r =>
    let indented := b.indentation.any (· ≤ g.column)
    if !indented && g.char = ' ' then blockLines? folded least false b r
    else if !indented && g.char = '\t' then none
    else
      let deepest := max b.deepest g.column
      if isBreak g.char then
        blockLines? folded least false { b with empty := b.empty ++ [g.char], deepest } r
      else
        let indentation := b.indentation.getD (max deepest least)
        let b := { b with indentation := some indentation }
        if g.column = indentation then
          blockLines? folded least true (b.beginLine folded g.char) r
        else some (b, g :: r)

/-- A block scalar without its first character. The indentation of the block around
it is below `outer`. -/
def block? (folded : Bool) (outer : Nat) (s : Source) : Option (Text × Source) := do
  let (header, s) ← blockHeader? s
  let indentation := header.indentation.map (outer - 1 + ·)
  let (b, rest) ← blockLines? folded (max outer 1) false { indentation } s
  return (b.text header.chomping, rest)

end TouchPanel.Yaml
