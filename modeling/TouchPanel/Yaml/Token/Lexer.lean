import TouchPanel.Yaml.Token.Property
import TouchPanel.Yaml.Token.Scalar

/-!
# Reading tokens

Only the colon shows that what stands before it is the key of a mapping, so the
place where a key may have begun is kept for each flow collection that is open. In
block context the columns of the open block collections are kept as well.
-/

namespace TouchPanel.Yaml

/-- A place where a key may have begun. -/
structure KeyPlace where
  /-- How many tokens stand before it. -/
  position : Nat
  line : Nat
  column : Nat
  offset : Nat
  /-- Whether there is no document unless a key begins here. -/
  required : Bool

structure Lexer where
  rest : Source
  tokens : Array Token := #[]
  /-- Whether a key may begin next. -/
  keyAllowed : Bool := true
  /-- The columns of the open block collections, the innermost first. -/
  columns : List Nat := []
  /-- Where a key may have begun in the innermost flow collection. -/
  key : Option KeyPlace := none
  /-- The same for the collections around that and for the document. -/
  outerKeys : List (Option KeyPlace) := []

namespace Lexer

def inFlow (s : Lexer) : Bool := !s.outerKeys.isEmpty

/-- One more than the column of the innermost block collection. -/
def indentation (s : Lexer) : Nat := s.columns.head?.elim 0 (· + 1)

def emit (t : Token) (s : Lexer) : Lexer := { s with tokens := s.tokens.push t }

def insertAt (position : Nat) (t : Token) (s : Lexer) : Lexer :=
  { s with tokens := s.tokens.insertIdxIfInBounds position t }

/-- Continues after a token. -/
def advance (keyAllowed : Bool) (rest : Source) (s : Lexer) : Lexer :=
  { s with keyAllowed, rest }

/-! ## Keys -/

def isRequired (key : Option KeyPlace) : Bool := key.any (·.required)

/-- Gives up that a key has begun. -/
def dropKey? (s : Lexer) : Option Lexer :=
  if isRequired s.key then none else some { s with key := none }

/-- A key stands on one line and has at most 1024 octets. -/
def isStale (g : Glyph) (key : KeyPlace) : Bool :=
  key.line < g.line || key.offset + 1024 < g.offset

def dropStaleKeys? (g : Glyph) (s : Lexer) : Option Lexer :=
  if (s.key :: s.outerKeys).any fun key => isRequired (key.filter (isStale g)) then none
  else
    let keep (key : Option KeyPlace) := key.filter (!isStale g ·)
    some { s with key := keep s.key, outerKeys := s.outerKeys.map keep }

/-- Keeps the place `g` if a key may begin there. -/
def noteKey? (g : Glyph) (s : Lexer) : Option Lexer :=
  if s.keyAllowed then
    (s.dropKey?).map fun s => { s with
      key := some {
        position := s.tokens.size
        line := g.line
        column := g.column
        offset := g.offset
        required := !s.inFlow && s.columns.head? == some g.column } }
  else some s

/-! ## Indentation -/

/-- Closes the block collections whose columns satisfy `p`. -/
def closeBlocks (p : Nat → Bool) (s : Lexer) : Lexer :=
  if s.inFlow then s
  else
    let closed := s.columns.takeWhile p
    { s with
      columns := s.columns.drop closed.length
      tokens := s.tokens ++ closed.map fun _ => Token.blockEnd }

/-- Opens a block collection at a column to the right of the innermost one. -/
def openBlock (column position : Nat) (t : Token) (s : Lexer) : Lexer :=
  if s.inFlow || column < s.indentation then s
  else { s.insertAt position t with columns := column :: s.columns }

/-! ## Tokens -/

/-- Skips white space and comments, and says whether a key may begin then. A byte
order mark at the beginning of a line is skipped, too, but takes up a column. -/
def skip (inFlow : Bool) : (inComment keyAllowed : Bool) → Source → Bool × Source
  | _, allowed, [] => (allowed, [])
  | inComment, allowed, g :: r =>
    if isBreak g.char then skip inFlow false (allowed || !inFlow) r
    else if inComment then skip inFlow true allowed r
    else if g.char = ' ' || (g.char = '\t' && (inFlow || !allowed)) ||
        (g.char = byteOrderMark && g.column = 0) then
      skip inFlow false allowed r
    else if g.char = '#' then skip inFlow true allowed r
    else (allowed, g :: r)

/-- Opens a block collection at an indicator, which may only stand where a key may
begin. -/
def openAt? (g : Glyph) (t : Token) (s : Lexer) : Option Lexer :=
  if s.inFlow then some s
  else if s.keyAllowed then some (s.openBlock g.column s.tokens.size t)
  else none

def directive? (r : Source) (s : Lexer) : Option Lexer := do
  let s ← (s.closeBlocks fun _ => true).dropKey?
  let (token, rest) ← Yaml.directive? r
  return (s.emit token).advance false rest

def documentIndicator? (t : Token) (r : Source) (s : Lexer) : Option Lexer := do
  let s ← (s.closeBlocks fun _ => true).dropKey?
  return (s.emit t).advance false (r.drop 2)

def flowStart? (t : Token) (g : Glyph) (r : Source) (s : Lexer) : Option Lexer := do
  let s ← s.noteKey? g
  let s := s.emit t
  return { s with key := none, outerKeys := s.key :: s.outerKeys }.advance true r

def flowEnd? (t : Token) (r : Source) (s : Lexer) : Option Lexer := do
  let s ← s.dropKey?
  let s := match s.outerKeys with
    | [] => s
    | key :: outer => { s with key := key, outerKeys := outer }
  return (s.emit t).advance false r

def flowEntry? (r : Source) (s : Lexer) : Option Lexer := do
  return ((← s.dropKey?).emit .flowEntry).advance true r

def blockEntry? (g : Glyph) (r : Source) (s : Lexer) : Option Lexer := do
  let s ← (← s.openAt? g .blockSequenceStart).dropKey?
  return (s.emit .blockEntry).advance true r

def keyIndicator? (g : Glyph) (r : Source) (s : Lexer) : Option Lexer := do
  let s ← (← s.openAt? g .blockMappingStart).dropKey?
  return (s.emit .key).advance (!s.inFlow) r

/-- A colon ends the key that has begun; without one it stands for itself. -/
def value? (g : Glyph) (r : Source) (s : Lexer) : Option Lexer :=
  match s.key with
  | some key =>
    let s := (s.insertAt key.position .key).openBlock key.column key.position .blockMappingStart
    some (({ s with key := none }.emit .value).advance false r)
  | none => do
    let s ← s.openAt? g .blockMappingStart
    return (s.emit .value).advance (!s.inFlow) r

/-- A token that may begin a key. -/
def keyed? (g : Glyph) (read : Option (Token × Source)) (s : Lexer) : Option Lexer := do
  let s ← s.noteKey? g
  let (token, rest) ← read
  return (s.emit token).advance false rest

def block? (folded : Bool) (r : Source) (s : Lexer) : Option Lexer := do
  let s ← s.dropKey?
  let (text, rest) ← Yaml.block? folded s.indentation r
  return (s.emit (.scalar (if folded then .folded else .literal) text)).advance true rest

def plain? (g : Glyph) (r : Source) (s : Lexer) : Option Lexer := do
  let s ← s.noteKey? g
  let (text, broken, rest) ← Yaml.plain? s.inFlow s.indentation .none (g :: r)
  return (s.emit (.scalar .plain text)).advance broken rest

/-- Whether a plain scalar may begin with `c` where nothing else begins with it. A tab
is no indentation. -/
def beginsPlain (c : Char) : Bool := !"\t,[]\x7b\x7d#&*!|>'\"%@\x60".toList.contains c

/-- Reads one token at the character `g`. -/
def token? (g : Glyph) (r : Source) (s : Lexer) : Option Lexer :=
  let c := g.char
  let alone := Source.atSeparator r
  if c = '%' && g.column = 0 then s.directive? r
  else if Source.indicates '-' (g :: r) then s.documentIndicator? .documentStart r
  else if Source.indicates '.' (g :: r) then s.documentIndicator? .documentEnd r
  else if c = '[' then s.flowStart? .flowSequenceStart g r
  else if c = '\x7b' then s.flowStart? .flowMappingStart g r
  else if c = ']' then s.flowEnd? .flowSequenceEnd r
  else if c = '\x7d' then s.flowEnd? .flowMappingEnd r
  else if c = ',' then s.flowEntry? r
  else if c = '-' && alone then s.blockEntry? g r
  else if c = '?' && (s.inFlow || alone) then s.keyIndicator? g r
  else if c = ':' && (s.inFlow || alone) then s.value? g r
  else if c = '*' then s.keyed? g ((name? r).map fun (n, rest) => (.alias n, rest))
  else if c = '&' then s.keyed? g ((name? r).map fun (n, rest) => (.anchor n, rest))
  else if c = '!' then s.keyed? g (tag? s.inFlow r)
  else if c = '|' && !s.inFlow then s.block? false r
  else if c = '>' && !s.inFlow then s.block? true r
  else if c = '\'' then
    s.keyed? g ((quoted? '\'' 0 .none r).map fun (t, rest) => (.scalar .singleQuoted t, rest))
  else if c = '"' then
    s.keyed? g ((quoted? '"' 0 .none r).map fun (t, rest) => (.scalar .doubleQuoted t, rest))
  else if beginsPlain c then s.plain? g r
  else none

/-- Reads at most `fuel` tokens up to the end of the document. -/
def run? : (fuel : Nat) → Lexer → Option (Array Token)
  | 0, _ => none
  | fuel + 1, s =>
    let (allowed, rest) := skip s.inFlow false s.keyAllowed s.rest
    match rest with
    | [] => ((s.closeBlocks fun _ => true).dropKey?).map (·.tokens)
    | g :: r => do
      let s ← { s with keyAllowed := allowed }.dropStaleKeys? g
      run? fuel (← (s.closeBlocks (g.column < ·)).token? g r)

end Lexer

/-- The tokens of a text. -/
def tokens? (t : Text) : Option (List Token) := do
  let source ← Source.ofText? t
  return (← Lexer.run? (source.length + 1) { rest := source }).toList

end TouchPanel.Yaml
