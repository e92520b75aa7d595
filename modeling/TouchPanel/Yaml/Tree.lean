import TouchPanel.Yaml.Token.Lexer

/-!
# YAML trees

The single document of a text as it was written, with its anchors and aliases. An
anchor is known by a number: how many names stood before it, not counting a name
twice. Of several anchors with one number the last in the document is meant.
-/

namespace TouchPanel.Yaml

structure Properties where
  anchor : Option Nat := none
  tag : Option Octets := none

inductive Tree where
  | alias (number : Nat)
  | scalar (p : Properties) (style : Style) (text : Text)
  | sequence (p : Properties) (items : List Tree)
  | mapping (p : Properties) (pairs : List (Tree × Tree))
  deriving Inhabited

namespace Tree

/-- What is read where nothing stands. -/
def empty : Tree := .scalar {} .plain []

/-- The tokens that are still to be read, and the anchors so far. -/
structure State where
  tokens : List Token
  names : List (Text × Nat) := []

abbrev Reader := StateT State Option

def peek : Reader (Option Token) := return (← get).tokens.head?

def advance : Reader Unit := modify fun s => { s with tokens := s.tokens.tail }

/-- Whether one of the given tokens comes next. -/
def sees (ts : List Token) : Reader Bool := return (← peek).any (ts.contains ·)

/-- Numbers an anchor. -/
def define (name : Text) : Reader Nat := do
  let s ← get
  let n := s.names.length
  set { s with names := (name, n) :: s.names.filter (·.1 ≠ name) }
  return n

def number (name : Text) : Reader Nat := do
  match (← get).names.lookup name with
  | some n => return n
  | none => failure

/-! ## Properties -/

/-- The prefixes for which the handles of tags stand. -/
abbrev Handles := List (Text × Octets)

/-- The handles that need no directive. -/
def commonHandles : Handles :=
  [(['!'], octetsOf ['!']), (['!', '!'], octetsOf "tag:yaml.org,2002:".toList)]

def resolveTag (handles : Handles) (handle : Text) (suffix : Octets) : Reader Octets :=
  if handle.isEmpty then return suffix
  else match handles.lookup handle with
    | some octets => return octets ++ suffix
    | none => failure

def anchor? : Reader (Option Nat) := do
  match ← peek with
  | some (.anchor name) => advance; return some (← define name)
  | _ => return none

def tag? (handles : Handles) : Reader (Option Octets) := do
  match ← peek with
  | some (.tag handle suffix) => advance; return some (← resolveTag handles handle suffix)
  | _ => return none

/-- An anchor and a tag in any order. -/
def properties (handles : Handles) : Reader Properties := do
  match ← anchor? with
  | some n => return ⟨some n, ← tag? handles⟩
  | none =>
    match ← tag? handles with
    | some t => return ⟨← anchor?, some t⟩
    | none => return {}

/-! ## Nodes -/

mutual

/-- A node. A block collection cannot begin in a flow collection; the entries of a
sequence may stand without indentation below a key. -/
def node (handles : Handles) : (fuel : Nat) → (block unindented : Bool) → Reader Tree
  | 0, _, _ => failure
  | fuel + 1, block, unindented => do
    match ← peek with
    | some (.alias name) => advance; return .alias (← number name)
    | _ =>
      let p ← properties handles
      let token ← peek
      match token with
      | some (.scalar style text) => advance; return .scalar p style text
      | some .flowSequenceStart => advance; return .sequence p (← flowItems handles fuel true)
      | some .flowMappingStart => advance; return .mapping p (← flowPairs handles fuel true)
      | _ =>
        if unindented && token = some .blockEntry then
          return .sequence p (← unindentedItems handles fuel)
        else if block && token = some .blockSequenceStart then
          advance; return .sequence p (← blockItems handles fuel)
        else if block && token = some .blockMappingStart then
          advance; return .mapping p (← blockPairs handles fuel)
        else if p.anchor.isSome || p.tag.isSome then return .scalar p .plain []
        else failure

/-- A node, or nothing before one of the given tokens. -/
def nodeUnless (handles : Handles) :
    (fuel : Nat) → List Token → (block unindented : Bool) → Reader Tree
  | 0, _, _, _ => failure
  | fuel + 1, ends, block, unindented => do
    if ← sees ends then return empty else node handles fuel block unindented

def blockItems (handles : Handles) : (fuel : Nat) → Reader (List Tree)
  | 0 => failure
  | fuel + 1 => do
    match ← peek with
    | some .blockEntry =>
      advance
      let item ← nodeUnless handles fuel [.blockEntry, .blockEnd] true false
      return item :: (← blockItems handles fuel)
    | some .blockEnd => advance; return []
    | _ => failure

def unindentedItems (handles : Handles) : (fuel : Nat) → Reader (List Tree)
  | 0 => failure
  | fuel + 1 => do
    if ← sees [.blockEntry] then
      advance
      let item ← nodeUnless handles fuel [.blockEntry, .key, .value, .blockEnd] true false
      return item :: (← unindentedItems handles fuel)
    else return []

def blockPairs (handles : Handles) : (fuel : Nat) → Reader (List (Tree × Tree))
  | 0 => failure
  | fuel + 1 => do
    match ← peek with
    | some .key =>
      advance
      let ends := [.key, .value, .blockEnd]
      let key ← nodeUnless handles fuel ends true true
      let value ←
        if ← sees [.value] then advance; nodeUnless handles fuel ends true true
        else pure empty
      return (key, value) :: (← blockPairs handles fuel)
    | some .blockEnd => advance; return []
    | _ => failure

/-- The items of a flow sequence. An item may be a single pair without braces; an
empty key of such a pair takes the token after it along. -/
def flowItems (handles : Handles) : (fuel : Nat) → (first : Bool) → Reader (List Tree)
  | 0, _ => failure
  | fuel + 1, first => do
    if ← sees [.flowSequenceEnd] then advance; return []
    else
      if !first then if ← sees [.flowEntry] then advance else failure
      if ← sees [.flowSequenceEnd] then advance; return []
      else
        let item ←
          if ← sees [.key] then
            advance
            let key ←
              if ← sees [.value, .flowEntry, .flowSequenceEnd] then advance; pure empty
              else node handles fuel false false
            let value ←
              if ← sees [.value] then
                advance; nodeUnless handles fuel [.flowEntry, .flowSequenceEnd] false false
              else pure empty
            pure (.mapping {} [(key, value)])
          else node handles fuel false false
        return item :: (← flowItems handles fuel false)

def flowPairs (handles : Handles) : (fuel : Nat) → (first : Bool) → Reader (List (Tree × Tree))
  | 0, _ => failure
  | fuel + 1, first => do
    if ← sees [.flowMappingEnd] then advance; return []
    else
      if !first then if ← sees [.flowEntry] then advance else failure
      if ← sees [.flowMappingEnd] then advance; return []
      else
        let pair ←
          if ← sees [.key] then
            advance
            let key ← nodeUnless handles fuel [.value, .flowEntry, .flowMappingEnd] false false
            let value ←
              if ← sees [.value] then
                advance; nodeUnless handles fuel [.flowEntry, .flowMappingEnd] false false
              else pure empty
            pure (key, value)
          else do pure (← node handles fuel false false, empty)
        return pair :: (← flowPairs handles fuel false)

end

/-! ## Documents -/

/-- The handles that the directives of a document define. The version of YAML may be
given once, and a handle may be defined once. -/
def handles? : List Token → Option Handles
  | [] => some []
  | .version major minor :: r =>
    if major ≠ 1 ∨ (minor ≠ 1 ∧ minor ≠ 2) ∨ r.any (· matches .version ..) then none
    else handles? r
  | .tagPrefix handle octets :: r => do
    let handles ← handles? r
    if (handles.lookup handle).isSome then none else return (handle, octets) :: handles
  | _ :: _ => none

/-- A document up to its end. Only one with a start indicator may be empty or have
directives. -/
def document (fuel : Nat) : Reader Tree := do
  let s ← get
  let isDirective (t : Token) : Bool := t matches .version .. || t matches .tagPrefix ..
  let handles ← (handles? (s.tokens.takeWhile isDirective) : Option Handles)
  let handles := handles ++ commonHandles
  match s.tokens.dropWhile isDirective with
  | [] => if s.tokens.isEmpty then return empty else failure
  | .documentStart :: r =>
    set { s with tokens := r }
    match r with
    | [] => return empty
    | .documentEnd :: _ => return empty
    | _ => node handles fuel true false
  | _ => if s.tokens.head?.any isDirective then failure else node handles fuel true false

/-- The only document of a text, which may be empty. -/
def ofText? (t : Text) : Option Tree := do
  let tokens ← tokens? t
  let (tree, s) ← (document (4 * tokens.length + 4)).run { tokens }
  if s.tokens.all (· == .documentEnd) then some tree else none

/-! ## Measures -/

mutual

/-- How many scalars, aliases, beginnings and ends of collections there are. -/
def events : Tree → Nat
  | .alias _ => 1
  | .scalar .. => 1
  | .sequence _ items => eventsOfItems items + 2
  | .mapping _ pairs => eventsOfPairs pairs + 2

def eventsOfItems : List Tree → Nat
  | [] => 0
  | t :: r => events t + eventsOfItems r

def eventsOfPairs : List (Tree × Tree) → Nat
  | [] => 0
  | (k, v) :: r => events k + events v + eventsOfPairs r

end

mutual

/-- The nodes with an anchor, in the order in which they begin. -/
def anchored : Tree → List (Nat × Tree)
  | .alias _ => []
  | .scalar p style text => (p.anchor.map (·, .scalar p style text)).toList
  | .sequence p items => (p.anchor.map (·, .sequence p items)).toList ++ anchoredItems items
  | .mapping p pairs => (p.anchor.map (·, .mapping p pairs)).toList ++ anchoredPairs pairs

def anchoredItems : List Tree → List (Nat × Tree)
  | [] => []
  | t :: r => anchored t ++ anchoredItems r

def anchoredPairs : List (Tree × Tree) → List (Nat × Tree)
  | [] => []
  | (k, v) :: r => anchored k ++ anchored v ++ anchoredPairs r

end

end Tree

end TouchPanel.Yaml
