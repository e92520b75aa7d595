import TouchPanel.Json.Token
import TouchPanel.Json.Value
import TouchPanel.Table

/-!
# JSON terms

A term is a document as it was written: fields in their order with repetitions,
numbers and strings unconverted. A value is read from a term with a bound on the
nesting of arrays and objects.
-/

namespace TouchPanel.Json

inductive Term where
  | null
  | bool (b : Bool)
  | number (n : Numeral)
  | string (s : Option String)
  | array (items : List Term)
  | object (fields : List (Option String × Term))
  deriving Inhabited

namespace Term

mutual

/-- One term and the tokens after it. -/
def read? : Nat → List Token → Option (Term × List Token)
  | _, [] => none
  | 0, _ => none
  | fuel + 1, token :: r =>
    match token with
    | .null => some (.null, r)
    | .bool b => some (.bool b, r)
    | .number n => some (.number n, r)
    | .string s => some (.string s, r)
    | .openBracket =>
      match r with
      | .closeBracket :: r => some (.array [], r)
      | _ => (readItems? fuel r).map fun (items, rest) => (.array items, rest)
    | .openBrace =>
      match r with
      | .closeBrace :: r => some (.object [], r)
      | _ => (readFields? fuel r).map fun (fields, rest) => (.object fields, rest)
    | _ => none

/-- The items of an array up to its closing bracket. -/
def readItems? : Nat → List Token → Option (List Term × List Token)
  | 0, _ => none
  | fuel + 1, tokens =>
    match read? fuel tokens with
    | some (v, .closeBracket :: rest) => some ([v], rest)
    | some (v, .comma :: rest) =>
      (readItems? fuel rest).map fun (items, rest) => (v :: items, rest)
    | _ => none

/-- The fields of an object up to its closing brace. -/
def readFields? : Nat → List Token → Option (List (Option String × Term) × List Token)
  | 0, _ => none
  | fuel + 1, tokens =>
    match tokens with
    | .string key :: .colon :: r =>
      match read? fuel r with
      | some (v, .closeBrace :: rest) => some ([(key, v)], rest)
      | some (v, .comma :: rest) =>
        (readFields? fuel rest).map fun (fields, rest) => ((key, v) :: fields, rest)
      | _ => none
    | _ => none

end

/-- The single term that a text consists of. -/
def ofText? (t : Text) : Option Term := do
  let tokens ← Token.ofText? t
  match read? (tokens.length + 1) tokens with
  | some (term, []) => some term
  | _ => none

end Term

/-! ## Numbers -/

namespace Numeral

/-- The digits collected so far as a 64-bit word, and the power of ten that they
are to be multiplied with. -/
structure Collected where
  word : Nat
  exponent : Int

def fits (word digit : Nat) : Bool := word * 10 + digit < Nat.pow 2 64

def digit (c : Char) : Nat := c.toNat - 48

/-- Once the word is full, the remaining digits of the integer only count as
powers of ten. -/
def collectWhole : Nat → Text → Collected × Bool
  | word, [] => (⟨word, 0⟩, false)
  | word, c :: r =>
    if fits word (digit c) then collectWhole (word * 10 + digit c) r
    else (⟨word, r.length + 1⟩, true)

/-- Once the word is full, the remaining digits of the fraction are dropped. -/
def collectFraction : Collected → Text → Collected
  | s, [] => s
  | s, c :: r =>
    if fits s.word (digit c) then
      collectFraction ⟨s.word * 10 + digit c, s.exponent - 1⟩ r
    else s

def powerOfTen (k : Nat) : Float := Binary64.nearest false (Nat.pow 10 k) 1

/-- Multiplies with a power of ten, in steps of 10^308 while the exponent is
below that. Three steps bring any word down to zero. -/
def scale? : Nat → Float → Int → Option Float
  | 0, x, _ => some x
  | steps + 1, x, e =>
    if e.natAbs ≤ 308 then
      if 0 ≤ e then
        let y := x * powerOfTen e.natAbs
        if y.isInf then none else some y
      else some (x / powerOfTen e.natAbs)
    else if x == 0.0 then some x
    else if 0 ≤ e then none
    else scale? steps (x / powerOfTen 308) (e + 308)

/-- The number that a numeral denotes, unless it is too large for a double. An
integer that fits 64 bits stays an integer, minus zero does not. -/
def number? (n : Numeral) : Option Number :=
  let (whole, full) := collectWhole 0 n.whole
  let signed (x : Float) := if n.negative then -x else x
  if n.fraction.isEmpty && n.exponent.isNone && !full then
    if !n.negative then some (.int whole.word)
    else if whole.word = 0 || Nat.pow 2 63 < whole.word then
      some (.float (signed (Binary64.ofInt whole.word)))
    else some (.int (-whole.word))
  else
    let s := collectFraction whole n.fraction
    let e : Int := match n.exponent with
      | none => 0
      | some (negative, ds) =>
        let k : Int := Decimal.digitsValue ds
        if negative then -k else k
    (scale? 5 (Binary64.ofInt s.word) (s.exponent + e)).map fun x => .float (signed x)

end Numeral

/-! ## Values -/

/-- How many arrays and objects may be nested in a document. -/
def nestingLimit : Nat := 127

namespace Term

mutual

/-- The value of a term with at most `depth` nested arrays and objects. The fields
of an object are sorted by their keys, the last of several with one key stays. -/
def value? : Nat → Term → Option Value
  | depth, t =>
    match t with
    | .null => some .null
    | .bool b => some (.bool b)
    | .number n => n.number?.map .number
    | .string s => s.map .string
    | .array items =>
      match depth with
      | 0 => none
      | depth + 1 => (itemValues? depth items).map .array
    | .object fields =>
      match depth with
      | 0 => none
      | depth + 1 =>
        (fieldValues? depth fields).map fun fs => .object (Table.ofList fs).entries

def itemValues? (depth : Nat) : List Term → Option (List Value)
  | [] => some []
  | t :: r =>
    match value? depth t, itemValues? depth r with
    | some v, some vs => some (v :: vs)
    | _, _ => none

def fieldValues? (depth : Nat) : List (Option String × Term) → Option (List (String × Value))
  | [] => some []
  | (key, t) :: r =>
    match key, value? depth t, fieldValues? depth r with
    | some k, some v, some fs => some ((k, v) :: fs)
    | _, _, _ => none

end

end Term

end TouchPanel.Json
