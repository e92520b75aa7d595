import TouchPanel.Decimal.Reading
import TouchPanel.Json.Token

/-!
# The meaning of plain scalars

A plain scalar may stand for null, a truth value or a number. Only the spellings
listed here do; digits after a leading zero are text.
-/

namespace TouchPanel.Yaml.Plain

def isNull (t : Text) : Bool :=
  t.isEmpty || ["~", "null", "Null", "NULL"].contains (String.ofList t)

def bool? (t : Text) : Option Bool :=
  if ["true", "True", "TRUE"].contains (String.ofList t) then some true
  else if ["false", "False", "FALSE"].contains (String.ofList t) then some false
  else none

/-- A zero and further digits, perhaps with a sign. -/
def hasLeadingZero (t : Text) : Bool :=
  match (Decimal.takeSign t).2 with
  | '0' :: c :: r => (c :: r).all Char.isDigit
  | _ => false

/-- The value of digits in the given base, of which there must be some. -/
def digits? (base : Nat) (t : Text) : Option Nat :=
  if t.isEmpty then none
  else t.foldlM (fun n c => do
    let d ← Json.Token.hexValue? c
    if d < base then some (base * n + d) else none) 0

/-- Digits after a prefix that tells the base; without one the base is ten. -/
def magnitude? (t : Text) : Option Nat :=
  match t with
  | '0' :: 'x' :: r => digits? 16 r
  | '0' :: 'o' :: r => digits? 8 r
  | '0' :: 'b' :: r => digits? 2 r
  | _ => if hasLeadingZero t then none else digits? 10 t

/-- An integer of at most 128 bits, with or without a sign bit. -/
def int? (t : Text) : Option Int :=
  match t with
  | '-' :: r => (magnitude? r).bind fun n => if n ≤ Nat.pow 2 127 then some (-n) else none
  | '+' :: r => (magnitude? r).bind bounded
  | _ => (magnitude? t).bind bounded
where
  bounded (n : Nat) : Option Int := if n < Nat.pow 2 128 then some n else none

/-- Whether an integer has a sign and 64 bits, or 64 bits without a sign. -/
def fitsWord (n : Int) : Bool := -(Nat.pow 2 63 : Nat) ≤ n && n < (Nat.pow 2 64 : Nat)

/-- A double; a decimal must denote a finite one. -/
def float? (t : Text) : Option Float :=
  let word := String.ofList t
  let unsigned := match t with
    | '+' :: r => r
    | _ => t
  if t.head? = some '+' && (unsigned.head? = some '+' || unsigned.head? = some '-') then none
  else if [".inf", ".Inf", ".INF"].contains (String.ofList unsigned) then some (1.0 / 0.0)
  else if ["-.inf", "-.Inf", "-.INF"].contains word then some (-1.0 / 0.0)
  else if [".nan", ".NaN", ".NAN"].contains word then some (0.0 / 0.0)
  else (Decimal.float? unsigned).filter Float.isFinite

end TouchPanel.Yaml.Plain
