import TouchPanel.Decimal.Binary64
import TouchPanel.Text.Search

/-!
# Reading decimals

A decimal has an optional sign, digits with an optional point among them and an
optional exponent. It denotes the nearest double; the words for infinity and for
the undefined number are read in any case.
-/

namespace TouchPanel.Decimal

def digitsValue (ds : Text) : Nat := ds.foldl (fun n c => 10 * n + (c.toNat - 48)) 0

/-- The sign in front of a number, and what follows it. -/
def takeSign : Text → Bool × Text
  | '-' :: r => (true, r)
  | '+' :: r => (false, r)
  | t => (false, t)

def takeDigits (t : Text) : Text × Text := (t.takeWhile Char.isDigit, t.dropWhile Char.isDigit)

/-- The exponent after the digits; a text that is none of its forms is refused. -/
def exponent? : Text → Option Int
  | [] => some 0
  | c :: r =>
    if c = 'e' ∨ c = 'E' then
      let (negative, ds) := takeSign r
      if ds.isEmpty || !ds.all Char.isDigit then none
      else
        let n : Int := digitsValue ds
        some (if negative then -n else n)
    else none

/-- An unsigned decimal as its digits and the power of ten they stand for. -/
def unsigned? (t : Text) : Option (Nat × Int) :=
  let (whole, r) := takeDigits t
  let (fraction, r) := match r with
    | '.' :: r => takeDigits r
    | _ => ([], r)
  if whole.isEmpty && fraction.isEmpty then none
  else (exponent? r).map fun e => (digitsValue (whole ++ fraction), e - fraction.length)

/-- The double that a decimal denotes. -/
def float? (t : Text) : Option Float :=
  let (negative, r) := takeSign t
  match unsigned? r with
  | some (digits, e) => some (Binary64.ofDecimal negative digits e)
  | none =>
    let word := r.map Char.toLower
    if word = "inf".toList ∨ word = "infinity".toList then
      some (if negative then -1.0 / 0.0 else 1.0 / 0.0)
    else if word = "nan".toList then some (0.0 / 0.0)
    else none

end TouchPanel.Decimal
