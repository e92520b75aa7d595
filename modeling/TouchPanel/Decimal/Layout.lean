import TouchPanel.Decimal.Shortest
import TouchPanel.Text.Blank

/-!
# Written numbers

Integers are written in plain decimal. A double is written by its shortest
decimal; a layout says up to which size the digits stay positional, how the
exponent is marked and which of two equally near decimals is taken.
-/

namespace TouchPanel.Decimal

structure Layout where
  /-- The digits stay positional while the number of places before the decimal
  point lies between these bounds. -/
  leastPlaces : Int
  mostPlaces : Int
  /-- Whether a positive exponent has a plus sign. -/
  plusSign : Bool
  tie : Tie

def ofNat (n : Nat) : Text := Nat.toDigits 10 n

def ofInt (i : Int) : Text :=
  if i < 0 then '-' :: ofNat i.natAbs else ofNat i.natAbs

/-- The digits with the decimal point after `places` of them. -/
def positional (digits : Text) (places : Int) : Text :=
  if places ≤ 0 then '0' :: '.' :: List.replicate (-places).toNat '0' ++ digits
  else
    let n := places.toNat
    let whole := digits.take n ++ List.replicate (n - digits.length) '0'
    let rest := digits.drop n
    whole ++ '.' :: (if rest.isEmpty then ['0'] else rest)

def scientific (plusSign : Bool) (digits : Text) (exponent : Int) : Text :=
  let mark := if plusSign && 0 ≤ exponent then ['e', '+'] else ['e']
  let rest := digits.drop 1
  digits.take 1 ++ (if rest.isEmpty then [] else '.' :: rest) ++ mark ++ ofInt exponent

def Layout.magnitude (l : Layout) (m : Nat) (q : Int) : Text :=
  if m = 0 then ['0', '.', '0']
  else
    let d := shortest l.tie m q
    let digits := ofNat d.digits
    let places := d.exponent + digits.length
    if l.leastPlaces ≤ places && places ≤ l.mostPlaces then positional digits places
    else scientific l.plusSign digits (places - 1)

/-- The text of a double. -/
def Layout.text (l : Layout) (x : Float) : Text :=
  match Binary64.parts x with
  | .nan => "NaN".toList
  | .infinite negative => if negative then "-inf".toList else "inf".toList
  | .finite negative m q => if negative then '-' :: l.magnitude m q else l.magnitude m q

end TouchPanel.Decimal
