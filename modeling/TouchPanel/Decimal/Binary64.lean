/-!
# Binary64 numbers

A double is decoded into a sign, a mantissa and a power of two, and the double
nearest to a quotient of natural numbers is found in exact arithmetic.
-/

namespace TouchPanel.Binary64

inductive Parts where
  /-- The value `± mantissa * 2 ^ exponent`. -/
  | finite (negative : Bool) (mantissa : Nat) (exponent : Int)
  | infinite (negative : Bool)
  | nan

/-- Decodes the 64 bits of a double. -/
def parts (x : Float) : Parts :=
  let bits := x.toBits.toNat
  let negative := bits / Nat.pow 2 63 == 1
  let biased : Nat := bits / Nat.pow 2 52 % Nat.pow 2 11
  let fraction : Nat := bits % Nat.pow 2 52
  if biased = 2047 then
    if fraction = 0 then .infinite negative else .nan
  else if biased = 0 then .finite negative fraction (-1074)
  else .finite negative (Nat.pow 2 52 + fraction) ((biased : Int) - 1075)

/-- `n / d` rounded to the nearest natural number, a tie to the even one. -/
def roundDiv (n d : Nat) : Nat :=
  let q := n / d
  let r := n % d
  if 2 * r < d then q
  else if d < 2 * r then q + 1
  else if q % 2 = 0 then q else q + 1

/-- `n / d` divided by `2 ^ q`, rounded. -/
private def scaled (n d : Nat) (q : Int) : Nat :=
  if q < 0 then roundDiv (n * Nat.pow 2 (-q).toNat) d else roundDiv n (d * Nat.pow 2 q.toNat)

/-- The power of two that belongs to the last mantissa bit of `n / d`. -/
private def unitExponent (n d : Nat) : Int :=
  let q : Int := (n.log2 : Int) - d.log2 - 52
  let enough :=
    if q < 0 then d * Nat.pow 2 52 ≤ n * Nat.pow 2 (-q).toNat
    else d * Nat.pow 2 52 * Nat.pow 2 q.toNat ≤ n
  max (-1074) (if enough then q else q - 1)

/-- The bits of the non-negative double nearest to `n / d`, a tie to the even
mantissa. What is too large becomes infinite. -/
def nearestBits (n d : Nat) : Nat :=
  if n = 0 then 0
  else
    let q := unitExponent n d
    let m := scaled n d q
    let bits := if m < Nat.pow 2 52 then m else m - Nat.pow 2 52 + (q + 1075).toNat * Nat.pow 2 52
    min bits (2047 * Nat.pow 2 52)

/-- The double nearest to `± n / d`. -/
def nearest (negative : Bool) (n d : Nat) : Float :=
  Float.ofBits (UInt64.ofNat (nearestBits n d + if negative then Nat.pow 2 63 else 0))

/-- The double nearest to an integer. -/
def ofInt (i : Int) : Float := nearest (i < 0) i.natAbs 1

/-- The double nearest to `± digits * 10 ^ exponent`. -/
def ofDecimal (negative : Bool) (digits : Nat) (exponent : Int) : Float :=
  -- beyond these bounds the result is zero or infinite whatever the digits are
  let size : Int := (Nat.toDigits 10 digits).length
  let exponent := if digits = 0 then 0 else max (-1100 - size) (min exponent 400)
  if exponent < 0 then nearest negative digits (Nat.pow 10 (-exponent).toNat)
  else nearest negative (digits * Nat.pow 10 exponent.toNat) 1

/-- The nearest integer, a half away from zero, within the bounds of a signed 64-bit
word. -/
def roundToWord (x : Float) : Int :=
  let bounded (negative : Bool) (n : Nat) : Int :=
    if negative then -(min n (Nat.pow 2 63) : Nat) else (min n (Nat.pow 2 63 - 1) : Nat)
  match parts x with
  | .nan => 0
  | .infinite negative => bounded negative (Nat.pow 2 64)
  | .finite negative m q =>
    if 0 ≤ q then bounded negative (m * Nat.pow 2 q.toNat)
    else bounded negative ((2 * m + Nat.pow 2 (-q).toNat) / Nat.pow 2 (1 - q).toNat)

end TouchPanel.Binary64
