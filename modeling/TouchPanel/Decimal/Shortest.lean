import TouchPanel.Decimal.Binary64

/-!
# Shortest decimals

The decimal with the fewest digits among those that read back as a given double,
and among the decimals with that many digits the nearest to it.
-/

namespace TouchPanel

/-- The number `digits * 10 ^ exponent`. -/
structure Decimal where
  digits : Nat
  exponent : Int

namespace Decimal

/-- Which of two equally near decimals is taken. -/
inductive Tie where
  | up
  | even

/-- A number and the ends of the interval that rounds to it, as fractions with one
denominator. The ends belong to the interval if `closed`. -/
structure Rounding where
  low : Nat
  value : Nat
  high : Nat
  den : Nat
  closed : Bool

/-- The doubles' rounding interval around `m * 2 ^ q`. Below a power of two the
next double is only half as far away. -/
def Rounding.of (m : Nat) (q : Int) : Rounding :=
  let low := 4 * m - if m = Nat.pow 2 52 ∧ -1074 < q then 1 else 2
  let up := Nat.pow 2 (q - 2).toNat
  ⟨low * up, 4 * m * up, (4 * m + 2) * up, Nat.pow 2 (2 - q).toNat, m % 2 = 0⟩

/-- The interval in units of `10 ^ e`. -/
def Rounding.inUnits (r : Rounding) (e : Int) : Rounding :=
  let up := Nat.pow 10 (-e).toNat
  { r with low := r.low * up, value := r.value * up, high := r.high * up,
           den := r.den * Nat.pow 10 e.toNat }

/-- The integer of the interval that is nearest to its value. -/
def Rounding.integer? (tie : Tie) (r : Rounding) : Option Nat :=
  let c := r.value / r.den
  let inside (n : Nat) :=
    if r.closed then r.low ≤ n * r.den && n * r.den ≤ r.high
    else r.low < n * r.den && n * r.den < r.high
  match inside c, inside (c + 1) with
  | false, false => none
  | true, false => some c
  | false, true => some (c + 1)
  | true, true =>
    let rest := 2 * (r.value - c * r.den)
    if rest < r.den then some c
    else if r.den < rest then some (c + 1)
    else match tie with
      | .up => some (c + 1)
      | .even => some (if c % 2 = 0 then c else c + 1)

def digitCount (n : Nat) : Nat := (Nat.toDigits 10 n).length

/-- The `k` with `10 ^ (k - 1) ≤ value < 10 ^ k`. -/
def Rounding.magnitude (r : Rounding) : Int :=
  if r.den ≤ r.value then digitCount (r.value / r.den)
  else 1 - digitCount (r.den / r.value)

/-- Moves trailing zeros of the digits into the exponent. -/
def dropZeros : Nat → Decimal → Decimal
  | 0, d => d
  | fuel + 1, d =>
    if d.digits % 10 = 0 then dropZeros fuel ⟨d.digits / 10, d.exponent + 1⟩ else d

/-- The shortest decimal that reads back as `m * 2 ^ q`. Seventeen digits are
always enough. -/
def shortest (tie : Tie) (m : Nat) (q : Int) : Decimal :=
  let r := Rounding.of m q
  let k := r.magnitude
  let found := (List.range 17).findSome? fun (i : Nat) =>
    let e : Int := k - (i + 1)
    ((r.inUnits e).integer? tie).map fun n => Decimal.mk n e
  dropZeros 18 (found.getD ⟨m, 0⟩)

end Decimal

end TouchPanel
