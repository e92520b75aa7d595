import TouchPanel.Json.Term
import TouchPanel.Proofs.Json.Token

/-!
# The terms of written values

The text of a value is read as the term that has its parts. An integer of 64 bits is read as the
number that was written.
-/

namespace TouchPanel.Json

namespace Value

mutual

/-- The term that is read from the text of a value. -/
def toTerm (v : Value) : Term :=
  match v with
  | .null => .null
  | .bool b => .bool b
  | .number n => .number n.numeral
  | .string s => .string (some s)
  | .array items => .array (itemTerms items)
  | .object fields => .object (fieldTerms fields)

def itemTerms (items : List Value) : List Term :=
  match items with
  | [] => []
  | v :: r => toTerm v :: itemTerms r

def fieldTerms (fields : List (String × Value)) : List (Option String × Term) :=
  match fields with
  | [] => []
  | (k, v) :: r => (some k, toTerm v) :: fieldTerms r

end

theorem itemTerms_eq_map (items : List Value) : itemTerms items = items.map toTerm := by
  induction items with
  | nil => rfl
  | cons v r ih => rw [itemTerms, ih, List.map_cons]

theorem fieldTerms_eq_map (fields : List (String × Value)) :
    fieldTerms fields = fields.map fun e => (some e.1, e.2.toTerm) := by
  induction fields with
  | nil => rfl
  | cons e r ih => rw [fieldTerms, ih, List.map_cons]

end Value

/-! ## Reading tokens -/

namespace Term

open Value

theorem read?_openBracket {fuel : Nat} {l : List Token} {p : List Term × List Token}
    (h : readItems? fuel l = some p) :
    read? (fuel + 1) (.openBracket :: l) = some (.array p.1, p.2) := by
  rw [read?]
  · rw [h]
    rfl
  · -- No item begins with a closing bracket.
    rintro r rfl
    cases fuel with
    | zero => cases h
    | succ fuel => cases fuel <;> cases h

theorem read?_openBrace {fuel : Nat} {l : List Token}
    {p : List (Option String × Term) × List Token} (h : readFields? fuel l = some p) :
    read? (fuel + 1) (.openBrace :: l) = some (.object p.1, p.2) := by
  rw [read?]
  · rw [h]
    rfl
  · rintro r rfl
    cases fuel <;> cases h

mutual

/-- The tokens of a value are read as its term, whatever follows them. -/
theorem read?_tokens (v : Value) {fuel : Nat} (hfuel : v.tokens.length ≤ fuel)
    (rest : List Token) : read? fuel (v.tokens ++ rest) = some (v.toTerm, rest) := by
  obtain _ | fuel := fuel
  · cases v <;> simp [tokens] at hfuel
  match v with
  | .null => rfl
  | .bool _ => rfl
  | .number _ => rfl
  | .string _ => rfl
  | .array [] => rfl
  | .object [] => rfl
  | .array (v :: items) =>
    have hlength : (itemTokens (v :: items)).length < fuel := by
      simpa [tokens, Nat.succ_le_iff] using hfuel
    rw [tokens, List.cons_append, List.append_assoc]
    exact read?_openBracket (readItems?_itemTokens (v :: items) (List.cons_ne_nil _ _) hlength rest)
  | .object (f :: fields) =>
    have hlength : (fieldTokens (f :: fields)).length < fuel := by
      simpa [tokens, Nat.succ_le_iff] using hfuel
    rw [tokens, List.cons_append, List.append_assoc]
    exact read?_openBrace
      (readFields?_fieldTokens (f :: fields) (List.cons_ne_nil _ _) hlength rest)

theorem readItems?_itemTokens (items : List Value) (hne : items ≠ []) {fuel : Nat}
    (hfuel : (itemTokens items).length < fuel) (rest : List Token) :
    readItems? fuel (itemTokens items ++ .closeBracket :: rest) =
      some (itemTerms items, rest) := by
  obtain _ | fuel := fuel
  · exact absurd hfuel (Nat.not_lt_zero _)
  match items with
  | [] => exact absurd rfl hne
  | [v] =>
    rw [readItems?, itemTokens, read?_tokens v (Nat.lt_succ_iff.1 hfuel)]
    rfl
  | v :: w :: r =>
    rw [itemTokens, List.length_append, List.length_cons] at hfuel
    have hfirst : v.tokens.length ≤ fuel := by omega
    have hlength : (itemTokens (w :: r)).length < fuel := by omega
    have hrest := readItems?_itemTokens (w :: r) (List.cons_ne_nil _ _) hlength rest
    rw [readItems?, itemTokens, List.append_assoc, List.cons_append, read?_tokens v hfirst]
    simp only [hrest]
    rfl

theorem readFields?_fieldTokens (fields : List (String × Value)) (hne : fields ≠ []) {fuel : Nat}
    (hfuel : (fieldTokens fields).length < fuel) (rest : List Token) :
    readFields? fuel (fieldTokens fields ++ .closeBrace :: rest) =
      some (fieldTerms fields, rest) := by
  obtain _ | fuel := fuel
  · exact absurd hfuel (Nat.not_lt_zero _)
  match fields with
  | [] => exact absurd rfl hne
  | [(k, v)] =>
    rw [fieldTokens, List.length_cons, List.length_cons] at hfuel
    have hfirst : v.tokens.length ≤ fuel := by omega
    rw [fieldTokens, List.cons_append, List.cons_append, readFields?, read?_tokens v hfirst]
    rfl
  | (k, v) :: f :: r =>
    rw [fieldTokens, List.length_cons, List.length_cons, List.length_append,
      List.length_cons] at hfuel
    have hfirst : v.tokens.length ≤ fuel := by omega
    have hlength : (fieldTokens (f :: r)).length < fuel := by omega
    have hrest := readFields?_fieldTokens (f :: r) (List.cons_ne_nil _ _) hlength rest
    rw [fieldTokens, List.cons_append, List.cons_append, List.append_assoc, List.cons_append,
      readFields?, read?_tokens v hfirst]
    simp only [hrest]
    rfl

end

/-- The text of a value is read as its term. -/
theorem ofText?_text {v : Value} (hv : ∀ x ∈ v.doubles, (Number.float x).IsLegible) :
    ofText? v.text = some v.toTerm := by
  have hread := read?_tokens v (Nat.le_succ _) []
  rw [List.append_nil] at hread
  simp only [ofText?, Value.ofText?_text hv, Option.bind_eq_bind, Option.bind_some]
  rw [hread]

end Term

/-! ## Integers -/

namespace Numeral

/-- Whether an integer fits into 64 bits, with or without a sign. -/
structure Is64Bit (n : Int) : Prop where
  low : -(Nat.pow 2 63 : Nat) ≤ n
  high : n < (Nat.pow 2 64 : Nat)

theorem le_ofDigitChars (ds : Text) (n : Nat) : n ≤ Nat.ofDigitChars 10 ds n := by
  induction ds generalizing n with
  | nil => exact Nat.le_refl n
  | cons c ds ih =>
    rw [Nat.ofDigitChars_cons]
    exact Nat.le_trans (by omega) (ih _)

/-- Digits that fit into 64 bits are collected to their value. -/
theorem collectWhole_eq {ds : Text} {n : Nat} (h : Nat.ofDigitChars 10 ds n < Nat.pow 2 64) :
    collectWhole n ds = (⟨Nat.ofDigitChars 10 ds n, 0⟩, false) := by
  induction ds generalizing n with
  | nil => rfl
  | cons c ds ih =>
    have hstep : 10 * n + (c.toNat - '0'.toNat) = n * 10 + digit c := by
      rw [Nat.mul_comm]
      rfl
    rw [Nat.ofDigitChars_cons, hstep] at h ⊢
    have hfits : fits n (digit c) = true :=
      decide_eq_true (Nat.lt_of_le_of_lt (le_ofDigitChars ds _) h)
    rw [collectWhole, hfits, if_pos rfl, ih h]

theorem collectWhole_lt {ds : Text} {n : Nat} (h : n < Nat.pow 2 64) :
    (collectWhole n ds).1.word < Nat.pow 2 64 := by
  induction ds generalizing n with
  | nil => exact h
  | cons c ds ih =>
    rw [collectWhole]
    split
    · next hfits => exact ih (of_decide_eq_true hfits)
    · exact h

/-- An integer of 64 bits is what its digits denote. -/
theorem number?_ofInt {n : Int} (h : Is64Bit n) :
    number? ⟨n < 0, Decimal.ofNat n.natAbs, [], none⟩ = some (.int n) := by
  obtain ⟨hlow, hhigh⟩ := h
  have hvalue : Nat.ofDigitChars 10 (Decimal.ofNat n.natAbs) 0 = n.natAbs :=
    Nat.ofDigitChars_toDigits (by decide) (by decide)
  have hpow : Nat.pow 2 64 = 2 ^ 64 := rfl
  have hpow' : Nat.pow 2 63 = 2 ^ 63 := rfl
  have hfits : Nat.ofDigitChars 10 (Decimal.ofNat n.natAbs) 0 < Nat.pow 2 64 := by omega
  have hcollect := collectWhole_eq hfits
  rw [hvalue] at hcollect
  unfold number?
  simp only [hcollect]
  refine (if_pos rfl).trans ?_
  by_cases hn : n < 0
  · have hsmall : (decide (n.natAbs = 0) || decide (Nat.pow 2 63 < n.natAbs)) ≠ true := by
      rw [Ne, Bool.or_eq_true, decide_eq_true_eq, decide_eq_true_eq]
      omega
    have hneg : -(n.natAbs : Int) = n := by omega
    rw [decide_eq_true hn]
    refine (if_neg (by decide)).trans ?_
    rw [if_neg hsmall, hneg]
  · have hpos : (n.natAbs : Int) = n := by omega
    rw [decide_eq_false hn]
    refine (if_pos rfl).trans ?_
    rw [hpos]

theorem is64Bit_of_number? {m : Numeral} {n : Int} (h : m.number? = some (.int n)) :
    Is64Bit n := by
  have hpow : Nat.pow 2 64 = 2 ^ 64 := rfl
  have hpow' : Nat.pow 2 63 = 2 ^ 63 := rfl
  have hlt : (collectWhole 0 m.whole).1.word < Nat.pow 2 64 := collectWhole_lt (by decide)
  unfold number? at h
  dsimp only at h
  split at h
  · split at h
    · cases h
      constructor <;> omega
    · split at h
      · cases h
      · next hsmall =>
        simp only [Bool.or_eq_true, decide_eq_true_eq] at hsmall
        cases h
        constructor <;> omega
  · -- With a fraction or an exponent the number is a double.
    obtain ⟨x, -, hx⟩ := Option.map_eq_some_iff.1 h
    cases hx

end Numeral

namespace Number

/-- What the text of a number is read as. -/
def readBack? (n : Number) : Option Number :=
  match Token.first? n.text with
  | some (.number m, []) => m.number?
  | _ => none

/-- Whether a number is read from its text again. -/
def IsReadBack (n : Number) : Prop := n.readBack? = some n

deriving instance DecidableEq for Number

instance (n : Number) : Decidable n.IsReadBack := inferInstanceAs (Decidable (_ = _))

theorem isReadBack_iff {n : Number} :
    n.IsReadBack ↔ n.IsLegible ∧ n.numeral.number? = some n := by
  unfold IsReadBack readBack? IsLegible numeral
  split <;> simp_all

theorem isReadBack_int {n : Int} (h : Numeral.Is64Bit n) : IsReadBack (.int n) := by
  have hfirst : Token.first? (text (.int n)) = _ := Token.first?_ofInt n
  unfold IsReadBack readBack?
  rw [hfirst]
  exact Numeral.number?_ofInt h

end Number

end TouchPanel.Json
