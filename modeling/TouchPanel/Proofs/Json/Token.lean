import Mathlib.Data.List.TakeWhile
import Mathlib.Tactic.SplitIfs
import TouchPanel.Json.Token
import TouchPanel.Json.Value

/-!
# The tokens of written values

The text of a value is read as the tokens of its parts, whatever stands behind it that can stand
behind a value. A string is read as itself and an integer as its digits; whether the text of a
double is a number is a matter of the double.
-/

namespace TouchPanel.Json

/-! ## Strings -/

namespace Token

theorem hexValue?_hexDigit (n : Nat) : hexValue? (Text.hexDigit n) = some (n % 16) := by
  have hall : ∀ k : Fin 16, hexValue? (Nat.digitChar k) = some k.1 := by decide
  exact hall ⟨n % 16, Nat.mod_lt n (by decide)⟩

theorem hex4?_control {n : Nat} (h : n < 0x20) :
    hex4? '0' '0' (Text.hexDigit (n / 16)) (Text.hexDigit n) = some n := by
  have hzero : hexValue? '0' = some 0 := by decide
  simp only [hex4?, hzero, hexValue?_hexDigit, Option.bind_eq_bind, Option.bind_some]
  exact congrArg some (by omega)

theorem units?_short {c e : Char} (hc : c ≠ 'u') (he : shortEscape? c = some e) (r : Text) :
    units? ('\\' :: c :: r) = (units? r).map fun p => (e.toNat :: p.1, p.2) := by
  rw [units?]
  · rw [he]
    cases units? r <;> rfl
  · intro _ _ _ _ _ h
    exact absurd h hc

theorem units?_control {c : Char} (h : c.toNat < 0x20) (r : Text) :
    units? ('\\' :: 'u' :: '0' :: '0' :: Text.hexDigit (c.toNat / 16) ::
      Text.hexDigit c.toNat :: r) = (units? r).map fun p => (c.toNat :: p.1, p.2) := by
  rw [units?, hex4?_control h]
  cases units? r <;> rfl

theorem units?_plain {c : Char} (hquote : c ≠ '"') (hslash : c ≠ '\\') (h : ¬ c.toNat < 0x20)
    (r : Text) : units? (c :: r) = (units? r).map fun p => (c.toNat :: p.1, p.2) := by
  rw [units?]
  · simp only [h, hslash, decide_false, Bool.or_self, Bool.false_eq_true, if_false]
    cases units? r <;> rfl
  all_goals simp [hquote, hslash]

/-- The escaped form of a character is read as its code point. -/
theorem units?_escape (c : Char) (r : Text) :
    units? (Text.escape c ++ r) = (units? r).map fun p => (c.toNat :: p.1, p.2) := by
  unfold Text.escape
  split_ifs with hquote hslash hnewline hreturn htab hback hfeed hcontrol
  · subst hquote; exact units?_short (by decide) rfl r
  · subst hslash; exact units?_short (by decide) rfl r
  · subst hnewline; exact units?_short (by decide) rfl r
  · subst hreturn; exact units?_short (by decide) rfl r
  · subst htab; exact units?_short (by decide) rfl r
  · subst hback; exact units?_short (by decide) rfl r
  · subst hfeed; exact units?_short (by decide) rfl r
  · exact units?_control hcontrol r
  · exact units?_plain hquote hslash hcontrol r

theorem units?_escaped (t : Text) (r : Text) :
    units? (t.flatMap Text.escape ++ '"' :: r) = some (t.map Char.toNat, r) := by
  induction t with
  | nil => rw [List.flatMap_nil, List.nil_append, units?, List.map_nil]
  | cons c t ih => rw [List.flatMap_cons, List.append_assoc, units?_escape, ih]; rfl

/-- No character is half of a surrogate pair. -/
theorem joinUnits?_map (t : Text) : joinUnits? (t.map Char.toNat) = some t := by
  induction t with
  | nil => rfl
  | cons c t ih =>
    have hvalid : c.toNat < 0xD800 ∨ 0xDFFF < c.toNat := c.valid.imp id And.left
    have hhigh : isHighSurrogate c.toNat = false := by
      simp only [isHighSurrogate, Bool.and_eq_false_iff, decide_eq_false_iff_not]
      omega
    have hlow : isLowSurrogate c.toNat = false := by
      simp only [isLowSurrogate, Bool.and_eq_false_iff, decide_eq_false_iff_not]
      omega
    rw [List.map_cons, joinUnits?.eq_def]
    simp only [hhigh, hlow, ih, Char.ofNat_toNat, Bool.false_eq_true, if_false, Option.map_some]

/-- A quoted text is read as the string that was quoted. -/
theorem first?_quote (s : String) (rest : Text) :
    first? (Text.quote s.toList ++ rest) = some (.string (some s), rest) := by
  rw [Text.quote, List.append_assoc, List.cons_append, List.singleton_append, first?]
  simp [units?_escaped, joinUnits?_map]

/-! ## Numbers -/

/-- Whether what stands behind a value can stand there: nothing, or a comma or a closing bracket
or brace. -/
def Closes (rest : Text) : Prop := ∀ c ∈ rest.head?, c = ',' ∨ c = ']' ∨ c = '\x7d'

theorem closes_cons {c : Char} (hc : c = ',' ∨ c = ']' ∨ c = '\x7d') (r : Text) :
    Closes (c :: r) := by
  intro d hd
  cases hd
  exact hc

theorem Closes.isDigit {rest : Text} (h : Closes rest) : ∀ c ∈ rest.head?, c.isDigit = false := by
  intro c hc
  rcases h c hc with rfl | rfl | rfl <;> decide

theorem Closes.ne {rest r : Text} {c : Char} (h : Closes rest)
    (hc : (c == ',' || c == ']' || c == '\x7d') = false) : rest ≠ c :: r := by
  rintro rfl
  rcases h c rfl with rfl | rfl | rfl <;> exact absurd hc (by decide)

theorem digits1?_append {rest : Text} (h : Closes rest) (t : Text) :
    digits1? (t ++ rest) = (digits1? t).map fun p => (p.1, p.2 ++ rest) := by
  have htake : (t ++ rest).takeWhile Char.isDigit = t.takeWhile Char.isDigit ∧
      (t ++ rest).dropWhile Char.isDigit = t.dropWhile Char.isDigit ++ rest := by
    induction t with
    | nil =>
      cases rest with
      | nil => exact ⟨rfl, rfl⟩
      | cons c r => simp [h.isDigit c rfl]
    | cons c t ih =>
      rw [List.cons_append, List.takeWhile_cons, List.dropWhile_cons, List.takeWhile_cons,
        List.dropWhile_cons]
      split
      · exact ⟨congrArg _ ih.1, ih.2⟩
      · exact ⟨rfl, rfl⟩
  unfold digits1? Decimal.takeDigits
  dsimp only
  rw [htake.1, htake.2]
  split <;> rfl

theorem takeSign_append {rest : Text} (h : Closes rest) (t : Text) :
    Decimal.takeSign (t ++ rest) =
      ((Decimal.takeSign t).1, (Decimal.takeSign t).2 ++ rest) := by
  cases t with
  | cons c t =>
    rw [List.cons_append]
    unfold Decimal.takeSign
    split <;> simp_all
  | nil =>
    cases rest with
    | nil => rfl
    | cons c r =>
      have hc := h c rfl
      unfold Decimal.takeSign
      split <;> simp_all

/-- What is read off the front of a text is read in the same way if the text goes on. -/
def IsLocal {α : Type} (read : Text → Option (α × Text)) : Prop :=
  ∀ rest, Closes rest → ∀ t, read (t ++ rest) = (read t).map fun p => (p.1, p.2 ++ rest)

theorem IsLocal.bind {α β : Type} {read : Text → Option (α × Text)}
    {n : α → Text → Option (β × Text)} (hread : IsLocal read) (hnext : ∀ a, IsLocal (n a)) :
    IsLocal fun t => (read t).bind fun p => n p.1 p.2 := by
  intro rest h t
  dsimp only
  rw [hread rest h]
  cases read t with
  | none => rfl
  | some p => exact hnext p.1 rest h p.2

/-- The digits in front of the point. -/
def whole? : Text → Option (Text × Text)
  | '0' :: r => some (['0'], r)
  | t => digits1? t

/-- The digits behind the point, if there is one. -/
def fraction? : Text → Option (Text × Text)
  | '.' :: r => digits1? r
  | t => some ([], t)

/-- The numeral with some digits and the exponent that follows them, if there is one. -/
def withExponent? (negative : Bool) (whole fraction t : Text) : Option (Numeral × Text) :=
  match t with
  | c :: r =>
    if c = 'e' ∨ c = 'E' then
      (digits1? (Decimal.takeSign r).2).bind fun p =>
        some (⟨negative, whole, fraction, some ((Decimal.takeSign r).1, p.1)⟩, p.2)
    else some (⟨negative, whole, fraction, none⟩, t)
  | [] => some (⟨negative, whole, fraction, none⟩, t)

theorem whole?_of_ne {t : Text} (h : ∀ r, t = '0' :: r → False) : whole? t = digits1? t := by
  unfold whole?
  split
  · exact (h _ rfl).elim
  · rfl

theorem fraction?_of_ne {t : Text} (h : ∀ r, t = '.' :: r → False) :
    fraction? t = some ([], t) := by
  unfold fraction?
  split
  · exact (h _ rfl).elim
  · rfl

theorem numeral?_eq (negative : Bool) (t : Text) :
    numeral? negative t = (whole? t).bind fun w => (fraction? w.2).bind fun f =>
      withExponent? negative w.1 f.1 f.2 := by
  unfold numeral?
  dsimp only [bind, Option.bind_some]
  split
  · next r =>
    have hwhole : whole? ('0' :: r) = some (['0'], r) := rfl
    rw [hwhole, Option.bind_some]
    dsimp only
    split
    · rfl
    · next hpoint =>
      rw [fraction?_of_ne hpoint]
      rfl
  · next hzero =>
    rw [whole?_of_ne hzero]
    refine Option.bind_congr fun w _ => ?_
    split
    · next r hr =>
      rw [hr]
      rfl
    · next hpoint =>
      rw [fraction?_of_ne hpoint]
      rfl

theorem isLocal_whole? : IsLocal whole? := by
  intro rest h t
  rcases t with _ | ⟨c, t⟩
  · rw [List.nil_append, whole?_of_ne fun r => h.ne (by decide), whole?_of_ne (by simp)]
    exact digits1?_append h []
  · by_cases hc : c = '0'
    · subst hc
      rfl
    · rw [List.cons_append, whole?_of_ne (by simp [hc]), whole?_of_ne (by simp [hc]),
        ← List.cons_append, digits1?_append h]

theorem isLocal_fraction? : IsLocal fraction? := by
  intro rest h t
  rcases t with _ | ⟨c, t⟩
  · rw [List.nil_append, fraction?_of_ne fun r => h.ne (by decide), fraction?_of_ne (by simp)]
    rfl
  · by_cases hc : c = '.'
    · subst hc
      exact digits1?_append h t
    · rw [List.cons_append, fraction?_of_ne (by simp [hc]), fraction?_of_ne (by simp [hc])]
      rfl

theorem isLocal_withExponent? (negative : Bool) (whole fraction : Text) :
    IsLocal (withExponent? negative whole fraction) := by
  intro rest h t
  rcases t with _ | ⟨c, t⟩
  · rcases rest with _ | ⟨c, r⟩
    · rfl
    · have hc : ¬(c = 'e' ∨ c = 'E') := by
        rintro (rfl | rfl) <;> exact h.ne (by decide) rfl
      rw [List.nil_append]
      exact if_neg hc
  · rw [List.cons_append, withExponent?, withExponent?, takeSign_append h, digits1?_append h]
    split
    · rw [Option.bind_map, Option.map_bind]
      rfl
    · rfl

/-- A numeral ends where something else than a numeral begins. -/
theorem isLocal_numeral? (negative : Bool) : IsLocal (numeral? negative) := by
  rw [funext (numeral?_eq negative)]
  exact isLocal_whole?.bind fun w => isLocal_fraction?.bind fun f =>
    isLocal_withExponent? negative w f

theorem first?_digit {c : Char} (hc : c.isDigit = true) (r : Text) :
    first? (c :: r) = (numeral? false (c :: r)).map fun p => (.number p.1, p.2) := by
  have hne : ∀ d : Char, d.isDigit = false → c ≠ d := by
    rintro d hd rfl
    rw [hc] at hd
    cases hd
  rw [first?, if_neg (hne _ (by decide)), if_neg (hne _ (by decide)), if_neg (hne _ (by decide)),
    if_neg (hne _ (by decide)), if_neg (hne _ (by decide)), if_neg (hne _ (by decide)),
    if_neg (hne _ (by decide)), if_neg (hne _ (by decide)), if_pos hc]

/-- A number begins with a minus sign or with a digit. -/
theorem first?_eq_number_iff {c : Char} {r rest : Text} {m : Numeral} :
    first? (c :: r) = some (.number m, rest) ↔
      (c = '-' ∧ numeral? true r = some (m, rest)) ∨
      (c.isDigit = true ∧ numeral? false (c :: r) = some (m, rest)) := by
  by_cases hminus : c = '-'
  · subst hminus
    have hfirst : first? ('-' :: r) = (numeral? true r).map fun p => (.number p.1, p.2) := rfl
    have hdigit : ¬ Char.isDigit '-' = true := by decide
    rw [hfirst]
    simp [hdigit]
  · by_cases hdigit : c.isDigit = true
    · rw [first?_digit hdigit]
      simp [hminus, hdigit]
    · refine ⟨fun h => ?_, fun h => h.elim (absurd ·.1 hminus) (absurd ·.1 hdigit)⟩
      rw [first?, if_neg hminus, if_neg hdigit] at h
      repeat' split at h
      all_goals simp at h

theorem first?_append {t rest : Text} {m : Numeral} (ht : first? t = some (.number m, []))
    (h : Closes rest) : first? (t ++ rest) = some (.number m, rest) := by
  have hgo (negative : Bool) (t : Text) (ht : numeral? negative t = some (m, [])) :
      numeral? negative (t ++ rest) = some (m, rest) := by
    rw [isLocal_numeral? negative rest h, ht]
    rfl
  rcases t with _ | ⟨c, t⟩
  · cases ht
  · exact first?_eq_number_iff.2 ((first?_eq_number_iff.1 ht).imp (.imp_right (hgo true t))
      (.imp_right (hgo false (c :: t))))

/-! ### Integers -/

theorem isDigit_of_mem_ofNat {n : Nat} {c : Char} (h : c ∈ Decimal.ofNat n) : c.isDigit = true :=
  Nat.isDigit_of_mem_toDigits (by decide) (by decide) h

/-- Only zero is written with a zero in front. -/
theorem eq_zero_of_ofNat {n : Nat} {r : Text} (h : Decimal.ofNat n = '0' :: r) : n = 0 := by
  induction n using Nat.strongRecOn generalizing r with
  | ind n ih =>
    unfold Decimal.ofNat at h ih
    by_cases hn : n < 10
    · rw [Nat.toDigits_of_lt_base hn] at h
      have hall : ∀ k : Fin 10, Nat.digitChar k = '0' → k = 0 := by decide
      exact congrArg Fin.val (hall ⟨n, hn⟩ (List.cons.inj h).1)
    · rw [Nat.toDigits_of_base_le (by decide) (by omega)] at h
      cases hfront : Nat.toDigits 10 (n / 10) with
      | nil => exact absurd hfront Nat.toDigits_ne_nil
      | cons c s =>
        rw [hfront, List.cons_append, List.cons.injEq] at h
        have := ih (n / 10) (by omega) (h.1 ▸ hfront)
        omega

theorem numeral?_ofNat (negative : Bool) (n : Nat) :
    numeral? negative (Decimal.ofNat n) = some (⟨negative, Decimal.ofNat n, [], none⟩, []) := by
  have hdigits : digits1? (Decimal.ofNat n) = some (Decimal.ofNat n, []) := by
    have htake := List.takeWhile_eq_self_iff.2 fun c (hc : c ∈ Decimal.ofNat n) =>
      isDigit_of_mem_ofNat hc
    have hdrop := List.dropWhile_eq_nil_iff.2 fun c (hc : c ∈ Decimal.ofNat n) =>
      isDigit_of_mem_ofNat hc
    have hne : Decimal.ofNat n ≠ [] := Nat.toDigits_ne_nil
    simp [digits1?, Decimal.takeDigits, htake, hdrop, hne]
  have hwhole : whole? (Decimal.ofNat n) = some (Decimal.ofNat n, []) := by
    by_cases hn : n = 0
    · subst hn
      rfl
    · rw [whole?_of_ne fun r hr => hn (eq_zero_of_ofNat hr), hdigits]
  rw [numeral?_eq, hwhole]
  rfl

theorem first?_ofInt (n : Int) : first? (Decimal.ofInt n) =
    some (.number ⟨n < 0, Decimal.ofNat n.natAbs, [], none⟩, []) := by
  unfold Decimal.ofInt
  split
  · next h => exact first?_eq_number_iff.2 (.inl ⟨rfl, by rw [numeral?_ofNat, decide_eq_true h]⟩)
  · next h =>
    cases hdigits : Decimal.ofNat n.natAbs with
    | nil => exact absurd hdigits Nat.toDigits_ne_nil
    | cons c r =>
      have hc : c.isDigit = true := isDigit_of_mem_ofNat (hdigits ▸ List.mem_cons_self)
      refine first?_eq_number_iff.2 (.inr ⟨hc, ?_⟩)
      rw [← hdigits, numeral?_ofNat, decide_eq_false h]

/-! ## Scanning -/

theorem isSpace_of_first? {c : Char} {r : Text} {p : Token × Text}
    (h : first? (c :: r) = some p) : isSpace c = false := by
  cases hspace : isSpace c with
  | false => rfl
  | true =>
    simp only [isSpace, Bool.or_eq_true, decide_eq_true_eq] at hspace
    obtain ((rfl | rfl) | rfl) | rfl := hspace <;> cases h

/-- A text is scanned as some tokens and what is left of it. -/
def Scans (t : Text) (ts : List Token) (rest : Text) : Prop :=
  ∀ n, scan? (n + ts.length) t = (scan? n rest).map (ts ++ ·)

namespace Scans

variable {t r rest : Text} {token : Token} {ts us : List Token}

theorem nil : Scans t [] t := fun n => by simp

theorem cons (h : first? t = some (token, r)) (hr : Scans r ts rest) :
    Scans t (token :: ts) rest := by
  intro n
  cases t with
  | nil => cases h
  | cons c t =>
    rw [List.length_cons, ← Nat.add_assoc, scan?,
      List.dropWhile_cons_of_neg (by simp [isSpace_of_first? h])]
    simp only [h, hr n, Option.map_map]
    rfl

theorem one (h : first? t = some (token, r)) : Scans t [token] r := cons h nil

theorem append (h : Scans t ts r) (hr : Scans r us rest) : Scans t (ts ++ us) rest := by
  intro n
  rw [List.length_append, Nat.add_comm ts.length, ← Nat.add_assoc, h, hr, Option.map_map]
  exact congrArg (Option.map · _) (funext fun l => (List.append_assoc ts us l).symm)

end Scans

end Token

/-! ## Values -/

namespace Number

/-- The numeral that is read from the text of a number. -/
def numeral (n : Number) : Numeral :=
  match Token.first? n.text with
  | some (.number m, _) => m
  | _ => ⟨false, [], [], none⟩

/-- The text of a number is a numeral, and nothing else. -/
def IsLegible (n : Number) : Prop := Token.first? n.text = some (.number n.numeral, [])

theorem isLegible_int (n : Int) : IsLegible (.int n) := by
  have h : Token.first? (text (.int n)) = _ := Token.first?_ofInt n
  unfold IsLegible numeral
  rw [h]

theorem IsLegible.length_pos {n : Number} (h : n.IsLegible) : 0 < n.text.length := by
  unfold IsLegible at h
  cases ht : n.text with
  | nil => rw [ht] at h; cases h
  | cons c r => exact Nat.succ_pos _

end Number

namespace Value

mutual

/-- The tokens of the text of a value. -/
def tokens (v : Value) : List Token :=
  match v with
  | .null => [.null]
  | .bool b => [.bool b]
  | .number n => [.number n.numeral]
  | .string s => [.string (some s)]
  | .array items => .openBracket :: (itemTokens items ++ [.closeBracket])
  | .object fields => .openBrace :: (fieldTokens fields ++ [.closeBrace])

def itemTokens (items : List Value) : List Token :=
  match items with
  | [] => []
  | [v] => tokens v
  | v :: w :: r => tokens v ++ .comma :: itemTokens (w :: r)

def fieldTokens (fields : List (String × Value)) : List Token :=
  match fields with
  | [] => []
  | [(k, v)] => .string (some k) :: .colon :: tokens v
  | (k, v) :: f :: r => .string (some k) :: .colon :: (tokens v ++ .comma :: fieldTokens (f :: r))

end

mutual

/-- The doubles in a value. -/
def doubles (v : Value) : List Float :=
  match v with
  | .number (.float x) => [x]
  | .array items => itemDoubles items
  | .object fields => fieldDoubles fields
  | .null | .bool _ | .number (.int _) | .string _ => []

def itemDoubles (items : List Value) : List Float :=
  match items with
  | [] => []
  | v :: r => doubles v ++ itemDoubles r

def fieldDoubles (fields : List (String × Value)) : List Float :=
  match fields with
  | [] => []
  | (_, v) :: r => doubles v ++ fieldDoubles r

end

open Token

theorem first?_null (rest : Text) : first? (text .null ++ rest) = some (.null, rest) := rfl

theorem first?_bool (b : Bool) (rest : Text) :
    first? (text (.bool b) ++ rest) = some (.bool b, rest) := by
  cases b <;> rfl

mutual

/-- The text of a value is scanned as its tokens, whatever follows it. -/
theorem scans_text (v : Value) (hv : ∀ x ∈ v.doubles, (Number.float x).IsLegible)
    {rest : Text} (h : Closes rest) : Scans (v.text ++ rest) v.tokens rest := by
  match v with
  | .null => exact .one (first?_null rest)
  | .bool b => exact .one (first?_bool b rest)
  | .number (.int i) => exact .one (first?_append (Number.isLegible_int i) h)
  | .number (.float x) => exact .one (first?_append (hv x List.mem_cons_self) h)
  | .string s => exact .one (first?_quote s rest)
  | .array items =>
    have hitems := scans_itemsText items hv (closes_cons (.inr (.inl rfl)) rest)
    rw [text, List.cons_append, List.append_assoc]
    exact .cons rfl (hitems.append (.one rfl))
  | .object fields =>
    have hfields := scans_fieldsText fields hv (closes_cons (.inr (.inr rfl)) rest)
    rw [text, List.cons_append, List.append_assoc]
    exact .cons rfl (hfields.append (.one rfl))

theorem scans_itemsText (items : List Value)
    (hv : ∀ x ∈ itemDoubles items, (Number.float x).IsLegible) {rest : Text} (h : Closes rest) :
    Scans (itemsText items ++ rest) (itemTokens items) rest := by
  match items with
  | [] => exact .nil
  | [v] => exact scans_text v (fun x hx => hv x (List.mem_append_left _ hx)) h
  | v :: w :: r =>
    have hfirst := scans_text v (fun x hx => hv x (List.mem_append_left _ hx))
      (closes_cons (.inl rfl) (itemsText (w :: r) ++ rest))
    have hrest := scans_itemsText (w :: r) (fun x hx => hv x (List.mem_append_right _ hx)) h
    rw [itemsText, List.append_assoc]
    exact hfirst.append (.cons rfl hrest)

theorem scans_fieldsText (fields : List (String × Value))
    (hv : ∀ x ∈ fieldDoubles fields, (Number.float x).IsLegible) {rest : Text} (h : Closes rest) :
    Scans (fieldsText fields ++ rest) (fieldTokens fields) rest := by
  match fields with
  | [] => exact .nil
  | [(k, v)] =>
    have hfirst := scans_text v (fun x hx => hv x (List.mem_append_left _ hx)) h
    rw [fieldsText, List.append_assoc]
    exact .cons (first?_quote k _) (.cons rfl hfirst)
  | (k, v) :: f :: r =>
    have hfirst := scans_text v (fun x hx => hv x (List.mem_append_left _ hx))
      (closes_cons (.inl rfl) (fieldsText (f :: r) ++ rest))
    have hrest := scans_fieldsText (f :: r) (fun x hx => hv x (List.mem_append_right _ hx)) h
    rw [fieldsText, List.append_assoc, List.cons_append, List.append_assoc]
    exact .cons (first?_quote k _) (.cons rfl (hfirst.append (.cons rfl hrest)))

end

mutual

theorem length_tokens_le (v : Value) (hv : ∀ x ∈ v.doubles, (Number.float x).IsLegible) :
    v.tokens.length ≤ v.text.length := by
  match v with
  | .null => simp [tokens, text]
  | .bool b => cases b <;> simp [tokens, text]
  | .number (.int i) => exact (Number.isLegible_int i).length_pos
  | .number (.float x) => exact (hv x List.mem_cons_self).length_pos
  | .string s => simp [tokens, text, Text.quote]
  | .array items =>
    have := length_itemTokens_le items hv
    simpa [tokens, text] using this
  | .object fields =>
    have := length_fieldTokens_le fields hv
    simpa [tokens, text] using this

theorem length_itemTokens_le (items : List Value)
    (hv : ∀ x ∈ itemDoubles items, (Number.float x).IsLegible) :
    (itemTokens items).length ≤ (itemsText items).length := by
  match items with
  | [] => exact Nat.le_refl _
  | [v] => exact length_tokens_le v (fun x hx => hv x (List.mem_append_left _ hx))
  | v :: w :: r =>
    have hfirst := length_tokens_le v (fun x hx => hv x (List.mem_append_left _ hx))
    have hrest := length_itemTokens_le (w :: r) (fun x hx => hv x (List.mem_append_right _ hx))
    rw [itemTokens, itemsText, List.length_append, List.length_append, List.length_cons,
      List.length_cons]
    omega

theorem length_fieldTokens_le (fields : List (String × Value))
    (hv : ∀ x ∈ fieldDoubles fields, (Number.float x).IsLegible) :
    (fieldTokens fields).length ≤ (fieldsText fields).length := by
  match fields with
  | [] => exact Nat.le_refl _
  | [(k, v)] =>
    have hfirst := length_tokens_le v (fun x hx => hv x (List.mem_append_left _ hx))
    simp only [fieldTokens, fieldsText, Text.quote, List.length_append, List.length_cons]
    omega
  | (k, v) :: f :: r =>
    have hfirst := length_tokens_le v (fun x hx => hv x (List.mem_append_left _ hx))
    have hrest := length_fieldTokens_le (f :: r) (fun x hx => hv x (List.mem_append_right _ hx))
    simp only [fieldTokens, fieldsText, Text.quote, List.length_append, List.length_cons]
    omega

end

/-- The text of a value consists of its tokens. -/
theorem ofText?_text {v : Value} (hv : ∀ x ∈ v.doubles, (Number.float x).IsLegible) :
    Token.ofText? v.text = some v.tokens := by
  have hlength := length_tokens_le v hv
  have hend : Closes [] := nofun
  have hscan := scans_text v hv hend (v.text.length - v.tokens.length)
  rw [Nat.sub_add_cancel hlength, List.append_nil] at hscan
  rw [Token.ofText?, hscan, scan?]
  simp

end Value

end TouchPanel.Json
