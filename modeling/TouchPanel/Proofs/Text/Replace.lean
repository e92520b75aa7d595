import TouchPanel.Proofs.Text.Split
import TouchPanel.Text.Quoted

/-!
# Replacing a word

A word is replaced from left to right. A word without a newline is replaced line by line if
what takes its place has no newline either.
-/

namespace TouchPanel.Text

variable {word fill : Text}

theorem cutFrom_ne_nil (word : Text) (k : Nat) (t : Text) : cutFrom word k t ≠ [] := by
  induction t generalizing k with
  | nil => cases k <;> simp [cutFrom]
  | cons c t ih =>
    cases k with
    | succ k => exact ih k
    | zero =>
      rw [cutFrom]
      split
      · simp
      · cases cutFrom word 0 t <;> simp [consHead]

theorem cutFrom_eq_drop (word : Text) (k : Nat) (t : Text) :
    cutFrom word k t = cutFrom word 0 (t.drop k) := by
  induction t generalizing k with
  | nil => cases k <;> rfl
  | cons c t ih =>
    cases k with
    | zero => rfl
    | succ k => exact ih k

theorem replace_nil (word fill : Text) : replace word fill [] = [] := rfl

theorem replace_word_append (hw : word ≠ []) (t : Text) :
    replace word fill (word ++ t) = fill ++ replace word fill t := by
  obtain ⟨c, w, rfl⟩ := List.exists_cons_of_ne_nil hw
  have hs : startsWith (c :: w) (c :: (w ++ t)) = true :=
    startsWith_iff.2 ⟨t, rfl⟩
  have hcut : cut (c :: w) (c :: (w ++ t)) = [] :: cut (c :: w) t := by
    rw [cut, cutFrom, if_pos hs, cutFrom_eq_drop, cut]
    simp
  obtain ⟨p, ps, hp⟩ := List.exists_cons_of_ne_nil (cutFrom_ne_nil (c :: w) 0 t)
  rw [List.cons_append, replace, replace, hcut, cut, hp]
  rfl

theorem replace_cons {c : Char} {t : Text} (h : ¬ word <+: c :: t) :
    replace word fill (c :: t) = c :: replace word fill t := by
  rw [← startsWith_iff_isPrefix] at h
  obtain ⟨p, ps, hp⟩ := List.exists_cons_of_ne_nil (cutFrom_ne_nil word 0 t)
  rw [replace, replace, cut, cutFrom, if_neg h, cut, hp]
  cases ps <;> rfl

/-- Where the word does not stand nothing changes. -/
theorem replace_of_not_infix {t : Text} (h : ¬ word <:+: t) : replace word fill t = t := by
  induction t with
  | nil => rfl
  | cons c t ih =>
    have hpre : ¬ word <+: c :: t := fun hp => h hp.isInfix
    have htail : ¬ word <:+: t := fun hi => h (hi.trans (List.suffix_cons c t).isInfix)
    rw [replace_cons hpre, ih htail]

/-- A text is empty, or it begins with the word, or with a character at which the word does
not begin. -/
theorem word_induction {P : Text → Prop} (hw : word ≠ []) (nil : P [])
    (skip : ∀ t, P t → P (word ++ t)) (cons : ∀ c t, ¬ word <+: c :: t → P t → P (c :: t))
    (t : Text) : P t := by
  induction hlen : t.length using Nat.strong_induction_on generalizing t with
  | _ n ih =>
    subst hlen
    cases t with
    | nil => exact nil
    | cons c t =>
      by_cases hpre : word <+: c :: t
      · obtain ⟨rest, hrest⟩ := hpre
        have hshort : rest.length < (c :: t).length := by
          have hpos := List.length_pos_iff.2 hw
          rw [← hrest, List.length_append]
          omega
        rw [← hrest]
        exact skip rest (ih _ hshort rest rfl)
      · exact cons c t hpre (ih t.length (by simp) t rfl)

theorem prefix_append_cons_iff {c : Char} (hc : c ∉ word) {a b : Text} :
    word <+: a ++ c :: b ↔ word <+: a := by
  refine ⟨fun h => ?_, fun h => h.trans (List.prefix_append a _)⟩
  rcases List.prefix_or_prefix_of_prefix h (List.prefix_append a (c :: b)) with h' | ⟨r, rfl⟩
  · exact h'
  · -- what the word has beyond `a` would begin with `c`
    cases r with
    | nil => simp
    | cons d r =>
      rw [List.prefix_append_right_inj, List.cons_prefix_cons] at h
      exact absurd (by simp [h.1]) hc

theorem infix_of_infix_append {a b : Text} (hw : word ≠ []) (hb : ∀ c ∈ b, c ∉ word)
    (h : word <:+: a ++ b) : word <:+: a := by
  obtain ⟨front, rest, heq⟩ := h
  rcases List.append_eq_append_iff.1 heq with ⟨x, hx, -⟩ | ⟨x, hx, hb'⟩
  · exact ⟨front, x, hx.symm⟩
  · -- the last character of the word would stand in `b`
    rcases List.eq_nil_or_concat' x with rfl | ⟨x, c, rfl⟩
    · exact ⟨front, [], by rw [List.append_nil, hx, List.append_nil]⟩
    · obtain ⟨w, c', rfl⟩ := (List.eq_nil_or_concat' word).resolve_left hw
      rw [← List.append_assoc, ← List.append_assoc] at hx
      obtain ⟨-, hlast⟩ := List.append_inj' hx rfl
      obtain rfl : c' = c := List.singleton_inj.1 hlast
      exact absurd (by simp) (hb c' (by rw [hb']; simp))

theorem infix_of_append_left {a b : Text} (hw : word ≠ []) (ha : ∀ c ∈ a, c ∉ word)
    (h : word <:+: a ++ b) : word <:+: b := by
  induction a with
  | nil => exact h
  | cons c a ih =>
    obtain ⟨hc, hrest⟩ := List.forall_mem_cons.1 ha
    rcases List.infix_cons_iff.1 h with hpre | hin
    · obtain ⟨d, w, rfl⟩ := List.exists_cons_of_ne_nil hw
      exact absurd ((List.cons_prefix_cons.1 hpre).1 ▸ List.mem_cons_self) hc
    · exact ih hrest hin

theorem infix_append_cons {c : Char} (hc : c ∉ word) {a b : Text} (h : word <:+: a ++ c :: b) :
    word <:+: a ∨ word <:+: b := by
  induction a with
  | nil =>
    rcases List.infix_cons_iff.1 h with hpre | hin
    · rw [← List.nil_append (c :: b), prefix_append_cons_iff hc] at hpre
      exact Or.inl hpre.isInfix
    · exact Or.inr hin
  | cons d a ih =>
    rw [List.cons_append] at h
    rcases List.infix_cons_iff.1 h with hpre | hin
    · rw [← List.cons_append, prefix_append_cons_iff hc] at hpre
      exact Or.inl hpre.isInfix
    · exact (ih hin).imp (fun hin => hin.trans (List.suffix_cons d a).isInfix) id

theorem replace_append_cons (hw : word ≠ []) {c : Char} (hc : c ∉ word) (a b : Text) :
    replace word fill (a ++ c :: b) = replace word fill a ++ c :: replace word fill b := by
  induction a using word_induction hw with
  | nil =>
    have hpre : ¬ word <+: c :: b := by
      rw [← List.nil_append (c :: b), prefix_append_cons_iff hc, List.prefix_nil]
      exact hw
    rw [List.nil_append, replace_cons hpre, replace_nil, List.nil_append]
  | skip a ih =>
    rw [List.append_assoc, replace_word_append hw, ih, replace_word_append hw, List.append_assoc]
  | cons d a hpre ih =>
    have hlong : ¬ word <+: d :: (a ++ c :: b) := by
      rwa [← List.cons_append, prefix_append_cons_iff hc]
    rw [List.cons_append, replace_cons hlong, replace_cons hpre, ih, List.cons_append]

theorem replace_append_left (hw : word ≠ []) {a : Text} (ha : ∀ c ∈ a, c ∉ word) (t : Text) :
    replace word fill (a ++ t) = a ++ replace word fill t := by
  induction a with
  | nil => rfl
  | cons c a ih =>
    obtain ⟨hc, hrest⟩ := List.forall_mem_cons.1 ha
    have hstep : replace word fill ([] ++ c :: (a ++ t)) = [] ++ c :: replace word fill (a ++ t) :=
      replace_append_cons hw hc [] (a ++ t)
    rw [List.nil_append, List.nil_append] at hstep
    rw [List.cons_append, hstep, ih hrest, List.cons_append]

theorem replace_append_right (hw : word ≠ []) {b : Text} (hb : ∀ c ∈ b, c ∉ word) (t : Text) :
    replace word fill (t ++ b) = replace word fill t ++ b := by
  cases b with
  | nil => rw [List.append_nil, List.append_nil]
  | cons c b =>
    obtain ⟨hc, hrest⟩ := List.forall_mem_cons.1 hb
    have hfree : ¬ word <:+: b := by
      intro hin
      obtain ⟨d, w, rfl⟩ := List.exists_cons_of_ne_nil hw
      exact hrest d (hin.subset List.mem_cons_self) List.mem_cons_self
    rw [replace_append_cons hw hc, replace_of_not_infix hfree]

theorem replace_append_returns (hw : word ≠ []) (hreturn : '\r' ∉ word) {b : Text}
    (hb : ∀ c ∈ b, c = '\r') (t : Text) :
    replace word fill (t ++ b) = replace word fill t ++ b :=
  replace_append_right hw (fun c hc => (hb c hc).symm ▸ hreturn) t

theorem newline_not_mem_replace (hw : word ≠ []) (hf : '\n' ∉ fill) {t : Text} (ht : '\n' ∉ t) :
    '\n' ∉ replace word fill t := by
  induction t using word_induction hw with
  | nil => simp [replace_nil]
  | skip t ih =>
    rw [replace_word_append hw, List.mem_append]
    rintro (h | h)
    · exact hf h
    · exact ih (fun hmem => ht (List.mem_append_right word hmem)) h
  | cons c t hpre ih =>
    obtain ⟨hc, hrest⟩ := List.ne_and_not_mem_of_not_mem_cons ht
    rw [replace_cons hpre, List.mem_cons]
    rintro (h | h)
    · exact hc h
    · exact ih hrest h

theorem mem_replace {t : Text} {c : Char} (hw : word ≠ []) (hc : c ∉ word) (h : c ∈ t) :
    c ∈ replace word fill t := by
  induction t using word_induction hw with
  | nil => cases h
  | skip t ih =>
    rw [replace_word_append hw]
    exact List.mem_append_right _ (ih ((List.mem_append.1 h).resolve_left hc))
  | cons d t hpre ih =>
    rw [replace_cons hpre]
    exact List.mem_cons.2 ((List.mem_cons.1 h).imp_right ih)

theorem splitOn_replace (hw : word ≠ []) (hn : '\n' ∉ word) (hf : '\n' ∉ fill) (t : Text) :
    (replace word fill t).splitOn '\n' = (t.splitOn '\n').map (replace word fill) := by
  have hjoin : ∀ ls : List Text, ls ≠ [] → (∀ l ∈ ls, '\n' ∉ l) →
      (replace word fill (joinLines ls)).splitOn '\n' = ls.map (replace word fill) := by
    intro ls hne hls
    induction ls with
    | nil => exact absurd rfl hne
    | cons l r ih =>
      obtain ⟨hl, hrest⟩ := List.forall_mem_cons.1 hls
      have hfree := newline_not_mem_replace hw hf hl
      by_cases hr : r = []
      · rw [hr]
        exact List.splitOn_eq_singleton hfree
      · rw [joinLines_cons hr, replace_append_cons hw hn,
          List.splitOn_append_cons_self_of_not_mem hfree, ih hr hrest, List.map_cons]
  have := hjoin _ (List.splitOn_ne_nil '\n' t) fun l hl => newline_not_mem_of_mem_splitOn hl
  rwa [joinLines_splitOn] at this

/-! ## What stands in the result -/

section

variable {v m t : Text} {c : Char}

theorem prefix_of_prefix_replace (hw : word ≠ []) (hc : c ∉ v)
    (h : v <+: replace word (c :: m ++ [c]) t) : v <+: t := by
  induction t using word_induction hw generalizing v with
  | nil => exact h
  | skip t _ =>
    -- what takes the place of the word begins with a character that is not in `v`
    rw [replace_word_append hw] at h
    cases v with
    | nil => exact List.nil_prefix
    | cons x v => exact absurd ((List.cons_prefix_cons.1 h).1 ▸ List.mem_cons_self) hc
  | cons x t hpre ih =>
    rw [replace_cons hpre] at h
    cases v with
    | nil => exact List.nil_prefix
    | cons y v =>
      obtain ⟨rfl, hrest⟩ := List.cons_prefix_cons.1 h
      exact (List.prefix_cons_inj y).2 (ih (fun hmem => hc (List.mem_cons_of_mem y hmem)) hrest)

/-- A word that stands in the result stands in what was put in, or it stood in the text before
and is another one than the word that was replaced. -/
theorem infix_of_infix_replace (hw : word ≠ []) (hv : v ≠ []) (hc : c ∉ v)
    (h : v <:+: replace word (c :: m ++ [c]) t) : v <:+: m ∨ v <:+: t ∧ v ≠ word := by
  induction t using word_induction hw with
  | nil => exact absurd (List.infix_nil.1 h) hv
  | skip t ih =>
    have hsplit : ∀ r : Text, (c :: m ++ [c]) ++ r = [] ++ c :: (m ++ c :: r) := by simp
    rw [replace_word_append hw, hsplit] at h
    rcases infix_append_cons hc h with h | h
    · exact absurd (List.infix_nil.1 h) hv
    rcases infix_append_cons hc h with h | h
    · exact Or.inl h
    · exact (ih h).imp id fun ⟨hin, hne⟩ => ⟨hin.trans (List.suffix_append word t).isInfix, hne⟩
  | cons x t hpre ih =>
    rw [replace_cons hpre] at h
    rcases List.infix_cons_iff.1 h with hfirst | hin
    · rw [← replace_cons hpre] at hfirst
      have hstood := prefix_of_prefix_replace hw hc hfirst
      exact Or.inr ⟨hstood.isInfix, fun heq => hpre (heq ▸ hstood)⟩
    · exact (ih hin).imp id fun ⟨hin, hne⟩ => ⟨hin.trans (List.suffix_cons x t).isInfix, hne⟩

end

/-! ## Quoted text -/

theorem hexDigit_ne_newline (n : Nat) : hexDigit n ≠ '\n' := by
  have hdigits : ∀ k < 16, Nat.digitChar k ≠ '\n' := by decide
  exact hdigits _ (Nat.mod_lt n (by omega))

theorem newline_not_mem_escape (c : Char) : '\n' ∉ escape c := by
  have hhigh := (hexDigit_ne_newline (c.toNat / 16)).symm
  have hlow := (hexDigit_ne_newline c.toNat).symm
  unfold escape
  split_ifs <;> simp_all [eq_comm]

/-- What escapes a character has no capital letter and no underscore. -/
theorem escape_cases (c : Char) :
    escape c = [c] ∨ escape c ≠ [] ∧ ∀ x ∈ escape c, x.isUpper = false ∧ x ≠ '_' := by
  have hdigits : ∀ k < 16, (Nat.digitChar k).isUpper = false ∧ Nat.digitChar k ≠ '_' := by decide
  have hdigit : ∀ n, (hexDigit n).isUpper = false ∧ hexDigit n ≠ '_' := fun n =>
    hdigits _ (Nat.mod_lt n (by omega))
  unfold escape
  split_ifs
  all_goals first
    | exact Or.inl rfl
    | refine Or.inr ⟨by simp, ?_⟩
      simp only [List.forall_mem_cons, List.not_mem_nil, false_imp_iff, implies_true, and_true]
  all_goals first
    | decide
    | exact ⟨by decide, by decide, by decide, by decide, hdigit _, hdigit _⟩

/-- A word in capital letters. -/
def IsCapital (word : Text) : Prop := word ≠ [] ∧ ∀ c ∈ word, c.isUpper = true ∨ c = '_'

instance (word : Text) : Decidable (IsCapital word) :=
  @instDecidableAnd _ _ _ (List.decidableBAll (fun c => c.isUpper = true ∨ c = '_') word)

theorem prefix_of_prefix_flatMap_escape (hw : ∀ c ∈ word, c.isUpper = true ∨ c = '_') {t : Text}
    (h : word <+: t.flatMap escape) : word <+: t := by
  induction t generalizing word with
  | nil => exact h
  | cons c t ih =>
    cases word with
    | nil => exact List.nil_prefix
    | cons w word =>
      obtain ⟨hhead, htail⟩ := List.forall_mem_cons.1 hw
      rw [List.flatMap_cons] at h
      rcases escape_cases c with hc | ⟨hne, hc⟩
      · rw [hc, List.singleton_append, List.cons_prefix_cons] at h
        rw [h.1]
        exact (List.prefix_cons_inj c).2 (ih htail h.2)
      · obtain ⟨x, xs, hx⟩ := List.exists_cons_of_ne_nil hne
        rw [hx, List.cons_append, List.cons_prefix_cons] at h
        obtain ⟨hupper, hline⟩ := hc x (hx ▸ List.mem_cons_self)
        rw [h.1] at hhead
        rcases hhead with hhead | hhead
        · rw [hupper] at hhead
          cases hhead
        · exact absurd hhead hline

theorem infix_of_infix_flatMap_escape (hw : IsCapital word) {t : Text}
    (h : word <:+: t.flatMap escape) : word <:+: t := by
  induction t with
  | nil => exact h
  | cons c t ih =>
    by_cases hin : word <:+: t.flatMap escape
    · exact (ih hin).trans (List.suffix_cons c t).isInfix
    · rw [List.flatMap_cons] at h
      rcases escape_cases c with hc | ⟨-, hc⟩
      · have hpre : word <+: (c :: t).flatMap escape := by
          rw [hc, List.singleton_append, List.infix_cons_iff] at h
          rw [List.flatMap_cons, hc]
          exact h.resolve_right hin
        exact (prefix_of_prefix_flatMap_escape hw.2 hpre).isInfix
      · have hapart : ∀ x ∈ escape c, x ∉ word := by
          intro x hx hmem
          obtain ⟨hupper, hline⟩ := hc x hx
          rcases hw.2 x hmem with h | h
          · rw [hupper] at h
            cases h
          · exact hline h
        exact absurd (infix_of_append_left hw.1 hapart h) hin

theorem not_infix_quote (hw : IsCapital word) {t : Text} (h : ¬ word <:+: t) :
    ¬ word <:+: quote t := by
  have hquote : '"' ∉ word := by
    intro hmem
    rcases hw.2 _ hmem with h | h <;> cases h
  intro hin
  have hfront : word <:+: '"' :: t.flatMap escape :=
    infix_of_infix_append hw.1 (by simpa using hquote) hin
  exact h (infix_of_infix_flatMap_escape hw
    (infix_of_append_left hw.1 (a := ['"']) (by simpa using hquote) hfront))

theorem newline_not_mem_quote (t : Text) : '\n' ∉ quote t := by
  have hescape : '\n' ∉ t.flatMap escape := by
    intro h
    obtain ⟨c, -, hc⟩ := List.mem_flatMap.1 h
    exact newline_not_mem_escape c hc
  simp [quote, hescape]

end TouchPanel.Text
