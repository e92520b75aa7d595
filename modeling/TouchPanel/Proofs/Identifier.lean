import TouchPanel.Identifier
import TouchPanel.Proofs.Output.Rows
import TouchPanel.Proofs.Recipe.Key

/-!
# Identifiers on one line

Names made plain, slugs and entity references have no newline, and what is left of a text
after trimming ends clean or is empty.
-/

namespace TouchPanel

open Text Recipe

/-- A string without a newline. -/
def IsLineText (s : String) : Prop := '\n' ∉ s.toList

instance (s : String) : Decidable (IsLineText s) := inferInstanceAs (Decidable (¬ '\n' ∈ s.toList))

theorem IsLineText.append {a b : String} (ha : IsLineText a) (hb : IsLineText b) :
    IsLineText (a ++ b) := by
  unfold IsLineText at *
  rw [String.toList_append, List.mem_append]
  exact fun h => h.elim ha hb

theorem endsClean_append (a : String) {b : String} (h : EndsClean b.toList) :
    EndsClean (a ++ b).toList := by
  rw [String.toList_append]
  exact h.append _

theorem isDigit_of_mem_repr {n : Nat} {c : Char} (h : c ∈ n.repr.toList) : c.isDigit = true := by
  rw [Nat.toList_repr] at h
  exact Nat.isDigit_of_mem_toDigits (by omega) (by omega) h

theorem isLineText_repr (n : Nat) : IsLineText n.repr := by
  intro h
  cases isDigit_of_mem_repr h

theorem repr_inj {m n : Nat} (h : m.repr = n.repr) : m = n := by
  have hdigits : Nat.toDigits 10 m = Nat.toDigits 10 n := by
    rw [← Nat.toList_repr, ← Nat.toList_repr, h]
  calc
    m = Nat.ofDigitChars 10 (Nat.toDigits 10 m) 0 := Nat.ofDigitChars_ten_toDigits.symm
    _ = Nat.ofDigitChars 10 (Nat.toDigits 10 n) 0 := by rw [hdigits]
    _ = n := Nat.ofDigitChars_ten_toDigits

/-- The last place of a character parts a text in one way only. -/
theorem append_cons_inj_of_not_mem {c : Char} {a b u v : Text} (hu : c ∉ u) (hv : c ∉ v)
    (h : a ++ c :: u = b ++ c :: v) : a = b ∧ u = v := by
  have hfront : a = b := by
    rcases List.append_eq_append_iff.1 h with ⟨d, rfl, hd⟩ | ⟨d, rfl, hd⟩
    · match d with
      | [] => rw [List.append_nil]
      | x :: d =>
        obtain ⟨-, rfl⟩ := List.cons.inj hd
        simp at hu
    · match d with
      | [] => rw [List.append_nil]
      | x :: d =>
        obtain ⟨-, rfl⟩ := List.cons.inj hd
        simp at hv
  subst hfront
  exact ⟨rfl, (List.cons.inj (List.append_cancel_left h)).2⟩

theorem trimmed_cases (s : String) : trimmed s = "" ∨ EndsClean (trimmed s).toList := by
  unfold trimmed
  rw [String.toList_ofList]
  by_cases h : allBlank s.toList = true
  · left
    have htrim : trim s.toList = [] := by
      have := trim_append_blank [] h
      rwa [List.nil_append] at this
    rw [htrim]
  · exact Or.inr (endsClean_trim (by simpa using h))

theorem splitAt?_eq_some {c : Char} {t a b : Text} (h : splitAt? c t = some (a, b)) :
    t = a ++ c :: b := by
  unfold splitAt? at h
  split at h
  · cases h
  · next d rest hdrop =>
    obtain ⟨rfl, rfl⟩ := Prod.mk.inj (Option.some.inj h)
    have hd : d = c := by
      have hhead := List.head?_dropWhile_not (· != c) t
      rw [hdrop] at hhead
      simpa using hhead
    conv_lhs => rw [← List.takeWhile_append_dropWhile (p := (· != c)) (l := t), hdrop, hd]

namespace Identifier

theorem isBlank_of_isPlainChar {c : Char} (h : isPlainChar c = true) : isBlank c = false :=
  isBlank_of_isKeyChar (by simp_all [isKeyChar, isPlainChar])

theorem isPlainChar_of_isSlugChar {c : Char} (h : isSlugChar c = true) : isPlainChar c = true := by
  unfold isPlainChar Char.isAlphanum Char.isAlpha
  simp only [isSlugChar, Bool.or_eq_true] at h ⊢
  tauto

/-- A name of letters, digits and underscores. -/
def IsPlain (s : String) : Prop := ∀ c ∈ s.toList, isPlainChar c = true

-- over the characters of the name, not over all characters
instance (s : String) : Decidable (IsPlain s) :=
  List.decidableBAll (fun c => isPlainChar c = true) s.toList

theorem IsPlain.append {a b : String} (ha : IsPlain a) (hb : IsPlain b) : IsPlain (a ++ b) := by
  intro c hc
  rw [String.toList_append] at hc
  exact (List.mem_append.1 hc).elim (ha c) (hb c)

theorem isPlain_plain (raw : String) : IsPlain (plain raw) := by
  intro c hc
  rw [plain, String.toList_ofList, List.mem_map] at hc
  obtain ⟨d, -, rfl⟩ := hc
  split
  · next hd => exact hd
  · decide

theorem IsPlain.isLineText {s : String} (h : IsPlain s) : IsLineText s := fun hmem => by
  cases h _ hmem

theorem isLineText_plain (raw : String) : IsLineText (plain raw) :=
  (isPlain_plain raw).isLineText

theorem isBlank_of_mem_plain {raw : String} {c : Char} (h : c ∈ (plain raw).toList) :
    isBlank c = false :=
  isBlank_of_isPlainChar (isPlain_plain raw c h)

/-- An emitted id is the replacement of the reserved one, or it is an identifier. -/
theorem emitted_eq_or_isPlain (policy : Policy) (raw : String) :
    policy.emitted raw = policy.replacement ∨ IsPlain (policy.emitted raw) := by
  unfold Policy.emitted
  dsimp only
  split
  · exact Or.inl rfl
  · split
    · exact Or.inr (by decide)
    · exact Or.inr (isPlain_plain _)

theorem isLineText_emitted {policy : Policy} (h : IsLineText policy.replacement) (raw : String) :
    IsLineText (policy.emitted raw) := by
  rcases emitted_eq_or_isPlain policy raw with heq | hplain
  · exact heq ▸ h
  · exact hplain.isLineText

theorem mem_fields {separator : Char → Bool} {t w : Text} (h : w ∈ fields separator t) :
    ∀ c ∈ w, separator c = false := by
  induction t generalizing w with
  | nil =>
    rw [List.mem_singleton.1 h]
    simp
  | cons c t ih =>
    rw [fields] at h
    split at h
    · rcases List.mem_cons.1 h with rfl | h
      · simp
      · exact ih h
    · next hc =>
      have hc' : separator c = false := by simpa using hc
      cases hfields : fields separator t with
      | nil =>
        rw [hfields] at h
        rw [List.mem_singleton.1 h]
        simpa using hc'
      | cons f fs =>
        rw [hfields] at h
        rcases List.mem_cons.1 h with rfl | h
        · exact List.forall_mem_cons.2 ⟨hc', ih (hfields ▸ List.mem_cons_self)⟩
        · exact ih (hfields ▸ List.mem_cons_of_mem _ h)

theorem newline_not_mem_words {t w : Text}
    (h : w ∈ words (fun c => !isSlugChar c || c == '_') t) : '\n' ∉ w := by
  intro hmem
  cases mem_fields (List.mem_of_mem_filter h) _ hmem

theorem isLineText_slug (reference : String) : IsLineText (slug reference) := by
  unfold slug
  dsimp only
  split
  · decide
  · next w ws hwords =>
    have hfree : ∀ x ∈ w :: ws, '\n' ∉ x := fun x hx => newline_not_mem_words (hwords ▸ hx)
    obtain ⟨hw, hws⟩ := List.forall_mem_cons.1 hfree
    rw [IsLineText, String.toList_ofList, List.mem_append, List.mem_flatMap]
    rintro (h | ⟨x, hx, h⟩)
    · exact hw h
    · rcases List.mem_cons.1 h with h | h
      · cases h
      · exact hws x hx h

/-- The characters of an entity reference. -/
theorem isEntityReference_spec {s : String} (h : isEntityReference s = true) :
    IsLineText s ∧ EndsClean s.toList := by
  have hslug : ∀ c, isSlugChar c = true → isBlank c = false ∧ c ≠ '\n' := by
    intro c hc
    refine ⟨isBlank_of_isPlainChar (isPlainChar_of_isSlugChar hc), ?_⟩
    rintro rfl
    cases hc
  unfold isEntityReference at h
  split at h
  · cases h
  · next domain object hsplit =>
    simp only [Bool.and_eq_true, Bool.not_eq_true', List.isEmpty_eq_false_iff] at h
    obtain ⟨⟨⟨-, hdomain⟩, hne⟩, hobject⟩ := h
    have hs := splitAt?_eq_some hsplit
    rw [List.all_eq_true] at hdomain hobject
    rw [IsLineText, hs]
    constructor
    · rw [List.mem_append, List.mem_cons]
      rintro (h | h | h)
      · exact (hslug _ (hdomain _ h)).2 rfl
      · cases h
      · exact (hslug _ (hobject _ h)).2 rfl
    · have hclean : EndsClean object :=
        ⟨_, List.getLast?_eq_some_getLast hne, (hslug _ (hobject _ (List.getLast_mem hne))).1⟩
      exact (hclean.append ['.']).append domain

end Identifier

end TouchPanel
