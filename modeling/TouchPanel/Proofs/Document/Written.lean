import TouchPanel.Proofs.Document.Join

/-!
# Lines with the name and the key put in

Placeholders have no blanks, and what takes their place begins with a quote. So a line keeps its
indentation, and a blank line, a comment and a line of content each stay what they are.
-/

namespace TouchPanel.Document

open Text Recipe

variable {d : Device} {l : Text}

/-- A text none of whose characters stands in a placeholder. -/
def IsApart (t : Text) : Prop := ∀ c ∈ t, c ∉ deviceNamePlaceholder ∧ c ∉ apiKeyPlaceholder

instance (t : Text) : Decidable (IsApart t) :=
  List.decidableBAll (fun c => c ∉ deviceNamePlaceholder ∧ c ∉ apiKeyPlaceholder) t

theorem IsApart.append {a b : Text} (ha : IsApart a) (hb : IsApart b) : IsApart (a ++ b) :=
  List.forall_mem_append.2 ⟨ha, hb⟩

theorem isApart_of_allBlank {b : Text} (hb : allBlank b = true) : IsApart b := by
  intro c hc
  have hblank := List.all_eq_true.1 hb c hc
  have hkey : ∀ {word fill : Text}, IsQuoting word fill → c ∉ word := fun h hmem => by
    rw [isBlank_of_isKeyChar (h.word_key c hmem)] at hblank
    cases hblank
  exact ⟨hkey (isQuoting_name []), hkey (isQuoting_key [])⟩

theorem substitute_append_left (d : Device) {a : Text} (ha : IsApart a) (t : Text) :
    substitute d (a ++ t) = a ++ substitute d t := by
  unfold substitute
  rw [replace_append_left (by decide) fun c hc => (ha c hc).1]
  cases d.key? with
  | none => rfl
  | some key => exact replace_append_left (by decide) (fun c hc => (ha c hc).2) _

theorem substitute_append_right (d : Device) {b : Text} (hb : IsApart b) (t : Text) :
    substitute d (t ++ b) = substitute d t ++ b := by
  unfold substitute
  rw [replace_append_right (by decide) fun c hc => (hb c hc).1]
  cases d.key? with
  | none => rfl
  | some key => exact replace_append_right (by decide) (fun c hc => (hb c hc).2) _

/-! ## The first character -/

/-- A character that neither begins a placeholder nor is a quote stays the first one. -/
theorem head?_substitute_iff (d : Device) {c : Char} (hc : IsApart [c]) (hquote : c ≠ '"')
    (t : Text) : (substitute d t).head? = some c ↔ t.head? = some c := by
  have hreplace : ∀ {word fill : Text}, IsQuoting word fill → c ∉ word → ∀ t,
      ((replace word fill t).head? = some c ↔ t.head? = some c) := by
    intro word fill h hword t
    obtain ⟨r, hfill⟩ := h.fill_head
    obtain ⟨x, w, hx⟩ := List.exists_cons_of_ne_nil h.ne_nil
    induction t using word_induction h.ne_nil with
    | nil => rfl
    | skip t _ =>
      have hne : x ≠ c := by
        rintro rfl
        exact hword (hx ▸ List.mem_cons_self)
      rw [replace_word_append h.ne_nil, hfill, hx]
      simp [hne, Ne.symm hquote]
    | cons a t hpre _ =>
      rw [replace_cons hpre]
      rfl
  obtain ⟨hname, hkey⟩ := hc c List.mem_cons_self
  unfold substitute
  cases d.key? with
  | none => exact hreplace (isQuoting_name _) hname t
  | some key =>
    exact (hreplace (isQuoting_key _) hkey _).trans (hreplace (isQuoting_name _) hname t)

theorem head?_substitute_all (d : Device) (t : Text) :
    (substitute d t).head?.all isBlank = t.head?.all isBlank := by
  unfold substitute
  cases d.key? with
  | none => exact (isQuoting_name _).head?_replace t
  | some key =>
    exact ((isQuoting_key _).head?_replace _).trans ((isQuoting_name _).head?_replace t)

/-! ## Indentation -/

/-- The indentation of a line that is not blank, and what follows it. -/
theorem exists_cons_trimStart (h : allBlank l = false) :
    ∃ c r, trimStart l = c :: r ∧ isBlank c = false := by
  have hne : trimStart l ≠ [] := by
    intro hnil
    rw [trimStart, List.dropWhile_eq_nil_iff, ← List.all_eq_true] at hnil
    rw [allBlank, hnil] at h
    cases h
  obtain ⟨c, r, hc⟩ := List.exists_cons_of_ne_nil hne
  have hhead := List.head_dropWhile_not isBlank hne
  simp only [trimStart] at hc
  simp only [hc, List.head_cons] at hhead
  exact ⟨c, r, hc, hhead⟩

theorem leadingBlanks_blank_append {b t : Text} (hb : allBlank b = true)
    (ht : ∀ c ∈ t.head?, isBlank c = false) : leadingBlanks (b ++ t) = b := by
  rw [leadingBlanks, List.takeWhile_append_of_pos (List.all_eq_true.1 hb)]
  cases t with
  | nil => exact List.append_nil b
  | cons c t => rw [List.takeWhile_cons_of_neg (by simp [ht c rfl]), List.append_nil]

theorem trimStart_blank_append {b t : Text} (hb : allBlank b = true)
    (ht : ∀ c ∈ t.head?, isBlank c = false) : trimStart (b ++ t) = t := by
  rw [trimStart, List.dropWhile_append_of_pos (List.all_eq_true.1 hb)]
  cases t with
  | nil => rfl
  | cons c t => rw [List.dropWhile_cons_of_neg (by simp [ht c rfl])]

theorem allBlank_leadingBlanks (l : Text) : allBlank (leadingBlanks l) = true := List.all_takeWhile

theorem allBlank_spaces (n : Nat) : allBlank (spaces n) = true :=
  List.all_eq_true.2 fun c hc => by rw [List.eq_of_mem_replicate hc]; rfl

/-- A line that is not blank keeps its indentation. -/
theorem substitute_line (d : Device) (h : allBlank l = false) :
    leadingBlanks (substitute d l) = leadingBlanks l ∧
      trimStart (substitute d l) = substitute d (trimStart l) := by
  obtain ⟨c, r, hstart, hc⟩ := exists_cons_trimStart h
  have hlead := allBlank_leadingBlanks l
  have hsplit : substitute d l = leadingBlanks l ++ substitute d (trimStart l) := by
    conv_lhs => rw [← leadingBlanks_append_trimStart l]
    exact substitute_append_left d (isApart_of_allBlank hlead) _
  have hhead : ∀ x ∈ (substitute d (trimStart l)).head?, isBlank x = false := by
    intro x hx
    have hall := head?_substitute_all d (trimStart l)
    rw [Option.mem_def.1 hx, hstart] at hall
    exact hall.trans hc
  rw [hsplit]
  exact ⟨leadingBlanks_blank_append hlead hhead, trimStart_blank_append hlead hhead⟩

theorem substitute_of_allBlank (d : Device) (h : allBlank l = true) : substitute d l = l := by
  have hleft := substitute_append_left d (isApart_of_allBlank h) []
  rwa [List.append_nil, substitute_nil, List.append_nil] at hleft

theorem allBlank_substitute (d : Device) (l : Text) :
    allBlank (substitute d l) = allBlank l := by
  cases h : allBlank l with
  | true => rwa [substitute_of_allBlank d h]
  | false =>
    obtain ⟨c, r, hstart, hc⟩ := exists_cons_trimStart h
    rw [← Bool.not_eq_true]
    intro hblank
    have hall := head?_substitute_all d (trimStart l)
    rw [← (substitute_line d h).2, trimStart_of_allBlank hblank, hstart] at hall
    cases hc.symm.trans hall.symm

theorem isComment_substitute (d : Device) (l : Text) :
    isComment (substitute d l) = isComment l := by
  cases h : allBlank l with
  | true => rw [substitute_of_allBlank d h]
  | false =>
    rw [isComment, isComment, (substitute_line d h).2, Bool.eq_iff_iff, beq_iff_eq, beq_iff_eq]
    exact head?_substitute_iff d (by decide) (by decide) _

theorem trim_substitute (d : Device) (l : Text) :
    trim (substitute d l) = trimEnd (substitute d (trim l)) := by
  cases h : allBlank l with
  | true =>
    have htrim : trim l = [] := by rw [trim, trimStart_of_allBlank h]; rfl
    rw [substitute_of_allBlank d h, htrim, substitute_nil]
    rfl
  | false =>
    obtain ⟨b, hb, hstart⟩ := exists_eq_trimEnd_append (trimStart l)
    rw [trim, (substitute_line d h).2, hstart, substitute_append_right d (isApart_of_allBlank hb),
      trimEnd_append_blank _ hb]
    rfl

theorem allBlank_written (d : Device) (l : Text) : allBlank (written d l) = allBlank l := by
  rw [written, allBlank_bare, allBlank_substitute]

theorem isContent_substitute (d : Device) (l : Text) :
    isContent (substitute d l) = isContent l := by
  rw [isContent, isContent, allBlank_substitute, isComment_substitute]

theorem indentOf_written (d : Device) (h : allBlank l = false) :
    indentOf (written d l) = indentOf l := by
  have hblank : allBlank (substitute d l) = false := (allBlank_substitute d l).trans h
  rw [indentOf, indentOf, written, leadingBlanks_bare hblank, (substitute_line d h).1]

end TouchPanel.Document
