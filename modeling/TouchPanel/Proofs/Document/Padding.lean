import TouchPanel.Proofs.Document.Related

/-!
# Blank lines at the end of a section

Blank lines that follow a section do not show in its text, in the entries that it takes or in
what is made of it for the identity of a device.
-/

namespace TouchPanel.Document

open Text Recipe

variable {l : Text} {a b : List Text} {s s' : Section}

/-! ## Blank lines -/

theorem isContent_of_allBlank (h : allBlank l = true) : isContent l = false := by
  rw [isContent, h]
  rfl

theorem valueOf?_of_allBlank (h : allBlank l = true) (key : Text) : valueOf? key l = none := by
  unfold valueOf?
  rw [trimStart_of_allBlank h]
  cases key <;> simp [after?, trimStart]

theorem isEncryptionLine_of_allBlank (h : allBlank l = true) : isEncryptionLine l = false := by
  rw [isEncryptionLine, trimStart_of_allBlank h]
  rfl

/-- A word with a character that is no blank does not stand in a blank line. -/
theorem not_occurs_of_allBlank {word : Text} (hword : allBlank word = false)
    (h : allBlank l = true) : occurs word l = false := by
  rw [← Bool.not_eq_true, occurs_iff_infix]
  intro hin
  have hall : allBlank word = true :=
    List.all_eq_true.2 fun c hc => List.all_eq_true.1 h c (hin.subset hc)
  rw [hall] at hword
  cases hword

theorem find?_append_blank {p : Text → Bool} (hp : ∀ l, allBlank l = true → p l = false)
    (hb : ∀ l ∈ b, allBlank l = true) (a : List Text) : (a ++ b).find? p = a.find? p := by
  have hnone : b.find? p = none :=
    List.find?_eq_none.2 fun l hl => by rw [hp l (hb l hl)]; decide
  rw [List.find?_append, hnone, Option.or_none]

theorem updateFirst?_append_blank {p : Text → Bool} (hp : ∀ l, allBlank l = true → p l = false)
    (f : Text → Text) (hb : ∀ l ∈ b, allBlank l = true) (a : List Text) :
    updateFirst? p f (a ++ b) = (updateFirst? p f a).map (· ++ b) := by
  induction a with
  | nil =>
    rw [List.nil_append, updateFirst?, Option.map_none]
    induction b with
    | nil => rfl
    | cons l b ih =>
      obtain ⟨hl, hrest⟩ := List.forall_mem_cons.1 hb
      rw [updateFirst?, if_neg (by simp [hp l hl]), ih hrest, Option.map_none]
  | cons l a ih =>
    rw [List.cons_append, updateFirst?, updateFirst?]
    split
    · rfl
    · rw [ih, Option.map_map, Option.map_map]
      rfl

theorem takeWhile_append_of_ne_nil {p : Text → Bool} (h : a.dropWhile p ≠ []) (b : List Text) :
    (a ++ b).takeWhile p = a.takeWhile p := by
  rw [List.takeWhile_append, if_neg]
  intro hlen
  have hwhole := (List.takeWhile_prefix p).eq_of_length hlen
  exact h (List.dropWhile_eq_nil_iff.2 (List.takeWhile_eq_self_iff.1 hwhole))

theorem dropWhile_append_of_ne_nil {p : Text → Bool} (h : a.dropWhile p ≠ []) (b : List Text) :
    (a ++ b).dropWhile p = a.dropWhile p ++ b := by
  rw [List.dropWhile_append, if_neg (by simpa using h)]

theorem text_append_blank (s : Section) (hb : ∀ l ∈ b, allBlank l = true) (a : List Text) :
    ({ s with lines := a ++ b } : Section).text = ({ s with lines := a } : Section).text := by
  have hall : ∀ l ∈ b.reverse, allBlank l = true := by simpa using hb
  rw [Section.text, Section.text, List.reverse_append, List.dropWhile_append_of_pos hall]

/-! ## Padded sections -/

/-- A section, and the same with more blank lines at its end. -/
structure Pads (s s' : Section) : Prop where
  ne_nil : s.lines ≠ []
  key_eq : s'.key = s.key
  padded : ∃ b, s'.lines = s.lines ++ b ∧ ∀ l ∈ b, allBlank l = true

theorem Pads.text_eq (h : Pads s s') : s'.text = s.text := by
  obtain ⟨b, hlines, hb⟩ := h.padded
  have htext := text_append_blank s' hb s.lines
  rw [← hlines] at htext
  exact htext

theorem Pads.drop_eq (h : Pads s s') :
    ∃ b, s'.lines.drop 1 = s.lines.drop 1 ++ b ∧ ∀ l ∈ b, allBlank l = true := by
  obtain ⟨b, hlines, hb⟩ := h.padded
  refine ⟨b, ?_, hb⟩
  rw [hlines, List.drop_append_of_le_length]
  exact List.length_pos_iff.2 h.ne_nil

theorem Pads.firstChild?_eq (h : Pads s s') : s'.firstChild? = s.firstChild? := by
  obtain ⟨b, hdrop, hb⟩ := h.drop_eq
  rw [Section.firstChild?, Section.firstChild?, hdrop,
    find?_append_blank (fun _ => isContent_of_allBlank) hb]

theorem Pads.childIndent_eq (h : Pads s s') : s'.childIndent = s.childIndent := by
  rw [Section.childIndent, Section.childIndent, h.firstChild?_eq]

theorem Pads.inlineValue_eq (h : Pads s s') : s'.inlineValue = s.inlineValue := by
  obtain ⟨b, hlines, -⟩ := h.padded
  obtain ⟨l, r, hs⟩ := List.exists_cons_of_ne_nil h.ne_nil
  rw [Section.inlineValue, Section.inlineValue, hlines, hs]
  rfl

theorem splitTail_append_blank (ha : a ≠ []) (hb : ∀ l ∈ b, allBlank l = true) :
    Section.splitTail (a ++ b) = ((Section.splitTail a).1, (Section.splitTail a).2 ++ b) := by
  have hall : ∀ l ∈ b.reverse, (allBlank l || l.head? == some '#') = true := fun l hl => by
    rw [hb l (List.mem_reverse.1 hl), Bool.true_or]
  unfold Section.splitTail
  dsimp only
  rw [List.reverse_append, List.dropWhile_append_of_pos hall]
  have hle :
      (a.reverse.dropWhile fun l => allBlank l || l.head? == some '#').length ≤ a.length := by
    have hlen : a.reverse.length = a.length := List.length_reverse
    exact hlen ▸ (List.dropWhile_sublist _).length_le
  have hpos : 0 < a.length := List.length_pos_iff.2 ha
  generalize (a.reverse.dropWhile _).length = count at hle
  rw [List.splitAt_eq, List.splitAt_eq, List.take_append_of_le_length (by split <;> omega),
    List.drop_append_of_le_length (by split <;> omega)]

theorem Pads.append? (h : Pads s s') (hkey : s.key.isSome = true) (entries : List Node) :
    Option.Rel Pads (s.append? entries) (s'.append? entries) := by
  obtain ⟨key, hkey⟩ := Option.isSome_iff_exists.1 hkey
  obtain ⟨l, r, hs⟩ := List.exists_cons_of_ne_nil h.ne_nil
  obtain ⟨b, hlines, hb⟩ := h.padded
  have hindent : s'.entryIndent? = s.entryIndent? := by
    rw [Section.entryIndent?, Section.entryIndent?, h.firstChild?_eq]
  have hopened : s'.openedLines = s.openedLines ++ b := by
    rw [Section.openedLines, Section.openedLines, h.key_eq, hkey, hlines, hs, h.inlineValue_eq]
    rfl
  have hne : s.openedLines ≠ [] := by
    rw [Section.openedLines, hkey, hs]
    exact List.cons_ne_nil _ _
  rw [Section.append?_eq, Section.append?_eq, h.inlineValue_eq, hindent]
  split
  · exact .none
  · cases s.entryIndent? with
    | none => exact .none
    | some n =>
      refine .some ⟨?_, h.key_eq, b, ?_, hb⟩
      · obtain ⟨head, rest, hcons⟩ := List.exists_cons_of_ne_nil hne
        obtain ⟨body, tail, -, hsplit⟩ := Section.splitTail_cons head rest
        rw [hcons, hsplit]
        exact List.cons_ne_nil _ _
      · dsimp only
        rw [hopened, splitTail_append_blank hne hb, List.append_assoc, List.append_assoc,
          List.append_assoc]

/-! ## The identity of a device -/

theorem Pads.namedLines (h : Pads s s') (name : Text) (namedElsewhere : Bool) :
    ∃ b, Document.namedLines name namedElsewhere s' =
      Document.namedLines name namedElsewhere s ++ b ∧ ∀ l ∈ b, allBlank l = true := by
  obtain ⟨b, hdrop, hb⟩ := h.drop_eq
  refine ⟨b, ?_, hb⟩
  have hname : isNameLine s' = isNameLine s :=
    funext fun l => by rw [isNameLine, isNameLine, h.childIndent_eq]
  have hblank : ∀ l, allBlank l = true → isNameLine s l = false := fun l hl => by
    rw [isNameLine, valueOf?_of_allBlank hl]
    rfl
  unfold Document.namedLines
  dsimp only
  rw [hdrop, hname, h.childIndent_eq, updateFirst?_append_blank hblank _ hb]
  cases updateFirst? (isNameLine s) (nameLine name) (s.lines.drop 1) with
  | some ls => rfl
  | none => cases namedElsewhere <;> rfl

theorem Pads.esphomeSection_eq (h : Pads s s') (name recipe : Text) :
    esphomeSection name recipe (some s') = esphomeSection name recipe (some s) := by
  obtain ⟨b, hlines, hb⟩ := h.namedLines name (occurs deviceNamePlaceholder recipe)
  unfold esphomeSection
  dsimp only
  rw [hlines]
  exact text_append_blank s' hb ("esphome:".toList :: _)

theorem dropKeyPlaceholder_append_blank (hb : ∀ l ∈ b, allBlank l = true) (a : List Text) :
    dropKeyPlaceholder (a ++ b) = dropKeyPlaceholder a ++ b := by
  have hfree : ∀ l ∈ b, (!occurs apiKeyPlaceholder l) = true := fun l hl => by
    rw [not_occurs_of_allBlank (by decide) (hb l hl)]
    rfl
  unfold dropKeyPlaceholder
  dsimp only
  by_cases hnone : a.dropWhile (!occurs apiKeyPlaceholder ·) = []
  · rw [List.dropWhile_append, hnone, List.isEmpty_nil, if_pos rfl,
      List.dropWhile_eq_nil_iff.2 hfree]
  · obtain ⟨p, after, hafter⟩ := List.exists_cons_of_ne_nil hnone
    have hmore : (after ++ b).find? (!allBlank ·) = after.find? (!allBlank ·) :=
      find?_append_blank (fun l hl => by rw [hl]; rfl) hb after
    rw [dropWhile_append_of_ne_nil hnone, takeWhile_append_of_ne_nil hnone, hafter,
      List.cons_append]
    dsimp only
    rw [hmore]
    cases (a.takeWhile (!occurs apiKeyPlaceholder ·)).getLast? with
    | none => rfl
    | some line =>
      dsimp only
      split
      · exact (List.append_assoc _ _ _).symm
      · exact (List.append_assoc _ _ _).symm

theorem Pads.encryptedLines (h : Pads s s') (key : Text) :
    ∃ b, Document.encryptedLines key s' = Document.encryptedLines key s ++ b ∧
      ∀ l ∈ b, allBlank l = true := by
  obtain ⟨b, hdrop, hb⟩ := h.drop_eq
  refine ⟨b, ?_, hb⟩
  have hopen : ∀ l ∈ b, (!isEncryptionLine l) = true := fun l hl => by
    rw [isEncryptionLine_of_allBlank (hb l hl)]
    rfl
  unfold Document.encryptedLines
  dsimp only
  rw [hdrop, h.childIndent_eq]
  generalize s.lines.drop 1 = a
  by_cases hnone : a.dropWhile (!isEncryptionLine ·) = []
  · rw [List.dropWhile_append, hnone, List.isEmpty_nil, if_pos rfl,
      List.dropWhile_eq_nil_iff.2 hopen]
    rfl
  · obtain ⟨opening, after, hafter⟩ := List.exists_cons_of_ne_nil hnone
    have hkey : ∀ l, allBlank l = true → (valueOf? "key".toList l).isSome = false := fun l hl => by
      rw [valueOf?_of_allBlank hl]
      rfl
    rw [dropWhile_append_of_ne_nil hnone, takeWhile_append_of_ne_nil hnone, hafter,
      List.cons_append]
    dsimp only
    generalize hinner : (fun line => allBlank line || decide (indentOf opening < indentOf line)) = p
    have hp : ∀ l ∈ b, p l = true := fun l hl => by
      rw [← hinner]
      simp [hb l hl]
    by_cases hall : after.dropWhile p = []
    · have hwhole := List.takeWhile_eq_self_iff.2 (List.dropWhile_eq_nil_iff.1 hall)
      rw [List.takeWhile_append_of_pos (List.dropWhile_eq_nil_iff.1 hall),
        List.takeWhile_eq_self_iff.2 hp, List.dropWhile_append, hall, List.isEmpty_nil, if_pos rfl,
        List.dropWhile_eq_nil_iff.2 hp, hwhole, updateFirst?_append_blank hkey _ hb]
      cases updateFirst? _ _ after <;> simp
    · rw [takeWhile_append_of_ne_nil hall, dropWhile_append_of_ne_nil hall]
      cases updateFirst? _ _ (after.takeWhile p) <;> simp

/-- Blank lines at the end of a section do not show in a document. -/
theorem Pads.apiSection_eq (h : Pads s s') (key : Option Text) :
    apiSection key (some s') = apiSection key (some s) := by
  unfold apiSection
  cases key with
  | none =>
    obtain ⟨b, hlines, hb⟩ := h.padded
    dsimp only
    rw [hlines, dropKeyPlaceholder_append_blank hb]
    exact (text_append_blank s' hb _).trans (by rw [h.key_eq])
  | some key =>
    obtain ⟨b, hlines, hb⟩ := h.encryptedLines key
    dsimp only
    rw [h.text_eq, hlines]
    split
    · rfl
    · exact text_append_blank s' hb ("api:".toList :: _)

end TouchPanel.Document
