import TouchPanel.Proofs.Output.Undivided
import TouchPanel.Proofs.Project.Strings

/-!
# Document markers in front of a recipe

A recipe may start with a line that begins a YAML document. Such lines stay in front of its sections
as long as no text is put in front of them: they come before the insertion points, and the text that
a project has for the beginning goes to an insertion point.
-/

namespace TouchPanel

open Text Recipe

/-! ## Lines -/

namespace Recipe

variable {p q : Text → Bool} {a b ls : List Text} {l m marker name t t' : Text}

/-- Whether a line neither opens a section nor has the form of an insertion point. -/
def isPassive (l : Text) : Bool := isInner l && !isInsertionPoint l

/-- From the first line on that `p` does not hold of no line begins or ends a document. -/
def BoundariesLead (p : Text → Bool) (ls : List Text) : Prop :=
  ∀ l ∈ ls.dropWhile p, isBoundary l = false

instance : Decidable (BoundariesLead p ls) :=
  List.decidableBAll (fun l => isBoundary l = false) (ls.dropWhile p)

theorem boundariesLead_cons_of_pos (hl : p l = true) :
    BoundariesLead p (l :: ls) ↔ BoundariesLead p ls := by
  rw [BoundariesLead, List.dropWhile_cons_of_pos hl]
  rfl

theorem boundariesLead_cons_of_neg (hl : p l = false) :
    BoundariesLead p (l :: ls) ↔ ∀ x ∈ l :: ls, isBoundary x = false := by
  rw [BoundariesLead, List.dropWhile_cons_of_neg (by simp [hl])]

theorem boundariesLead_of_forall (h : ∀ l ∈ ls, isBoundary l = false) : BoundariesLead p ls :=
  fun l hl => h l ((List.dropWhile_suffix _).subset hl)

namespace BoundariesLead

theorem append (ha : BoundariesLead p a) (hb : ∀ l ∈ b, isBoundary l = false) :
    BoundariesLead p (a ++ b) := by
  rw [BoundariesLead, List.dropWhile_append]
  split
  · exact boundariesLead_of_forall hb
  · exact List.forall_mem_append.2 ⟨ha, hb⟩

theorem of_append (h : BoundariesLead p (a ++ b)) : BoundariesLead p a := by
  rw [BoundariesLead, List.dropWhile_append] at h
  split at h
  · next hnil =>
    intro l hl
    rw [List.isEmpty_iff.1 hnil] at hl
    cases hl
  · exact (List.forall_mem_append.1 h).1

theorem below (h : BoundariesLead p (a ++ m :: b)) (hm : p m = false) :
    ∀ l ∈ b, isBoundary l = false := by
  rw [BoundariesLead, List.dropWhile_append] at h
  split at h
  · exact (List.forall_mem_cons.1 ((boundariesLead_cons_of_neg hm).1 h)).2
  · exact (List.forall_mem_cons.1 (List.forall_mem_append.1 h).2).2

theorem filter (h : BoundariesLead p ls) (hq : ∀ l, p l = true → q l = true) :
    BoundariesLead p (ls.filter q) := by
  induction ls with
  | nil => exact h
  | cons l r ih =>
    cases hl : p l with
    | true =>
      rw [List.filter_cons_of_pos (hq l hl), boundariesLead_cons_of_pos hl]
      exact ih ((boundariesLead_cons_of_pos hl).1 h)
    | false =>
      have hall := (boundariesLead_cons_of_neg hl).1 h
      exact boundariesLead_of_forall fun x hx => hall x (List.mem_of_mem_filter hx)

theorem mono (h : BoundariesLead p ls) (hq : ∀ l, p l = true → q l = true) :
    BoundariesLead q ls := by
  induction ls with
  | nil => exact h
  | cons l r ih =>
    cases hl : p l with
    | true =>
      rw [boundariesLead_cons_of_pos (hq l hl)]
      exact ih ((boundariesLead_cons_of_pos hl).1 h)
    | false => exact boundariesLead_of_forall ((boundariesLead_cons_of_neg hl).1 h)

end BoundariesLead

/-- What is passed over decides nothing about the lines behind. -/
theorem boundariesLead_chosen (hp : ∀ l, p (trimEnd l) = p l)
    (hq : ∀ l, q l = false → p l = true ∧ isBoundary l = false) (ls : List Text) :
    BoundariesLead p (chosen q ls) ↔ BoundariesLead p ls := by
  have hall : ∀ ls : List Text,
      (∀ x ∈ chosen q ls, isBoundary x = false) ↔ ∀ x ∈ ls, isBoundary x = false := by
    intro ls
    rw [chosen, List.forall_mem_map]
    constructor
    · intro h x hx
      cases hqx : q x with
      | true => exact (isChoice_isBoundary.trimEnd x).symm.trans (h x (List.mem_filter.2 ⟨hx, hqx⟩))
      | false => exact (hq x hqx).2
    · exact fun h x hx => (isChoice_isBoundary.trimEnd x).trans (h x (List.mem_of_mem_filter hx))
  induction ls with
  | nil => rfl
  | cons l r ih =>
    cases hql : q l with
    | false =>
      rw [chosen_cons_of_neg hql, boundariesLead_cons_of_pos (hq l hql).1]
      exact ih
    | true =>
      rw [chosen_cons_of_pos hql]
      cases hl : p l with
      | true =>
        rw [boundariesLead_cons_of_pos hl, boundariesLead_cons_of_pos ((hp l).trans hl)]
        exact ih
      | false =>
        rw [boundariesLead_cons_of_neg hl, boundariesLead_cons_of_neg ((hp l).trans hl),
          List.forall_mem_cons, List.forall_mem_cons, hall, isChoice_isBoundary.trimEnd]

/-! ## Texts -/

/-- A line that is not passed over or that begins or ends a document. -/
def isDecisive (l : Text) : Bool := !isPassive l || isBoundary l

theorem isPassive_trimEnd (l : Text) : isPassive (trimEnd l) = isPassive l := by
  rw [isPassive, isPassive, isInner, isInner, topLevelKey?_trimEnd, isInsertionPoint,
    isInsertionPoint, trim_trimEnd]

theorem isChoice_isDecisive : IsChoice isDecisive where
  nil := by decide
  trimEnd l := by rw [isDecisive, isDecisive, isPassive_trimEnd, isChoice_isBoundary.trimEnd]

theorem isPassive_of_isMarkerLine (hmarker : marker = customMarker name)
    (hl : isMarkerLine marker l = true) : isPassive l = false := by
  rw [isPassive, isInsertionPoint_of_isMarkerLine (hmarker ▸ hl)]
  exact Bool.and_false _

/-- The lines of a text that begin or end a document stand in front of its sections and insertion
points. -/
def IsLed (t : Text) : Prop := BoundariesLead isPassive (lines t)

instance : Decidable (IsLed t) := inferInstanceAs (Decidable (BoundariesLead isPassive (lines t)))

theorem boundariesLead_decisive (ls : List Text) :
    BoundariesLead isPassive (chosen isDecisive ls) ↔ BoundariesLead isPassive ls :=
  boundariesLead_chosen isPassive_trimEnd (fun l hl => by simpa [isDecisive] using hl) ls

theorem isLed_iff : IsLed t ↔ BoundariesLead isPassive (chosen isDecisive (lines t)) :=
  (boundariesLead_decisive (lines t)).symm

theorem isLed_trimEnd : IsLed (trimEnd t) ↔ IsLed t := by
  rw [isLed_iff, isLed_iff, chosen_lines_trimEnd isChoice_isDecisive]

theorem IsLed.append_newline (ht : IsLed t) (ht' : IsUndivided t') : IsLed (t ++ '\n' :: t') := by
  have hsplit : ∀ t, IsLed t ↔ BoundariesLead isPassive (t.splitOn '\n') := by
    intro t
    rw [isLed_iff, ← chosen_splitOn isChoice_isDecisive, boundariesLead_decisive]
  rw [hsplit, splitOn_append_newline]
  exact ((hsplit t).1 ht).append (isUndivided_iff_splitOn.1 ht')

theorem isBoundary_indentLike (m l : Text) : isBoundary (indentLike m l) = isBoundary l := by
  unfold indentLike
  split
  · next hnil => rw [List.isEmpty_iff.1 hnil]
  · exact isBoundary_blank_append (Document.allBlank_leadingBlanks m) l

theorem isUndivided_dropEndWhile_newline (h : IsUndivided t) :
    IsUndivided (dropEndWhile (· == '\n') t) := by
  have hbare : ∀ t, IsUndivided t ↔ ∀ l ∈ bareLines t, isBoundary l = false := by
    intro t
    rw [isUndivided_iff_chosen, ← chosen_bareLines isChoice_isBoundary,
      chosen_isBoundary_eq_nil_iff]
  rw [hbare] at h ⊢
  exact fun l hl => h l ((bareLines_dropNewlines_isPrefix t).subset hl)

/-- A text in the place of an insertion point leaves the lines in front of it in their place. -/
theorem IsLed.replaceMarker? {payload : Text} (h : IsLed t) (hmarker : marker = customMarker name)
    (hpayload : IsUndivided payload) (hput : Recipe.replaceMarker? marker payload t = some t') :
    IsLed t' := by
  obtain ⟨a, m, r, hlines, -, hm, hbare⟩ := replaceMarker?_eq_some hput
  rw [IsLed, hlines] at h
  have hblock : ∀ l ∈ (lines (dropEndWhile (· == '\n') payload)).map (indentLike m),
      isBoundary l = false := by
    rw [List.forall_mem_map]
    intro l hl
    rw [isBoundary_indentLike]
    exact isUndivided_dropEndWhile_newline hpayload l hl
  have hrest : ∀ l ∈ r.filter (!isMarkerLine marker ·), isBoundary l = false := fun l hl =>
    h.below (isPassive_of_isMarkerLine hmarker hm) l (List.mem_of_mem_filter hl)
  rw [isLed_iff, ← chosen_bareLines isChoice_isDecisive, bareLines, hbare,
    chosen_map isChoice_isDecisive trimEnd_bare, boundariesLead_decisive]
  exact h.of_append.append (List.forall_mem_append.2 ⟨hblock, hrest⟩)

theorem IsLed.replaceMarker?_getD {payload : Text} (h : IsLed t)
    (hmarker : marker = customMarker name) (hpayload : IsUndivided payload)
    (helse : Recipe.replaceMarker? marker payload t = none → IsLed t') :
    IsLed ((Recipe.replaceMarker? marker payload t).getD t') := by
  cases hput : Recipe.replaceMarker? marker payload t with
  | none => exact helse hput
  | some u => exact h.replaceMarker? hmarker hpayload hput

theorem IsLed.removeMarker (h : IsLed t) (hmarker : marker = customMarker name) :
    IsLed (Recipe.removeMarker marker t) := by
  have hfree : ∀ l ∈ (lines t).filter (!isMarkerLine marker ·), '\n' ∉ l := fun l hl =>
    newline_not_mem_of_mem_lines (List.mem_of_mem_filter hl)
  rw [isLed_iff, Recipe.removeMarker, chosen_lines_unlines isChoice_isDecisive hfree,
    boundariesLead_decisive]
  refine BoundariesLead.filter h fun l hl => ?_
  rw [Bool.not_eq_true', ← Bool.not_eq_true]
  intro hline
  rw [isPassive_of_isMarkerLine hmarker hline] at hl
  cases hl

end Recipe

/-! ## User text -/

namespace UserText

variable {t : Text} {u : UserText}

/-- The text for the beginning of a document needs no place in front of a recipe. -/
def HasPlace (u : UserText) (t : Text) : Prop :=
  trimEnd u.before.toList = [] ∨ ∃ l ∈ lines t, isMarkerLine userPreMarker l = true

instance (u : UserText) (t : Text) : Decidable (u.HasPlace t) :=
  inferInstanceAs (Decidable (_ ∨ _))

theorem isLed_putBefore (hu : IsUndivided u.before.toList) (hplace : u.HasPlace t) (h : IsLed t) :
    IsLed (putBefore (trimEnd u.before.toList) t) := by
  unfold putBefore
  split
  · exact h.removeMarker userPreMarker_eq
  · next hne =>
    refine h.replaceMarker?_getD userPreMarker_eq (isUndivided_trimEnd.2 hu) fun hput => ?_
    rcases hplace with hnil | ⟨l, hl, hline⟩
    · exact absurd (List.isEmpty_iff.2 hnil) hne
    · rw [substituteLines?_eq_none_iff.1 (Option.map_eq_none_iff.1 hput) l hl] at hline
      cases hline

theorem isLed_putAfter (hu : IsUndivided u.after.toList) (h : IsLed t) :
    IsLed (putAfter (trimEnd u.after.toList) t) := by
  have hafter := isUndivided_trimEnd.2 hu
  unfold putAfter
  split
  · exact h.removeMarker userPostMarker_eq
  · refine h.replaceMarker?_getD userPostMarker_eq hafter fun _ => ?_
    rw [List.append_assoc, List.cons_append]
    refine (isLed_trimEnd.2 h).append_newline ?_
    rw [List.cons_append, ← List.nil_append ('\n' :: _), isUndivided_append_newline]
    exact ⟨isUndivided_nil, isUndivided_append_newline.2 ⟨hafter, isUndivided_nil⟩⟩

theorem isLed_putMarker {marker : String × String} (hmarker : IsUndivided marker.2.toList)
    (h : IsLed t) : IsLed (putMarker t marker) := by
  unfold putMarker
  split
  · exact h
  · exact h.replaceMarker?_getD rfl (isUndivided_trimEnd.2 hmarker) fun _ => h

/-- User text leaves the lines that begin or end a document in front of a recipe, unless it is put
in front of the recipe itself. -/
theorem isLed_inject (hu : ∀ s ∈ u.strings, IsUndivided s.toList) (hplace : u.HasPlace t)
    (h : IsLed t) : IsLed (u.inject t) := by
  obtain ⟨hbefore, hafter, hmarkers⟩ : IsUndivided u.before.toList ∧ IsUndivided u.after.toList ∧
      ∀ marker ∈ u.markers.entries, IsUndivided marker.2.toList := by
    simp only [strings, List.forall_mem_cons, List.forall_mem_flatMap] at hu
    exact ⟨hu.1, hu.2.1, fun marker hmarker => (hu.2.2 marker hmarker).2.1⟩
  have hfront := isLed_putAfter hafter (isLed_putBefore hbefore hplace h)
  unfold inject
  generalize putAfter _ (putBefore _ t) = t' at hfront
  generalize u.markers.entries = markers at hmarkers
  induction markers generalizing t' with
  | nil => exact hfront
  | cons marker markers ih =>
    obtain ⟨hmarker, hrest⟩ := List.forall_mem_cons.1 hmarkers
    exact ih _ (isLed_putMarker hmarker hfront) hrest

end UserText

end TouchPanel
