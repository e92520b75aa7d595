import TouchPanel.Proofs.Recipe.Parts

/-!
# Lines at insertion points

The lines of a recipe in which the lines of a marker gave way to others. As long as these
open no section, the sections of the recipe are the same but for them.
-/

namespace TouchPanel.Recipe

open Text

variable {marker : Text} {block : Text → List Text} {a b c ls ls' : List Text} {l m : Text}

/-! ## Lines that hold a marker -/

theorem isMarkerLine_bare (marker l : Text) :
    isMarkerLine marker (bare l) = isMarkerLine marker l := by
  rw [isMarkerLine, isMarkerLine, trim_bare]

theorem isComment_of_isMarkerLine {r : Text} (h : isMarkerLine ('#' :: r) l = true) :
    isComment l = true := by
  have hpre : '#' :: r <+: trimStart l := by
    have htrim : trim l = '#' :: r := beq_iff_eq.1 h
    rw [← htrim]
    exact trimEnd_isPrefix _
  obtain ⟨s, hs⟩ := hpre
  rw [isComment, ← hs]
  rfl

theorem not_mem_indentLike {c : Char} (hm : c ∉ m) (hl : c ∉ l) : c ∉ indentLike m l := by
  unfold indentLike
  split
  · simp
  · rw [List.mem_append]
    rintro (h | h)
    · exact hm ((List.takeWhile_prefix _).subset h)
    · exact hl h

/-! ## Replacing the lines of a marker -/

/-- There is nothing to replace exactly if no line holds the marker alone. -/
theorem substituteLines?_eq_none_iff {payload : List Text} :
    substituteLines? marker payload ls = none ↔ ∀ l ∈ ls, isMarkerLine marker l = false := by
  induction ls with
  | nil => simp [substituteLines?]
  | cons l r ih =>
    rw [substituteLines?, List.forall_mem_cons]
    split
    · next hl => simp [hl]
    · next hl => rw [Option.map_eq_none_iff, ih, and_iff_right (by simpa using hl)]

theorem substituteLines?_eq_some {payload out : List Text}
    (h : substituteLines? marker payload ls = some out) :
    ∃ a m r, ls = a ++ m :: r ∧ (∀ l ∈ a, isMarkerLine marker l = false) ∧
      isMarkerLine marker m = true ∧
      out = a ++ (payload.map (indentLike m) ++ r.filter (!isMarkerLine marker ·)) := by
  induction ls generalizing out with
  | nil => cases h
  | cons l r ih =>
    rw [substituteLines?] at h
    split at h
    · next hl =>
      obtain rfl := Option.some.inj h
      exact ⟨[], l, r, rfl, by simp, hl, rfl⟩
    · next hl =>
      obtain ⟨rest, hrest, rfl⟩ := Option.map_eq_some_iff.1 h
      obtain ⟨a, m, r', rfl, ha, hm, rfl⟩ := ih hrest
      exact ⟨l :: a, m, r', rfl, List.forall_mem_cons.2 ⟨by simpa using hl, ha⟩, hm, rfl⟩

theorem newline_not_mem_substituteLines? {payload out : List Text} (hls : ∀ l ∈ ls, '\n' ∉ l)
    (hpayload : ∀ l ∈ payload, '\n' ∉ l) (h : substituteLines? marker payload ls = some out) :
    ∀ l ∈ out, '\n' ∉ l := by
  obtain ⟨a, m, r, rfl, -, -, rfl⟩ := substituteLines?_eq_some h
  intro l hl
  simp only [List.mem_append, List.mem_map] at hl
  rcases hl with hl | ⟨x, hx, rfl⟩ | hl
  · exact hls l (by simp [hl])
  · exact not_mem_indentLike (hls m (by simp)) (hpayload x hx)
  · exact hls l (by simp [List.mem_of_mem_filter hl])

/-- A text whose insertion point was filled, by its lines. -/
theorem replaceMarker?_eq_some {payload t t' : Text}
    (h : replaceMarker? marker payload t = some t') :
    ∃ a m r, lines t = a ++ m :: r ∧ (∀ l ∈ a, isMarkerLine marker l = false) ∧
      isMarkerLine marker m = true ∧
      (lines t').map bare = (a ++ ((lines (dropEndWhile (· == '\n') payload)).map (indentLike m) ++
        r.filter (!isMarkerLine marker ·))).map bare := by
  obtain ⟨out, hout, rfl⟩ := Option.map_eq_some_iff.1 h
  have hfree := newline_not_mem_substituteLines? (fun l => newline_not_mem_of_mem_lines)
    (fun l => newline_not_mem_of_mem_lines) hout
  obtain ⟨a, m, r, hlines, ha, hm, rfl⟩ := substituteLines?_eq_some hout
  exact ⟨a, m, r, hlines, ha, hm, map_bare_lines_unlines hfree⟩

theorem allBlank_of_isMarkerLine (hmarker : marker ≠ []) (h : isMarkerLine marker l = true) :
    allBlank l = false := by
  have htrim : trim l = marker := beq_iff_eq.1 h
  rw [← Bool.not_eq_true]
  intro hblank
  rw [trim, trimStart_of_allBlank hblank] at htrim
  exact hmarker htrim.symm

theorem indentLike_bare (hmarker : marker ≠ []) (h : isMarkerLine marker m = true) (l : Text) :
    indentLike (bare m) l = indentLike m l := by
  rw [indentLike, indentLike, leadingBlanks_bare (allBlank_of_isMarkerLine hmarker h)]

/-- Indented lines of a marker gave way to the lines of `block`, others to nothing. -/
inductive Rewrites (marker : Text) (block : Text → List Text) : List Text → List Text → Prop
  | nil : Rewrites marker block [] []
  | keep {l : Text} {ls ls' : List Text} (hl : isMarkerLine marker l = false)
      (h : Rewrites marker block ls ls') : Rewrites marker block (l :: ls) (l :: ls')
  | fill {m : Text} {ls ls' : List Text} (hm : isMarkerLine marker m = true)
      (indented : leadingBlanks m ≠ []) (h : Rewrites marker block ls ls') :
      Rewrites marker block (m :: ls) (block m ++ ls')
  | drop {m : Text} {ls ls' : List Text} (hm : isMarkerLine marker m = true)
      (h : Rewrites marker block ls ls') : Rewrites marker block (m :: ls) ls'

namespace Rewrites

theorem append (h : Rewrites marker block a b) {a' b' : List Text}
    (h' : Rewrites marker block a' b') : Rewrites marker block (a ++ a') (b ++ b') := by
  induction h with
  | nil => exact h'
  | keep hl _ ih => exact .keep hl ih
  | fill hm indented _ ih =>
    rw [List.append_assoc]
    exact .fill hm indented ih
  | drop hm _ ih => exact .drop hm ih

theorem filter (a : List Text) :
    Rewrites marker block a (a.filter (!isMarkerLine marker ·)) := by
  induction a with
  | nil => exact .nil
  | cons l a ih =>
    by_cases hl : isMarkerLine marker l = true
    · rw [List.filter_cons_of_neg (by simp [hl])]
      exact .drop hl ih
    · rw [List.filter_cons_of_pos (by simp [hl])]
      exact .keep (by simpa using hl) ih

/-- The lines that hold no marker keep their order. -/
theorem filter_sublist (h : Rewrites marker block a b) :
    (a.filter (!isMarkerLine marker ·)).Sublist b := by
  induction h with
  | nil => exact .slnil
  | keep hl _ ih =>
    rw [List.filter_cons_of_pos (by simp [hl])]
    exact ih.cons_cons _
  | fill hm _ _ ih =>
    rw [List.filter_cons_of_neg (by simp [hm])]
    exact ih.trans (List.sublist_append_right _ _)
  | drop hm _ ih =>
    rw [List.filter_cons_of_neg (by simp [hm])]
    exact ih

variable (hmarker : ∀ m, isMarkerLine marker m = true → isInner m = true)
  (hblock : ∀ m, leadingBlanks m ≠ [] → ∀ l ∈ block m, isInner l = true)

include hmarker hblock

theorem keysOf (h : Rewrites marker block a b) : keysOf b = keysOf a := by
  induction h with
  | nil => rfl
  | keep hl _ ih => rw [← List.singleton_append, keysOf_append, ih, ← keysOf_append]; rfl
  | @fill m ls ls' hm indented _ ih =>
    rw [keysOf_append, keysOf_inner (hblock m indented), ih, Recipe.keysOf, Recipe.keysOf,
      List.filterMap_cons_none (isInner_iff.1 (hmarker m hm))]
    rfl
  | @drop m ls ls' hm _ ih =>
    rw [ih, Recipe.keysOf, Recipe.keysOf, List.filterMap_cons_none (isInner_iff.1 (hmarker m hm))]

/-- The lines of each section are rewritten on their own. -/
theorem sections (h : Rewrites marker block a b) :
    Rewrites marker block (leadOf a) (leadOf b) ∧
      List.Forall₂ (fun s s' : Section => s'.key = s.key ∧ Rewrites marker block s.lines s'.lines)
        (keyedOf a) (keyedOf b) := by
  induction h with
  | nil => exact ⟨.nil, .nil⟩
  | @keep l ls ls' hl _ ih =>
    cases hkey : topLevelKey? l with
    | some key =>
      rw [leadOf_cons_key hkey, leadOf_cons_key hkey, keyedOf_cons_key hkey, keyedOf_cons_key hkey]
      exact ⟨.nil, .cons ⟨rfl, .keep hl ih.1⟩ ih.2⟩
    | none =>
      have hinner := isInner_iff.2 hkey
      rw [leadOf_cons_inner hinner, leadOf_cons_inner hinner, keyedOf_cons_inner hinner,
        keyedOf_cons_inner hinner]
      exact ⟨.keep hl ih.1, ih.2⟩
  | @fill m ls ls' hm indented _ ih =>
    rw [leadOf_cons_inner (hmarker m hm), keyedOf_cons_inner (hmarker m hm),
      leadOf_inner_append (hblock m indented), keyedOf_inner_append (hblock m indented)]
    exact ⟨.fill hm indented ih.1, ih.2⟩
  | @drop m ls ls' hm _ ih =>
    rw [leadOf_cons_inner (hmarker m hm), keyedOf_cons_inner (hmarker m hm)]
    exact ⟨.drop hm ih.1, ih.2⟩

end Rewrites

end TouchPanel.Recipe
