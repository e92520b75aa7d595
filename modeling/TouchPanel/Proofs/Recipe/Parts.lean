import TouchPanel.Proofs.Recipe.Key
import Mathlib.Data.List.Forall2

/-!
# Parts of a recipe

The sections of a list of lines are the lines in front of the first key and, for each key,
its line with the lines up to the next key. Where a list begins with a key, the sections of
what stands before it and of the list itself are put together.
-/

namespace TouchPanel.Recipe

open Text

variable {a b ls : List Text} {l key : Text} {s : Section}

/-- A line that opens no section. -/
def isInner (l : Text) : Bool := (topLevelKey? l).isNone

/-- The keys of the lines that open a section. -/
def keysOf (ls : List Text) : List Text := ls.filterMap topLevelKey?

/-- The lines in front of the first key. -/
def leadOf (ls : List Text) : List Text := ls.takeWhile isInner

/-- The sections that have a key. -/
def keyedOf : List Text → List Section
  | [] => []
  | l :: r =>
    match topLevelKey? l with
    | some key => ⟨some key, l :: leadOf r⟩ :: keyedOf r
    | none => keyedOf r

theorem isInner_iff : isInner l = true ↔ topLevelKey? l = none := Option.isNone_iff_eq_none

theorem keyedOf_cons_key (h : topLevelKey? l = some key) (r : List Text) :
    keyedOf (l :: r) = ⟨some key, l :: leadOf r⟩ :: keyedOf r := by
  rw [keyedOf, h]

theorem keyedOf_cons_inner (h : isInner l = true) (r : List Text) :
    keyedOf (l :: r) = keyedOf r := by
  rw [keyedOf, isInner_iff.1 h]

theorem leadOf_cons_key (h : topLevelKey? l = some key) (r : List Text) : leadOf (l :: r) = [] :=
  List.takeWhile_cons_of_neg (by simp [isInner, h])

theorem leadOf_cons_inner (h : isInner l = true) (r : List Text) :
    leadOf (l :: r) = l :: leadOf r :=
  List.takeWhile_cons_of_pos h

theorem attach_keyless (l : Text) (more : List Text) (r : List Section) :
    Section.attach l (⟨none, more⟩ :: r) = ⟨topLevelKey? l, l :: more⟩ :: r := by
  unfold Section.attach
  cases topLevelKey? l <;> rfl

theorem attach_keyed (l : Text) {r : List Section} (h : ∀ s ∈ r.head?, s.key ≠ none) :
    Section.attach l r = ⟨topLevelKey? l, [l]⟩ :: r := by
  have hne : ∀ more rest, r ≠ ⟨none, more⟩ :: rest := by
    rintro more rest rfl
    exact h _ rfl rfl
  unfold Section.attach
  cases topLevelKey? l <;> simp

theorem head?_keyedOf (ls : List Text) : ∀ s ∈ (keyedOf ls).head?, s.key ≠ none := by
  induction ls with
  | nil => simp [keyedOf]
  | cons l r ih =>
    cases hkey : topLevelKey? l with
    | some key =>
      rw [keyedOf_cons_key hkey]
      simp
    | none => rwa [keyedOf_cons_inner (isInner_iff.2 hkey)]

theorem ofLines_eq (ls : List Text) :
    Section.ofLines ls = (if leadOf ls = [] then [] else [⟨none, leadOf ls⟩]) ++ keyedOf ls := by
  induction ls with
  | nil => rfl
  | cons l r ih =>
    change Section.attach l (Section.ofLines r) = _
    have hattach : Section.attach l (Section.ofLines r) =
        ⟨topLevelKey? l, l :: leadOf r⟩ :: keyedOf r := by
      rw [ih]
      by_cases hlead : leadOf r = []
      · rw [if_pos hlead, List.nil_append, attach_keyed l (head?_keyedOf r), hlead]
      · rw [if_neg hlead]
        exact attach_keyless l (leadOf r) (keyedOf r)
    rw [hattach]
    cases hkey : topLevelKey? l with
    | some key =>
      rw [leadOf_cons_key hkey, keyedOf_cons_key hkey]
      rfl
    | none =>
      rw [leadOf_cons_inner (isInner_iff.2 hkey), keyedOf_cons_inner (isInner_iff.2 hkey),
        if_neg (List.cons_ne_nil _ _)]
      rfl

theorem keyedOf_inner_append (h : ∀ l ∈ a, isInner l = true) (b : List Text) :
    keyedOf (a ++ b) = keyedOf b := by
  induction a with
  | nil => rfl
  | cons l a ih =>
    obtain ⟨hl, ha⟩ := List.forall_mem_cons.1 h
    rw [List.cons_append, keyedOf_cons_inner hl, ih ha]

theorem leadOf_inner_append (h : ∀ l ∈ a, isInner l = true) (b : List Text) :
    leadOf (a ++ b) = a ++ leadOf b :=
  List.takeWhile_append_of_pos h

theorem leadOf_append_of_lead_nil (h : leadOf b = []) (a : List Text) :
    leadOf (a ++ b) = leadOf a := by
  induction a with
  | nil => exact h
  | cons l a ih =>
    cases hkey : topLevelKey? l with
    | some key => rw [List.cons_append, leadOf_cons_key hkey, leadOf_cons_key hkey]
    | none =>
      have hinner := isInner_iff.2 hkey
      rw [List.cons_append, leadOf_cons_inner hinner, leadOf_cons_inner hinner, ih]

theorem keyedOf_append (h : leadOf b = []) (a : List Text) :
    keyedOf (a ++ b) = keyedOf a ++ keyedOf b := by
  induction a with
  | nil => rfl
  | cons l a ih =>
    cases hkey : topLevelKey? l with
    | some key =>
      rw [List.cons_append, keyedOf_cons_key hkey, keyedOf_cons_key hkey, ih,
        leadOf_append_of_lead_nil h, List.cons_append]
    | none =>
      have hinner := isInner_iff.2 hkey
      rw [List.cons_append, keyedOf_cons_inner hinner, keyedOf_cons_inner hinner, ih]

/-- A line with a key and lines without one are one section. -/
theorem keyedOf_block (hkey : topLevelKey? l = some key) (h : ∀ x ∈ a, isInner x = true)
    (b : List Text) :
    keyedOf (l :: a ++ b) = ⟨some key, l :: a ++ leadOf b⟩ :: keyedOf b := by
  rw [List.cons_append, keyedOf_cons_key hkey, leadOf_inner_append h, keyedOf_inner_append h,
    List.cons_append]

theorem leadOf_append_flatMap_keyedOf (ls : List Text) :
    leadOf ls ++ (keyedOf ls).flatMap (·.lines) = ls := by
  induction ls with
  | nil => rfl
  | cons l r ih =>
    cases hkey : topLevelKey? l with
    | some key =>
      rw [leadOf_cons_key hkey, keyedOf_cons_key hkey, List.flatMap_cons, List.nil_append,
        List.cons_append, ih]
    | none =>
      have hinner := isInner_iff.2 hkey
      rw [leadOf_cons_inner hinner, keyedOf_cons_inner hinner, List.cons_append, ih]

theorem isInner_of_mem_leadOf (h : l ∈ leadOf ls) : isInner l = true := List.mem_takeWhile_imp h

theorem leadOf_append_inner (h : ∀ l ∈ b, isInner l = true) (a : List Text) :
    ∃ back, leadOf (a ++ b) = leadOf a ++ back ∧ back ⊆ b := by
  induction a with
  | nil => exact ⟨b, by rw [List.nil_append, leadOf, leadOf, List.takeWhile_eq_self_iff.2 h]; rfl,
      List.Subset.refl b⟩
  | cons l a ih =>
    cases hkey : topLevelKey? l with
    | some key =>
      exact ⟨[], by rw [List.cons_append, leadOf_cons_key hkey, leadOf_cons_key hkey]; rfl,
        List.nil_subset b⟩
    | none =>
      have hinner := isInner_iff.2 hkey
      obtain ⟨back, heq, hsub⟩ := ih
      refine ⟨back, ?_, hsub⟩
      rw [List.cons_append, leadOf_cons_inner hinner, leadOf_cons_inner hinner, heq,
        List.cons_append]

/-- Two sections of one key, the second with more lines at its end. -/
def Section.Extends (more : List Text) (s s' : Section) : Prop :=
  s'.key = s.key ∧ ∃ back, s'.lines = s.lines ++ back ∧ back ⊆ more

theorem keyedOf_append_inner (h : ∀ l ∈ b, isInner l = true) (a : List Text) :
    List.Forall₂ (Section.Extends b) (keyedOf a) (keyedOf (a ++ b)) := by
  induction a with
  | nil =>
    have hnil : keyedOf b = [] := by
      simpa [keyedOf] using keyedOf_inner_append h []
    rw [List.nil_append, hnil]
    exact .nil
  | cons l a ih =>
    cases hkey : topLevelKey? l with
    | some key =>
      rw [List.cons_append, keyedOf_cons_key hkey, keyedOf_cons_key hkey]
      obtain ⟨back, heq, hsub⟩ := leadOf_append_inner h a
      exact .cons ⟨rfl, back, congrArg (l :: ·) heq, hsub⟩ ih
    | none =>
      have hinner := isInner_iff.2 hkey
      rwa [List.cons_append, keyedOf_cons_inner hinner, keyedOf_cons_inner hinner]

section Filter

variable {p : Text → Bool} (h : ∀ l, p l = false → isInner l = true)

include h

theorem keeps_key {l key : Text} (hkey : topLevelKey? l = some key) : p l = true := by
  by_contra hl
  rw [isInner_iff.1 (h l (by simpa using hl))] at hkey
  cases hkey

theorem leadOf_filter (ls : List Text) : leadOf (ls.filter p) = (leadOf ls).filter p := by
  induction ls with
  | nil => rfl
  | cons l r ih =>
    cases hkey : topLevelKey? l with
    | some key =>
      have hl : p l = true := keeps_key h hkey
      rw [List.filter_cons_of_pos hl, leadOf_cons_key hkey, leadOf_cons_key hkey, List.filter_nil]
    | none =>
      have hinner := isInner_iff.2 hkey
      rw [leadOf_cons_inner hinner]
      by_cases hl : p l = true
      · rw [List.filter_cons_of_pos hl, List.filter_cons_of_pos hl, leadOf_cons_inner hinner, ih]
      · rw [List.filter_cons_of_neg hl, List.filter_cons_of_neg hl, ih]

/-- Lines that open no section can be left out of each section on its own. -/
theorem keyedOf_filter (ls : List Text) :
    keyedOf (ls.filter p) = (keyedOf ls).map fun s => { s with lines := s.lines.filter p } := by
  induction ls with
  | nil => rfl
  | cons l r ih =>
    cases hkey : topLevelKey? l with
    | some key =>
      have hl : p l = true := keeps_key h hkey
      rw [List.filter_cons_of_pos hl, keyedOf_cons_key hkey, keyedOf_cons_key hkey, ih,
        leadOf_filter h, List.map_cons, List.filter_cons_of_pos hl]
    | none =>
      have hinner := isInner_iff.2 hkey
      rw [keyedOf_cons_inner hinner, ← ih]
      by_cases hl : p l = true
      · rw [List.filter_cons_of_pos hl, keyedOf_cons_inner hinner]
      · rw [List.filter_cons_of_neg hl]

theorem keysOf_filter (ls : List Text) : keysOf (ls.filter p) = keysOf ls := by
  rw [keysOf, List.filterMap_filter]
  refine List.filterMap_congr fun l _ => ?_
  split
  · rfl
  · next hl => exact (isInner_iff.1 (h l (by simpa using hl))).symm

end Filter

theorem keysOf_append (a b : List Text) : keysOf (a ++ b) = keysOf a ++ keysOf b :=
  List.filterMap_append

theorem keysOf_inner (h : ∀ l ∈ a, isInner l = true) : keysOf a = [] :=
  List.filterMap_eq_nil_iff.2 fun l hl => isInner_iff.1 (h l hl)

theorem map_key_keyedOf (ls : List Text) : (keyedOf ls).map (·.key) = (keysOf ls).map some := by
  induction ls with
  | nil => rfl
  | cons l r ih =>
    cases hkey : topLevelKey? l with
    | some key =>
      rw [keyedOf_cons_key hkey, keysOf, List.filterMap_cons_some hkey, List.map_cons, ih]
      rfl
    | none =>
      rw [keyedOf_cons_inner (isInner_iff.2 hkey), keysOf, List.filterMap_cons_none hkey, ih,
        keysOf]

/-- A section with a key: the line of the key and lines without one. -/
structure Section.IsKeyed (s : Section) (key l : Text) (r : List Text) : Prop where
  key_eq : s.key = some key
  lines_eq : s.lines = l :: r
  head : topLevelKey? l = some key
  tail : ∀ x ∈ r, isInner x = true

theorem isKeyed_of_mem_keyedOf (h : s ∈ keyedOf ls) : ∃ key l r, s.IsKeyed key l r := by
  induction ls with
  | nil => cases h
  | cons l r ih =>
    cases hkey : topLevelKey? l with
    | some key =>
      rw [keyedOf_cons_key hkey] at h
      rcases List.mem_cons.1 h with rfl | h
      · exact ⟨key, l, leadOf r, rfl, rfl, hkey, fun x hx => List.mem_takeWhile_imp hx⟩
      · exact ih h
    | none =>
      rw [keyedOf_cons_inner (isInner_iff.2 hkey)] at h
      exact ih h

theorem lines_subset_of_mem_keyedOf (h : s ∈ keyedOf ls) : s.lines ⊆ ls := by
  intro l hl
  rw [← leadOf_append_flatMap_keyedOf ls]
  exact List.mem_append_right _ (List.mem_flatMap.2 ⟨s, h, hl⟩)

theorem leadOf_map (f : Text → Text) (h : ∀ l ∈ ls, topLevelKey? (f l) = topLevelKey? l) :
    leadOf (ls.map f) = (leadOf ls).map f := by
  induction ls with
  | nil => rfl
  | cons l r ih =>
    obtain ⟨hl, hr⟩ := List.forall_mem_cons.1 h
    cases hkey : topLevelKey? l with
    | some key =>
      rw [List.map_cons, leadOf_cons_key (hl.trans hkey), leadOf_cons_key hkey]
      rfl
    | none =>
      rw [List.map_cons, leadOf_cons_inner (isInner_iff.2 (hl.trans hkey)),
        leadOf_cons_inner (isInner_iff.2 hkey), ih hr, List.map_cons]

/-- Sections do not change with the lines if the keys of the lines do not. -/
theorem keyedOf_map (f : Text → Text) (h : ∀ l ∈ ls, topLevelKey? (f l) = topLevelKey? l) :
    keyedOf (ls.map f) = (keyedOf ls).map fun s => { s with lines := s.lines.map f } := by
  induction ls with
  | nil => rfl
  | cons l r ih =>
    obtain ⟨hl, hr⟩ := List.forall_mem_cons.1 h
    cases hkey : topLevelKey? l with
    | some key =>
      rw [List.map_cons, keyedOf_cons_key (hl.trans hkey), keyedOf_cons_key hkey, leadOf_map f hr,
        ih hr]
      rfl
    | none =>
      rw [List.map_cons, keyedOf_cons_inner (isInner_iff.2 (hl.trans hkey)),
        keyedOf_cons_inner (isInner_iff.2 hkey), ih hr]

/-- A section without carriage returns at the ends of its lines. -/
def Section.bare (s : Section) : Section := { s with lines := s.lines.map Text.bare }

theorem Section.IsKeyed.bare {r : List Text} (h : s.IsKeyed key l r) :
    s.bare.IsKeyed key (Text.bare l) (r.map Text.bare) where
  key_eq := h.key_eq
  lines_eq := congrArg (List.map Text.bare) h.lines_eq
  head := (topLevelKey?_bare l).trans h.head
  tail := by
    rw [List.forall_mem_map]
    exact fun x hx => (congrArg Option.isNone (topLevelKey?_bare x)).trans (h.tail x hx)

theorem keyedOf_bare (ls : List Text) :
    keyedOf (ls.map Text.bare) = (keyedOf ls).map Section.bare :=
  keyedOf_map Text.bare fun l _ => topLevelKey?_bare l

/-- The sections that have a key, in their order. -/
def named (key : Text) (ss : List Section) : List Section := ss.filter (·.key == some key)

theorem mem_named {ss : List Section} : s ∈ named key ss ↔ s ∈ ss ∧ s.key = some key := by
  rw [named, List.mem_filter, beq_iff_eq]

theorem exists_isKeyed_of_mem_named (h : s ∈ named key (keyedOf ls)) :
    ∃ l r, s.IsKeyed key l r := by
  obtain ⟨hmem, hkey⟩ := mem_named.1 h
  obtain ⟨key', l, r, hs⟩ := isKeyed_of_mem_keyedOf hmem
  obtain rfl : key' = key := Option.some.inj (hs.key_eq.symm.trans hkey)
  exact ⟨l, r, hs⟩

theorem named_append (a b : List Section) (key : Text) :
    named key (a ++ b) = named key a ++ named key b := List.filter_append a b

theorem named_bare (ss : List Section) (key : Text) :
    named key (ss.map Section.bare) = (named key ss).map Section.bare := by
  rw [named, List.filter_map]
  rfl

theorem named_split (t key : Text) :
    named key (Section.split t) = named key (keyedOf (lines t)) := by
  rw [Section.split, ofLines_eq, named_append]
  split <;> rfl

theorem map_of_forall₂ {α : Type} {f : Section → α} {R : Section → Section → Prop}
    (hR : ∀ s s', R s s' → f s' = f s) {ss ss' : List Section} (h : List.Forall₂ R ss ss') :
    ss'.map f = ss.map f := by
  induction h with
  | nil => rfl
  | cons hs _ ih => rw [List.map_cons, List.map_cons, hR _ _ hs, ih]

theorem named_eq_nil_of_map_key {ss : List Section} {keys : List Text}
    (h : ss.map (·.key) = keys.map some) (hkey : key ∉ keys) : named key ss = [] := by
  refine List.filter_eq_nil_iff.2 fun s hs => ?_
  rw [beq_iff_eq]
  intro heq
  have hmem : some key ∈ keys.map some := h ▸ heq ▸ List.mem_map_of_mem hs
  exact hkey ((List.mem_map_of_injective fun _ _ => Option.some.inj).1 hmem)

theorem named_eq_nil_iff : named key (keyedOf ls) = [] ↔ key ∉ keysOf ls := by
  refine ⟨fun h hmem => ?_, named_eq_nil_of_map_key (map_key_keyedOf ls)⟩
  have hkey : some key ∈ (keyedOf ls).map (·.key) := by
    rw [map_key_keyedOf]
    exact List.mem_map_of_mem hmem
  obtain ⟨s, hs, heq⟩ := List.mem_map.1 hkey
  have hs' : s ∈ named key (keyedOf ls) := mem_named.2 ⟨hs, heq⟩
  rw [h] at hs'
  cases hs'

end TouchPanel.Recipe
