import Mathlib.Data.Fintype.Pigeonhole
import Mathlib.Logic.Relation
import TouchPanel.Widget.Tree

/-!
# Cycles of parents

Going up from a widget either ends or comes to a place for the second time within as
many steps as there are widgets. So the bounded walk finds every cycle, and without the
parents of the widgets on cycles every walk ends.
-/

namespace TouchPanel.WidgetTree

/-- The parent at a place. -/
def above (ps : List (Option Nat)) (i : Nat) : Option Nat := ps[i]?.getD none

/-- The place that is `k` steps up. -/
def climb (ps : List (Option Nat)) : Nat → Nat → Option Nat
  | 0, i => some i
  | k + 1, i => (above ps i).bind (climb ps k)

/-- Parents stand on the page of their children. -/
def Closed (ps : List (Option Nat)) : Prop := ∀ i p, above ps i = some p → p < ps.length

variable {ps : List (Option Nat)} {i j k p : Nat}

theorem lt_of_above (h : above ps i = some p) : i < ps.length := by
  by_contra hi
  have hnone : ps[i]? = none := List.getElem?_eq_none (by omega)
  simp [above, hnone] at h

theorem climb_add (ps : List (Option Nat)) (a b i : Nat) :
    climb ps (a + b) i = (climb ps a i).bind (climb ps b) := by
  induction a generalizing i with
  | zero => simp [climb]
  | succ a ih =>
    rw [Nat.add_right_comm, climb, climb]
    cases above ps i with
    | none => rfl
    | some p => exact ih p

theorem climb_succ (ps : List (Option Nat)) (k i : Nat) :
    climb ps (k + 1) i = (climb ps k i).bind (above ps) := by
  rw [climb_add]
  congr 1
  funext j
  rw [climb]
  cases above ps j <;> rfl

theorem Closed.climb_lt (h : Closed ps) (hi : i < ps.length) (hk : climb ps k i = some j) :
    j < ps.length := by
  cases k with
  | zero =>
    obtain rfl := Option.some.inj hk
    exact hi
  | succ k =>
    rw [climb_succ, Option.bind_eq_some_iff] at hk
    obtain ⟨l, -, hl⟩ := hk
    exact h l j hl

theorem climb_isSome_of_le {l : Nat} (hk : climb ps k i = some j) (hl : l ≤ k) :
    ∃ x, climb ps l i = some x := by
  obtain ⟨m, rfl⟩ := Nat.exists_eq_add_of_le hl
  rw [climb_add, Option.bind_eq_some_iff] at hk
  obtain ⟨x, hx, -⟩ := hk
  exact ⟨x, hx⟩

/-- A walk with as many steps as there are places comes to some place twice. -/
theorem Closed.exists_repeat (h : Closed ps) (hi : i < ps.length) (hk : climb ps k i = some j)
    (hlen : ps.length ≤ k) :
    ∃ a b x, a < b ∧ b ≤ ps.length ∧ climb ps a i = some x ∧ climb ps b i = some x := by
  have hsome : ∀ l : Fin (ps.length + 1), ∃ x : Fin ps.length, climb ps l i = some x.val := by
    intro l
    obtain ⟨x, hx⟩ := climb_isSome_of_le hk (l := l.val) (by omega)
    exact ⟨⟨x, h.climb_lt hi hx⟩, hx⟩
  choose f hf using hsome
  obtain ⟨a, b, hne, heq⟩ := Fintype.exists_ne_map_eq_of_card_lt f (by simp)
  have hval : climb ps a i = climb ps b i := by rw [hf, hf, heq]
  rcases Nat.lt_or_gt_of_ne (Fin.val_ne_of_ne hne) with hlt | hlt
  · exact ⟨a, b, _, hlt, by omega, hf a, hval ▸ hf a⟩
  · exact ⟨b, a, _, hlt, by omega, hf b, hval ▸ hf b⟩

/-! ## The bounded walk -/

theorem climbs_iff {goal steps : Nat} {start : Option Nat} :
    climbs ps goal steps start = true ↔ ∃ k < steps, start.bind (climb ps k) = some goal := by
  induction steps generalizing start with
  | zero => simp [climbs]
  | succ steps ih =>
    cases start with
    | none => simp [climbs]
    | some i =>
      rw [climbs, Bool.or_eq_true, decide_eq_true_eq, ih]
      constructor
      · rintro (rfl | ⟨k, hk, hgoal⟩)
        · exact ⟨0, by omega, rfl⟩
        · exact ⟨k + 1, by omega, hgoal⟩
      · rintro ⟨k, hk, hgoal⟩
        cases k with
        | zero => exact Or.inl (Option.some.inj hgoal)
        | succ k => exact Or.inr ⟨k, by omega, hgoal⟩

/-- The walk back to a place can be cut short to as many steps as there are places. -/
theorem Closed.short_return (h : Closed ps) (hk : 0 < k) (hback : climb ps k i = some i) :
    ∃ l, 0 < l ∧ l ≤ ps.length ∧ climb ps l i = some i := by
  induction k using Nat.strong_induction_on with
  | _ k ih =>
    by_cases hlen : k ≤ ps.length
    · exact ⟨k, hk, hlen, hback⟩
    · have hi : i < ps.length := by
        obtain ⟨x, hx⟩ := climb_isSome_of_le hback (l := 1) (by omega)
        have hone : above ps i = some x := by simpa [climb] using hx
        exact lt_of_above hone
      obtain ⟨a, b, x, hab, hb, ha, hbx⟩ := h.exists_repeat hi hback (by omega)
      -- leaving out the steps from `a` to `b` leads to the same place
      obtain ⟨rest, rfl⟩ := Nat.exists_eq_add_of_le (show b ≤ k by omega)
      rw [climb_add, hbx] at hback
      refine ih (a + rest) (by omega) (by omega) ?_
      rw [climb_add, ha]
      exact hback

theorem Closed.onCycle_iff (h : Closed ps) :
    onCycle ps i = true ↔ ∃ k, 0 < k ∧ climb ps k i = some i := by
  rw [onCycle, climbs_iff]
  constructor
  · rintro ⟨k, -, hk⟩
    exact ⟨k + 1, by omega, hk⟩
  · rintro ⟨k, hk, hback⟩
    obtain ⟨l, hl, hlen, hreturn⟩ := h.short_return hk hback
    obtain ⟨m, rfl⟩ := Nat.exists_eq_succ_of_ne_zero (Nat.ne_of_gt hl)
    exact ⟨m, by omega, hreturn⟩

theorem transGen_above_iff :
    Relation.TransGen (fun a b => above ps a = some b) i j ↔
      ∃ k, 0 < k ∧ climb ps k i = some j := by
  constructor
  · intro h
    induction h with
    | single hab => exact ⟨1, by omega, by simp [climb, hab]⟩
    | tail _ hbc ih =>
      obtain ⟨k, hk, hclimb⟩ := ih
      exact ⟨k + 1, by omega, by rw [climb_succ, hclimb]; exact hbc⟩
  · rintro ⟨k, hk, hclimb⟩
    induction k generalizing j with
    | zero => omega
    | succ k ih =>
      rw [climb_succ, Option.bind_eq_some_iff] at hclimb
      obtain ⟨l, hl, hstep⟩ := hclimb
      cases k with
      | zero =>
        obtain rfl := Option.some.inj hl
        exact .single hstep
      | succ k => exact (ih (by omega) hl).tail hstep

/-! ## Parents without cycles -/

theorem length_cutCycles (ps : List (Option Nat)) : (cutCycles ps).length = ps.length := by
  simp [cutCycles]

theorem above_cutCycles (ps : List (Option Nat)) (i : Nat) :
    above (cutCycles ps) i = if onCycle ps i then none else above ps i := by
  rw [above, above, cutCycles, List.getElem?_map, List.getElem?_zipIdx]
  cases ps[i]? with
  | none => simp
  | some p => simp

theorem closed_cutCycles (h : Closed ps) : Closed (cutCycles ps) := by
  intro i p hp
  rw [above_cutCycles] at hp
  split at hp
  · cases hp
  · rw [length_cutCycles]
    exact h i p hp

theorem climb_of_cutCycles (hk : climb (cutCycles ps) k i = some j) : climb ps k i = some j := by
  induction k generalizing i with
  | zero => exact hk
  | succ k ih =>
    rw [climb, Option.bind_eq_some_iff] at hk ⊢
    obtain ⟨p, hp, hrest⟩ := hk
    rw [above_cutCycles] at hp
    split at hp
    · cases hp
    · exact ⟨p, hp, ih hrest⟩

/-- No walk along the remaining parents returns. -/
theorem Closed.not_return (h : Closed ps) (hk : 0 < k) : climb (cutCycles ps) k i ≠ some i := by
  intro hback
  have hcycle : onCycle ps i = true := h.onCycle_iff.2 ⟨k, hk, climb_of_cutCycles hback⟩
  obtain ⟨x, hx⟩ := climb_isSome_of_le hback (l := 1) (by omega)
  rw [climb, above_cutCycles, if_pos hcycle] at hx
  cases hx

theorem Closed.climb_cutCycles_length (h : Closed ps) (hi : i < ps.length) :
    climb (cutCycles ps) ps.length i = none := by
  by_contra hsome
  obtain ⟨j, hj⟩ := Option.ne_none_iff_exists'.1 hsome
  have hlen := length_cutCycles ps
  obtain ⟨a, b, x, hab, -, ha, hb⟩ :=
    (closed_cutCycles h).exists_repeat (hlen ▸ hi) hj (by omega)
  obtain ⟨m, rfl⟩ := Nat.exists_eq_add_of_lt hab
  rw [Nat.add_assoc, climb_add, ha] at hb
  exact h.not_return (Nat.succ_pos m) (by simpa using hb)

/-! ## Parents of a page -/

variable {ws : List Widget}

/-- The widget at `i` gives a parent, and `p` is the first place with this id. -/
def IsParent (ws : List Widget) (p i : Nat) : Prop :=
  ∃ w raw v, ws[i]? = some w ∧ w.parentId = some raw ∧ trimmed raw ≠ "" ∧
    ws[p]? = some v ∧ trimmed v.id = trimmed raw ∧
    ∀ q < p, ∀ u, ws[q]? = some u → trimmed u.id ≠ trimmed raw

/-- The parents of a widget lead back to it. -/
def OnParentCycle (ws : List Widget) (i : Nat) : Prop :=
  Relation.TransGen (fun i p => IsParent ws p i) i i

theorem parent?_eq_some_iff {w : Widget} {id : String} :
    w.parent? = some id ↔ ∃ raw, w.parentId = some raw ∧ trimmed raw ≠ "" ∧ trimmed raw = id := by
  unfold Widget.parent? filled?
  cases w.parentId with
  | none => simp
  | some raw =>
    simp only [Option.map_some, Option.filter_eq_some_iff, Option.some.injEq, decide_eq_true_eq]
    constructor
    · rintro ⟨rfl, hne⟩
      exact ⟨raw, rfl, hne, rfl⟩
    · rintro ⟨_, rfl, hne, rfl⟩
      exact ⟨rfl, hne⟩

theorem indexOf?_eq_some_iff {id : String} :
    indexOf? ws id = some p ↔ (∃ v, ws[p]? = some v ∧ trimmed v.id = id) ∧
      ∀ q < p, ∀ u, ws[q]? = some u → trimmed u.id ≠ id := by
  unfold indexOf?
  rw [List.findIdx?_eq_some_iff_getElem]
  simp only [decide_eq_true_eq, List.getElem?_eq_some_iff]
  constructor
  · rintro ⟨hp, hid, hbefore⟩
    refine ⟨⟨ws[p], ⟨hp, rfl⟩, hid⟩, ?_⟩
    rintro q hq u ⟨hlt, rfl⟩
    exact hbefore q hq
  · rintro ⟨⟨v, ⟨hp, rfl⟩, hid⟩, hbefore⟩
    exact ⟨hp, hid, fun q hq => hbefore q hq _ ⟨by omega, rfl⟩⟩

theorem length_parents (ws : List Widget) : (parents ws).length = ws.length := by
  simp [parents]

theorem above_parents_iff : above (parents ws) i = some p ↔ IsParent ws p i := by
  unfold above parents IsParent
  rw [List.getElem?_map]
  cases ws[i]? with
  | none => simp
  | some w =>
    simp only [Option.map_some, Option.getD_some, parentIndex?, Option.bind_eq_some_iff,
      parent?_eq_some_iff, indexOf?_eq_some_iff, Option.some.injEq]
    constructor
    · rintro ⟨_, ⟨raw, hraw, hne, rfl⟩, ⟨v, hv, hid⟩, hfirst⟩
      exact ⟨w, raw, v, rfl, hraw, hne, hv, hid, hfirst⟩
    · rintro ⟨_, raw, v, rfl, hraw, hne, hv, hid, hfirst⟩
      exact ⟨_, ⟨raw, hraw, hne, rfl⟩, ⟨v, hv, hid⟩, hfirst⟩

theorem closed_parents (ws : List Widget) : Closed (parents ws) := by
  intro i p hp
  obtain ⟨w, raw, v, -, -, -, hv, -⟩ := above_parents_iff.1 hp
  rw [length_parents]
  exact (List.getElem?_eq_some_iff.1 hv).1

theorem onCycle_parents_iff : onCycle (parents ws) i = true ↔ OnParentCycle ws i := by
  rw [(closed_parents ws).onCycle_iff, ← transGen_above_iff]
  simp only [above_parents_iff, OnParentCycle]

instance (ws : List Widget) (i : Nat) : Decidable (OnParentCycle ws i) :=
  decidable_of_iff _ onCycle_parents_iff

theorem above_cut_parents_iff :
    above (cutCycles (parents ws)) i = some p ↔ IsParent ws p i ∧ ¬ OnParentCycle ws i := by
  rw [above_cutCycles, ← onCycle_parents_iff, ← above_parents_iff]
  split <;> simp_all

end TouchPanel.WidgetTree
