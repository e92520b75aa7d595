import Mathlib.Data.List.Induction
import TouchPanel.Proofs.Ingress.Update

/-!
# Bindings in any order

A binding that names an entity has its value declared, unless another binding has taken the
id before it, which is reported. Where none is, the declared values are those that are asked
for, whatever the order of the bindings.
-/

namespace TouchPanel.Declarations

variable {ds : Declarations} {key : SourceKey} {bindings : List Source}

/-- The value that a binding asks for, if it names an entity. -/
def asked? (s : Source) : Option SourceKey :=
  if Identifier.isEntityReference (trimmed s.entityId) then some s.key else none

theorem ofBindings_concat (bindings : List Source) (s : Source) :
    ofBindings (bindings ++ [s]) = addBinding (ofBindings bindings) (s, bindings.length) := by
  simp [ofBindings, List.zipIdx_append]

theorem addBinding_of_asked? {s : Source} (h : asked? s = some key)
    (found : List Diagnostic) (i : Nat) :
    addBinding (ds, found) (s, i) = ((ds.declare key).1, found ++ (ds.declare key).2) := by
  unfold asked? at h
  unfold addBinding
  dsimp only
  split at h
  · next hvalid =>
    cases h
    rw [if_pos hvalid]
  · cases h

theorem addBinding_of_not_asked {s : Source} (h : asked? s = none) (found : List Diagnostic)
    (i : Nat) : (addBinding (ds, found) (s, i)).1 = ds := by
  unfold asked? at h
  unfold addBinding
  dsimp only
  split at h
  · cases h
  · next hvalid => rw [if_neg hvalid]

theorem mem_addBinding {d : Diagnostic} {s : Declarations × List Diagnostic} (h : d ∈ s.2)
    (e : Source × Nat) : d ∈ (addBinding s e).2 := by
  unfold addBinding
  dsimp only
  split
  · exact List.mem_append_left _ h
  · exact List.mem_append_left _ h

theorem mem_asked_of_mem_keys (h : key ∈ (ofBindings bindings).1.keys) :
    key ∈ bindings.filterMap asked? := by
  induction bindings using List.reverseRecOn with
  | nil => cases h
  | append_singleton bindings s ih =>
    rw [ofBindings_concat] at h
    rw [List.filterMap_append, List.mem_append]
    cases hs : asked? s with
    | none =>
      rw [addBinding_of_not_asked hs] at h
      exact Or.inl (ih h)
    | some k =>
      rw [addBinding_of_asked? hs] at h
      rcases mem_keys_of_mem_declare h with rfl | h
      · exact Or.inr (by simp [hs])
      · exact Or.inl (ih h)

/-- What a binding asks for is declared, or another one owns its id and is reported. -/
theorem mem_keys_of_mem_asked (h : key ∈ bindings.filterMap asked?) :
    key ∈ (ofBindings bindings).1.keys ∨ ∃ owner ∈ bindings.filterMap asked?, owner ≠ key ∧
      owner.id = key.id ∧
      .derivedIdCollision key.id owner.describe key.describe ∈ (ofBindings bindings).2 := by
  induction bindings using List.reverseRecOn with
  | nil => cases h
  | append_singleton bindings s ih =>
    rw [List.filterMap_append, List.mem_append] at h
    simp only [List.filterMap_append, List.mem_append]
    rw [ofBindings_concat]
    rcases h with h | h
    · -- what was asked for before stays declared or reported
      rcases ih h with hkey | ⟨owner, howner, hne, hid, hfound⟩
      · refine Or.inl ?_
        cases hs : asked? s with
        | none => rwa [addBinding_of_not_asked hs]
        | some k =>
          rw [addBinding_of_asked? hs]
          exact mem_keys_declare_of_mem hkey k
      · exact Or.inr ⟨owner, Or.inl howner, hne, hid, mem_addBinding hfound _⟩
    · have hs : asked? s = some key := by simpa using h
      rw [addBinding_of_asked? hs]
      rcases mem_keys_declare (ofBindings bindings).1 key with
        hkey | ⟨owner, howner, hne, hid, hfound⟩
      · exact Or.inl hkey
      · exact Or.inr ⟨owner, Or.inl (mem_asked_of_mem_keys howner), hne, hid,
          List.mem_append_right _ hfound⟩

/-- Bindings no two of which ask for different values with one id. -/
def IdsFree (bindings : List Source) : Prop :=
  ∀ a ∈ bindings.filterMap asked?, ∀ b ∈ bindings.filterMap asked?, a.id = b.id → a = b

theorem idsDistinct_ofBindings (bindings : List Source) : (ofBindings bindings).1.IdsDistinct := by
  rw [ofBindings_eq_run]
  exact idsDistinct_run _

theorem idsFree_of_no_collision (h : ∀ id first second,
    .derivedIdCollision id first second ∉ (ofBindings bindings).2) : IdsFree bindings := by
  have hdeclared : ∀ key ∈ bindings.filterMap asked?, key ∈ (ofBindings bindings).1.keys := by
    intro key hkey
    rcases mem_keys_of_mem_asked hkey with hmem | ⟨owner, -, -, -, hfound⟩
    · exact hmem
    · exact absurd hfound (h _ _ _)
  intro a ha b hb hid
  exact (idsDistinct_ofBindings bindings).eq (hdeclared b hb) (hdeclared a ha) hid

theorem IdsFree.mem_keys_iff (h : IdsFree bindings) :
    key ∈ (ofBindings bindings).1.keys ↔ key ∈ bindings.filterMap asked? := by
  refine ⟨mem_asked_of_mem_keys, fun hkey => ?_⟩
  rcases mem_keys_of_mem_asked hkey with hmem | ⟨owner, howner, hne, hid, -⟩
  · exact hmem
  · exact absurd (h owner howner key hkey hid) hne

theorem IdsFree.perm {bindings' : List Source} (h : IdsFree bindings)
    (hperm : bindings'.Perm bindings) : IdsFree bindings' := by
  have hasked := hperm.filterMap asked?
  intro a ha b hb
  exact h a (hasked.mem_iff.1 ha) b (hasked.mem_iff.1 hb)

theorem get?_ofBindings (bindings : List Source) (key : SourceKey) :
    (ofBindings bindings).1.get? key =
      if key ∈ (ofBindings bindings).1.keys then some [] else none := by
  split
  · next hkey =>
    obtain ⟨⟨k, updates⟩, he, rfl⟩ := List.mem_map.1 hkey
    have hnil : updates = [] := updates_ofBindings bindings _ he
    rw [hnil] at he
    exact Table.get?_eq_some_iff.2 he
  · next hkey => simpa [← Table.contains_iff, Table.contains] using hkey

/-- Bindings that collide with none declare the same values in any order. -/
theorem IdsFree.ofBindings_perm {bindings' : List Source} (h : IdsFree bindings)
    (hperm : bindings'.Perm bindings) : (ofBindings bindings').1 = (ofBindings bindings).1 := by
  apply Table.ext_get?
  intro key
  have hkeys : key ∈ (ofBindings bindings').1.keys ↔ key ∈ (ofBindings bindings).1.keys := by
    rw [(h.perm hperm).mem_keys_iff, h.mem_keys_iff]
    exact (hperm.filterMap asked?).mem_iff
  rw [get?_ofBindings, get?_ofBindings]
  simp only [hkeys]

end TouchPanel.Declarations
