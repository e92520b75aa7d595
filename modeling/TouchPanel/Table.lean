/-!
# Sorted tables

A finite map whose entries are kept in strictly increasing order of their keys, so
that its entries do not depend on the order in which they were inserted.
-/

namespace TouchPanel

open Std

structure Table (κ α : Type) [Ord κ] where
  entries : List (κ × α)
  sorted : entries.Pairwise (fun a b => compare a.1 b.1 = .lt)

namespace Table

variable {κ α β : Type} [Ord κ]

/-- Puts an entry at its place; an entry with the same key gives way. -/
def place (key : κ) (value : α) : List (κ × α) → List (κ × α)
  | [] => [(key, value)]
  | e :: r =>
    match compare key e.1 with
    | .lt => (key, value) :: e :: r
    | .eq => (key, value) :: r
    | .gt => e :: place key value r

theorem mem_place {key : κ} {value : α} {l : List (κ × α)} {x : κ × α}
    (h : x ∈ place key value l) : x = (key, value) ∨ x ∈ l := by
  induction l with
  | nil => simpa [place] using h
  | cons e r ih =>
    unfold place at h
    split at h
    · simpa using h
    · rcases List.mem_cons.1 h with h | h
      · exact Or.inl h
      · exact Or.inr (List.mem_cons_of_mem _ h)
    · rcases List.mem_cons.1 h with h | h
      · exact Or.inr (h ▸ List.mem_cons_self)
      · exact (ih h).imp_right (List.mem_cons_of_mem _)

theorem pairwise_place [TransOrd κ] [LawfulEqOrd κ] (key : κ) (value : α)
    {l : List (κ × α)} (h : l.Pairwise (fun a b => compare a.1 b.1 = .lt)) :
    (place key value l).Pairwise (fun a b => compare a.1 b.1 = .lt) := by
  induction l with
  | nil => simp [place]
  | cons e r ih =>
    obtain ⟨he, hr⟩ := List.pairwise_cons.1 h
    unfold place
    split
    · next hc =>
      refine List.pairwise_cons.2 ⟨fun x hx => ?_, h⟩
      rcases List.mem_cons.1 hx with rfl | hx
      · exact hc
      · exact TransCmp.lt_trans hc (he x hx)
    · next hc =>
      rw [LawfulEqCmp.eq_of_compare hc]
      exact List.pairwise_cons.2 ⟨he, hr⟩
    · next hc =>
      refine List.pairwise_cons.2 ⟨fun x hx => ?_, ih hr⟩
      rcases mem_place hx with rfl | hx
      · exact OrientedCmp.lt_of_gt hc
      · exact he x hx

def empty : Table κ α := ⟨[], .nil⟩

instance : Inhabited (Table κ α) := ⟨empty⟩

def insert [TransOrd κ] [LawfulEqOrd κ] (t : Table κ α) (key : κ) (value : α) : Table κ α :=
  ⟨place key value t.entries, pairwise_place key value t.sorted⟩

/-- Of several entries with one key the last is kept. -/
def ofList [TransOrd κ] [LawfulEqOrd κ] (l : List (κ × α)) : Table κ α :=
  l.foldl (fun t e => t.insert e.1 e.2) empty

def get? (t : Table κ α) (key : κ) : Option α :=
  (t.entries.find? fun e => compare key e.1 == .eq).map (·.2)

def contains (t : Table κ α) (key : κ) : Bool := (t.get? key).isSome

def isEmpty (t : Table κ α) : Bool := t.entries.isEmpty

def size (t : Table κ α) : Nat := t.entries.length

def keys (t : Table κ α) : List κ := t.entries.map (·.1)

def values (t : Table κ α) : List α := t.entries.map (·.2)

/-- Changes the value of a key if the key is there. -/
def modify (t : Table κ α) (key : κ) (f : α → α) : Table κ α :=
  ⟨t.entries.map fun e => if compare key e.1 == .eq then (e.1, f e.2) else e, by
    refine List.pairwise_map.2 (t.sorted.imp ?_)
    intro a b h
    split <;> split <;> exact h⟩

/-- The table without the entry of a key. -/
def erase (t : Table κ α) (key : κ) : Table κ α :=
  ⟨t.entries.filter fun e => compare key e.1 != .eq, t.sorted.filter _⟩

/-- The same keys with values that may depend on the key. -/
def mapWithKey (t : Table κ α) (f : κ → α → β) : Table κ β :=
  ⟨t.entries.map fun e => (e.1, f e.1 e.2), List.pairwise_map.2 t.sorted⟩

@[ext] theorem ext {s t : Table κ α} (h : s.entries = t.entries) : s = t := by
  cases s; cases t; cases h; rfl

end Table

end TouchPanel
