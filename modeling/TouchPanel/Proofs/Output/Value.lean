import TouchPanel.Output.Content
import TouchPanel.Proofs.Project.Strings

/-!
# What nodes of values are built of

The node of an editor value is put together from numbers, truth values and the nodes of its
strings. So a property that these have, and that a mapping and a list take over from what stands in
them, holds of the nodes of all values.
-/

namespace TouchPanel

open Json (Value)

/-! ## Mappings -/

/-- The keys of a mapping have one property and its nodes another. -/
def Mapping.Each (K : String → Prop) (D : Node → Prop) (m : Mapping) : Prop :=
  ∀ e ∈ m, K e.1 ∧ D e.2

namespace Mapping

variable {K : String → Prop} {D : Node → Prop} {m m' : Mapping} {key : String} {node : Node}

theorem mem_of_mem_insert {e : String × Node} (h : e ∈ m.insert key node) :
    e = (key, node) ∨ e ∈ m := by
  induction m with
  | nil => exact Or.inl (List.mem_singleton.1 h)
  | cons f r ih =>
    obtain ⟨k, v⟩ := f
    rw [insert] at h
    split at h
    · next hk =>
      rw [hk] at h
      exact (List.mem_cons.1 h).imp id (List.mem_cons_of_mem _)
    · rcases List.mem_cons.1 h with rfl | h
      · exact Or.inr List.mem_cons_self
      · exact (ih h).imp_right (List.mem_cons_of_mem _)

theorem each_nil : Mapping.Each K D [] := fun _ h => absurd h List.not_mem_nil

theorem Each.cons (hkey : K key) (hnode : D node) (hm : m.Each K D) :
    Mapping.Each K D ((key, node) :: m) :=
  List.forall_mem_cons.2 ⟨⟨hkey, hnode⟩, hm⟩

theorem Each.append (hm : m.Each K D) (hm' : m'.Each K D) : Mapping.Each K D (m ++ m') :=
  List.forall_mem_append.2 ⟨hm, hm'⟩

theorem Each.insert (hm : m.Each K D) (hkey : K key) (hnode : D node) :
    (m.insert key node).Each K D := by
  intro e he
  rcases mem_of_mem_insert he with rfl | he
  · exact ⟨hkey, hnode⟩
  · exact hm e he

theorem Each.ofList (hm : m.Each K D) : (Mapping.ofList m).Each K D :=
  List.foldlRecOn (motive := Mapping.Each K D) m _ each_nil fun _ hbuilt e he =>
    hbuilt.insert (hm e he).1 (hm e he).2

theorem Each.erase (hm : m.Each K D) (key : String) : (m.erase key).Each K D :=
  fun e he => hm e (List.mem_of_mem_eraseP he)

end Mapping

/-! ## Values -/

/-- A property of nodes that the nodes of all values have, as far as their strings have a property
as well. -/
structure Node.Builds (S K : String → Prop) (D : Node → Prop) : Prop where
  map {m : Mapping} (h : m.Each K D) : D (.map m)
  list {items : List Node} (h : ∀ node ∈ items, D node) : D (.list items)
  bool (b : Bool) : D (.bool b)
  int (n : Int) : D (.int n)
  float (x : Float) : D (.float x)
  text {s : String} {node : Node} (hs : S s) (h : Node.ofText? s = some node) : D node
  field {k : String} (hk : S k) : K k

namespace Node.Builds

variable {S K : String → Prop} {D : Node → Prop}

theorem single (h : Builds S K D) {key : String} {node : Node} (hkey : K key) (hnode : D node) :
    D (.single key node) :=
  h.map (Mapping.each_nil.cons hkey hnode)

mutual

theorem value (h : Builds S K D) {v : Value} (hv : ∀ s ∈ v.strings, S s) {node : Node}
    (hnode : ofValue? v = some node) : D node := by
  match v with
  | .null => cases hnode
  | .bool b =>
    cases hnode
    exact h.bool b
  | .number (.int n) =>
    rw [ofValue?] at hnode
    cases hnode
    split
    · exact h.int n
    · exact h.float _
  | .number (.float x) =>
    cases hnode
    exact h.float x
  | .string s =>
    rw [ofValue?] at hnode
    exact h.text (hv s List.mem_cons_self) hnode
  | .array items =>
    rw [ofValue?] at hnode
    cases hnode
    exact h.list (values h items hv)
  | .object fields =>
    rw [ofValue?] at hnode
    cases hnode
    exact h.map (entries h _ hv)

theorem values (h : Builds S K D) (items : List Value)
    (hitems : ∀ s ∈ Value.itemStrings items, S s) :
    ∀ node ∈ ofValues items, D node := by
  match items with
  | [] => exact fun _ hnode => absurd hnode List.not_mem_nil
  | v :: r =>
    rw [Value.itemStrings] at hitems
    obtain ⟨hv, hr⟩ := List.forall_mem_append.1 hitems
    intro node hnode
    rw [ofValues] at hnode
    rcases List.mem_append.1 hnode with hhead | htail
    · exact value h hv (Option.mem_toList.1 hhead)
    · exact values h r hr node htail

theorem entries (h : Builds S K D) (fields : List (String × Value))
    (hfields : ∀ s ∈ Value.fieldStrings fields, S s) : (ofFields fields).Each K D := by
  match fields with
  | [] => exact Mapping.each_nil
  | (k, v) :: r =>
    rw [Value.fieldStrings, List.cons_append] at hfields
    obtain ⟨hk, hrest⟩ := List.forall_mem_cons.1 hfields
    obtain ⟨hv, hr⟩ := List.forall_mem_append.1 hrest
    rw [ofFields]
    refine Mapping.Each.append (fun e he => ?_) (entries h r hr)
    obtain ⟨node, hnode, rfl⟩ := Option.map_eq_some_iff.1 (Option.mem_toList.1 he)
    exact ⟨h.field hk, value h hv hnode⟩

end

end Node.Builds

end TouchPanel
