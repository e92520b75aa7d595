import Mathlib.Data.List.Nodup
import Mathlib.Data.List.Perm.Basic
import TouchPanel.Proofs.Fragments
import TouchPanel.Proofs.Table

/-!
# Accounting for declarations

Declarations change by requests only: bindings, values that another stage depends on, and
updates. Whatever the requests were, no two declared values have one id, a table of owners
that is kept beside the declarations is their inverse, and the sections list every
declaration once, in order.
-/

namespace TouchPanel

theorem Order.compare_pair_eq_lt {β γ : Type} [Ord β] [Ord γ] {a b : β × γ} :
    Order.pair.compare a b = .lt ↔
      compare a.1 b.1 = .lt ∨ compare a.1 b.1 = .eq ∧ compare a.2 b.2 = .lt := by
  show compareLex (compareOn (·.1)) (compareOn (·.2)) a b = .lt ↔ _
  rw [compareLex, Ordering.then_eq_lt]
  rfl

theorem DataKind.rank_inj {a b : DataKind} : a.rank = b.rank ↔ a = b := by
  cases a <;> cases b <;> decide

/-- The letter that ids of a kind have behind their common front. -/
def DataKind.letter : DataKind → Char
  | .attributeNumber => 'n'
  | .attributeText => 't'
  | .binary => 'b'
  | .state => 's'

theorem DataKind.letter_inj {a b : DataKind} : a.letter = b.letter ↔ a = b := by
  cases a <;> cases b <;> decide

namespace SourceKey

/-- The order by kind, entity and attribute. -/
def Before (a b : SourceKey) : Prop :=
  a.kind.rank < b.kind.rank ∨ a.kind = b.kind ∧
    (a.entityId < b.entityId ∨ a.entityId = b.entityId ∧ a.attr < b.attr)

theorem compare_eq_lt_iff {a b : SourceKey} : compare a b = .lt ↔ a.Before b := by
  let _ : Ord (String × String) := Order.pair
  have hstring : ∀ s t : String, compare s t = .lt ↔ s < t := fun _ _ => compareOfLessAndEq_eq_lt
  have hkey : compare a b = Order.pair.compare a.triple b.triple := rfl
  have hrest : compare a.triple.2 b.triple.2 =
      Order.pair.compare (a.entityId, a.attr) (b.entityId, b.attr) := rfl
  rw [hkey, Order.compare_pair_eq_lt, hrest, Order.compare_pair_eq_lt, Nat.compare_eq_lt,
    Nat.compare_eq_eq, Std.LawfulEqCmp.compare_eq_iff_eq, hstring, hstring]
  simp only [triple, DataKind.rank_inj]
  rfl

theorem kind_eq_of_id_eq {a b : SourceKey} (h : a.id = b.id) : a.kind = b.kind := by
  have hletter : ∀ k : SourceKey, k.id.toList[3]? = some k.kind.letter := by
    intro k
    unfold id
    cases k.kind <;> simp [String.toList_append, DataKind.letter]
  have heq : some a.kind.letter = some b.kind.letter := by
    rw [← hletter a, ← hletter b, h]
  exact DataKind.letter_inj.1 (Option.some.inj heq)

end SourceKey

namespace Declarations

variable {ds : Declarations} {key owner : SourceKey} {id : String}

/-! ## Requests -/

/-- What changes the declarations. -/
inductive Request where
  /-- The binding at an index. -/
  | bind (source : Source) (index : Nat)
  /-- A value that another stage depends on. -/
  | ensure (key : SourceKey)
  /-- An update that runs when a value changes. -/
  | push (key : SourceKey) (update : Node)

def Request.apply (s : Declarations × List Diagnostic) :
    Request → Declarations × List Diagnostic
  | .bind source i => addBinding s (source, i)
  | .ensure key => ((s.1.declare key).1, s.2 ++ (s.1.declare key).2)
  | .push key update => (s.1.attach key update, s.2)

/-- The declarations after some requests, and what has been reported. -/
def run (requests : List Request) : Declarations × List Diagnostic :=
  requests.foldl Request.apply (.empty, [])

theorem run_concat (requests : List Request) (r : Request) :
    run (requests ++ [r]) = r.apply (run requests) := by
  rw [run, List.foldl_append]
  rfl

/-- The requests of bindings, in order. -/
def bindingRequests (bindings : List Source) : List Request :=
  bindings.zipIdx.map fun (source, i) => .bind source i

theorem ofBindings_eq_run (bindings : List Source) :
    ofBindings bindings = run (bindingRequests bindings) := by
  rw [ofBindings, run, bindingRequests, List.foldl_map]
  rfl

/-! ## Distinct ids -/

/-- No two declared values have one id. -/
def IdsDistinct (ds : Declarations) : Prop := (ds.keys.map (·.id)).Nodup

theorem IdsDistinct.eq (h : ds.IdsDistinct) (hkey : key ∈ ds.keys) (howner : owner ∈ ds.keys)
    (hid : owner.id = key.id) : owner = key :=
  List.inj_on_of_nodup_map h howner hkey hid

theorem mem_of_owner? (h : ds.owner? id = some owner) : owner ∈ ds.keys ∧ owner.id = id :=
  ⟨List.mem_of_find?_eq_some h, by simpa using List.find?_some h⟩

theorem owner?_eq_none_iff : ds.owner? id = none ↔ ∀ owner ∈ ds.keys, owner.id ≠ id := by
  simp [owner?]

theorem IdsDistinct.owner?_eq_some_iff (h : ds.IdsDistinct) :
    ds.owner? id = some key ↔ key ∈ ds.keys ∧ key.id = id := by
  refine ⟨mem_of_owner?, fun ⟨hkey, hid⟩ => ?_⟩
  cases howner : ds.owner? id with
  | none => exact absurd hid (owner?_eq_none_iff.1 howner key hkey)
  | some owner =>
    obtain ⟨hmem, hid'⟩ := mem_of_owner? howner
    rw [h.eq hkey hmem (hid'.trans hid.symm)]

/-- What the declaration of a key can do. -/
theorem declare_cases (ds : Declarations) (key : SourceKey) :
    (key ∈ ds.keys ∧ ds.declare key = (ds, [])) ∨
    (key ∉ ds.keys ∧ ∃ owner, ds.owner? key.id = some owner ∧
      ds.declare key = (ds, [.derivedIdCollision key.id owner.describe key.describe])) ∨
    (ds.owner? key.id = none ∧ ds.declare key = (ds.insert key [], [])) := by
  unfold declare
  split
  · next h => exact Or.inl ⟨Table.contains_iff.1 h, rfl⟩
  · next h =>
    have hkey : key ∉ ds.keys := fun hmem => h (Table.contains_iff.2 hmem)
    split
    · next owner howner => exact Or.inr (Or.inl ⟨hkey, owner, howner, rfl⟩)
    · next hfree => exact Or.inr (Or.inr ⟨hfree, rfl⟩)

/-- A declaration adds a value without updates at most. -/
theorem mem_declare {e : SourceKey × List Node} (h : e ∈ (ds.declare key).1.entries) :
    e ∈ ds.entries ∨ e.2 = [] := by
  rcases ds.declare_cases key with ⟨-, heq⟩ | ⟨-, owner, -, heq⟩ | ⟨-, heq⟩
  · rw [heq] at h
    exact Or.inl h
  · rw [heq] at h
    exact Or.inl h
  · rw [heq] at h
    rcases Table.mem_place h with rfl | h
    · exact Or.inr rfl
    · exact Or.inl h

theorem mem_declare_of_mem {e : SourceKey × List Node} (h : e ∈ ds.entries) (key : SourceKey) :
    e ∈ (ds.declare key).1.entries := by
  rcases ds.declare_cases key with ⟨-, heq⟩ | ⟨-, owner, -, heq⟩ | ⟨hfree, heq⟩
  · rw [heq]
    exact h
  · rw [heq]
    exact h
  · rw [heq]
    have hne : e.1 ≠ key := by
      rintro rfl
      exact owner?_eq_none_iff.1 hfree e.1 (List.mem_map_of_mem h) rfl
    apply Table.get?_eq_some_iff.1
    rw [Table.get?_insert_of_ne ds hne]
    exact Table.get?_eq_some_iff.2 h

/-- A value is declared, or the owner of its id is reported. -/
theorem mem_keys_declare (ds : Declarations) (key : SourceKey) :
    key ∈ (ds.declare key).1.keys ∨ ∃ owner ∈ ds.keys, owner ≠ key ∧ owner.id = key.id ∧
      .derivedIdCollision key.id owner.describe key.describe ∈ (ds.declare key).2 := by
  rcases ds.declare_cases key with ⟨hkey, heq⟩ | ⟨hkey, owner, howner, heq⟩ | ⟨-, heq⟩
  · rw [heq]
    exact Or.inl hkey
  · obtain ⟨hmem, hid⟩ := mem_of_owner? howner
    rw [heq]
    exact Or.inr ⟨owner, hmem, fun h => hkey (h ▸ hmem), hid, List.mem_singleton.2 rfl⟩
  · rw [heq]
    exact Or.inl (Table.mem_keys_insert.2 (Or.inl rfl))

theorem mem_keys_declare_of_mem {k : SourceKey} (h : k ∈ ds.keys) (key : SourceKey) :
    k ∈ (ds.declare key).1.keys := by
  obtain ⟨e, he, rfl⟩ := List.mem_map.1 h
  exact List.mem_map_of_mem (mem_declare_of_mem he key)

theorem mem_keys_of_mem_declare {k : SourceKey} (h : k ∈ (ds.declare key).1.keys) :
    k = key ∨ k ∈ ds.keys := by
  rcases ds.declare_cases key with ⟨-, heq⟩ | ⟨-, owner, -, heq⟩ | ⟨-, heq⟩
  · rw [heq] at h
    exact Or.inr h
  · rw [heq] at h
    exact Or.inr h
  · rw [heq] at h
    exact Table.mem_keys_insert.1 h

/-! ## The effect of a request -/

/-- What a request turns declarations into and what it reports. A declared key and a key
whose id another one owns change nothing. -/
inductive Effect (ds : Declarations) : Request → Declarations → List Diagnostic → Prop
  | repeated {key : SourceKey} (declared : key ∈ ds.keys) : Effect ds (.ensure key) ds []
  | collision {key owner : SourceKey} (undeclared : key ∉ ds.keys) (declared : owner ∈ ds.keys)
      (same_id : owner.id = key.id) :
      Effect ds (.ensure key) ds [.derivedIdCollision key.id owner.describe key.describe]
  | addition {key : SourceKey} {ds' : Declarations} (free : ∀ owner ∈ ds.keys, owner.id ≠ key.id)
      (added : ds'.get? key = some []) (others : ∀ k, k ≠ key → ds'.get? k = ds.get? k) :
      Effect ds (.ensure key) ds' []
  | bound {source : Source} {i : Nat} {ds' : Declarations} {found : List Diagnostic}
      (valid : Identifier.isEntityReference (trimmed source.entityId) = true)
      (ensured : Effect ds (.ensure source.key) ds' found) : Effect ds (.bind source i) ds' found
  | invalid {source : Source} {i : Nat}
      (invalid : Identifier.isEntityReference (trimmed source.entityId) = false) :
      Effect ds (.bind source i) ds [.invalidEntityReference source.entityId s!"binding #{i}"]
  | pushed {key : SourceKey} {update : Node} {ds' : Declarations} (same_keys : ds'.keys = ds.keys)
      (appended : ds'.get? key = (ds.get? key).map (· ++ [update]))
      (others : ∀ k, k ≠ key → ds'.get? k = ds.get? k) : Effect ds (.push key update) ds' []

theorem effect_declare (ds : Declarations) (key : SourceKey) :
    Effect ds (.ensure key) (ds.declare key).1 (ds.declare key).2 := by
  rcases ds.declare_cases key with ⟨hkey, heq⟩ | ⟨hkey, owner, howner, heq⟩ | ⟨hfree, heq⟩
  · rw [heq]
    exact .repeated hkey
  · rw [heq]
    obtain ⟨hmem, hid⟩ := mem_of_owner? howner
    exact .collision hkey hmem hid
  · rw [heq]
    exact .addition (owner?_eq_none_iff.1 hfree) (Table.get?_insert_self ds key [])
      fun k hk => Table.get?_insert_of_ne ds hk []

theorem effect_apply (s : Declarations × List Diagnostic) (r : Request) :
    ∃ found, (r.apply s).2 = s.2 ++ found ∧ Effect s.1 r (r.apply s).1 found := by
  cases r with
  | bind source i =>
    unfold Request.apply addBinding
    dsimp only
    split
    · next h => exact ⟨_, rfl, .bound h (effect_declare _ _)⟩
    · next h => exact ⟨_, rfl, .invalid (by simpa using h)⟩
  | ensure key => exact ⟨_, rfl, effect_declare _ _⟩
  | push key update =>
    exact ⟨[], (List.append_nil _).symm, .pushed (Table.keys_modify _ _ _)
      (Table.get?_modify_self _ _ _) fun k hk => Table.get?_modify_of_ne _ hk _⟩

/-- The dot and the underscore of two entities are the same in an id. -/
example : (run [.ensure ⟨.binary, "light.a_b", ""⟩, .ensure ⟨.binary, "light_a.b", ""⟩]).2 =
    [.derivedIdCollision "ha_bin_light_a_b" "light.a_b (binary)" "light_a.b (binary)"] := by
  decide +kernel

/-! ## Owners of ids -/

/-- Declarations with a table of the owners of their ids, both changed by each request. -/
structure Ledger where
  declarations : Declarations
  owners : Table String SourceKey

namespace Ledger

/-- Declares a value unless it is declared already or its id has an owner. -/
def declare (l : Ledger) (key : SourceKey) : Ledger × List Diagnostic :=
  if l.declarations.contains key then (l, [])
  else match l.owners.get? key.id with
    | some owner => (l, [.derivedIdCollision key.id owner.describe key.describe])
    | none => (⟨l.declarations.insert key [], l.owners.insert key.id key⟩, [])

def apply (s : Ledger × List Diagnostic) : Request → Ledger × List Diagnostic
  | .bind source i =>
    if Identifier.isEntityReference (trimmed source.entityId) then
      ((s.1.declare source.key).1, s.2 ++ (s.1.declare source.key).2)
    else (s.1, s.2 ++ [.invalidEntityReference source.entityId s!"binding #{i}"])
  | .ensure key => ((s.1.declare key).1, s.2 ++ (s.1.declare key).2)
  | .push key update => (⟨s.1.declarations.attach key update, s.1.owners⟩, s.2)

def run (requests : List Request) : Ledger × List Diagnostic :=
  requests.foldl apply (⟨.empty, .empty⟩, [])

/-- The owner of an id is the declared key with that id. -/
def IsInverse (l : Ledger) : Prop :=
  ∀ id key, l.owners.get? id = some key ↔ key ∈ l.declarations.keys ∧ key.id = id

theorem IsInverse.idsDistinct {l : Ledger} (h : l.IsInverse) : l.declarations.IdsDistinct := by
  refine List.Nodup.map_on (fun a ha b hb hid => ?_) (Table.nodup_keys _)
  have hfirst := (h a.id a).2 ⟨ha, rfl⟩
  have hsecond := (h a.id b).2 ⟨hb, hid.symm⟩
  exact Option.some.inj (hfirst.symm.trans hsecond)

theorem IsInverse.owner? {l : Ledger} (h : l.IsInverse) (id : String) :
    l.owners.get? id = l.declarations.owner? id := by
  ext key
  rw [h, h.idsDistinct.owner?_eq_some_iff]

theorem IsInverse.insert {l : Ledger} (h : l.IsInverse) (key : SourceKey)
    (hfree : l.declarations.owner? key.id = none) :
    IsInverse ⟨l.declarations.insert key [], l.owners.insert key.id key⟩ := by
  intro id k
  have hnone := owner?_eq_none_iff.1 hfree
  rw [Table.mem_keys_insert]
  by_cases hid : id = key.id
  · subst hid
    rw [Table.get?_insert_self, Option.some.injEq]
    constructor
    · rintro rfl
      exact ⟨Or.inl rfl, rfl⟩
    · rintro ⟨rfl | hmem, hk⟩
      · rfl
      · exact absurd hk (hnone k hmem)
  · rw [Table.get?_insert_of_ne _ hid, h]
    constructor
    · exact fun ⟨hmem, hk⟩ => ⟨Or.inr hmem, hk⟩
    · rintro ⟨rfl | hmem, hk⟩
      · exact absurd hk.symm hid
      · exact ⟨hmem, hk⟩

/-- The two tables together do what the declarations do alone. -/
theorem IsInverse.declare {l : Ledger} (h : l.IsInverse) (key : SourceKey) :
    (l.declare key).1.IsInverse ∧ (l.declare key).1.declarations = (l.declarations.declare key).1 ∧
      (l.declare key).2 = (l.declarations.declare key).2 := by
  unfold Ledger.declare Declarations.declare
  rw [h.owner?]
  by_cases hkey : l.declarations.contains key = true
  · rw [if_pos hkey, if_pos hkey]
    exact ⟨h, rfl, rfl⟩
  · rw [if_neg hkey, if_neg hkey]
    cases hfree : l.declarations.owner? key.id with
    | some owner => exact ⟨h, rfl, rfl⟩
    | none => exact ⟨h.insert key hfree, rfl, rfl⟩

theorem IsInverse.apply {s : Ledger × List Diagnostic} (h : s.1.IsInverse) (r : Request) :
    (Ledger.apply s r).1.IsInverse ∧
      ((Ledger.apply s r).1.declarations, (Ledger.apply s r).2) =
        r.apply (s.1.declarations, s.2) := by
  cases r with
  | bind source i =>
    unfold Ledger.apply Request.apply addBinding
    dsimp only
    obtain ⟨hinverse, hds, hfound⟩ := h.declare source.key
    split
    · exact ⟨hinverse, by rw [hds, hfound]⟩
    · exact ⟨h, rfl⟩
  | ensure key =>
    obtain ⟨hinverse, hds, hfound⟩ := h.declare key
    refine ⟨hinverse, ?_⟩
    unfold Ledger.apply Request.apply
    dsimp only
    rw [hds, hfound]
  | push key update =>
    refine ⟨fun id k => ?_, rfl⟩
    show s.1.owners.get? id = some k ↔ k ∈ (s.1.declarations.modify key _).keys ∧ k.id = id
    rw [Table.keys_modify]
    exact h id k

/-- The invariant of the two tables over a run of requests. -/
theorem run_spec (requests : List Request) :
    (run requests).1.IsInverse ∧
      ((run requests).1.declarations, (run requests).2) = Declarations.run requests := by
  induction requests using List.reverseRecOn with
  | nil => exact ⟨fun id key => by simp [run, Table.empty, Table.get?, Table.keys], rfl⟩
  | append_singleton requests r ih =>
    obtain ⟨hinverse, heq⟩ := ih
    have hrun : run (requests ++ [r]) = apply (run requests) r := by
      rw [run, List.foldl_append]
      rfl
    rw [hrun, run_concat, ← heq]
    exact hinverse.apply r

end Ledger

theorem idsDistinct_run (requests : List Request) : (run requests).1.IdsDistinct := by
  obtain ⟨hinverse, heq⟩ := Ledger.run_spec requests
  rw [← heq]
  exact hinverse.idsDistinct

/-! ## Sections -/

/-- Sections that list entries of declarations. A section is not empty, has the entries of
its kinds only, and has them in order. -/
structure Lists (sections : List (String × List Node))
    (parts : List (String × List (SourceKey × List Node))) : Prop where
  entries : sections = parts.map fun s => (s.1, s.2.map fun e => entry e.1 e.2)
  names : (parts.map (·.1)).Sublist sectionNames
  filled : ∀ s ∈ parts, s.2 ≠ []
  kinds : ∀ s ∈ parts, ∀ e ∈ s.2, e.1.sectionName = s.1
  ordered : ∀ s ∈ parts, s.2.Pairwise fun a b => a.1.Before b.1

theorem flatMap_filter_perm {α β : Type} [DecidableEq β] {f : α → β} {names : List β}
    (hnodup : names.Nodup) {l : List α} (h : ∀ x ∈ l, f x ∈ names) :
    (names.flatMap fun name => l.filter fun x => f x = name).Perm l := by
  induction names generalizing l with
  | nil =>
    cases l with
    | nil => exact .nil
    | cons x r => cases h x List.mem_cons_self
  | cons name names ih =>
    obtain ⟨hname, hnodup⟩ := List.nodup_cons.1 hnodup
    have hrest : ∀ x ∈ l.filter fun x => !decide (f x = name), f x ∈ names := by
      intro x hx
      obtain ⟨hmem, hne⟩ := List.mem_filter.1 hx
      exact (List.mem_cons.1 (h x hmem)).resolve_left (by simpa using hne)
    have hskip : ∀ other ∈ names, (l.filter fun x => !decide (f x = name)).filter
        (fun x => f x = other) = l.filter fun x => f x = other := by
      intro other hother
      rw [List.filter_filter]
      refine List.filter_congr fun x _ => ?_
      have hne : other ≠ name := fun heq => hname (heq ▸ hother)
      by_cases hx : f x = other
      · simp [hx, hne]
      · simp [hx]
    rw [List.flatMap_cons]
    refine .trans (.append_left _ ?_) (List.filter_append_perm (fun x => decide (f x = name)) l)
    rw [← List.flatMap_congr hskip]
    exact ih hnodup hrest

theorem sectionName_mem (k : SourceKey) : k.sectionName ∈ sectionNames := by
  unfold SourceKey.sectionName
  cases k.kind <;> decide

/-- The declarations of a section. -/
def part (ds : Declarations) (name : String) : List (SourceKey × List Node) :=
  ds.entries.filter fun e => e.1.sectionName = name

/-- The declarations of each section that has some. -/
def parts (ds : Declarations) : List (String × List (SourceKey × List Node)) :=
  sectionNames.filterMap fun name =>
    match ds.part name with
    | [] => none
    | es => some (name, es)

theorem mem_parts {s : String × List (SourceKey × List Node)} (h : s ∈ ds.parts) :
    s.2 = ds.part s.1 ∧ s.2 ≠ [] := by
  obtain ⟨name, -, hs⟩ := List.mem_filterMap.1 h
  split at hs
  · cases hs
  · next hne =>
    obtain rfl := Option.some.inj hs
    exact ⟨rfl, hne⟩

theorem lists_parts (ds : Declarations) : Lists ds.sections ds.parts where
  entries := by
    rw [sections, parts, List.map_filterMap]
    refine List.filterMap_congr fun name _ => ?_
    unfold part
    cases ds.entries.filter fun e => e.1.sectionName = name <;> rfl
  names := by
    refine map_fst_filterMap_sublist (fun name s hs => ?_) sectionNames
    split at hs
    · cases hs
    · obtain rfl := Option.some.inj hs
      rfl
  filled := fun s hs => (mem_parts hs).2
  kinds := fun s hs e he => by
    rw [(mem_parts hs).1] at he
    simpa using (List.mem_filter.1 he).2
  ordered := fun s hs => by
    rw [(mem_parts hs).1]
    exact (ds.sorted.imp SourceKey.compare_eq_lt_iff.1).filter _

/-- The sections list each declaration exactly once. -/
theorem parts_perm (ds : Declarations) : (ds.parts.flatMap (·.2)).Perm ds.entries := by
  have hparts : ds.parts.flatMap (·.2) = sectionNames.flatMap ds.part := by
    unfold parts
    induction sectionNames with
    | nil => rfl
    | cons name names ih =>
      rw [List.flatMap_cons, ← ih]
      cases hpart : ds.part name with
      | nil =>
        rw [List.filterMap_cons_none (by rw [hpart])]
        rfl
      | cons e r =>
        rw [List.filterMap_cons_some (by rw [hpart]), List.flatMap_cons]
  rw [hparts]
  exact flatMap_filter_perm (by decide) fun e _ => sectionName_mem e.1

/-- Every declaration has its entry in a section. -/
theorem exists_entry {e : SourceKey × List Node} (h : e ∈ ds.entries) :
    ∃ s ∈ ds.sections, entry e.1 e.2 ∈ s.2 := by
  obtain ⟨s, hs, he⟩ := List.mem_flatMap.1 (ds.parts_perm.mem_iff.2 h)
  rw [ds.lists_parts.entries]
  exact ⟨_, List.mem_map_of_mem hs, List.mem_map_of_mem he⟩

theorem IdsDistinct.nodup_declaredIds (h : ds.IdsDistinct) :
    ((ds.sections.flatMap (·.2)).map Node.declaredId?).Nodup := by
  have hids : (ds.sections.flatMap (·.2)).map Node.declaredId? =
      (ds.parts.flatMap (·.2)).map fun e => some e.1.id := by
    rw [ds.lists_parts.entries, List.flatMap_map, List.map_flatMap, List.map_flatMap]
    refine List.flatMap_congr fun s _ => ?_
    rw [List.map_map]
    rfl
  rw [hids, (ds.parts_perm.map _).nodup_iff]
  have hkeys : ds.entries.map (fun e => some e.1.id) = (ds.keys.map (·.id)).map some := by
    rw [Table.keys, List.map_map, List.map_map]
    rfl
  rw [hkeys]
  exact h.map fun a b hab => Option.some.inj hab

/-! ## The declarations of a project -/

theorem exists_requests_ofLinks (links : List Link) (index : WidgetIndex)
    (requests : List Request) :
    ∃ further, (LinkRun.ofLinks links index (run requests).1).declarations =
      (run (requests ++ further)).1 := by
  induction links using List.reverseRecOn with
  | nil => exact ⟨[], by rw [List.append_nil]; rfl⟩
  | append_singleton links link ih =>
    obtain ⟨further, hdeclarations⟩ := ih
    rcases LinkRun.ofLinks_concat_cases links link index (run requests).1 with
      ⟨d, -, hrun⟩ | ⟨a, target, -, hrun⟩
    · rw [hrun]
      exact ⟨further, hdeclarations⟩
    · rw [hrun]
      refine ⟨further ++ [.push a.key (Lock.guarded a.lock [a.update])], ?_⟩
      rw [← List.append_assoc, run_concat]
      exact congrArg (attach · a.key _) hdeclarations

theorem exists_requests_ofScripts (scripts : List SetpointScript) (requests : List Request) :
    ∃ further, (ScriptRun.ofScripts scripts (run requests).1).declarations =
      (run (requests ++ further)).1 := by
  refine ScriptRun.ofScripts_induction
    (motive := fun ds => ∃ further, ds = (run (requests ++ further)).1)
    ⟨[], by rw [List.append_nil]⟩ ?_ scripts
  rintro ds s ⟨further, hds⟩ -
  refine ⟨further ++ [.ensure s.sensor], ?_⟩
  rw [← List.append_assoc, run_concat]
  exact congrArg (fun ds => (declare ds s.sensor).1) hds

/-- The declarations of a project come from requests, the first of which are its bindings. -/
theorem exists_requests_scriptsOf (p : Project) (registry : Registry) (options : Options) :
    ∃ further, (Fragments.scriptsOf p registry options).declarations =
      (run (bindingRequests p.bindings ++ further)).1 := by
  unfold Fragments.scriptsOf Fragments.linksOf
  rw [ofBindings_eq_run]
  obtain ⟨pushes, hlinks⟩ := exists_requests_ofLinks p.links
    (Fragments.indexOf p registry options) (bindingRequests p.bindings)
  rw [hlinks]
  obtain ⟨further, hscripts⟩ := exists_requests_ofScripts p.scripts
    (bindingRequests p.bindings ++ pushes)
  exact ⟨pushes ++ further, by rw [hscripts, List.append_assoc]⟩

theorem exists_requests (p : Project) (registry : Registry) (options : Options) :
    ∃ further, (Fragments.ofProject p registry options).1.sensors =
      (run (bindingRequests p.bindings ++ further)).1.sections := by
  obtain ⟨further, hscripts⟩ := exists_requests_scriptsOf p registry options
  rw [Fragments.ofProject_eq]
  exact ⟨further, congrArg sections hscripts⟩

/-- After any requests, declarations and the owners of ids are inverse tables, no two ids
are equal, the next request has its effect, and the sections list what is declared. The
sections of a project are such sections. -/
theorem declarations_accounted (requests : List Request) (p : Project) (registry : Registry)
    (options : Options) :
    let ds := (run requests).1
    ((Ledger.run requests).1.declarations, (Ledger.run requests).2) = run requests ∧
    (∀ id key, (Ledger.run requests).1.owners.get? id = some key ↔ key ∈ ds.keys ∧ key.id = id) ∧
    (∀ id, ds.owner? id = (Ledger.run requests).1.owners.get? id) ∧
    (∀ key updates, (key, updates) ∈ ds.entries ↔ ds.get? key = some updates) ∧
    (ds.keys.map (·.id)).Nodup ∧
    (∀ a b : SourceKey, a.id = b.id → a.kind = b.kind) ∧
    (∀ r, ∃ found, (run (requests ++ [r])).2 = (run requests).2 ++ found ∧
      Effect ds r (run (requests ++ [r])).1 found) ∧
    (∃ parts, Lists ds.sections parts ∧ (parts.flatMap (·.2)).Perm ds.entries) ∧
    ((ds.sections.flatMap (·.2)).map Node.declaredId?).Nodup ∧
    ofBindings p.bindings = run (bindingRequests p.bindings) ∧
    (∃ further, (Fragments.ofProject p registry options).1.sensors =
      (run (bindingRequests p.bindings ++ further)).1.sections) := by
  obtain ⟨hinverse, heq⟩ := Ledger.run_spec requests
  have hds : (Ledger.run requests).1.declarations = (run requests).1 := congrArg Prod.fst heq
  have hdistinct := idsDistinct_run requests
  refine ⟨heq, fun id key => ?_, fun id => ?_, fun key updates => Table.get?_eq_some_iff.symm,
    hdistinct, fun a b => SourceKey.kind_eq_of_id_eq, fun r => ?_,
    ⟨_, lists_parts _, parts_perm _⟩, hdistinct.nodup_declaredIds,
    ofBindings_eq_run p.bindings, exists_requests p registry options⟩
  · rw [hinverse, hds]
  · rw [hinverse.owner?, hds]
  · rw [run_concat]
    exact effect_apply (run requests) r

end Declarations

end TouchPanel
