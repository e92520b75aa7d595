import Mathlib.Data.List.Forall2
import TouchPanel.Json.Decode
import TouchPanel.Proofs.Access.Basic
import TouchPanel.Proofs.Json.Term
import TouchPanel.Proofs.Table

/-!
# Reading what was written

A decoder and a writer of one type of data belong together if whatever the decoder gives is given
again by the term of what is written for it. Lists, tables and records take this over from their
parts: a record is written field by field, and a field that is left out has its default.
-/

namespace TouchPanel.Json

/-! ## Faithful doubles -/

/-- Whether all doubles in a value are read back from their texts. -/
def Value.IsFaithful (v : Value) : Prop := ∀ x ∈ v.doubles, (Number.float x).IsReadBack

namespace Value

instance (v : Value) : Decidable v.IsFaithful :=
  inferInstanceAs (Decidable (∀ x ∈ v.doubles, _))

theorem IsFaithful.isLegible {v : Value} (h : v.IsFaithful) :
    ∀ x ∈ v.doubles, (Number.float x).IsLegible :=
  fun x hx => (Number.isReadBack_iff.1 (h x hx)).1

theorem isFaithful_array {items : List Value} :
    (array items).IsFaithful ↔ ∀ v ∈ items, v.IsFaithful := by
  induction items with
  | nil => exact ⟨nofun, nofun⟩
  | cons v r ih =>
    rw [List.forall_mem_cons, ← ih]
    exact List.forall_mem_append

theorem isFaithful_object {fields : List (String × Value)} :
    (object fields).IsFaithful ↔ ∀ e ∈ fields, e.2.IsFaithful := by
  induction fields with
  | nil => exact ⟨nofun, nofun⟩
  | cons e r ih =>
    rw [List.forall_mem_cons, ← ih]
    exact List.forall_mem_append

theorem toTerm_eq_null {v : Value} (h : v.toTerm = .null) : v = .null := by
  cases v <;> first | rfl | cases h

end Value

theorem mem_of_mapM {α β : Type} {f : α → Option β} {l : List α} {l' : List β}
    (h : l.mapM f = some l') {b : β} (hb : b ∈ l') : ∃ a ∈ l, f a = some b := by
  induction l generalizing l' with
  | nil =>
    obtain rfl := Option.some.inj h
    cases hb
  | cons a l ih =>
    simp only [List.mapM_cons, Option.bind_eq_bind, Option.pure_def, Option.bind_eq_some_iff,
      Option.some.injEq] at h
    obtain ⟨c, hc, r, hr, rfl⟩ := h
    rcases List.mem_cons.1 hb with rfl | hb
    · exact ⟨a, List.mem_cons_self, hc⟩
    · obtain ⟨a', ha', hb'⟩ := ih hr hb
      exact ⟨a', List.mem_cons_of_mem a ha', hb'⟩

theorem mapM_map_eq {α β : Type} {f : β → Option α} {g : α → β} {l : List α}
    (h : ∀ a ∈ l, f (g a) = some a) : (l.map g).mapM f = some l := by
  rw [List.mapM_map]
  exact (Access.mapM_eq (f := id) h).trans (congrArg some l.map_id)

namespace Decoder

open Value

variable {α β : Type} {read : Decoder α} {write : α → Value} {depth : Nat}

/-! ## Restoring what was read -/

/-- Data is read from the term of what is written for it. -/
def Restored (read : Decoder α) (write : α → Value) (depth : Nat) (a : α) : Prop :=
  (write a).IsFaithful → read depth (write a).toTerm = some a

/-- All that is read is read again from what is written for it. -/
def Restores (read : Decoder α) (write : α → Value) (depth : Nat) : Prop :=
  ∀ t a, read depth t = some a → Restored read write depth a

theorem restores_string : Restores string .string depth := fun _ _ _ _ => rfl

theorem restored_float (x : Float) : Restored float (fun x => .number (.float x)) depth x := by
  intro h
  have hx := (Number.isReadBack_iff.1 (h x List.mem_cons_self)).2
  rw [toTerm, float]
  simp only [hx, Option.map_some]

theorem restores_float : Restores float (fun x => .number (.float x)) depth :=
  fun _ x _ => restored_float x

theorem restored_natBelow {bound n : Nat} (hbound : bound ≤ Nat.pow 2 64) (hn : n < bound) :
    Restored (natBelow bound) (fun n => .number (.int n)) depth n := by
  intro _
  have hback := Number.isReadBack_int (n := n) ⟨by omega, by omega⟩
  rw [toTerm, natBelow]
  simp only [(Number.isReadBack_iff.1 hback).2]
  simp [hn]

theorem restores_natBelow {bound : Nat} (hbound : bound ≤ Nat.pow 2 64) :
    Restores (natBelow bound) (fun n => .number (.int n)) depth := by
  intro t n h
  refine restored_natBelow hbound ?_
  unfold natBelow at h
  split at h
  · split at h
    · split at h
      · next hrange =>
        obtain rfl := Option.some.inj h
        simp only [Bool.and_eq_true, decide_eq_true_eq] at hrange
        omega
      · cases h
    · cases h
  · cases h

theorem restores_list (h : Restores read write depth) :
    Restores (list read) (fun l => .array (l.map write)) (depth + 1) := by
  intro t l hl hfaithful
  cases t with
  | array items =>
    have hitem : ∀ a ∈ l, read depth (write a).toTerm = some a := fun a ha =>
      have ⟨t, _, ht⟩ := mem_of_mapM hl ha
      h t a ht (isFaithful_array.1 hfaithful _ (List.mem_map_of_mem ha))
    rw [toTerm, itemTerms_eq_map, list, List.map_map]
    exact mapM_map_eq hitem
  | _ => cases hl

/-- One entry of a table. -/
def entry (read : Decoder α) (depth : Nat) (f : Option String × Term) : Option (String × α) := do
  return (← f.1, ← read depth f.2)

theorem table_object (fields : List (Option String × Term)) :
    table read (depth + 1) (.object fields) =
      (fields.mapM (entry read depth)).map Table.ofList := rfl

theorem entry_eq_some_iff {f : Option String × Term} {e : String × α} :
    entry read depth f = some e ↔ f.1 = some e.1 ∧ read depth f.2 = some e.2 := by
  obtain ⟨k, a⟩ := e
  simp [entry, Option.bind_eq_some_iff]

theorem restores_table (h : Restores read write depth) :
    Restores (table read) (fun t => .object (t.entries.map fun e => (e.1, write e.2)))
      (depth + 1) := by
  intro t a ha hfaithful
  cases t with
  | object fields =>
    obtain ⟨fs, hfs, rfl⟩ := Option.map_eq_some_iff.1 ((table_object fields).symm.trans ha)
    have hentry : ∀ e ∈ (Table.ofList fs).entries,
        entry read depth (some e.1, (write e.2).toTerm) = some e := by
      intro e he
      obtain ⟨f, -, hf⟩ := mem_of_mapM hfs (Table.mem_of_mem_ofList he)
      have hread := (entry_eq_some_iff.1 hf).2
      exact entry_eq_some_iff.2 ⟨rfl, h f.2 e.2 hread
        (isFaithful_object.1 hfaithful (e.1, write e.2) (List.mem_map_of_mem he))⟩
    rw [toTerm, fieldTerms_eq_map, table_object, List.map_map]
    refine (congrArg (Option.map Table.ofList) (mapM_map_eq hentry)).trans ?_
    rw [Option.map_some, Table.ofList_entries]
  | _ => cases ha

/-! ### Values -/

theorem restores_items {read : Decoder Value} (h : Restores read id depth) :
    Restores (list read) .array (depth + 1) := by
  simpa only [List.map_id_fun, id_eq] using restores_list h

theorem restores_entries {read : Decoder Value} (h : Restores read id depth) :
    Restores (table read) (fun t => .object t.entries) (depth + 1) := by
  simpa only [id_eq, Prod.mk.eta, List.map_id_fun'] using restores_table h

theorem itemValues?_eq (depth : Nat) (items : List Term) :
    Term.itemValues? depth items = items.mapM (value depth) := by
  induction items with
  | nil => rfl
  | cons t items ih =>
    rw [Term.itemValues?, ih, List.mapM_cons]
    change _ = (t.value? depth).bind _
    cases t.value? depth with
    | none => rfl
    | some v =>
      change _ = (items.mapM (value depth)).bind _
      cases items.mapM (value depth) <;> rfl

theorem fieldValues?_eq (depth : Nat) (fields : List (Option String × Term)) :
    Term.fieldValues? depth fields = fields.mapM (entry value depth) := by
  induction fields with
  | nil => rfl
  | cons f fields ih =>
    rw [List.mapM_cons]
    obtain ⟨_ | k, t⟩ := f
    · rfl
    · rw [Term.fieldValues?.eq_def]
      simp only [ih]
      change _ = ((t.value? depth).bind fun v => some (k, v)).bind _
      cases t.value? depth with
      | none => rfl
      | some v =>
        change _ = (fields.mapM (entry value depth)).bind _
        cases fields.mapM (entry value depth) <;> rfl

theorem value_array (items : List Term) : value (depth + 1) (.array items) =
    (list value (depth + 1) (.array items)).map .array := by
  rw [value, Term.value?, itemValues?_eq]
  rfl

theorem value_object (fields : List (Option String × Term)) : value (depth + 1) (.object fields) =
    (table value (depth + 1) (.object fields)).map fun t => .object t.entries := by
  rw [value, Term.value?, fieldValues?_eq, table_object, Option.map_map]
  rfl

theorem isReadBack_of_number? {m : Numeral} {n : Number} (h : m.number? = some n)
    (hfaithful : (Value.number n).IsFaithful) : n.IsReadBack := by
  cases n with
  | int i => exact Number.isReadBack_int (Numeral.is64Bit_of_number? h)
  | float x => exact hfaithful x List.mem_cons_self

/-- A value that is not nested is read again at any depth. -/
theorem restored_value_plain {t : Term} {v : Value} (h : t.value? depth = some v)
    (harray : ∀ items, t ≠ .array items) (hobject : ∀ fields, t ≠ .object fields) :
    Restored value id depth v := by
  intro hfaithful
  cases t with
  | null => obtain rfl := Option.some.inj h; rfl
  | bool b => obtain rfl := Option.some.inj h; rfl
  | number m =>
    obtain ⟨n, hn, rfl⟩ := Option.map_eq_some_iff.1 h
    have hback := Number.isReadBack_iff.1 (isReadBack_of_number? hn hfaithful)
    rw [id_eq, toTerm, value, Term.value?, hback.2]
    rfl
  | string s =>
    obtain ⟨s, -, rfl⟩ := Option.map_eq_some_iff.1 h
    rfl
  | array items => exact absurd rfl (harray items)
  | object fields => exact absurd rfl (hobject fields)

/-- A value is read again from its term. -/
theorem restores_value (depth : Nat) : Restores value id depth := by
  induction depth with
  | zero =>
    intro t v h
    refine restored_value_plain h ?_ ?_ <;> rintro _ rfl <;> cases h
  | succ depth ih =>
    intro t v h hfaithful
    cases t with
    | array items =>
      obtain ⟨vs, hvs, rfl⟩ := Option.map_eq_some_iff.1 ((value_array items).symm.trans h)
      have hread : list value (depth + 1) (.array (itemTerms vs)) = some vs :=
        restores_items ih _ vs hvs hfaithful
      rw [id_eq, toTerm, value_array, hread]
      rfl
    | object fields =>
      obtain ⟨a, ha, rfl⟩ := Option.map_eq_some_iff.1 ((value_object fields).symm.trans h)
      have hread : table value (depth + 1) (.object (fieldTerms a.entries)) = some a :=
        restores_entries ih _ a ha hfaithful
      rw [id_eq, toTerm, value_object, hread]
      rfl
    | _ => exact restored_value_plain h (by simp) (by simp) hfaithful

/-! ## Records -/

section Records

variable {slot : α → Option Value} {front : List (Option Value)} {slots : β → List (Option Value)}

/-- A reader of one field gives again what it gave if the field is as it is written. -/
def KeepsField (m : Slots α) (slot : α → Option Value) : Prop :=
  ∀ s a s', m.run s = some (a, s') → (∀ v ∈ slot a, v.IsFaithful) →
    ∀ r, m.run ((slot a).map toTerm :: r) = some (a, r)

/-- A reader of the fields behind those in front gives again what it gave if they are as they are
written. -/
def Keeps (m : Slots β) (front : List (Option Value)) (slots : β → List (Option Value)) : Prop :=
  ∀ s b s', m.run s = some (b, s') → ∃ l, slots b = front ++ l ∧
    ((∀ v, some v ∈ l → v.IsFaithful) → ∀ r, m.run (l.map (·.map toTerm) ++ r) = some (b, r))

theorem Keeps.pure {b : β} (h : slots b = front) : Keeps (pure b) front slots := by
  intro s b' s' hrun
  obtain ⟨rfl, -⟩ := Prod.mk.inj (Option.some.inj hrun)
  exact ⟨[], by rw [h, List.append_nil], fun _ r => rfl⟩

theorem KeepsField.bind {m : Slots α} {f : α → Slots β} (hm : KeepsField m slot)
    (hf : ∀ a, Keeps (f a) (front ++ [slot a]) slots) : Keeps (m >>= f) front slots := by
  intro s b s' hrun
  rw [StateT.run_bind] at hrun
  obtain ⟨⟨a, r⟩, ha, hb⟩ := Option.bind_eq_some_iff.1 hrun
  obtain ⟨l, hl, hrest⟩ := hf a r b s' hb
  refine ⟨slot a :: l, by rw [hl, List.append_assoc, List.singleton_append], fun hfaithful r' => ?_⟩
  have hfirst := hm s a r ha (fun v hv => hfaithful v (hv ▸ List.mem_cons_self))
    (l.map (·.map toTerm) ++ r')
  rw [StateT.run_bind, List.map_cons, List.cons_append, hfirst]
  exact hrest (fun v hv => hfaithful v (List.mem_cons_of_mem _ hv)) r'

theorem forall_of_run_bind {P : β → Prop} {m : Slots α} {f : α → Slots β}
    (hf : ∀ a s b s', (f a).run s = some (b, s') → P b) :
    ∀ s b s', (m >>= f).run s = some (b, s') → P b := by
  intro s b s' hrun
  rw [StateT.run_bind] at hrun
  obtain ⟨⟨a, r⟩, -, hb⟩ := Option.bind_eq_some_iff.1 hrun
  exact hf a r b s' hb

theorem run_required_some (t : Term) (r : List (Option Term)) :
    (required read depth).run (some t :: r) = (read depth t).map (·, r) := by
  change (read depth t).bind _ = _
  cases read depth t <;> rfl

theorem run_orElse_none (default : α) (r : List (Option Term)) :
    (orElse read default depth).run (none :: r) = some (default, r) := rfl

theorem run_orElse_some (default : α) (t : Term) (r : List (Option Term)) :
    (orElse read default depth).run (some t :: r) = (read depth t).map (·, r) := by
  change (read depth t).bind _ = _
  cases read depth t <;> rfl

/-- A field that must be there was read from its term. -/
theorem exists_of_run_required {s s' : List (Option Term)} {a : α}
    (h : (required read depth).run s = some (a, s')) : ∃ t, read depth t = some a := by
  match s with
  | [] => cases h
  | none :: r => cases h
  | some t :: r =>
    rw [run_required_some] at h
    obtain ⟨b, hb, heq⟩ := Option.map_eq_some_iff.1 h
    exact ⟨t, (Prod.mk.inj heq).1 ▸ hb⟩

/-- A field that has a default was read from its term, or it is the default. -/
theorem eq_or_exists_of_run_orElse {s s' : List (Option Term)} {default a : α}
    (h : (orElse read default depth).run s = some (a, s')) :
    a = default ∨ ∃ t, read depth t = some a := by
  match s with
  | [] => cases h
  | none :: r =>
    rw [run_orElse_none] at h
    exact .inl (Prod.mk.inj (Option.some.inj h)).1.symm
  | some t :: r =>
    rw [run_orElse_some] at h
    obtain ⟨b, hb, heq⟩ := Option.map_eq_some_iff.1 h
    exact .inr ⟨t, (Prod.mk.inj heq).1 ▸ hb⟩

theorem keepsField_required (h : Restores read write depth) :
    KeepsField (required read depth) fun a => some (write a) := by
  intro s a s' hrun hfaithful r
  obtain ⟨t, ht⟩ := exists_of_run_required hrun
  rw [Option.map_some, run_required_some, h t a ht (hfaithful _ rfl), Option.map_some]

/-- A field with a default that is written in any case. -/
theorem keepsField_orElse {default : α} (h : Restores read write depth)
    (hdefault : Restored read write depth default) :
    KeepsField (orElse read default depth) fun a => some (write a) := by
  intro s a s' hrun hfaithful r
  have hread : Restored read write depth a := by
    rcases eq_or_exists_of_run_orElse hrun with rfl | ⟨t, ht⟩
    · exact hdefault
    · exact h t a ht
  rw [Option.map_some, run_orElse_some, hread (hfaithful _ rfl), Option.map_some]

theorem optional_eq {t : Term} (h : t ≠ .null) :
    optional read depth t = (read depth t).map some := by
  cases t with
  | null => exact absurd rfl h
  | _ => rfl

/-- A field that is left out if it is missing. -/
theorem keepsField_optional (h : Restores read write depth) (hnull : ∀ a, write a ≠ .null) :
    KeepsField (orElse (optional read) none depth) (Option.map write) := by
  intro s a s' hrun hfaithful r
  cases a with
  | none => exact run_orElse_none none r
  | some a =>
    have hread : ∃ t, read depth t = some a := by
      rcases eq_or_exists_of_run_orElse hrun with heq | ⟨t, ht⟩
      · cases heq
      · refine ⟨t, ?_⟩
        by_cases hn : t = .null
        · subst hn
          cases ht
        · rw [optional_eq hn] at ht
          obtain ⟨b, hb, heq⟩ := Option.map_eq_some_iff.1 ht
          exact Option.some.inj heq ▸ hb
    obtain ⟨t, ht⟩ := hread
    rw [Option.map_some, Option.map_some, run_orElse_some,
      optional_eq fun heq => hnull a (toTerm_eq_null heq), h t a ht (hfaithful _ rfl)]
    rfl

/-! ### Named fields -/

/-- The fields of an object that are there. -/
def present (fields : List (String × Option Value)) : List (String × Value) :=
  fields.filterMap fun e => e.2.map (e.1, ·)

theorem filter_present (p : String → Bool) (fields : List (String × Option Value)) :
    (present fields).filter (fun e => p e.1) = present (fields.filter fun e => p e.1) := by
  induction fields with
  | nil => rfl
  | cons e r ih =>
    obtain ⟨k, _ | v⟩ := e
    · cases hk : p k <;> simpa [present, hk] using ih
    · cases hk : p k <;> simpa [present, hk] using ih

/-- What a decoder of records sees of the fields of an object that was written. -/
def termFields (fields : List (String × Value)) : List (String × Term) :=
  fields.map fun e => (e.1, e.2.toTerm)

theorem keyed?_fieldTerms (fields : List (String × Value)) :
    keyed? (fieldTerms fields) = some (termFields fields) := by
  rw [fieldTerms_eq_map, keyed?, List.mapM_map]
  exact Access.mapM_eq fun e _ => rfl

theorem named?_present {names : List String} {fields : List (String × Option Value)}
    {e : String × Option Value} (h : fields.filter (fun f => names.contains f.1) = [e])
    {others : List (String × Value)} (hothers : ∀ f ∈ others, names.contains f.1 = false) :
    Record.named? names (termFields (present fields ++ others)) = some (e.2.map toTerm) := by
  have hfilter : (termFields (present fields ++ others)).filter (names.contains ·.1) =
      termFields (present [e]) := by
    have hnone : others.filter (fun f => names.contains f.1) = [] :=
      List.filter_eq_nil_iff.2 fun f hf => by rw [hothers f hf]; decide
    rw [termFields, List.filter_map]
    change termFields ((present fields ++ others).filter fun f => names.contains f.1) = _
    rw [List.filter_append, filter_present, h, hnone, List.append_nil]
  rw [Record.named?, hfilter]
  obtain ⟨k, _ | v⟩ := e <;> rfl

/-- Names that meet the keys of the fields in the key of one field alone pick this field. -/
theorem filter_eq_singleton {names : List String} {fields : List (String × Option Value)}
    {e : String × Option Value} (he : e ∈ fields)
    (h : (fields.map (·.1)).filter names.contains = [e.1]) :
    fields.filter (fun f => names.contains f.1) = [e] := by
  have hkey : e.1 ∈ (fields.map (·.1)).filter names.contains := h ▸ List.mem_cons_self
  have hmem : e ∈ fields.filter fun f => names.contains f.1 :=
    List.mem_filter.2 ⟨he, (List.mem_filter.1 hkey).2⟩
  rw [List.filter_map] at h
  obtain ⟨e', r, hfilter, -, hr⟩ := List.map_eq_cons_iff.1 h
  obtain rfl := List.map_eq_nil_iff.1 hr
  have hpick : fields.filter (fun f => names.contains f.1) = [e'] := hfilter
  rw [hpick, List.mem_singleton] at hmem
  rw [hpick, hmem]

/-- Each field is found under the one of its names that it is written under. -/
theorem mapM_named?_present {names : List (List String)} {fields : List (String × Option Value)}
    (h : names.map (fun ns => (fields.map (·.1)).filter ns.contains) = fields.map ([·.1]))
    {others : List (String × Value)}
    (hothers : ∀ f ∈ others, ∀ ns ∈ names, ns.contains f.1 = false) :
    names.mapM (Record.named? · (termFields (present fields ++ others))) =
      some (fields.map (·.2.map toTerm)) := by
  have hsuffix : ∀ (ns : List (List String)) (fs : List (String × Option Value)), ns ⊆ names →
      fs ⊆ fields → ns.map (fun n => (fields.map (·.1)).filter n.contains) = fs.map ([·.1]) →
      ns.mapM (Record.named? · (termFields (present fields ++ others))) =
        some (fs.map (·.2.map toTerm)) := by
    intro ns fs hns hfs hmap
    induction fs generalizing ns with
    | nil =>
      obtain rfl : ns = [] := List.map_eq_nil_iff.1 hmap
      rfl
    | cons e fs ih =>
      obtain ⟨n, ns, rfl, hn, hrest⟩ := List.map_eq_cons_iff.1 hmap
      have hpick := filter_eq_singleton (hfs List.mem_cons_self) hn
      rw [List.mapM_cons, named?_present hpick fun f hf => hothers f hf n (hns List.mem_cons_self),
        ih ns (List.subset_of_cons_subset hns) (List.subset_of_cons_subset hfs) hrest]
      rfl
  exact hsuffix names fields (List.Subset.refl _) (List.Subset.refl _) h

theorem mem_present {fields : List (String × Option Value)} {v : Value}
    (h : some v ∈ fields.map (·.2)) : ∃ k, (k, v) ∈ present fields := by
  obtain ⟨⟨k, o⟩, he, rfl⟩ := List.mem_map.1 h
  exact ⟨k, List.mem_filterMap.2 ⟨(k, some v), he, rfl⟩⟩

/-- A record is read again if its fields are, and if no field is known under the key of another. -/
theorem restores_record {names : List (List String)} {fields : Nat → Slots α}
    {form : α → List (String × Option Value)}
    (hnames : ∀ a, names.map (fun ns => ((form a).map (·.1)).filter ns.contains) =
      (form a).map ([·.1]))
    (hwrite : ∀ a, write a = .object (present (form a)))
    (h : Keeps (fields depth) [] fun a => (form a).map (·.2)) :
    Restores (record names fields) write (depth + 1) := by
  intro t a ha hfaithful
  unfold record at ha
  obtain ⟨s, -, ha⟩ := Option.bind_eq_some_iff.1 ha
  obtain ⟨⟨a', s'⟩, hrun, heq⟩ := Option.bind_eq_some_iff.1 ha
  obtain rfl := Option.some.inj heq
  obtain ⟨l, hl, hkeep⟩ := h s a' s' hrun
  rw [List.nil_append] at hl
  have hslots := mapM_named?_present (hnames a') (List.forall_mem_nil _)
  rw [List.append_nil] at hslots
  have hrun' := hkeep (fun v hv => by
    obtain ⟨k, hk⟩ := mem_present (hl ▸ hv)
    rw [hwrite] at hfaithful
    exact isFaithful_object.1 hfaithful _ hk) []
  rw [List.append_nil, ← hl, List.map_map] at hrun'
  rw [hwrite, toTerm]
  simp only [record, slots?, Record.slots?, keyed?_fieldTerms, Option.bind_eq_bind,
    Option.bind_some, hslots]
  exact congrArg (·.bind fun p => some p.1) hrun'

end Records

end Decoder

end TouchPanel.Json
