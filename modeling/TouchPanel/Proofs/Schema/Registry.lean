import Mathlib.Data.List.Nodup
import TouchPanel.Proofs.Text.Trim
import TouchPanel.Schema.Reading

/-!
# What key tables that are accepted give

Each kind has the schema that is built from its own tables, and this schema is consistent in
itself. Across kinds nothing is checked: a word names the first kind that has it as its tag or as
an alias, so that the tag of a kind leads to another one if an earlier kind has it as an alias.
-/

namespace TouchPanel

/-! ## One schema -/

namespace Schema

/-- What the tables of one kind say does not contradict itself. -/
structure IsConsistent (s : Schema) : Prop where
  /-- No part is written under the key of a field. -/
  apart : ∀ part ∈ s.parts, ∀ f ∈ s.props ++ s.style, f.output ≠ part.1
  /-- Commit events lead from an event that is emitted to one that is emitted. -/
  commit : ∀ e ∈ s.commitEvents.entries, e.1 ∈ s.events ∧ e.2 ∈ s.events
  /-- A default that is written is there. -/
  defaults : ∀ f ∈ s.props ++ s.style, f.emitDefault = true → f.default.isSome = true

variable {tables : KeyTables} {kind : WidgetKind} {own : KindTable}

/-- The shared tables with those of one kind. -/
def merged (tables : KeyTables) (kind : WidgetKind) (own : KindTable) : Schema where
  kind := kind
  rootKey := own.rootKey.getD kind.tag
  aliases := own.aliases
  container := own.container
  props := Field.merge tables.props own.props
  style := Field.merge tables.style own.style
  parts := own.parts.entries.map fun (name, fields) =>
    (name, if fields.isEmpty then tables.style else fields)
  events := mergeEvents tables.events own.events
  commitEvents := own.commitEvents

theorem check_bind_eq_ok_iff {α : Type} {fault : Option SchemaFault} {a : α}
    {m : Except SchemaFault α} :
    (check fault >>= fun _ => m) = .ok a ↔ fault = none ∧ m = .ok a := by
  cases fault with
  | none => exact (and_iff_right rfl).symm
  | some f => exact ⟨nofun, nofun⟩

theorem isConsistent_iff {s : Schema} : s.IsConsistent ↔
    (∀ part ∈ s.parts, ∀ f ∈ s.props ++ s.style, f.output ≠ part.1) ∧
    (∀ e ∈ s.commitEvents.entries, e.1 ∈ s.events ∧ e.2 ∈ s.events) ∧
    ∀ f ∈ s.props ++ s.style, f.emitDefault = true → f.default.isSome = true :=
  ⟨fun h => ⟨h.apart, h.commit, h.defaults⟩, fun h => ⟨h.1, h.2.1, h.2.2⟩⟩

/-- A schema is built exactly when what is merged is consistent. -/
theorem build_eq_ok_iff {s : { s : Schema // s.kind = kind }} :
    build tables kind own = .ok s ↔ (merged tables kind own).IsConsistent ∧
      s = ⟨merged tables kind own, rfl⟩ := by
  unfold build
  dsimp only
  simp only [check_bind_eq_ok_iff, List.findSome?_eq_none_iff]
  rw [isConsistent_iff, and_assoc, and_assoc]
  refine and_congr ?_ (and_congr ?_ (and_congr ?_ ?_))
  · have hkeys : own.parts.keys = (merged tables kind own).parts.map (·.1) := by
      simp [merged, Table.keys]
    rw [hkeys, List.forall_mem_map]
    refine forall₂_congr fun part _ => ?_
    simp only [ite_eq_right_iff, reduceCtorEq, imp_false, List.any_eq_true, decide_eq_true_eq,
      not_exists, not_and]
    rfl
  · refine forall₂_congr fun e _ => ?_
    simp only [ite_eq_left_iff, reduceCtorEq, imp_false, not_not, Bool.and_eq_true,
      List.contains_iff_mem]
    rfl
  · refine forall₂_congr fun f _ => ?_
    cases f.emitDefault <;> cases f.default <;> simp
  · exact ⟨fun h => (Except.ok.inj h).symm, fun h => h ▸ rfl⟩

end Schema

/-! ## The schemas of a registry -/

namespace Registry

variable {r : Registry}

theorem find?_kind (r : Registry) (kind : WidgetKind) :
    r.schemas.find? (·.kind = kind) = some (r.schema kind) :=
  (Option.some_get (r.isSome_find kind)).symm

theorem kind_schema (r : Registry) (kind : WidgetKind) : (r.schema kind).kind = kind := by
  simpa using List.find?_some (r.find?_kind kind)

theorem schema_mem (r : Registry) (kind : WidgetKind) : r.schema kind ∈ r.schemas :=
  List.mem_of_find?_eq_some (r.find?_kind kind)

theorem schema_kind {s : Schema} (h : s ∈ r.schemas) : r.schema s.kind = s := by
  have hnodup : (r.schemas.map Schema.kind).Nodup := by
    rw [r.complete]
    decide
  exact List.inj_on_of_nodup_map hnodup (r.schema_mem s.kind) h (r.kind_schema s.kind)

/-- A registry lists the schemas in the order of the kinds. -/
theorem schemas_eq (r : Registry) : r.schemas = WidgetKind.all.map r.schema := by
  rw [← r.complete, List.map_map]
  exact (List.map_id _).symm.trans (List.map_congr_left fun s hs => (schema_kind hs).symm)

theorem buildKinds_eq_ok {tables : KeyTables} {kinds : List WidgetKind}
    {l : { l : List Schema // l.map Schema.kind = kinds }} (h : buildKinds tables kinds = .ok l) :
    ∀ s ∈ l.1, ∃ own, tables.kinds.get? s.kind.tag = some own ∧
      s = Schema.merged tables s.kind own ∧ s.IsConsistent := by
  induction kinds with
  | nil =>
    obtain rfl := Except.ok.inj h
    simp
  | cons kind kinds ih =>
    rw [buildKinds] at h
    split at h
    · cases h
    · next own hown =>
      cases hs : Schema.build tables kind own with
      | error fault => rw [hs] at h; cases h
      | ok s =>
        cases hrest : buildKinds tables kinds with
        | error fault => rw [hs, hrest] at h; cases h
        | ok rest =>
          rw [hs, hrest] at h
          obtain rfl := Except.ok.inj h
          obtain ⟨hcons, rfl⟩ := Schema.build_eq_ok_iff.1 hs
          exact List.forall_mem_cons.2 ⟨⟨own, hown, rfl, hcons⟩, ih hrest⟩

/-- The schema of each kind is what is merged from its tables, and this is consistent. -/
theorem build_schema {tables : KeyTables} (h : build tables = .ok r) (kind : WidgetKind) :
    ∃ own, tables.kinds.get? kind.tag = some own ∧
      r.schema kind = Schema.merged tables kind own ∧ (r.schema kind).IsConsistent := by
  unfold build at h
  rw [Schema.check_bind_eq_ok_iff] at h
  obtain ⟨-, h⟩ := h
  cases hkinds : buildKinds tables WidgetKind.all with
  | error fault =>
    rw [hkinds] at h
    cases h
  | ok schemas =>
    rw [hkinds] at h
    obtain rfl := Except.ok.inj h
    obtain ⟨own, hown, heq, hcons⟩ := buildKinds_eq_ok hkinds _
      (schema_mem ⟨schemas.1, tables.style, schemas.2⟩ kind)
    rw [kind_schema] at hown heq
    exact ⟨own, hown, heq, hcons⟩

theorem ofText_eq_ok_iff {t : Text} : ofText t = .ok r ↔ ∃ tables,
    (Yaml.Term.ofText? t).bind KeyTables.decoder = some tables ∧ build tables = .ok r := by
  unfold ofText
  cases (Yaml.Term.ofText? t).bind KeyTables.decoder with
  | none => simp
  | some tables =>
    cases hbuild : build tables <;> simp [hbuild, Except.mapError]

/-! ## Words for kinds -/

/-- The words that name a kind: its tag and its aliases. -/
def names (r : Registry) (kind : WidgetKind) : List String := kind.tag :: (r.schema kind).aliases

/-- A word resolves to the first kind that it names. -/
theorem resolve?_eq (r : Registry) (word : String) :
    r.resolve? word =
      (WidgetKind.all.find? fun kind => (r.names kind).contains (trimmed word)).map r.schema := by
  rw [resolve?, schemas_eq, List.find?_map]
  congr 2
  funext kind
  simp [names, kind_schema, eq_comm]

theorem schema_inj {kind other : WidgetKind} (h : r.schema kind = r.schema other) :
    kind = other := by
  rw [← r.kind_schema kind, h, r.kind_schema]

theorem find?_eq_some_iff_of_nodup {α : Type} [DecidableEq α] {p : α → Bool} {l : List α} {a : α}
    (hl : l.Nodup) (ha : a ∈ l) (hp : p a = true) :
    l.find? p = some a ↔ ∀ b ∈ l.takeWhile (· ≠ a), p b = false := by
  obtain ⟨front, rest, rfl⟩ := List.append_of_mem ha
  have hfront : ∀ b ∈ front, (decide (b ≠ a)) = true := fun b hb =>
    decide_eq_true fun heq => (List.nodup_append.1 hl).2.2 b hb a List.mem_cons_self heq
  have htake : (front ++ a :: rest).takeWhile (· ≠ a) = front := by
    rw [List.takeWhile_append_of_pos hfront, List.takeWhile_cons_of_neg (by simp), List.append_nil]
  rw [htake, List.find?_append, List.find?_cons_of_pos hp]
  constructor
  · intro h b hb
    cases hfind : front.find? p with
    | none => simpa using List.find?_eq_none.1 hfind b hb
    | some c =>
      rw [hfind, Option.some_or, Option.some_inj] at h
      have hc := hfront c (List.mem_of_find?_eq_some hfind)
      simp [h] at hc
  · intro h
    rw [List.find?_eq_none.2 fun b hb => by simp [h b hb], Option.none_or]

/-- A word that names a kind resolves to it unless it names an earlier kind, too. -/
theorem resolve?_eq_some_iff {kind : WidgetKind} {word : String} (htrim : trimmed word = word)
    (hword : word ∈ r.names kind) : r.resolve? word = some (r.schema kind) ↔
      ∀ earlier ∈ WidgetKind.all.takeWhile (· ≠ kind), word ∉ r.names earlier := by
  rw [resolve?_eq, htrim, ← Option.map_some, (Option.map_injective fun _ _ => schema_inj).eq_iff,
    find?_eq_some_iff_of_nodup (p := fun kind => (r.names kind).contains word) (by decide)
      (by cases kind <;> decide) (List.contains_iff_mem.2 hword)]
  simp only [List.contains_eq_mem, decide_eq_false_iff_not]

theorem trimmed_tag (kind : WidgetKind) : trimmed kind.tag = kind.tag := by
  cases kind <;> decide +kernel

theorem tag_mem_names_iff {kind other : WidgetKind} (hne : other ≠ kind) :
    kind.tag ∈ r.names other ↔ kind.tag ∈ (r.schema other).aliases := by
  have htag : kind.tag ≠ other.tag := by
    revert hne
    cases kind <;> cases other <;> decide
  simp [names, htag]

/-! ## Accepted tables -/

/-- Of tables that are accepted, each kind has the schema merged from its own tables, which does
not contradict itself; its tag leads to this schema unless the tag is an alias of an earlier
kind, and each of its aliases does unless the alias names an earlier kind. -/
theorem accepted_schemas {t : Text} (h : ofText t = .ok r) (kind : WidgetKind) :
    (∃ tables own, (Yaml.Term.ofText? t).bind KeyTables.decoder = some tables ∧
      tables.kinds.get? kind.tag = some own ∧ r.schema kind = Schema.merged tables kind own) ∧
    (r.schema kind).kind = kind ∧
    (r.resolve? kind.tag = some (r.schema kind) ↔
      ∀ earlier ∈ WidgetKind.all.takeWhile (· ≠ kind), kind.tag ∉ (r.schema earlier).aliases) ∧
    (∀ word ∈ (r.schema kind).aliases, trimmed word = word →
      (r.resolve? word = some (r.schema kind) ↔
        ∀ earlier ∈ WidgetKind.all.takeWhile (· ≠ kind), word ∉ r.names earlier)) ∧
    (r.schema kind).IsConsistent := by
  obtain ⟨tables, htables, hbuild⟩ := ofText_eq_ok_iff.1 h
  obtain ⟨own, hown, hmerged, hcons⟩ := build_schema hbuild kind
  refine ⟨⟨tables, own, htables, hown, hmerged⟩, r.kind_schema kind, ?tag, ?aliases, hcons⟩
  case tag =>
    rw [resolve?_eq_some_iff (trimmed_tag kind) List.mem_cons_self]
    refine forall₂_congr fun earlier hearlier => not_congr (tag_mem_names_iff ?_)
    simpa using List.mem_takeWhile_imp hearlier
  case aliases =>
    exact fun word hword htrim => resolve?_eq_some_iff htrim (List.mem_cons_of_mem _ hword)

/-- Key tables that say nothing but that a container goes by one more name. -/
def tablesWithAlias (name : String) : Text :=
  let plain (kind : WidgetKind) : Text := "  ".toList ++ kind.tag.toList ++ ": ~\n".toList
  "common:\n  events: []\nkinds:\n  container:\n    aliases: [".toList ++ name.toList ++
    "]\n".toList ++ WidgetKind.all.tail.flatMap plain

theorem tablesWithAlias_accepted (name : String) (p : Registry → Prop) [DecidablePred p]
    (h : ((ofText (tablesWithAlias name)).toOption.any fun r => decide (p r)) = true) :
    ∃ r, ofText (tablesWithAlias name) = .ok r ∧ p r := by
  cases hr : ofText (tablesWithAlias name) with
  | error fault => simp [hr, Except.toOption] at h
  | ok r => exact ⟨r, rfl, by simpa [hr, Except.toOption] using h⟩

/-- With `obj` as the alias of a container, the tag of a label leads to its own schema. -/
theorem accepted_schemas_obj : ∃ r, ofText (tablesWithAlias "obj") = .ok r ∧
    r.resolve? "label" = some (r.schema .label) := by
  obtain ⟨r, hr, hno⟩ := tablesWithAlias_accepted "obj"
    (fun r => ∀ earlier ∈ WidgetKind.all.takeWhile (· ≠ WidgetKind.label),
      WidgetKind.label.tag ∉ (r.schema earlier).aliases) (by decide +kernel)
  exact ⟨r, hr, (accepted_schemas hr .label).2.2.1.2 hno⟩

/-- With `label` as an alias of a container, which is accepted, the tag of a label leads to the
schema of a container. -/
theorem alias_hides_label : ∃ r, ofText (tablesWithAlias "label") = .ok r ∧
    r.resolve? WidgetKind.label.tag ≠ some (r.schema .label) := by
  obtain ⟨r, hr, hkind⟩ := tablesWithAlias_accepted "label"
    (fun r => (r.resolve? WidgetKind.label.tag).map (·.kind) = some .container)
    (by decide +kernel)
  refine ⟨r, hr, fun heq => ?_⟩
  rw [heq, Option.map_some, kind_schema] at hkind
  cases hkind

end Registry

end TouchPanel
