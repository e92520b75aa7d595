import TouchPanel.Proofs.Egress.Handler
import TouchPanel.Proofs.Ingress.Setpoint
import TouchPanel.Proofs.Ingress.Update
import TouchPanel.Proofs.Widget.Emitted

/-!
# References of a project

Handlers, updates and scripts are made apart from the widgets and values that they name.
A handler stands under its event in a widget with its id, an update names a widget that is
written, and a script reads a value that is declared.
-/

namespace TouchPanel

open Node

/-- The index has the widgets of the pages. -/
theorem WidgetIndex.exists_widget {p : Project} {registry : Registry}
    {policy : Identifier.Policy} {id : String} {target : IndexedWidget}
    (h : (ofProject p registry policy).get? id = some target) :
    ∃ page ∈ p.pages, ∃ w ∈ page.widgets, target.schema = registry.resolve? w.kind ∧
      target.outId = policy.emitted w.id := by
  have hmem : target ∈ ofProject p registry policy := List.mem_of_find?_eq_some h
  simp only [ofProject, List.mem_flatMap, List.mem_map] at hmem
  obtain ⟨⟨page, n⟩, hpage, w, hw, heq⟩ := hmem
  refine ⟨page, List.fst_mem_of_mem_zipIdx hpage, w, hw, ?_, ?_⟩
  · rw [← heq]
  · rw [← heq]

theorem Schema.KeepsNames.event_mem {schema : Schema} (h : schema.KeepsNames) {requested : String}
    (hrequested : requested ∈ schema.events) :
    (schema.commitEvent? requested).getD requested ∈ schema.events := by
  cases hcommit : schema.commitEvent? requested with
  | none => exact hrequested
  | some event => exact h.commit _ (Table.get?_eq_some_iff.1 hcommit)

theorem Lock.within_guarded (lock : String) (update : Node) :
    Within update (guarded lock [update]) := by
  apply Within.map List.mem_cons_self
  apply Within.map (List.mem_cons_of_mem _ List.mem_cons_self)
  exact .list List.mem_cons_self .refl

/-! ## The temperature of an entity -/

/-- An entry of the target temperature of an entity. -/
def IsTemperature (entry : Node) (entity : String) : Prop :=
  ∃ m : Mapping, entry = .map m ∧ m.get? "entity_id" = some (.ident entity) ∧
    m.get? "attribute" = some (.ident "temperature")

namespace Declarations

theorem isTemperature_entry (s : SetpointScript) (updates : List Node) :
    IsTemperature (entry s.sensor updates) (trimmed s.entityId) := by
  have hattr : s.sensor.attr = trimmed "temperature" := rfl
  have hplain : trimmed "temperature" = "temperature" ∧
      Identifier.plain "temperature" = "temperature" ∧ "temperature" ≠ "" := by decide
  refine ⟨_, rfl, rfl, ?_⟩
  rw [hattr, hplain.1, if_pos hplain.2.1, if_neg hplain.2.2]
  rfl

/-- A declared value has one entry with its id in its section. -/
theorem IdsDistinct.exists_entry {ds : Declarations} (h : ds.IdsDistinct) {key : SourceKey}
    (hkey : key ∈ ds.keys) : ∃ entries updates, (key.sectionName, entries) ∈ ds.sections ∧
      entry key updates ∈ entries ∧
      entries.countP (fun node => node.declaredId? = some key.id) = 1 := by
  obtain ⟨⟨key, updates⟩, he, rfl⟩ := List.mem_map.1 hkey
  obtain ⟨⟨name, part⟩, hpart, hmem⟩ := List.mem_flatMap.1 (ds.parts_perm.mem_iff.2 he)
  obtain rfl : key.sectionName = name := ds.lists_parts.kinds _ hpart _ hmem
  have hsection : (key.sectionName, part.map fun e => entry e.1 e.2) ∈ ds.sections := by
    rw [ds.lists_parts.entries]
    exact List.mem_map_of_mem hpart
  refine ⟨_, updates, hsection, List.mem_map_of_mem hmem, ?_⟩
  -- no id is declared twice in all sections, so neither is it in this one
  have hnodup : ((part.map fun e => entry e.1 e.2).map Node.declaredId?).Nodup := by
    refine h.nodup_declaredIds.sublist (.map _ ?_)
    rw [List.flatMap_def]
    exact List.sublist_flatten_of_mem (List.mem_map_of_mem hsection)
  exact countP_eq_one_of_nodup_map hnodup (List.mem_map_of_mem hmem)

end Declarations

namespace Fragments

/-- Some widget is written with the id. -/
def ShowsId (f : Fragments) (id : String) : Prop :=
  ∃ shown, f.lvgl.Emits shown ∧ shown.get? "id" = some (.ident id)

variable {p : Project} {registry : Registry} {options : Options}

section

variable (hnames : ∀ s ∈ registry.schemas, s.KeepsNames)

include hnames

/-- The target of a link or handler is written with its id. -/
theorem exists_target {id : String} {target : IndexedWidget}
    (h : (indexOf p registry options).get? id = some target) :
    ∃ (w : Widget) (shown : Mapping), target.schema = registry.resolve? w.kind ∧
      target.outId = options.idPolicy.emitted w.id ∧
      (ofProject p registry options).1.lvgl.Emits shown ∧
      PlacedTree.IsWrittenAs (contextOf p registry options) w shown ∧
      shown.get? "id" = some (.ident target.outId) := by
  obtain ⟨page, hpage, w, hw, hschema, hid⟩ := WidgetIndex.exists_widget h
  obtain ⟨shown, hshown, hbody⟩ :=
    p.exists_emitted (contextOf p registry options) hpage hw
  refine ⟨w, shown, hschema, hid, ?_, hbody, ?_⟩
  · rw [ofProject_eq]
    exact hshown
  · rw [hbody "id" (by decide), w.get?_id_body hnames, hid]
    rfl

/-- The handler of an event stands under the event in a widget with its id. -/
theorem handler_emitted {outId event : String} {h : Handler}
    (hfind : Handlers.find? (handlersOf p registry options).list outId event = some h) :
    ∃ shown, (ofProject p registry options).1.lvgl.Emits shown ∧
      shown.get? "id" = some (.ident outId) ∧ shown.get? event = some h.node := by
  have hmem := List.mem_of_find?_eq_some hfind
  have hkey : h.widgetId = outId ∧ h.event = event := by simpa using List.find?_some hfind
  obtain ⟨rfl, rfl⟩ := hkey
  obtain ⟨b, i, -, hresolve⟩ := Handlers.exists_resolve h hmem
  obtain ⟨target, schema, aimed⟩ := Handler.exists_isAimed_of_resolve hresolve
  obtain ⟨w, shown, hschema, hid, hemits, hbody, hshown⟩ := exists_target hnames aimed.found
  rw [aimed.kind] at hschema
  have hkeeps := hnames schema (List.mem_of_find?_eq_some hschema.symm)
  have hevent : h.event ∈ schema.events := by
    rw [aimed.event]
    exact hkeeps.event_mem aimed.supported
  have hne : h.event ≠ "widgets" := fun heq => hkeeps.widgets_not_event (heq ▸ hevent)
  have hnode : w.eventNode? (contextOf p registry options).handlers
      (options.idPolicy.emitted w.id) h.event = some h.node := by
    unfold Widget.eventNode?
    rw [← hid, ← aimed.widgetId, show (contextOf p registry options).handlers =
      (handlersOf p registry options).list from rfl, hfind]
  refine ⟨shown, hemits, by rw [aimed.widgetId, hshown], ?_⟩
  rw [hbody _ hne, w.get?_event_body hschema.symm hevent hnode]

/-- An update in the inbound sections names a widget that is written. -/
theorem update_resolves : ∀ s ∈ (ofProject p registry options).1.sensors, ∀ node ∈ s.2,
    node.Everywhere fun u => ∀ content, u.IsUpdate content →
      ∃ (m : Mapping) (id : String), content = .map m ∧ m.get? "id" = some (.ident id) ∧
        (ofProject p registry options).1.ShowsId id := by
  refine everywhere_sensors (fun u hu content hupdate => absurd hupdate (hu.2 content)) ?_ ?_
  · rintro lock - content ⟨action, kind, heq⟩
    cases heq
  · rintro link i target a hattaches kind e content ⟨action, kind', heq⟩
    obtain ⟨-, rfl⟩ := single_inj heq
    obtain ⟨w, shown, -, -, hemits, -, hshown⟩ := exists_target hnames hattaches.fits.target_found
    exact ⟨_, target.outId, rfl, rfl, shown, hemits, hshown⟩

end

/-! ## Links and scripts -/

/-- An attached link without hand-written update has its update in a section. -/
theorem exists_update {link : Link} {i : Nat} {a : Attachment} (hlink : p.links[i]? = some link)
    (hliteral : nonBlank? link.target.literal = none)
    (ha : (a, i) ∈ (linksOf p registry options).attached) :
    ∃ s ∈ (ofProject p registry options).1.sensors, ∃ node ∈ s.2,
      Within a.update node ∧ ∃ content, a.update.IsUpdate content := by
  obtain ⟨link', target, hlink', hattaches⟩ := LinkRun.exists_attaches p.links ha
  obtain rfl : link' = link := Option.some.inj (hlink'.symm.trans hlink)
  obtain ⟨-, kind, e, -, hupdate⟩ := (LinkUpdate.node_cases hattaches.update).resolve_left
    fun ⟨written, hwritten, _⟩ => by
      rw [hliteral] at hwritten
      cases hwritten
  obtain ⟨s, hs, node, hnode, hlisted⟩ := exists_listed p registry options ha
  refine ⟨s, hs, node, hnode, (Lock.within_guarded a.lock a.update).trans hlisted, ?_⟩
  exact ⟨_, a.action, kind, hupdate⟩

/-- What a script reads is declared by one sensor, which is that of the temperature of its
entity unless two values with one id are reported. -/
def ReadsSensor (f : Fragments) (found : List Diagnostic) (s : SetpointScript) : Prop :=
  ∃ id entries entry, (∀ other, s.node.ReadsId other ↔ other = id) ∧
    ("sensor", entries) ∈ f.sensors ∧
    entries.countP (fun node => node.declaredId? = some id) = 1 ∧
    entry ∈ entries ∧ entry.declaredId? = some id ∧
    (IsTemperature entry (trimmed s.entityId) ∨
      ∃ first second, .derivedIdCollision id first second ∈ found)

theorem idsDistinct_scriptsOf (p : Project) (registry : Registry) (options : Options) :
    (scriptsOf p registry options).declarations.IdsDistinct := by
  obtain ⟨further, hscripts⟩ := Declarations.exists_requests_scriptsOf p registry options
  rw [hscripts]
  exact Declarations.idsDistinct_run _

theorem readsSensor {s : SetpointScript} (hs : s ∈ (scriptsOf p registry options).scripts) :
    ReadsSensor (ofProject p registry options).1 (ofProject p registry options).2 s := by
  obtain ⟨owner, hbacks⟩ := ScriptRun.exists_backs p.scripts _ s hs
  have hsection : owner.sectionName = "sensor" := by
    have hkind : owner.kind = .attributeNumber := SourceKey.kind_eq_of_id_eq hbacks.same_id
    unfold SourceKey.sectionName
    rw [hkind]
  obtain ⟨entries, updates, hentries, hentry, hcount⟩ :=
    (idsDistinct_scriptsOf p registry options).exists_entry hbacks.declared
  rw [hsection] at hentries
  rw [hbacks.same_id] at hcount
  obtain ⟨found, -, hfound⟩ := exists_findings p registry options
  refine ⟨s.sensor.id, entries, _, fun _ => s.readsId_node_iff, ?_, hcount, hentry, ?_, ?_⟩
  · rw [ofProject_eq]
    exact hentries
  · exact congrArg some hbacks.same_id
  · rcases hbacks.own with rfl | hcollision
    · exact Or.inl (Declarations.isTemperature_entry s updates)
    · refine Or.inr ⟨owner.describe, s.sensor.describe, ?_⟩
      rw [hfound]
      exact List.mem_append_right _ hcollision

/-- Every handler stands under its event in a widget with its id, and every update of an
attached link names a widget that is written. Every script is written, under an id of its own,
or reported once, and what it reads is declared by one sensor. -/
theorem references_resolve (p : Project) (options : Options) :
    let result := ofProject p .builtin options
    let f := result.1
    (∀ outId event h,
      Handlers.find? (handlersOf p .builtin options).list outId event = some h →
        ∃ shown, f.lvgl.Emits shown ∧ shown.get? "id" = some (.ident outId) ∧
          shown.get? event = some h.node) ∧
    (∀ s ∈ f.sensors, ∀ node ∈ s.2, ∀ u content, Within u node → u.IsUpdate content →
      ∃ (m : Mapping) (id : String), content = .map m ∧ m.get? "id" = some (.ident id) ∧
        f.ShowsId id) ∧
    (∀ link i a, p.links[i]? = some link → nonBlank? link.target.literal = none →
      (a, i) ∈ (linksOf p .builtin options).attached → ∃ s ∈ f.sensors, ∃ node ∈ s.2,
        Within a.update node ∧ ∃ content, a.update.IsUpdate content) ∧
    ∃ fates : List (SetpointScript × Option String), fates.map (·.1) = p.scripts ∧
      f.scripts = (fates.filter (·.2.isNone)).map (·.1.node) ∧
      result.2.filter (·.scope = .script) =
        fates.filterMap (fun e => e.2.map (.invalidScript e.1.id)) ∧
      (f.scripts.map Node.declaredId?).Nodup ∧
      ∀ s, (s, none) ∈ fates → ReadsSensor f result.2 s := by
  intro result f
  refine ⟨fun outId event h => handler_emitted Registry.keepsNames_builtin,
    fun s hs node hnode u content hin =>
      update_resolves Registry.keepsNames_builtin s hs node hnode u hin content,
    fun link i a => exists_update, ?_⟩
  obtain ⟨fates, hall, hwritten, hreported⟩ :=
    ScriptRun.exists_accounts p.scripts (linksOf p .builtin options).declarations
  have hscripts : f.scripts = (scriptsOf p .builtin options).scripts.map (·.node) := by
    have hproject : f = _ := congrArg Prod.fst (ofProject_eq p .builtin options)
    rw [hproject]
    rfl
  refine ⟨fates, hall, ?_, ?_, ?_, fun s hs => readsSensor ?_⟩
  · rw [hscripts, scriptsOf, hwritten, List.map_map]
    rfl
  · obtain ⟨found, hfound, heq⟩ := exists_findings p .builtin options
    have hresult : result.2 = found ++ (scriptsOf p .builtin options).diagnostics := heq
    rw [hresult, List.filter_append, hfound.filter_scope, List.nil_append]
    exact hreported
  · have hids : f.scripts.map Node.declaredId? =
        ((scriptsOf p .builtin options).scripts.map (·.outId)).map some := by
      rw [hscripts, List.map_map, List.map_map]
      rfl
    rw [hids]
    exact (ScriptRun.nodup_outIds p.scripts _).map fun a b hab => Option.some.inj hab
  · rw [scriptsOf, hwritten]
    exact List.mem_map.2 ⟨(s, none), List.mem_filter.2 ⟨hs, rfl⟩, rfl⟩

end Fragments

end TouchPanel
