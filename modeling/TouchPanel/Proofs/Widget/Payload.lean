import TouchPanel.Proofs.Egress.Account
import TouchPanel.Proofs.Widget.Distinct
import TouchPanel.Proofs.Widget.Findings
import TouchPanel.Proofs.Widget.Reserved

/-!
# Actions that are written by hand

An event of a widget has the actions that are written by hand for it, unless an action binding is
compiled for the event. Which of the two it is shows in the document alone: what is reported about
a project does not depend on such actions.
-/

namespace TouchPanel

/-- A value that says nothing about what to do. -/
def Json.Value.isBlank : Json.Value → Bool
  | .null => true
  | .string s => Text.allBlank s.toList
  | _ => false

theorem Widget.exists_literalEvent {v : Json.Value} (h : v.isBlank = false) :
    ∃ payload, literalEvent? v = some payload := by
  cases v with
  | null => cases h
  | string s =>
    have hs : Text.allBlank s.toList = false := h
    exact ⟨.fragment s, by rw [literalEvent?, hs]; rfl⟩
  | number n => cases n <;> exact ⟨_, rfl⟩
  | bool | array | object => exact ⟨_, rfl⟩

/-! ## Widgets by their ids -/

theorem Project.eq_of_emitted_eq {p : Project} {policy : Identifier.Policy}
    (hids : (p.outIds policy).Nodup) {v w : Widget} (hv : v ∈ p.widgets) (hw : w ∈ p.widgets)
    (h : policy.emitted v.id = policy.emitted w.id) : v = w := by
  have hnodup : (p.widgets.map fun w => policy.emitted w.id).Nodup := by
    rw [Project.widgets, List.map_flatMap]
    exact (List.nodup_append.1 hids).2.1
  exact List.inj_on_of_nodup_map hnodup hv hw h

theorem WidgetIndex.widget_mem {p : Project} {registry : Registry} {policy : Identifier.Policy}
    {x : IndexedWidget} (h : x ∈ ofProject p registry policy) : x.widget ∈ p.widgets := by
  simp only [ofProject, List.mem_flatMap, List.mem_map] at h
  obtain ⟨e, he, w, hw, rfl⟩ := h
  exact List.mem_flatMap.2 ⟨e.1, (List.mem_zipIdx he).2.2 ▸ List.getElem_mem _, hw⟩

namespace Fragments

variable {p : Project} {registry : Registry} {options : Options} {w : Widget} (hw : w ∈ p.widgets)

include hw

/-- A handler for the id of a widget comes from a binding of the widget. -/
theorem exists_binding_of_widgetId (hids : (p.outIds options.idPolicy).Nodup) {h : Handler}
    (hh : h ∈ (handlersOf p registry options).list)
    (hid : h.widgetId = options.idPolicy.emitted w.id) :
    ∃ b, p.actionBindings[h.index]? = some b ∧
      b.Compiles h.index (indexOf p registry options) options h ∧
      trimmed b.widgetId = trimmed w.id := by
  obtain ⟨b, hb, hcompiles⟩ := Handlers.exists_compiles p.actionBindings h hh
  obtain ⟨target, schema, haimed⟩ := hcompiles.aimed
  have hmem : target ∈ indexOf p registry options := List.mem_of_find?_eq_some haimed.found
  have hname : trimmed target.widget.id = trimmed b.widgetId := by
    simpa using List.find?_some haimed.found
  have hsame : options.idPolicy.emitted target.widget.id = options.idPolicy.emitted w.id := by
    rw [← WidgetIndex.outId_of_mem_ofProject _ hmem, ← haimed.widgetId, hid]
  rw [Project.eq_of_emitted_eq hids (WidgetIndex.widget_mem hmem) hw hsame] at hname
  exact ⟨b, hb, hcompiles, hname.symm⟩

variable (hkeeps : ∀ s ∈ registry.schemas, s.KeepsNames ∧ s.KeepsChildren)

include hkeeps

theorem exists_emits_id : ∃ entries, (ofProject p registry options).1.lvgl.Emits entries ∧
    entries.get? "id" = some (.ident (options.idPolicy.emitted w.id)) := by
  obtain ⟨page, hpage, hwpage⟩ := List.mem_flatMap.1 hw
  obtain ⟨entries, hemits, hwritten⟩ :=
    p.exists_emitted (contextOf p registry options) hpage hwpage
  rw [ofProject_eq]
  refine ⟨entries, hemits, (hwritten "id" (by decide)).trans ?_⟩
  exact w.get?_id_body fun s hs => (hkeeps s hs).1

/-- The entries with the id of a widget are those of the widget. -/
theorem isWrittenAs_of_id (hids : (p.outIds options.idPolicy).Nodup) {entries : Mapping}
    (h : (ofProject p registry options).1.lvgl.Emits entries)
    (hid : entries.get? "id" = some (.ident (options.idPolicy.emitted w.id))) :
    PlacedTree.IsWrittenAs (contextOf p registry options) w entries := by
  rw [ofProject_eq] at h
  obtain ⟨v, hv, hwritten⟩ := p.exists_widget_of_emits hkeeps h
  have hv' := (hwritten "id" (by decide)).symm.trans hid
  rw [v.get?_id_body fun s hs => (hkeeps s hs).1] at hv'
  obtain rfl : v = w := Project.eq_of_emitted_eq hids hv hw (Node.ident.inj (Option.some.inj hv'))
  exact hwritten

/-- The entries with the id of a widget have, under an event, what the widget has for it. -/
theorem get?_event_of_id (hids : (p.outIds options.idPolicy).Nodup) {entries : Mapping}
    (h : (ofProject p registry options).1.lvgl.Emits entries)
    (hid : entries.get? "id" = some (.ident (options.idPolicy.emitted w.id))) {schema : Schema}
    (hschema : registry.resolve? w.kind = some schema) {event : String}
    (hevent : event ∈ schema.events) {node : Node}
    (hnode : w.eventNode? (handlersOf p registry options).list (options.idPolicy.emitted w.id)
      event = some node) : entries.get? event = some node := by
  have hmem : schema ∈ registry.schemas := List.mem_of_find?_eq_some hschema
  have hne : event ≠ "widgets" := fun heq => (hkeeps schema hmem).1.widgets_not_event (heq ▸ hevent)
  rw [isWrittenAs_of_id hw hkeeps hids h hid event hne]
  exact w.get?_event_body hschema hevent hnode

end Fragments

/-! ## Payloads and handlers -/

/-- A project without the actions that are written by hand at its widgets. -/
def Project.withoutActions (p : Project) : Project :=
  p.mapWidgets fun w => { w with events := .empty }

theorem Fragments.findings_withoutActions (p : Project) (registry : Registry) (options : Options) :
    (ofProject p.withoutActions registry options).2 = (ofProject p registry options).2 :=
  findings_mapWidgets (f := fun w => { w with events := .empty }) (fun _ => rfl) p registry options
    fun _ => rfl

/-- What is written by hand for an event of a widget stands under the event exactly if no binding is
compiled for it; otherwise the latest of these bindings has its handler there. What is reported is
the same without any of what is written by hand. -/
theorem Fragments.payload_or_handler (p : Project) (options : Options)
    (hids : (p.outIds options.idPolicy).Nodup) :
    let run := ofProject p .builtin options
    let handlers := (handlersOf p .builtin options).list
    (∀ w ∈ p.widgets, ∀ schema, Registry.builtin.resolve? w.kind = some schema →
      ∀ event ∈ schema.events, ∀ v, w.events.get? event = some v → v.isBlank = false →
        let outId := options.idPolicy.emitted w.id
        let compiled := Handlers.compiledFor handlers outId event
        ∃ payload, Widget.literalEvent? v = some payload ∧
          (∃ entries, run.1.lvgl.Emits entries ∧ entries.get? "id" = some (.ident outId)) ∧
          ∀ entries, run.1.lvgl.Emits entries → entries.get? "id" = some (.ident outId) →
            (compiled = ∅ → entries.get? event = some payload) ∧
            ∀ i, IsGreatest compiled i → ∃ b h, p.actionBindings[i]? = some b ∧
              b.Compiles i (indexOf p .builtin options) options h ∧
              trimmed b.widgetId = trimmed w.id ∧ entries.get? event = some h.node) ∧
    (ofProject p.withoutActions .builtin options).2 = run.2 := by
  intro run handlers
  refine ⟨fun w hw schema hschema event hevent v hv hblank => ?_,
    findings_withoutActions p .builtin options⟩
  intro outId compiled
  obtain ⟨payload, hpayload⟩ := Widget.exists_literalEvent hblank
  have hkeeps := keepsNames_and_children_builtin
  have hdescending : handlers.Pairwise fun g h => h.index < g.index :=
    Handlers.list_descending p.actionBindings
  refine ⟨payload, hpayload, exists_emits_id hw hkeeps, fun entries hemits hid => ?_⟩
  have hentry : ∀ node, w.eventNode? handlers outId event = some node →
      entries.get? event = some node := fun node hnode =>
    get?_event_of_id hw hkeeps hids hemits hid hschema hevent hnode
  refine ⟨fun hnone => hentry payload ?_, fun i hi => ?_⟩
  · rw [Widget.eventNode?, Handlers.find?_eq_none_iff_eq_empty.2 hnone, hv]
    exact hpayload
  · obtain ⟨h, hfind, rfl⟩ := Option.map_eq_some_iff.1
      ((Handlers.map_index_find?_eq_some_iff hdescending).2 hi)
    have hnode : w.eventNode? handlers outId event = some h.node := by
      rw [Widget.eventNode?, show Handlers.find? handlers outId event = some h from hfind]
    obtain ⟨hh, hwidget, -, -⟩ := (Handlers.find?_eq_some_iff_isGreatest hdescending).1 hfind
    obtain ⟨b, hb, hcompiles, hname⟩ := exists_binding_of_widgetId hw hids hh hwidget
    exact ⟨b, h, hb, hcompiles, hname, hentry h.node hnode⟩

/-- A button with an action that is written by hand. -/
def clickButton : Widget where
  id := "btn"
  kind := "button"
  x := 0
  y := 0
  width := 100
  height := 50
  parentId := none
  props := .empty
  style := .empty
  events := Table.empty.insert "on_click" (.string "- logger.log: clicked")
  extra := .empty

theorem clickButton_event : (Registry.builtin.resolve? clickButton.kind).any
    (·.events.contains "on_click") = true := by
  decide +kernel

/-- A project with the button and action bindings. -/
def clickProject (bindings : List ActionBinding) : Project :=
  { Project.empty with
    pages := [⟨"main", none, none, [clickButton]⟩]
    actionBindings := bindings }

theorem Fragments.payload_or_handler_button :
    ((clickProject []).outIds ({} : Options).idPolicy).Nodup ∧
      ∃ entries, (ofProject (clickProject []) .builtin {}).1.lvgl.Emits entries ∧
        entries.get? "on_click" = some (.fragment "- logger.log: clicked") := by
  have hids : ((clickProject []).outIds ({} : Options).idPolicy).Nodup := by decide
  obtain ⟨schema, hschema, hevent⟩ := (Option.any_eq_true _ _).1 clickButton_event
  obtain ⟨payload, hpayload, ⟨entries, hemits, hid⟩, hall⟩ :=
    (payload_or_handler (clickProject []) {} hids).1 clickButton List.mem_cons_self schema hschema
      "on_click" (List.contains_iff_mem.1 hevent) (.string "- logger.log: clicked") rfl (by decide)
  refine ⟨hids, entries, hemits, ?_⟩
  rw [(hall entries hemits hid).1 ?_, ← hpayload]
  · rfl
  · refine Set.eq_empty_of_forall_notMem fun i hi => ?_
    obtain ⟨h, hh, -⟩ := hi
    cases hh

/-- A binding for the same event takes the place of what is written by hand, and nothing is
reported. -/
theorem Fragments.bound_payload_lost :
    let p := clickProject [⟨"btn", "on_click", some ⟨"light", "toggle", none, .empty⟩, none⟩]
    let run := ofProject p .builtin {}
    (p.outIds ({} : Options).idPolicy).Nodup ∧
      (Registry.builtin.resolve? clickButton.kind).any (·.events.contains "on_click") = true ∧
      Widget.literalEvent? (.string "- logger.log: clicked") =
        some (.fragment "- logger.log: clicked") ∧
      run.2 = [] ∧
      ∀ entries, run.1.lvgl.Emits entries →
        entries.get? "on_click" ≠ some (.fragment "- logger.log: clicked") := by
  intro p run
  obtain ⟨schema, hschema, hevent⟩ := (Option.any_eq_true _ _).1 clickButton_event
  refine ⟨by decide, clickButton_event, rfl, by decide +kernel, fun entries hemits hpayload => ?_⟩
  let c := contextOf p .builtin {}
  let isList : Node → Bool := fun | .list _ => true | _ => false
  have hlisted : (clickButton.eventNode? c.handlers (c.policy.emitted clickButton.id)
      "on_click").any isList = true := by decide +kernel
  obtain ⟨node, hnode, hlist⟩ := (Option.any_eq_true _ _).1 hlisted
  obtain ⟨v, hv, hwritten⟩ := p.exists_widget_of_emits (c := c) keepsNames_and_children_builtin
    hemits
  obtain rfl : v = clickButton := List.mem_singleton.1 hv
  have hbody : Mapping.get? (clickButton.body c) "on_click" = some node :=
    clickButton.get?_event_body hschema (List.contains_iff_mem.1 hevent) hnode
  rw [hwritten "on_click" (by decide), hbody] at hpayload
  obtain rfl := Option.some.inj hpayload
  cases hlist

end TouchPanel
