import TouchPanel.Proofs.Widget.Emission
import TouchPanel.Schema.Builtin

/-!
# Widgets in the output

Every widget of a page is written somewhere below the pages of the output. Where the schema
gives no other meaning to the names `id` and `widgets`, it is written with its id, and each
of its events has the handler that is compiled for it.
-/

namespace TouchPanel

namespace Mapping

theorem get?_erase_of_ne (m : Mapping) {key k : String} (hne : k ≠ key) :
    (m.erase key).get? k = m.get? k := by
  induction m with
  | nil => rfl
  | cons e r ih =>
    unfold erase get? at ih ⊢
    by_cases he : e.1 = key
    · have hskip : decide (e.1 = k) = false := by simpa [he] using Ne.symm hne
      rw [List.eraseP_cons_of_pos (by simpa using he), List.find?_cons, hskip]
    · rw [List.eraseP_cons_of_neg (by simpa using he), List.find?_cons, List.find?_cons]
      split
      · rfl
      · exact ih

/-- Steps that each keep what stands under a key keep it together. -/
theorem get?_foldl {α : Type} {f : Mapping → α → Mapping} {key : String} (l : List α)
    (h : ∀ m, ∀ a ∈ l, (f m a).get? key = m.get? key) (m : Mapping) :
    (l.foldl f m).get? key = m.get? key :=
  List.foldlRecOn (motive := fun m' => m'.get? key = m.get? key) l f rfl
    fun m' hm' a ha => (h m' a ha).trans hm'

/-! ## Widgets below a mapping -/

/-- A page or a widget with the entries of a widget in its list. -/
def Lists (m entries : Mapping) : Prop :=
  ∃ children key, m.get? "widgets" = some (.list children) ∧ .single key (.map entries) ∈ children

/-- The entries of a widget that stands below a page or a widget, at any depth. -/
inductive Shows : Mapping → Mapping → Prop
  | direct {m entries : Mapping} (listed : m.Lists entries) : Shows m entries
  | deeper {m parent entries : Mapping} (listed : m.Lists parent) (shown : Shows parent entries) :
      Shows m entries

/-- The entries of a widget that stands on some page. -/
def Emits (lvgl entries : Mapping) : Prop :=
  ∃ pages page, lvgl.get? "pages" = some (.list pages) ∧ .map page ∈ pages ∧ Shows page entries

end Mapping

/-! ## Entries of a widget -/

variable {assets : AssetTable} {key : String} {m : Mapping}

theorem get?_putFields (assets : AssetTable) (withDefaults : Bool)
    (values : List (String × Json.Value)) {fields : List Field} (m : Mapping)
    (h : ∀ f ∈ fields, f.output ≠ key) :
    (putFields assets withDefaults values fields m).get? key = m.get? key := by
  refine Mapping.get?_foldl fields (fun m f hf => ?_) m
  split
  · exact Mapping.get?_insert_of_ne m (h f hf).symm _
  · rfl

namespace Widget

theorem get?_putStyles (w : Widget) (styles : List String) (m : Mapping) (h : key ≠ "styles") :
    (w.putStyles styles m).get? key = m.get? key := by
  unfold putStyles
  split
  · rfl
  · split
    · exact Mapping.get?_erase_of_ne m h
    · exact Mapping.get?_insert_of_ne m h _
    · exact Mapping.get?_insert_of_ne m h _

theorem get?_putPart (w : Widget) (assets : AssetTable) (m : Mapping)
    (part : String × List Field) (h : part.1 ≠ key) :
    (w.putPart assets m part).get? key = m.get? key := by
  unfold putPart
  split
  · split
    · rfl
    · exact Mapping.get?_insert_of_ne m h.symm _
  · rfl

theorem get?_putEvent_of_ne (w : Widget) (handlers : List Handler) (outId : String) (m : Mapping)
    {event : String} (h : event ≠ key) :
    (w.putEvent handlers outId m event).get? key = m.get? key := by
  unfold putEvent
  split
  · exact Mapping.get?_insert_of_ne m h.symm _
  · rfl

/-- The handler of an event stands under the event, wherever it is in the list. -/
theorem get?_putEvents (w : Widget) {handlers : List Handler} {outId event : String} {node : Node}
    (hnode : w.eventNode? handlers outId event = some node) {events : List String}
    (hevent : event ∈ events) (m : Mapping) :
    (events.foldl (w.putEvent handlers outId) m).get? event = some node := by
  have hself : ∀ m, (w.putEvent handlers outId m event).get? event = some node := by
    intro m
    rw [putEvent, hnode]
    exact Mapping.get?_insert_self m event node
  obtain ⟨before, after, rfl⟩ := List.append_of_mem hevent
  rw [List.foldl_append, List.foldl_cons]
  -- a later step writes the same node again, or it is about another event
  refine List.foldlRecOn (motive := fun m : Mapping => m.get? event = some node) after
    (w.putEvent handlers outId) (hself _) fun m hm other _ => ?_
  by_cases heq : other = event
  · rw [heq]
    exact hself m
  · rw [get?_putEvent_of_ne w handlers outId m heq]
    exact hm

end Widget

/-- A schema in which nothing but the id is written as `id` and no event is named like the
list of children, and whose events end in events that it has. -/
structure Schema.KeepsNames (s : Schema) : Prop where
  fields : ∀ f ∈ s.props ++ s.style, f.output ≠ "id"
  parts : ∀ part ∈ s.parts, part.1 ≠ "id"
  id_not_event : "id" ∉ s.events
  widgets_not_event : "widgets" ∉ s.events
  commit : ∀ e ∈ s.commitEvents.entries, e.2 ∈ s.events

theorem Registry.keepsNames_builtin : ∀ s ∈ builtin.schemas, s.KeepsNames := by
  have h : ∀ s ∈ builtin.schemas, (∀ f ∈ s.props ++ s.style, f.output ≠ "id") ∧
      (∀ part ∈ s.parts, part.1 ≠ "id") ∧ "id" ∉ s.events ∧ "widgets" ∉ s.events ∧
      ∀ e ∈ s.commitEvents.entries, e.2 ∈ s.events := by decide +kernel
  intro s hs
  obtain ⟨hfields, hparts, hid, hwidgets, hcommit⟩ := h s hs
  exact ⟨hfields, hparts, hid, hwidgets, hcommit⟩

namespace Widget

variable {c : PageContext}

/-- What a schema writes elsewhere leaves an entry of every widget as it is. -/
theorem get?_body (w : Widget) (hstyles : key ≠ "styles")
    (h : ∀ s ∈ c.registry.schemas, (∀ f ∈ s.props ++ s.style, f.output ≠ key) ∧
      (∀ part ∈ s.parts, part.1 ≠ key) ∧ key ∉ s.events) :
    Mapping.get? (w.body c) key = Mapping.get? (w.geometry (c.policy.emitted w.id)) key := by
  unfold body
  dsimp only
  split
  · rfl
  · next schema hschema =>
    obtain ⟨hfields, hparts, hevents⟩ := h schema (List.mem_of_find?_eq_some hschema)
    have hprops : ∀ f ∈ schema.props, f.output ≠ key :=
      fun f hf => hfields f (List.mem_append_left _ hf)
    have hstyle : ∀ f ∈ schema.style, f.output ≠ key :=
      fun f hf => hfields f (List.mem_append_right _ hf)
    have hevent : ∀ event ∈ schema.events, event ≠ key :=
      fun event hevent heq => hevents (heq ▸ hevent)
    rw [Mapping.get?_foldl schema.events fun m event hmem =>
        get?_putEvent_of_ne w c.handlers _ m (hevent event hmem),
      Mapping.get?_foldl schema.parts fun m part hpart =>
        get?_putPart w c.assets m part (hparts part hpart),
      get?_putStyles w c.styles _ hstyles, get?_putFields c.assets true _ _ hstyle,
      get?_putFields c.assets true _ _ hprops]

theorem get?_id_body (w : Widget) (hnames : ∀ s ∈ c.registry.schemas, s.KeepsNames) :
    Mapping.get? (w.body c) "id" = some (.ident (c.policy.emitted w.id)) :=
  w.get?_body (by decide) fun s hs =>
    ⟨(hnames s hs).fields, (hnames s hs).parts, (hnames s hs).id_not_event⟩

theorem get?_event_body (w : Widget) {schema : Schema} {event : String} {node : Node}
    (hschema : c.registry.resolve? w.kind = some schema) (hevent : event ∈ schema.events)
    (hnode : w.eventNode? c.handlers (c.policy.emitted w.id) event = some node) :
    Mapping.get? (w.body c) event = some node := by
  unfold body
  dsimp only
  rw [hschema]
  exact get?_putEvents w hnode hevent _

end Widget

/-! ## Every widget of a page -/

namespace PlacedTree

/-- Entries that have what a widget is written with, apart from its children. -/
def IsWrittenAs (c : PageContext) (w : Widget) (entries : Mapping) : Prop :=
  ∀ k, k ≠ "widgets" → entries.get? k = Mapping.get? (w.body c) k

mutual

/-- What lists a tree shows each widget of the tree. -/
theorem exists_shown (c : PageContext) {m : Mapping} {children : List Node}
    (hm : m.get? "widgets" = some (.list children)) :
    ∀ t : PlacedTree, t.emitted c ∈ children → ∀ s ∈ t.nodes,
      ∃ entries, m.Shows entries ∧ IsWrittenAs c s.widget entries
  | .node i w ts, ht, s, hs => by
    obtain ⟨key, entries, hnode, hentries, hchildren⟩ := w.exists_entries c (ts.map (emitted c))
    have hlisted : m.Lists entries := by
      refine ⟨children, key, hm, ?_⟩
      rw [← hnode]
      rwa [emitted_eq] at ht
    rcases List.mem_cons.1 hs with rfl | hs
    · exact ⟨entries, .direct hlisted, hentries⟩
    · have hne : ts ≠ [] := by
        rintro rfl
        cases hs
      have hbelow := hchildren (by simpa using hne)
      obtain ⟨below, hshown, hbody⟩ :=
        exists_shown_all c hbelow ts (fun t ht => List.mem_map_of_mem ht) s hs
      exact ⟨below, .deeper hlisted hshown, hbody⟩

theorem exists_shown_all (c : PageContext) {m : Mapping} {children : List Node}
    (hm : m.get? "widgets" = some (.list children)) :
    ∀ ts : List PlacedTree, (∀ t ∈ ts, t.emitted c ∈ children) → ∀ s ∈ nodesAll ts,
      ∃ entries, m.Shows entries ∧ IsWrittenAs c s.widget entries
  | [], _, _, hs => by cases hs
  | t :: ts, hts, s, hs => by
    obtain ⟨ht, hrest⟩ := List.forall_mem_cons.1 hts
    rcases List.mem_append.1 hs with hs | hs
    · exact exists_shown c hm t ht s hs
    · exact exists_shown_all c hm ts hrest s hs

end

end PlacedTree

open PlacedTree WidgetTree

/-- A page shows each of its widgets. -/
theorem Page.exists_shown (page : Page) (theme : Theme) (c : PageContext) {w : Widget}
    (hw : w ∈ page.widgets) :
    ∃ entries shown, page.node theme c = .map entries ∧ Mapping.Shows entries shown ∧
      IsWrittenAs c w shown := by
  obtain ⟨forest, hroots, hgrown, hdepth⟩ := exists_forest page
  have hforest := isForest_of_grown hroots hgrown
  obtain ⟨entries, hnode, hwidgets⟩ := get?_widgets_page page theme c
  have hpage : ofPage page = forgetAll forest := hdepth _ (Nat.le_refl _)
  rw [hpage, toNodes_forgetAll] at hwidgets
  obtain ⟨i, hi, rfl⟩ := List.getElem_of_mem hw
  have hplace : i ∈ placesOf forest := hforest.once.mem_iff.2 (List.mem_range.2 hi)
  obtain ⟨t, ht, rfl⟩ := List.mem_map.1 hplace
  have hwidget : page.widgets[t.place] = t.widget := by
    apply Option.some.inj
    rw [← hforest.widget t ht]
    exact (List.getElem?_eq_getElem hi).symm
  rw [hwidget]
  obtain ⟨shown, hshown, hbody⟩ :=
    exists_shown_all c hwidgets forest (fun t ht => List.mem_map_of_mem ht) t ht
  exact ⟨entries, shown, hnode, hshown, hbody⟩

theorem Project.get?_pages_lvgl (p : Project) (c : PageContext) :
    Mapping.get? (p.lvgl c) "pages" =
      some (.list (p.shownPages.map fun page => page.node p.theme c)) := by
  unfold lvgl Mapping.get?
  dsimp only
  split <;> split <;> simp

/-- Every widget of a project is written on a page. -/
theorem Project.exists_emitted (p : Project) (c : PageContext) {page : Page} {w : Widget}
    (hpage : page ∈ p.pages) (hw : w ∈ page.widgets) :
    ∃ entries, (p.lvgl c).Emits entries ∧ IsWrittenAs c w entries := by
  obtain ⟨entries, shown, hnode, hshown, hbody⟩ := page.exists_shown p.theme c hw
  have hshownPages : p.shownPages = p.pages := by
    unfold shownPages
    exact if_neg (by simpa using List.ne_nil_of_mem hpage)
  refine ⟨shown, ⟨_, entries, p.get?_pages_lvgl c, ?_, hshown⟩, hbody⟩
  rw [← hnode, hshownPages]
  exact List.mem_map_of_mem hpage

end TouchPanel
