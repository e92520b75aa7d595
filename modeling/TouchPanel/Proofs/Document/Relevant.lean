import TouchPanel.Proofs.Document.Unordered
import TouchPanel.Proofs.Widget.Relevant

/-!
# Entries that nothing reads

Handlers and links see the ids and kinds of widgets only, and pages and assets see what is
read of their entries. So two devices have one document if their widgets differ in entries
that nothing reads.
-/

namespace TouchPanel

/-! ## Widgets without entries -/

def IndexedWidget.bare (w : IndexedWidget) : IndexedWidget := { w with widget := w.widget.bare }

theorem WidgetIndex.get?_bare (index : WidgetIndex) (id : String) :
    get? (index.map IndexedWidget.bare) id = (index.get? id).map IndexedWidget.bare := by
  unfold get?
  rw [List.find?_map, Function.comp_def]
  rfl

theorem ActionBinding.resolve_bare (b : ActionBinding) (i : Nat) (index : WidgetIndex)
    (options : Options) :
    b.resolve i (index.map IndexedWidget.bare) options = b.resolve i index options := by
  unfold resolve
  rw [WidgetIndex.get?_bare]
  cases index.get? b.widgetId <;> rfl

theorem Handlers.ofBindings_bare (bindings : List ActionBinding) (index : WidgetIndex)
    (options : Options) :
    ofBindings bindings (index.map IndexedWidget.bare) options =
      ofBindings bindings index options := by
  have hadd : add (index.map IndexedWidget.bare) options = add index options := by
    funext hs e
    obtain ⟨b, i⟩ := e
    unfold add
    dsimp only
    rw [ActionBinding.resolve_bare]
  unfold ofBindings
  rw [hadd]

theorem Link.resolve_bare (link : Link) (i : Nat) (index : WidgetIndex)
    (declared : SourceKey → Bool) :
    link.resolve i (index.map IndexedWidget.bare) declared = link.resolve i index declared := by
  unfold resolve
  rw [WidgetIndex.get?_bare]
  cases index.get? link.target.widgetId <;> rfl

theorem LinkRun.ofLinks_bare (links : List Link) (index : WidgetIndex) (ds : Declarations) :
    ofLinks links (index.map IndexedWidget.bare) ds = ofLinks links index ds := by
  have hadd : add (index.map IndexedWidget.bare) = add index := by
    funext run e
    obtain ⟨link, i⟩ := e
    unfold add
    dsimp only
    rw [Link.resolve_bare]
  unfold ofLinks
  rw [hadd]

/-- The index of a project sees nothing of the entries. -/
theorem WidgetIndex.bare_ofProject_mapWidgets {f : Widget → Widget} (hf : ∀ w, (f w).bare = w.bare)
    (p : Project) (registry : Registry) (policy : Identifier.Policy) :
    (ofProject (p.mapWidgets f) registry policy).map IndexedWidget.bare =
      (ofProject p registry policy).map IndexedWidget.bare := by
  have hentry : ∀ (w : Widget) (n : Nat),
      IndexedWidget.bare ⟨f w, n, registry.resolve? (f w).kind, policy.emitted (f w).id⟩ =
      IndexedWidget.bare ⟨w, n, registry.resolve? w.kind, policy.emitted w.id⟩ := by
    intro w n
    have hkind : (f w).kind = w.kind := congrArg (·.kind) (hf w)
    have hid : (f w).id = w.id := congrArg (·.id) (hf w)
    unfold IndexedWidget.bare
    dsimp only
    rw [hf w, hkind, hid]
  unfold ofProject Project.mapWidgets
  dsimp only
  rw [List.zipIdx_map, List.flatMap_map, List.map_flatMap, List.map_flatMap]
  refine List.flatMap_congr fun e _ => ?_
  show ((e.1.widgets.map f).map _).map _ = (e.1.widgets.map _).map _
  rw [List.map_map, List.map_map, List.map_map]
  exact List.map_congr_left fun w _ => hentry w e.2

/-! ## The whole project -/

section MapWidgets

variable {f : Widget → Widget} (hf : ∀ w, (f w).bare = w.bare)

include hf

/-- Pages are written alike if the entries of their widgets are. -/
theorem Project.lvgl_mapWidgets (p : Project) {c : PageContext}
    (hbody : ∀ w, (f w).body c = w.body c) : (p.mapWidgets f).lvgl c = p.lvgl c := by
  have hwidget : ∀ w : Widget, w.Alike c c.handlers (f w) := fun w =>
    ⟨congrArg (·.id) (hf w), congrArg (·.kind) (hf w), congrArg (·.parentId) (hf w), hbody w⟩
  have hpage : ∀ page : Page,
      page.Alike c c.handlers { page with widgets := page.widgets.map f } := by
    intro page
    refine ⟨rfl, rfl, ?_⟩
    rw [List.forall₂_map_right_iff, List.forall₂_same]
    exact fun w _ => hwidget w
  have hpages : List.Forall₂ (Page.Alike c c.handlers) p.pages (p.mapWidgets f).pages := by
    unfold Project.mapWidgets
    rw [List.forall₂_map_right_iff, List.forall₂_same]
    exact fun page _ => hpage page
  exact Project.lvgl_eq_of_alike rfl hpages

namespace Fragments

variable (p : Project) (registry : Registry) (options : Options)

theorem handlersOf_mapWidgets :
    handlersOf (p.mapWidgets f) registry options = handlersOf p registry options := by
  unfold handlersOf indexOf
  rw [← Handlers.ofBindings_bare, WidgetIndex.bare_ofProject_mapWidgets hf,
    Handlers.ofBindings_bare]
  rfl

theorem linksOf_mapWidgets :
    linksOf (p.mapWidgets f) registry options = linksOf p registry options := by
  unfold linksOf indexOf
  rw [← LinkRun.ofLinks_bare, WidgetIndex.bare_ofProject_mapWidgets hf, LinkRun.ofLinks_bare]
  rfl

theorem scriptsOf_mapWidgets :
    scriptsOf (p.mapWidgets f) registry options = scriptsOf p registry options := by
  unfold scriptsOf
  rw [linksOf_mapWidgets hf]
  rfl

variable (hrefs : ∀ w, (f w).references = w.references)

include hrefs

theorem contextOf_mapWidgets :
    contextOf (p.mapWidgets f) registry options = contextOf p registry options := by
  unfold contextOf
  rw [handlersOf_mapWidgets hf, AssetTable.ofProject_mapWidgets hrefs]
  rfl

/-- The fragments of a project are those of any project whose widgets have the same entries and
references. -/
theorem ofProject_mapWidgets
    (hbody : ∀ w c, c.registry = registry → c.assets = AssetTable.ofProject p →
      (f w).body c = w.body c) :
    (ofProject (p.mapWidgets f) registry options).1 = (ofProject p registry options).1 := by
  apply ofProject_congr
  · rw [contextOf_mapWidgets hf p registry options hrefs]
    exact p.lvgl_mapWidgets hf fun w => hbody w _ rfl rfl
  · exact scriptsOf_mapWidgets hf p registry options
  · rw [handlersOf_mapWidgets hf, linksOf_mapWidgets hf]
  · exact AssetTable.ofProject_mapWidgets hrefs p

end Fragments

end MapWidgets

/-- What nothing reads of a project leaves nothing in its fragments. -/
theorem Fragments.ofProject_relevant (p : Project) (registry : Registry) (options : Options) :
    (ofProject (p.relevant registry) registry options).1 = (ofProject p registry options).1 := by
  refine ofProject_mapWidgets (Widget.bare_relevant registry) p registry options
    (Widget.references_relevant registry) fun w c hregistry _ => ?_
  rw [← hregistry]
  exact w.body_relevant c

namespace Compilation

/-- Two devices whose widgets differ in entries that nothing reads have the same document. -/
theorem document_ignores_unread (device : Device) (recipe : Text) (registry : Registry)
    (options : Options) {pages : List Page}
    (hpages : pages.map (Page.relevant registry) =
      device.project.pages.map (Page.relevant registry)) :
    let project := { device.project with pages }
    (ofDevice { device with project } recipe registry options).document =
      (ofDevice device recipe registry options).document := by
  intro project
  have hrelevant : project.relevant registry = device.project.relevant registry := by
    unfold Project.relevant
    rw [hpages]
  apply document_congr
  · rfl
  · calc
      (Fragments.ofProject project registry options).1
        = (Fragments.ofProject (project.relevant registry) registry options).1 :=
          (Fragments.ofProject_relevant project registry options).symm
      _ = (Fragments.ofProject (device.project.relevant registry) registry options).1 := by
          rw [hrelevant]
      _ = (Fragments.ofProject device.project registry options).1 :=
          Fragments.ofProject_relevant device.project registry options

/-- A label with a text. -/
def label : Widget where
  id := "lbl"
  kind := "label"
  x := 0
  y := 0
  width := 100
  height := 50
  parentId := none
  props := Table.empty.insert "text" (.string "Hi")
  style := .empty
  events := .empty
  extra := .empty

/-- A device that shows a widget. -/
def panelWith (w : Widget) : Device where
  deviceId := "panel-1"
  slug := "hall"
  name := "Hall"
  apiKey := none
  recipeId := none
  project := { Project.empty with pages := [⟨"main", none, none, [w]⟩] }

theorem document_ignores_unread_draft :
    let draft := { label with
      props := label.props.insert "provisional" (.string "draft")
      extra := label.extra.insert "editor" (.object [("locked", .bool true)]) }
    (ofDevice (panelWith draft) "lvgl:\n  #__LVGL_PAGES__".toList .builtin {}).document =
      (ofDevice (panelWith label) "lvgl:\n  #__LVGL_PAGES__".toList .builtin {}).document := by
  intro draft
  have hknown : (Registry.builtin.resolve? label.kind).any (fun s =>
      !s.readsProp ("provisional", .string "draft") &&
        !s.readsExtra ("editor", .object [("locked", .bool true)])) = true := by
    decide +kernel
  have hrelevant : draft.relevant .builtin = label.relevant .builtin := by
    cases hs : Registry.builtin.resolve? label.kind with
    | none =>
      rw [hs] at hknown
      cases hknown
    | some s =>
      rw [hs, Option.any_some, Bool.and_eq_true, Bool.not_eq_true', Bool.not_eq_true'] at hknown
      have hdraft : Registry.builtin.resolve? draft.kind = some s := hs
      rw [Widget.relevant_eq hs, Widget.relevant_eq hdraft]
      dsimp only [draft]
      rw [Table.keep_insert _ (by decide +kernel) hknown.1,
        Table.keep_insert _ (by decide +kernel) hknown.2]
  apply document_ignores_unread (panelWith label)
  exact congrArg (fun w => [Page.mk "main" none none [w]]) hrelevant

/-- A property that the schema of labels does not list declares a font. -/
theorem document_reads_unlisted :
    let lettered := { label with
      props := label.props.insert "provisional" (.string "asset:Inter.ttf:16") }
    ((Registry.builtin.resolve? "label").map fun s =>
      s.props.any (·.key = "provisional")) = some false ∧
    (ofDevice (panelWith lettered) "lvgl:\n  #__LVGL_PAGES__".toList .builtin {}).document ≠
      (ofDevice (panelWith label) "lvgl:\n  #__LVGL_PAGES__".toList .builtin {}).document := by
  decide +kernel

end Compilation

end TouchPanel
