import TouchPanel.Proofs.Document.Relevant

/-!
# What findings see of widgets

What is reported about a project depends on the ids, kinds and parents of its widgets and on their
properties. Everything else of a widget can change and the findings stay what they are.
-/

namespace TouchPanel

variable {f : Widget → Widget} {index index' : WidgetIndex} {c c' : PageContext}

/-! ## The index -/

theorem WidgetIndex.widgetFindings_bare (pageIds outIds ids : List String) (index : WidgetIndex) :
    widgetFindings pageIds outIds ids (index.map IndexedWidget.bare) =
      widgetFindings pageIds outIds ids index := by
  induction index generalizing outIds ids with
  | nil => rfl
  | cons w r ih =>
    rw [List.map_cons, widgetFindings, widgetFindings, ih, ih]
    rfl

theorem WidgetIndex.pageFindings_mapWidgets (policy : Identifier.Policy) (seen : List String)
    (pages : List Page) :
    pageFindings policy seen (pages.map fun page => { page with widgets := page.widgets.map f }) =
      pageFindings policy seen pages := by
  induction pages generalizing seen with
  | nil => rfl
  | cons page r ih =>
    rw [List.map_cons, pageFindings, pageFindings, ih]
    rfl

theorem Page.outId_withWidgets (policy : Identifier.Policy) (page : Page) (ws : List Widget) :
    Page.outId policy { page with widgets := ws } = page.outId policy := by
  unfold Page.outId
  rfl

/-- The index reports the same if it is the same without entries. -/
theorem WidgetIndex.findings_mapWidgets
    (hindex : index'.map IndexedWidget.bare = index.map IndexedWidget.bare) (p : Project)
    (policy : Identifier.Policy) :
    index'.findings (p.mapWidgets f).pages policy = index.findings p.pages policy := by
  have hids : (p.mapWidgets f).pages.map (·.outId policy) = p.pages.map (·.outId policy) := by
    simp only [Project.mapWidgets, List.map_map, Function.comp_def, Page.outId_withWidgets]
  unfold findings
  rw [hids, ← widgetFindings_bare _ _ _ index', hindex, widgetFindings_bare]
  exact congrArg (· ++ _) (pageFindings_mapWidgets policy [] p.pages)

/-! ## Pages -/

namespace WidgetTree

theorem indexOf?_map (hf : ∀ w, (f w).bare = w.bare) (ws : List Widget) (id : String) :
    indexOf? (ws.map f) id = indexOf? ws id := by
  have hid : ∀ w, (f w).id = w.id := fun w => congrArg (·.id) (hf w)
  rw [indexOf?, List.findIdx?_map, indexOf?]
  simp only [Function.comp_def, hid]

theorem parents_map (hf : ∀ w, (f w).bare = w.bare) (ws : List Widget) :
    parents (ws.map f) = parents ws := by
  refine parents_congr ?_ ?_
  · rw [List.map_map]
    exact List.map_congr_left fun w _ => congrArg (·.id) (hf w)
  · rw [List.map_map]
    exact List.map_congr_left fun w _ => congrArg (·.parentId) (hf w)

theorem findings_map (hf : ∀ w, (f w).bare = w.bare)
    (hindex : index'.map IndexedWidget.bare = index.map IndexedWidget.bare) (page : Page) :
    findings { page with widgets := page.widgets.map f } index' = findings page index := by
  have hid : ∀ w, (f w).id = w.id := fun w => congrArg (·.id) (hf w)
  have hparent : ∀ w, (f w).parent? = w.parent? := by
    intro w
    have hparentId : (f w).parentId = w.parentId := congrArg (·.parentId) (hf w)
    rw [Widget.parent?, Widget.parent?, hparentId]
  have hfound : ∀ id, (index'.get? id).isSome = (index.get? id).isSome := by
    intro id
    have hbare := congrArg (WidgetIndex.get? · id) hindex
    rw [WidgetIndex.get?_bare, WidgetIndex.get?_bare] at hbare
    simpa using congrArg Option.isSome hbare
  unfold findings cycleFindings
  rw [parents_map hf, List.filterMap_map, List.zipIdx_map, List.filterMap_map]
  congr 1
  · refine List.filterMap_congr fun w _ => ?_
    unfold Function.comp parentFinding?
    simp only [hparent, hid, indexOf?_map hf, hfound]
  · refine List.filterMap_congr fun e _ => ?_
    show (if onCycle _ e.2 then some (Diagnostic.parentCycle (f e.1).id) else none) = _
    rw [hid]

theorem collectAll_eq_flatMap {α : Type} (g : Widget → List α) (ts : List WidgetTree) :
    collectAll g ts = ts.flatMap (collect g) := by
  induction ts with
  | nil => rfl
  | cons t ts ih => rw [collectAll, ih, List.flatMap_cons]

/-- What is collected from a tree is collected from the widgets at the same places. -/
theorem map_collect_grow {α : Type} {g g' : Widget → List α} {ws ws' : List Widget}
    (h : ws'.map g' = ws.map g) (ps : List (Option Nat)) (depth i : Nat) :
    (grow ws' ps depth i).map (collect g') = (grow ws ps depth i).map (collect g) := by
  have hcollect : ∀ (g : Widget → List α) (w : Widget) (ts : List WidgetTree),
      collect g (.node w ts) = g w ++ (ts.map (collect g)).flatten := by
    intro g w ts
    rw [collect, collectAll_eq_flatMap, List.flatMap_def]
  refine map_grow_congr (fun w rest => g w ++ rest.flatten) (fun w rest => g' w ++ rest.flatten)
    (hcollect g) (hcollect g') ?_ ps depth i
  have hjoined := congrArg (List.map fun found (rest : List (List α)) => found ++ rest.flatten) h
  rwa [List.map_map, List.map_map] at hjoined

theorem collectAll_ofPage_map {α : Type} {g g' : Widget → List α} (hf : ∀ w, (f w).bare = w.bare)
    (hg : ∀ w, g' (f w) = g w) (page : Page) :
    collectAll g' (ofPage { page with widgets := page.widgets.map f }) =
      collectAll g (ofPage page) := by
  have hmap : (page.widgets.map f).map g' = page.widgets.map g := by
    rw [List.map_map]
    exact List.map_congr_left fun w _ => hg w
  unfold ofPage
  dsimp only
  rw [parents_map hf, List.length_map, collectAll_eq_flatMap, collectAll_eq_flatMap,
    List.flatMap_def, List.flatMap_def, List.map_filterMap, List.map_filterMap]
  refine congrArg List.flatten (List.filterMap_congr fun i _ => ?_)
  exact map_collect_grow hmap _ _ i

end WidgetTree

theorem Widget.styleFindings_congr (hregistry : c'.registry = c.registry)
    (hstyles : c'.styles = c.styles) (hf : ∀ w, (f w).bare = w.bare)
    (hprops : ∀ w, (f w).props = w.props) (w : Widget) :
    (f w).styleFindings c' = w.styleFindings c := by
  have hkind : (f w).kind = w.kind := congrArg (·.kind) (hf w)
  have hid : (f w).id = w.id := congrArg (·.id) (hf w)
  unfold styleFindings styleNames?
  rw [hregistry, hstyles, hkind, hid, hprops]

theorem Project.pageFindings_mapWidgets (hregistry : c'.registry = c.registry)
    (hstyles : c'.styles = c.styles) (hf : ∀ w, (f w).bare = w.bare)
    (hprops : ∀ w, (f w).props = w.props)
    (hindex : index'.map IndexedWidget.bare = index.map IndexedWidget.bare) (p : Project) :
    (p.mapWidgets f).pageFindings index' c' = p.pageFindings index c := by
  have hpage : ∀ page : Page, Page.findings { page with widgets := page.widgets.map f } index' c' =
      page.findings index c := by
    intro page
    unfold Page.findings
    rw [WidgetTree.findings_map hf hindex, WidgetTree.collectAll_ofPage_map hf
      (Widget.styleFindings_congr hregistry hstyles hf hprops)]
  have hshown : (p.mapWidgets f).shownPages =
      p.shownPages.map fun page => { page with widgets := page.widgets.map f } := by
    unfold shownPages mapWidgets
    cases p.pages <;> rfl
  unfold pageFindings
  rw [hshown, List.flatMap_map]
  exact List.flatMap_congr fun page _ => hpage page

/-! ## The whole project -/

namespace Fragments

variable (hf : ∀ w, (f w).bare = w.bare) (p : Project) (registry : Registry) (options : Options)

include hf

/-- Nothing but the properties of widgets is reported on. -/
theorem findings_mapWidgets (hprops : ∀ w, (f w).props = w.props) :
    (ofProject (p.mapWidgets f) registry options).2 = (ofProject p registry options).2 := by
  have hindex := WidgetIndex.bare_ofProject_mapWidgets hf p registry options.idPolicy
  have hpages : (p.mapWidgets f).pageFindings (indexOf (p.mapWidgets f) registry options)
      (contextOf (p.mapWidgets f) registry options) =
        p.pageFindings (indexOf p registry options) (contextOf p registry options) :=
    p.pageFindings_mapWidgets rfl rfl hf hprops hindex
  have hfindings : (indexOf (p.mapWidgets f) registry options).findings (p.mapWidgets f).pages
      options.idPolicy = (indexOf p registry options).findings p.pages options.idPolicy :=
    WidgetIndex.findings_mapWidgets hindex p options.idPolicy
  rw [ofProject_eq, ofProject_eq, hfindings, hpages, handlersOf_mapWidgets hf,
    linksOf_mapWidgets hf, scriptsOf_mapWidgets hf]
  rfl

end Fragments

end TouchPanel
