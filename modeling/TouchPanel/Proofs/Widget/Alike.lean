import Mathlib.Data.List.Forall2
import TouchPanel.Widget.Page

/-!
# Widgets that are written alike

A page is known by the ids, kinds, parents and entries of its widgets. If these are kept, the
pages of a project stay what they are.
-/

namespace TouchPanel

/-- The same context with other handlers. -/
def PageContext.withHandlers (c : PageContext) (hs : List Handler) : PageContext :=
  { c with handlers := hs }

/-- Two widgets that a page shows alike, the second one with other handlers. -/
structure Widget.Alike (c : PageContext) (hs : List Handler) (w w' : Widget) : Prop where
  id : w'.id = w.id
  kind : w'.kind = w.kind
  parent : w'.parentId = w.parentId
  body : w'.body (c.withHandlers hs) = w.body c

structure Page.Alike (c : PageContext) (hs : List Handler) (page page' : Page) : Prop where
  id : page'.id = page.id
  background : page'.background = page.background
  widgets : List.Forall₂ (Widget.Alike c hs) page.widgets page'.widgets

variable {c : PageContext} {hs : List Handler}

theorem Widget.Alike.node {w w' : Widget} (h : w.Alike c hs w') (children : List Node) :
    w'.node (c.withHandlers hs) children = w.node c children := by
  unfold Widget.node
  rw [h.body, h.kind]
  rfl

/-- What related elements have in common, their lists have in common. -/
theorem map_eq_map_of_forall₂ {α β γ : Type} {R : α → β → Prop} {f : α → γ} {g : β → γ}
    (hR : ∀ a b, R a b → g b = f a) {l : List α} {l' : List β} (h : List.Forall₂ R l l') :
    l'.map g = l.map f := by
  induction h with
  | nil => rfl
  | cons hab _ ih => rw [List.map_cons, List.map_cons, hR _ _ hab, ih]

namespace WidgetTree

theorem toNodes_eq_map (c : PageContext) (ts : List WidgetTree) :
    toNodes c ts = ts.map (toNode c) := by
  induction ts with
  | nil => rfl
  | cons t ts ih => rw [toNodes, ih, List.map_cons]

/-- The parents of widgets are read off their ids and the parents that they give. -/
theorem parents_congr {ws ws' : List Widget} (hid : ws'.map (·.id) = ws.map (·.id))
    (hparent : ws'.map (·.parentId) = ws.map (·.parentId)) : parents ws' = parents ws := by
  have hindex : ∀ l : List Widget, indexOf? l =
      fun id => (l.map (·.id)).findIdx? fun other => trimmed other = id := by
    intro l
    funext id
    rw [indexOf?, List.findIdx?_map]
    rfl
  have hparents : ∀ l : List Widget, parents l =
      (l.map (·.parentId)).map fun parent => (filled? parent).bind (indexOf? l) := by
    intro l
    rw [parents, List.map_map]
    rfl
  rw [hparents, hparents, hparent, hindex, hindex, hid]

/-- What is computed of a tree from its widget and the results of its children. -/
theorem map_grow {β : Type} {F : WidgetTree → β} {G : Widget → List β → β}
    (hF : ∀ w ts, F (.node w ts) = G w (ts.map F)) (ws : List Widget) (ps : List (Option Nat))
    (depth i : Nat) :
    (grow ws ps (depth + 1) i).map F = (ws.map G)[i]?.map fun g =>
      g ((childrenOf ps (some i)).filterMap fun j => (grow ws ps depth j).map F) := by
  rw [grow, Option.map_map, List.getElem?_map, Option.map_map]
  congr 1
  funext w
  rw [Function.comp_apply, hF, List.map_filterMap]
  rfl

/-- Trees at one place have the same result if the widgets do at all places. -/
theorem map_grow_congr {β : Type} {F F' : WidgetTree → β} (G G' : Widget → List β → β)
    (hF : ∀ w ts, F (.node w ts) = G w (ts.map F))
    (hF' : ∀ w ts, F' (.node w ts) = G' w (ts.map F')) {ws ws' : List Widget}
    (h : ws'.map G' = ws.map G) (ps : List (Option Nat)) (depth i : Nat) :
    (grow ws' ps depth i).map F' = (grow ws ps depth i).map F := by
  induction depth generalizing i with
  | zero => rfl
  | succ depth ih =>
    rw [map_grow hF', map_grow hF, h]
    simp only [ih]

theorem map_toNode_grow {ws ws' : List Widget} (h : List.Forall₂ (Widget.Alike c hs) ws ws')
    (ps : List (Option Nat)) (depth i : Nat) :
    (grow ws' ps depth i).map (toNode (c.withHandlers hs)) =
      (grow ws ps depth i).map (toNode c) := by
  have hnode : ∀ (c : PageContext) (w : Widget) (ts : List WidgetTree),
      toNode c (.node w ts) = w.node c (ts.map (toNode c)) := by
    intro c w ts
    rw [toNode, toNodes_eq_map]
  refine map_grow_congr (·.node c) (·.node (c.withHandlers hs)) (hnode c) (hnode _) ?_ ps depth i
  exact map_eq_map_of_forall₂ (fun w w' hw => funext hw.node) h

/-- The trees of two pages with widgets that are alike are written alike. -/
theorem toNodes_ofPage {page page' : Page} (h : page.Alike c hs page') :
    toNodes (c.withHandlers hs) (ofPage page') = toNodes c (ofPage page) := by
  have hparents : parents page'.widgets = parents page.widgets :=
    parents_congr (map_eq_map_of_forall₂ (fun w w' hw => hw.id) h.widgets)
      (map_eq_map_of_forall₂ (fun w w' hw => hw.parent) h.widgets)
  unfold ofPage
  dsimp only
  rw [hparents, h.widgets.length_eq, toNodes_eq_map, toNodes_eq_map, List.map_filterMap,
    List.map_filterMap]
  refine List.filterMap_congr fun i _ => ?_
  exact map_toNode_grow h.widgets _ _ i

end WidgetTree

theorem Page.Alike.node {page page' : Page} (h : page.Alike c hs page') (theme : Theme) :
    page'.node theme (c.withHandlers hs) = page.node theme c := by
  have hcolor : page'.color? theme = page.color? theme := by
    unfold Page.color?
    rw [h.background]
  have hid : page'.outId c.policy = page.outId c.policy := by
    unfold Page.outId
    rw [h.id]
  unfold Page.node
  rw [WidgetTree.toNodes_ofPage h, hcolor, show (c.withHandlers hs).policy = c.policy from rfl, hid]

/-- A project whose pages are alike and whose theme is the same has the same styles, gradients
and pages. -/
theorem Project.lvgl_eq_of_alike {p p' : Project} (htheme : p'.theme = p.theme)
    (hpages : List.Forall₂ (Page.Alike c hs) p.pages p'.pages) :
    p'.lvgl (c.withHandlers hs) = p.lvgl c := by
  have hshown : List.Forall₂ (Page.Alike c hs) p.shownPages p'.shownPages := by
    unfold shownPages
    generalize p.pages = pages, p'.pages = pages' at hpages
    cases hpages with
    | nil => exact .cons ⟨rfl, rfl, .nil⟩ .nil
    | cons hpage hrest => exact .cons hpage hrest
  have hnodes : p'.shownPages.map (fun page => page.node p'.theme (c.withHandlers hs)) =
      p.shownPages.map fun page => page.node p.theme c := by
    rw [htheme]
    exact map_eq_map_of_forall₂ (fun page page' hpage => hpage.node _) hshown
  unfold lvgl
  rw [hnodes, htheme]
  rfl

end TouchPanel
