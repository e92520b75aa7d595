import TouchPanel.Diagnostic
import TouchPanel.Widget.Index

/-!
# Trees of widgets

The widgets of a page name their parents. Parents that are missing or that form a
cycle are cut off, and what remains is a forest in the order of the widgets.
-/

namespace TouchPanel

inductive WidgetTree where
  | node (widget : Widget) (children : List WidgetTree)

namespace WidgetTree

/-- The first widget of a page with the id. -/
def indexOf? (widgets : List Widget) (id : String) : Option Nat :=
  widgets.findIdx? (trimmed ·.id = id)

/-- The place of a widget's parent on its page. -/
def parentIndex? (widgets : List Widget) (w : Widget) : Option Nat :=
  w.parent?.bind (indexOf? widgets)

/-- The parent at each place of the page. -/
def parents (widgets : List Widget) : List (Option Nat) := widgets.map (parentIndex? widgets)

/-- Whether going up at most `steps` times leads to `goal`. -/
def climbs (ps : List (Option Nat)) (goal : Nat) : Nat → Option Nat → Bool
  | 0, _ => false
  | _ + 1, none => false
  | steps + 1, some i => i = goal || climbs ps goal steps (ps[i]?.getD none)

/-- A widget lies on a cycle if its parents lead back to it. There are no more steps
to take than widgets. -/
def onCycle (ps : List (Option Nat)) (i : Nat) : Bool :=
  climbs ps i ps.length (ps[i]?.getD none)

/-- The parents without those of widgets on a cycle. -/
def cutCycles (ps : List (Option Nat)) : List (Option Nat) :=
  ps.zipIdx.map fun (p, i) => if onCycle ps i then none else p

/-- The places whose parent is `p`. -/
def childrenOf (ps : List (Option Nat)) (p : Option Nat) : List Nat :=
  (List.range ps.length).filter fun i => ps[i]?.getD none = p

/-- The tree below place `i`, at most `depth` levels deep. -/
def grow (widgets : List Widget) (ps : List (Option Nat)) : Nat → Nat → Option WidgetTree
  | 0, _ => none
  | depth + 1, i => widgets[i]?.map fun w =>
    .node w ((childrenOf ps (some i)).filterMap (grow widgets ps depth))

/-- The trees of a page. No path is longer than there are widgets. -/
def ofPage (page : Page) : List WidgetTree :=
  let ps := cutCycles (parents page.widgets)
  (childrenOf ps none).filterMap (grow page.widgets ps page.widgets.length)

/-! ## Findings -/

/-- A parent that is not on the page of its child. -/
def parentFinding? (page : Page) (index : WidgetIndex) (w : Widget) : Option Diagnostic :=
  match w.parent? with
  | none => none
  | some p =>
    if (indexOf? page.widgets p).isSome then none
    else if (index.get? p).isSome then some (.crossPageParent w.id p)
    else some (.danglingParent w.id p)

def cycleFindings (page : Page) : List Diagnostic :=
  let ps := parents page.widgets
  page.widgets.zipIdx.filterMap fun (w, i) =>
    if onCycle ps i then some (.parentCycle w.id) else none

def findings (page : Page) (index : WidgetIndex) : List Diagnostic :=
  page.widgets.filterMap (parentFinding? page index) ++ cycleFindings page

mutual

/-- Something about each widget of the tree, parents before their children. -/
def collect (f : Widget → List α) : WidgetTree → List α
  | .node w children => f w ++ collectAll f children

def collectAll (f : Widget → List α) : List WidgetTree → List α
  | [] => []
  | t :: r => collect f t ++ collectAll f r

end

/-- The widgets of a forest, parents before their children. -/
def widgets (ts : List WidgetTree) : List Widget := collectAll (fun w => [w]) ts

end WidgetTree

end TouchPanel
