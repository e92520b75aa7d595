import TouchPanel.Diagnostic
import TouchPanel.Identifier
import TouchPanel.Project.Basic
import TouchPanel.Schema.Registry

/-!
# Index of widgets

Links and action bindings name widgets by their editor ids. The index finds the
first widget with an id and reports ids that the document would have twice.
-/

namespace TouchPanel

/-- The id written for a page. A blank one becomes the usual name of a first page. -/
def Page.outId (policy : Identifier.Policy) (page : Page) : String :=
  let id := trimmed page.id
  policy.emitted (if id = "" then "main" else id)

structure IndexedWidget where
  widget : Widget
  page : Nat
  schema : Option Schema
  outId : String

namespace IndexedWidget

def kind? (w : IndexedWidget) : Option WidgetKind := w.schema.map (·.kind)

/-- The kind as messages name it. -/
def kindTag (w : IndexedWidget) : String :=
  match w.schema with
  | some s => s.kind.tag
  | none => w.widget.kind

end IndexedWidget

abbrev WidgetIndex := List IndexedWidget

namespace WidgetIndex

def ofProject (p : Project) (registry : Registry) (policy : Identifier.Policy) : WidgetIndex :=
  p.pages.zipIdx.flatMap fun (page, i) =>
    page.widgets.map fun w => ⟨w, i, registry.resolve? w.kind, policy.emitted w.id⟩

/-- The first widget with an editor id; blanks around ids do not count. -/
def get? (index : WidgetIndex) (id : String) : Option IndexedWidget :=
  index.find? fun w => trimmed w.widget.id = trimmed id

/-- Pages whose id an earlier page has. -/
def pageFindings (policy : Identifier.Policy) : List String → List Page → List Diagnostic
  | _, [] => []
  | seen, page :: r =>
    let id := page.outId policy
    (if seen.contains id then [.duplicatePageId page.id] else []) ++
      pageFindings policy (id :: seen) r

/-- Widgets of unknown kind, and widgets whose id a page or an earlier widget has. Earlier
widgets are known by their emitted ids, as far as no page has these, and by their own ids. -/
def widgetFindings (pageIds : List String) :
    List String → List String → WidgetIndex → List Diagnostic
  | _, _, [] => []
  | outIds, ids, w :: r =>
    let id := trimmed w.widget.id
    (if w.schema.isNone then [.unknownWidgetKind w.widget.id w.widget.kind] else []) ++
      if pageIds.contains w.outId then
        .widgetIdTakenByPage w.widget.id w.outId :: widgetFindings pageIds outIds (id :: ids) r
      else
        (if outIds.contains w.outId || ids.contains id then [.duplicateWidgetId w.widget.id]
          else []) ++
        widgetFindings pageIds (w.outId :: outIds) (id :: ids) r

def findings (index : WidgetIndex) (pages : List Page) (policy : Identifier.Policy) :
    List Diagnostic :=
  pageFindings policy [] pages ++ widgetFindings (pages.map (·.outId policy)) [] [] index

end WidgetIndex

end TouchPanel
