import Mathlib.Data.List.Basic
import TouchPanel.Project.Basic
import TouchPanel.Schema.Registry

/-!
# Strings of projects and schemas

Every string that a project has, the keys of its tables and of the values in them included, and
every string that a schema brings into a document.
-/

namespace TouchPanel

namespace Json.Value

mutual

/-- The strings of a value and the keys of its objects. -/
def strings (v : Value) : List String :=
  match v with
  | .string s => [s]
  | .array items => itemStrings items
  | .object fields => fieldStrings fields
  | .null | .bool _ | .number _ => []

def itemStrings (items : List Value) : List String :=
  match items with
  | [] => []
  | v :: r => strings v ++ itemStrings r

def fieldStrings (fields : List (String × Value)) : List String :=
  match fields with
  | [] => []
  | (k, v) :: r => k :: strings v ++ fieldStrings r

end

theorem strings_subset_fieldStrings {fields : List (String × Value)} {e : String × Value}
    (h : e ∈ fields) : e.1 :: e.2.strings ⊆ fieldStrings fields := by
  induction fields with
  | nil => cases h
  | cons f fields ih =>
    rw [fieldStrings]
    rcases List.mem_cons.1 h with rfl | h
    · exact List.subset_append_left _ _
    · exact List.Subset.trans (ih h) (List.subset_append_right _ _)

end Json.Value

/-- The keys and the strings of a table of values. -/
def Table.strings (t : Table String Json.Value) : List String := Json.Value.fieldStrings t.entries

def Widget.strings (w : Widget) : List String :=
  w.id :: w.kind :: w.parentId.toList ++ w.props.strings ++ w.style.strings ++ w.events.strings ++
    w.extra.strings

def Page.strings (page : Page) : List String :=
  page.id :: page.name.toList ++ page.background.toList ++ page.widgets.flatMap Widget.strings

def Source.strings (s : Source) : List String := s.entityId :: s.attr.toList

def LinkTarget.strings (t : LinkTarget) : List String :=
  t.widgetId :: t.action :: t.format.toList ++ t.condition.toList ++ t.literal.toList

def ServiceCall.strings (c : ServiceCall) : List String :=
  c.domain :: c.service :: c.entityId.toList ++ c.data.strings

def ActionBinding.strings (b : ActionBinding) : List String :=
  b.widgetId :: b.event :: b.call.toList.flatMap ServiceCall.strings ++ b.literal.toList

def UserText.strings (u : UserText) : List String :=
  u.before :: u.after :: u.markers.entries.flatMap fun e => [e.1, e.2]

def Gradient.strings (g : Gradient) : List String :=
  g.id :: g.direction.toList ++ g.stops.map (·.color)

def Theme.strings (t : Theme) : List String :=
  t.background.toList ++ (t.styles.entries.flatMap fun e => e.1 :: e.2.strings) ++
    t.gradients.flatMap Gradient.strings

def Project.strings (p : Project) : List String :=
  p.pages.flatMap Page.strings ++ p.bindings.flatMap Source.strings ++
    (p.links.flatMap fun l => l.source.strings ++ l.target.strings) ++
    p.actionBindings.flatMap ActionBinding.strings ++
    (p.scripts.flatMap fun s => [s.id, s.entityId]) ++ p.userText.strings ++ p.theme.strings

/-- The name under which a field is written, and the strings of its default. -/
def Field.strings (f : Field) : List String :=
  f.output :: f.default.toList.flatMap Json.Value.strings

/-- The names under which a schema writes, and the strings of its defaults. -/
def Schema.strings (s : Schema) : List String :=
  s.rootKey :: (s.props ++ s.style).flatMap Field.strings ++
    (s.parts.flatMap fun part => part.1 :: part.2.flatMap Field.strings) ++ s.events

def Registry.strings (r : Registry) : List String :=
  r.schemas.flatMap Schema.strings ++ r.sharedStyle.flatMap Field.strings

end TouchPanel
