import TouchPanel.Ingress.Declaration
import TouchPanel.Lock
import TouchPanel.Output.Rows
import TouchPanel.Widget.Index

/-!
# Links

A link updates a widget when a declared value changes. Its update is guarded by the
lock of entity and widget and runs after those of the links before it.
-/

namespace TouchPanel

namespace LinkUpdate

/-- The new value `x` as a number. -/
def numeric : DataKind → String
  | .attributeNumber => "x"
  | .binary => "(x ? 1.0f : 0.0f)"
  | .state | .attributeText => "atof(x.c_str())"

/-- The new value as a number in the scale of the widget. -/
def scaled (source : DataKind) (scale : Option Float) : String :=
  match scale.filter fun s => s.isFinite && s != 1.0 with
  | some s => s!"({numeric source} * {String.ofList (documentFloat s)})"
  | none => numeric source

/-- The new value as a truth value. -/
def truth : DataKind → String
  | .binary => "x"
  | .attributeNumber => "x > 0.0f"
  | .state | .attributeText => "x == \"on\""

def formatted (format argument : String) : Node :=
  .map [("format", .str format), ("args", .list [.str argument])]

/-- The new value as a text. -/
def text (source : DataKind) (target : LinkTarget) : Node :=
  match source, filled? target.format with
  | .state, some f | .attributeText, some f => formatted f "x.c_str()"
  | .state, none | .attributeText, none => .lambda "return x;"
  | .attributeNumber, f => formatted (f.getD "%.0f") (scaled source target.scale)
  | .binary, some f => formatted f "x ? \"on\" : \"off\""
  | .binary, none => .lambda "return x ? \"ON\" : \"OFF\";"

/-- The expression that hides the target. A binary value hides it while it is off. -/
def predicate (source : DataKind) (target : LinkTarget) (i : Nat) : Except Diagnostic String :=
  match target.condition with
  | some expression =>
    if Text.allBlank expression.toList then .error (.emptyPredicate i)
    else .ok (trimmed expression)
  | none =>
    if source = .binary then .ok "!x" else .error (.missingPredicate i target.widgetId)

/-- The entry of the update that carries the new value. -/
def change (link : Link) (action : LinkAction) (i : Nat) : Except Diagnostic (String × Node) :=
  let source := link.source.kind
  let target := link.target
  match action with
  | .checked => .ok ("state", .single "checked" (.lambda s!"return {truth source};"))
  | .sliderValue | .arcValue | .barValue =>
    .ok ("value", .lambda s!"return {scaled source target.scale};")
  | .labelText => .ok ("text", text source target)
  | .selectedIndex =>
    .ok ("selected_index", .lambda s!"return (int) {scaled source target.scale};")
  | .hidden => (predicate source target i).map fun p => ("hidden", .lambda s!"return ({p});")

/-- The update of a widget. A widget of unknown kind counts as a container. -/
def node (link : Link) (action : LinkAction) (target : IndexedWidget) (i : Nat) :
    Except Diagnostic Node :=
  match nonBlank? link.target.literal with
  | some text => .ok (.fragment text)
  | none => (change link action i).map fun entry =>
    .single (action.update (target.kind?.getD .container))
      (.map [("id", .ident target.outId), entry])

end LinkUpdate

/-- A link that takes effect. -/
structure Attachment where
  key : SourceKey
  widgetId : String
  action : LinkAction
  lock : String
  update : Node

namespace Link

/-- What a link attaches, or why it has no effect. -/
def resolve (link : Link) (i : Nat) (index : WidgetIndex) (declared : SourceKey → Bool) :
    Except Diagnostic Attachment := do
  let entity := trimmed link.source.entityId
  if !Identifier.isEntityReference entity then
    throw (.invalidEntityReference link.source.entityId s!"link #{i}")
  let some target := index.get? link.target.widgetId
    | throw (.danglingLinkTarget i link.target.widgetId)
  let some action := LinkAction.ofTag? (trimmed link.target.action)
    | throw (.unknownLinkAction i link.target.action)
  let supported := match target.kind? with
    | some kind => action.appliesTo kind
    | none => action = .hidden
  if !supported then
    throw (.unsupportedLinkAction i action.tag target.kindTag link.target.widgetId)
  let key := link.source.key
  if !declared key then throw (.unbackedLink i key.describe)
  let update ← LinkUpdate.node link action target i
  return ⟨key, target.outId, action, Lock.name entity target.outId, update⟩

end Link

/-! ## Attaching all links -/

structure LinkRun where
  declarations : Declarations
  /-- What has been attached with the index of its link, the latest first. -/
  attached : List (Attachment × Nat)
  diagnostics : List Diagnostic

namespace LinkRun

/-- The latest link that drives the same action of the same widget. -/
def driver? (attached : List (Attachment × Nat)) (a : Attachment) : Option Nat :=
  (attached.find? fun e => e.1.widgetId = a.widgetId && e.1.action = a.action).map (·.2)

/-- Takes in the link at index `i`. -/
def add (index : WidgetIndex) (run : LinkRun) (entry : Link × Nat) : LinkRun :=
  let (link, i) := entry
  match link.resolve i index run.declarations.contains with
  | .error d => { run with diagnostics := run.diagnostics ++ [d] }
  | .ok a =>
    let conflict := (driver? run.attached a).map fun first =>
      Diagnostic.conflictingLinks first i link.target.widgetId a.action.tag
    { declarations := run.declarations.attach a.key (Lock.guarded a.lock [a.update])
      attached := (a, i) :: run.attached
      diagnostics := run.diagnostics ++ conflict.toList }

def ofLinks (links : List Link) (index : WidgetIndex) (ds : Declarations) : LinkRun :=
  links.zipIdx.foldl (add index) ⟨ds, [], []⟩

def locks (run : LinkRun) : List String := run.attached.map (·.1.lock)

end LinkRun

end TouchPanel
