import TouchPanel.Lock
import TouchPanel.Options
import TouchPanel.Output.Content
import TouchPanel.Widget.Index

/-!
# Event handlers

An action binding becomes the handler of one event of one widget: hand-written
entries, or an optional delay, the lock of entity and widget, and the call. Of two
handlers for one event the later wins.
-/

namespace TouchPanel

/-- A handler, with the index of the binding that it comes from. -/
structure Handler where
  widgetId : String
  event : String
  index : Nat
  node : Node
  /-- The lock that the handler takes. -/
  lock : Option String

namespace ServiceCall

def isComplete (c : ServiceCall) : Bool :=
  !Text.allBlank c.domain.toList && !Text.allBlank c.service.toList

/-- A marked string is an expression, any other string a literal. -/
def payloadNode? : Json.Value → Option Node
  | .string s =>
    if Text.startsWith Node.lambdaTag (Text.trim s.toList) then Node.ofText? s else some (.str s)
  | v => Node.ofValue? v

/-- The data of a call; its entity comes first. -/
def dataNode (c : ServiceCall) : Mapping :=
  let fields := c.data.entries.filterMap fun (k, v) =>
    if c.entity?.isSome && k = "entity_id" then none else (payloadNode? v).map fun n => (k, n)
  match c.entity? with
  | some entity => ("entity_id", .str entity) :: fields
  | none => fields

def callNode (c : ServiceCall) : Node :=
  .single "homeassistant.action" (.map [
    ("action", .ident (trimmed c.domain ++ "." ++ trimmed c.service)),
    ("data", .map c.dataNode)])

/-- The lock that a call from a widget takes. -/
def lock? (c : ServiceCall) (widgetId : String) : Option String :=
  c.entity?.map fun entity => Lock.name entity widgetId

/-- Delay, lock and call. -/
def statements (c : ServiceCall) (widgetId : String) (options : Options) : List Node :=
  (if 0 < options.outboundDelay then [.single "delay" (.ident s!"{options.outboundDelay}ms")]
    else []) ++
  ((c.lock? widgetId).map (Lock.writer options.lockWindow)).toList ++ [c.callNode]

/-- A call about something that is no entity reference is made all the same. -/
def findings (c : ServiceCall) (index : Nat) : List Diagnostic :=
  match c.entity? with
  | some entity =>
    if Identifier.isEntityReference entity then []
    else [.invalidEntityReference entity s!"action binding #{index}"]
  | none => []

end ServiceCall

namespace ActionBinding

/-- The handler of a binding and what there is to say about it. -/
def resolve (b : ActionBinding) (i : Nat) (index : WidgetIndex) (options : Options) :
    List Diagnostic × Option Handler :=
  match index.get? b.widgetId with
  | none => ([.danglingActionWidget i b.widgetId], none)
  | some target =>
    let requested := trimmed b.event
    match target.schema.filter (·.supportsEvent requested) with
    | none => ([.unknownEvent i b.widgetId target.kindTag requested], none)
    | some schema =>
      let commit := schema.commitEvent? requested
      let notes := (commit.map (.commitEventSubstituted b.widgetId requested)).toList
      let event := commit.getD requested
      match nonBlank? b.literal, b.call.filter (·.isComplete) with
      | some text, _ => (notes, some ⟨target.outId, event, i, .fragment text, none⟩)
      | none, some call =>
        (notes ++ call.findings i, some ⟨target.outId, event, i,
          .list (call.statements target.outId options), call.lock? target.outId⟩)
      | none, none => (notes ++ [.incompleteCall i b.widgetId], none)

end ActionBinding

/-- The handlers of a project, the latest first. -/
structure Handlers where
  list : List Handler
  diagnostics : List Diagnostic

namespace Handlers

def find? (hs : List Handler) (widgetId event : String) : Option Handler :=
  hs.find? fun h => h.widgetId = widgetId && h.event = event

/-- Takes in the binding at index `i`. -/
def add (index : WidgetIndex) (options : Options) (hs : Handlers) (entry : ActionBinding × Nat) :
    Handlers :=
  let (b, i) := entry
  let (notes, handler) := b.resolve i index options
  match handler with
  | none => { hs with diagnostics := hs.diagnostics ++ notes }
  | some h =>
    let shadowed := (find? hs.list h.widgetId h.event).map fun earlier =>
      Diagnostic.shadowedAction b.widgetId h.event earlier.index i
    ⟨h :: hs.list, hs.diagnostics ++ notes ++ shadowed.toList⟩

def ofBindings (bindings : List ActionBinding) (index : WidgetIndex) (options : Options) :
    Handlers :=
  bindings.zipIdx.foldl (add index options) ⟨[], []⟩

def locks (hs : Handlers) : List String := hs.list.filterMap (·.lock)

end Handlers

end TouchPanel
