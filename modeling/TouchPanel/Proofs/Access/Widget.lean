import TouchPanel.Proofs.Access.Content
import TouchPanel.Widget.Page

/-!
# Accesses of widgets

A widget has its entries from values of the editor. The digits of a colour are one of the parts of
the text that they are found in, the key of the styles is taken out where it stands, and a single
style is the first of the list.
-/

namespace TouchPanel.Access

open Text

/-! ## Values -/

/-- A text with the digits of a colour, and these digits. -/
def colorParts? (t : Text) : Option (List Text) := (hexColor? t).map fun digits => [t, digits]

def colorNode? (s : String) : Option Node :=
  match colorParts? (trim s.toList) with
  | some parts => do
    let digits ← parts[1]?
    return .ident (String.ofList ('0' :: 'x' :: digits.map Char.toUpper))
  | none => some (.str (trimmed s))

theorem colorNode?_eq (s : String) : colorNode? s = some (colorNode s) := by
  rw [colorNode?, colorNode, colorParts?]
  cases hexColor? (trim s.toList) <;> rfl

/-- The node of a value that is written under the name `output`. -/
def outputNode? (assets : AssetTable) (output : String) (v : Json.Value) : Option (Option Node) :=
  match v with
  | .string s =>
    match assets.idOf? s with
    | some id => some (some (.ident id))
    | none =>
      if endsWith "color".toList output.toList then (colorNode? s).map some else textNode? s
  | v => jsonNode? v

theorem outputNode?_eq (assets : AssetTable) (output : String) (v : Json.Value) :
    outputNode? assets output v = some (valueNode? assets output v) := by
  cases v with
  | string s =>
    rw [outputNode?.eq_def, valueNode?.eq_def]
    dsimp only
    cases assets.idOf? s with
    | some id => rfl
    | none =>
      simp only [colorNode?_eq, textNode?_eq]
      split <;> rfl
  | null | bool b | number n | array items | object fields => exact jsonNode?_eq _

/-- The entry of one field: its value, or the default that the schema wants written. -/
def fieldOutput? (assets : AssetTable) (withDefaults : Bool) (values : List (String × Json.Value))
    (f : Field) : Option (Option Node) := do
  let given ←
    match values.find? (·.1 = f.key) with
    | some e => outputNode? assets f.output e.2
    | none => some none
  match given with
  | some node => return some node
  | none =>
    if withDefaults && f.emitDefault then
      match f.default with
      | some v => jsonNode? v
      | none => return none
    else return none

theorem fieldOutput?_eq (assets : AssetTable) (withDefaults : Bool)
    (values : List (String × Json.Value)) (f : Field) :
    fieldOutput? assets withDefaults values f =
      some (fieldNode? assets withDefaults values f) := by
  have hdefault : (if withDefaults && f.emitDefault then
      match f.default with
      | some v => jsonNode? v
      | none => some none
    else some none) =
      some (if withDefaults && f.emitDefault then f.default.bind Node.ofValue? else none) := by
    split
    · cases f.default with
      | none => rfl
      | some v => exact jsonNode?_eq v
    · rfl
  rw [fieldOutput?, fieldNode?]
  cases values.find? (·.1 = f.key) with
  | none => exact hdefault
  | some e =>
    simp only [outputNode?_eq, Option.bind_eq_bind, Option.bind_some]
    cases valueNode? assets f.output e.2 with
    | none => exact hdefault
    | some node => rfl

/-- Puts the entries of all fields into a mapping. -/
def putFields? (assets : AssetTable) (withDefaults : Bool) (values : List (String × Json.Value))
    (fields : List Field) (m : Mapping) : Option Mapping :=
  fields.foldlM (fun m f => do
    match ← fieldOutput? assets withDefaults values f with
    | some node => return m.insert f.output node
    | none => return m) m

theorem putFields?_eq (assets : AssetTable) (withDefaults : Bool)
    (values : List (String × Json.Value)) (fields : List Field) (m : Mapping) :
    putFields? assets withDefaults values fields m =
      some (putFields assets withDefaults values fields m) := by
  refine foldlM_eq (fun m f => ?_) m
  rw [fieldOutput?_eq]
  cases fieldNode? assets withDefaults values f <;> rfl

/-! ## Styles -/

/-- A mapping without the first entry of a key. -/
def eraseKey? (m : Mapping) (key : String) : Option Mapping :=
  (removeFirst? (·.1 = key) m).map (·.2)

theorem eraseKey?_eq (m : Mapping) (key : String) : eraseKey? m key = some (m.erase key) := by
  rw [eraseKey?, removeFirst?_eq]
  rfl

/-- The known styles of a widget take the place of what it names. -/
def putStyles? (w : Widget) (styles : List String) (m : Mapping) : Option Mapping :=
  match w.styleNames? with
  | none => some m
  | some names =>
    let refs := (names.filter styles.contains).map fun n => Node.ident (Identifier.plain n)
    if refs.length = 0 then eraseKey? m "styles"
    else if refs.length = 1 then (removeAt? 0 refs).map fun r => m.insert "styles" r.1
    else some (m.insert "styles" (.list refs))

theorem putStyles?_eq (w : Widget) (styles : List String) (m : Mapping) :
    putStyles? w styles m = some (w.putStyles styles m) := by
  rw [putStyles?, Widget.putStyles]
  cases w.styleNames? with
  | none => rfl
  | some names =>
    dsimp only
    rcases (names.filter styles.contains).map fun n => Node.ident (Identifier.plain n) with
      _ | ⟨ref, _ | ⟨ref', refs⟩⟩
    · exact eraseKey?_eq m "styles"
    · rfl
    · rfl

/-! ## Parts and events -/

/-- Puts a part with those of its values that the schema lists. -/
def putPart? (w : Widget) (assets : AssetTable) (m : Mapping) (part : String × List Field) :
    Option Mapping :=
  match w.extra.get? part.1 with
  | some (.object values) => do
    match ← putFields? assets false values part.2 [] with
    | [] => return m
    | entries => return m.insert part.1 (.map entries)
  | _ => some m

theorem putPart?_eq (w : Widget) (assets : AssetTable) (m : Mapping)
    (part : String × List Field) : putPart? w assets m part = some (w.putPart assets m part) := by
  rw [putPart?, Widget.putPart]
  rcases w.extra.get? part.1 with _ | values
  · rfl
  · cases values with
    | object values =>
      simp only [putFields?_eq, Option.bind_eq_bind, Option.bind_some]
      cases putFields assets false values part.2 [] <;> rfl
    | null | bool b | number n | string s | array items => rfl

/-- The hand-written actions of an event. -/
def actions? : Json.Value → Option (Option Node)
  | .string s => some (if allBlank s.toList then none else some (.fragment s))
  | v => jsonNode? v

theorem actions?_eq (v : Json.Value) : actions? v = some (Widget.literalEvent? v) := by
  cases v with
  | string s => rfl
  | null | bool b | number n | array items | object fields => exact jsonNode?_eq _

/-- Puts the handler of an event, a compiled one before hand-written actions. -/
def putEvent? (w : Widget) (handlers : List Handler) (outId : String) (m : Mapping)
    (event : String) : Option Mapping := do
  let node ←
    match Handlers.find? handlers outId event, w.events.get? event with
    | some h, _ => some (some h.node)
    | none, some v => actions? v
    | none, none => some none
  match node with
  | some node => return m.insert event node
  | none => return m

theorem putEvent?_eq (w : Widget) (handlers : List Handler) (outId : String) (m : Mapping)
    (event : String) :
    putEvent? w handlers outId m event = some (w.putEvent handlers outId m event) := by
  rw [putEvent?, Widget.putEvent, Widget.eventNode?]
  cases Handlers.find? handlers outId event with
  | some h => rfl
  | none =>
    cases w.events.get? event with
    | none => rfl
    | some v =>
      simp only [actions?_eq, Option.bind_eq_bind, Option.bind_some]
      cases Widget.literalEvent? v <;> rfl

/-! ## Nodes -/

/-- The entries of a widget apart from its children. -/
def body? (w : Widget) (c : PageContext) : Option Mapping :=
  let outId := c.policy.emitted w.id
  let m := w.geometry outId
  match c.registry.resolve? w.kind with
  | none => some m
  | some schema => do
    let m ← putFields? c.assets true w.props.entries schema.props m
    let m ← putFields? c.assets true w.style.entries schema.style m
    let m ← putStyles? w c.styles m
    let m ← schema.parts.foldlM (putPart? w c.assets) m
    schema.events.foldlM (putEvent? w c.handlers outId) m

theorem body?_eq (w : Widget) (c : PageContext) : body? w c = some (w.body c) := by
  rw [body?, Widget.body]
  cases c.registry.resolve? w.kind with
  | none => rfl
  | some schema =>
    simp only [putFields?_eq, putStyles?_eq, foldlM_eq (putPart?_eq w c.assets),
      foldlM_eq (putEvent?_eq w c.handlers _), Option.bind_eq_bind, Option.bind_some]

/-- The node of a widget with the nodes of its children. -/
def widgetNode? (w : Widget) (c : PageContext) (children : List Node) : Option Node := do
  let schema := c.registry.resolve? w.kind
  let listed := (schema.map (·.container)).getD true || !children.isEmpty
  let body ← body? w c
  let body := if listed then body.insert "widgets" (.list children) else body
  return .single ((schema.map (·.rootKey)).getD "obj") (.map body)

theorem widgetNode?_eq (w : Widget) (c : PageContext) (children : List Node) :
    widgetNode? w c children = some (w.node c children) := by
  rw [widgetNode?, body?_eq]
  rfl

mutual

def treeNode? (c : PageContext) : WidgetTree → Option Node
  | .node w children => do
    let nodes ← treeNodes? c children
    widgetNode? w c nodes

def treeNodes? (c : PageContext) : List WidgetTree → Option (List Node)
  | [] => some []
  | t :: r => do
    let node ← treeNode? c t
    let rest ← treeNodes? c r
    return node :: rest

end

mutual

theorem treeNode?_eq (c : PageContext) (t : WidgetTree) : treeNode? c t = some (t.toNode c) := by
  match t with
  | .node w children =>
    have hchildren := treeNodes?_eq c children
    rw [treeNode?, hchildren, WidgetTree.toNode]
    exact widgetNode?_eq w c _

theorem treeNodes?_eq (c : PageContext) (ts : List WidgetTree) :
    treeNodes? c ts = some (WidgetTree.toNodes c ts) := by
  match ts with
  | [] => rfl
  | t :: r =>
    have ht := treeNode?_eq c t
    have hr := treeNodes?_eq c r
    rw [treeNodes?, ht, hr, WidgetTree.toNodes]
    rfl

end

end TouchPanel.Access
