import TouchPanel.Egress.Handler
import TouchPanel.Widget.Asset
import TouchPanel.Widget.Tree

/-!
# Pages

The nodes of pages, widgets, style definitions and gradients. A widget has those of
its values that the schema of its kind lists; everything else is left out.
-/

namespace TouchPanel

/-- What the nodes of widgets depend on besides the widgets. -/
structure PageContext where
  registry : Registry
  assets : AssetTable
  handlers : List Handler
  policy : Identifier.Policy
  /-- The names of the style definitions. -/
  styles : List String

/-! ## Values -/

/-- The six digits of a colour that is written with `#` or `0x` in front. -/
def hexColor? (t : Text) : Option Text :=
  let digits := match t with
    | '#' :: r => r
    | '0' :: c :: r => if c = 'x' ∨ c = 'X' then r else []
    | _ => []
  if digits.length = 6 && digits.all (fun c => (Json.Token.hexValue? c).isSome) then some digits
  else none

/-- A hexadecimal colour becomes a number, any other colour stays a name. -/
def colorNode (s : String) : Node :=
  match hexColor? (Text.trim s.toList) with
  | some digits => .ident (String.ofList ('0' :: 'x' :: digits.map Char.toUpper))
  | none => .str (trimmed s)

/-- The node of a value that is written under the name `output`. -/
def valueNode? (assets : AssetTable) (output : String) (v : Json.Value) : Option Node :=
  match v with
  | .string s =>
    match assets.idOf? s with
    | some id => some (.ident id)
    | none =>
      if Text.endsWith "color".toList output.toList then some (colorNode s) else Node.ofText? s
  | v => Node.ofValue? v

/-- The entry of one field: its value, or the default that the schema wants written. -/
def fieldNode? (assets : AssetTable) (withDefaults : Bool) (values : List (String × Json.Value))
    (f : Field) : Option Node :=
  match (values.find? (·.1 = f.key)).bind fun e => valueNode? assets f.output e.2 with
  | some node => some node
  | none => if withDefaults && f.emitDefault then f.default.bind Node.ofValue? else none

/-- Puts the entries of all fields into a mapping. -/
def putFields (assets : AssetTable) (withDefaults : Bool) (values : List (String × Json.Value))
    (fields : List Field) (m : Mapping) : Mapping :=
  fields.foldl (fun m f =>
    match fieldNode? assets withDefaults values f with
    | some node => m.insert f.output node
    | none => m) m

namespace Widget

/-! ## Styles -/

/-- The style definitions that a widget names, if it has styles at all. -/
def styleNames? (w : Widget) : Option (List String) :=
  match w.props.get? "styles" with
  | some (.string s) => some ((filled? (some s)).toList)
  | some (.array items) => some (items.filterMap fun v => filled? v.string?)
  | _ => none

/-- The known styles of a widget take the place of what it names. -/
def putStyles (w : Widget) (styles : List String) (m : Mapping) : Mapping :=
  match w.styleNames? with
  | none => m
  | some names =>
    match (names.filter styles.contains).map fun n => Node.ident (Identifier.plain n) with
    | [] => m.erase "styles"
    | [ref] => m.insert "styles" ref
    | refs => m.insert "styles" (.list refs)

/-- A widget of unknown kind has no styles. -/
def styleFindings (w : Widget) (c : PageContext) : List Diagnostic :=
  if (c.registry.resolve? w.kind).isNone then []
  else ((w.styleNames?.getD []).filter (!c.styles.contains ·)).map (.unknownStyleDefinition w.id)

/-! ## Parts and events -/

/-- Puts a part with those of its values that the schema lists. -/
def putPart (w : Widget) (assets : AssetTable) (m : Mapping) (part : String × List Field) :
    Mapping :=
  match w.extra.get? part.1 with
  | some (.object values) =>
    match putFields assets false values part.2 [] with
    | [] => m
    | entries => m.insert part.1 (.map entries)
  | _ => m

/-- The hand-written actions of an event. -/
def literalEvent? : Json.Value → Option Node
  | .string s => if Text.allBlank s.toList then none else some (.fragment s)
  | v => Node.ofValue? v

/-- A compiled handler goes before hand-written actions. -/
def eventNode? (w : Widget) (handlers : List Handler) (outId event : String) : Option Node :=
  match Handlers.find? handlers outId event with
  | some h => some h.node
  | none => (w.events.get? event).bind literalEvent?

def putEvent (w : Widget) (handlers : List Handler) (outId : String) (m : Mapping)
    (event : String) : Mapping :=
  match w.eventNode? handlers outId event with
  | some node => m.insert event node
  | none => m

/-! ## Nodes -/

def geometry (w : Widget) (outId : String) : Mapping :=
  [("id", .ident outId), ("x", .int (Binary64.roundToWord w.x)),
    ("y", .int (Binary64.roundToWord w.y)), ("width", .int (Binary64.roundToWord w.width)),
    ("height", .int (Binary64.roundToWord w.height))]

/-- The entries of a widget apart from its children. -/
def body (w : Widget) (c : PageContext) : Mapping :=
  let outId := c.policy.emitted w.id
  let m := w.geometry outId
  match c.registry.resolve? w.kind with
  | none => m
  | some schema =>
    let m := putFields c.assets true w.props.entries schema.props m
    let m := putFields c.assets true w.style.entries schema.style m
    let m := w.putStyles c.styles m
    let m := schema.parts.foldl (w.putPart c.assets) m
    schema.events.foldl (w.putEvent c.handlers outId) m

/-- The node of a widget with the nodes of its children. A widget of unknown kind is a
plain container, and a container lists its children even when there are none. -/
def node (w : Widget) (c : PageContext) (children : List Node) : Node :=
  let schema := c.registry.resolve? w.kind
  let listed := (schema.map (·.container)).getD true || !children.isEmpty
  let body := if listed then (w.body c).insert "widgets" (.list children) else w.body c
  .single ((schema.map (·.rootKey)).getD "obj") (.map body)

end Widget

namespace WidgetTree

mutual

def toNode (c : PageContext) : WidgetTree → Node
  | .node w children => w.node c (toNodes c children)

def toNodes (c : PageContext) : List WidgetTree → List Node
  | [] => []
  | t :: r => toNode c t :: toNodes c r

end

end WidgetTree

namespace Page

/-- The background of a page, its own or else the one of the theme. -/
def color? (page : Page) (theme : Theme) : Option String :=
  filled? (page.background.or theme.background)

def node (page : Page) (theme : Theme) (c : PageContext) : Node :=
  .map (("id", .ident (page.outId c.policy)) ::
    ((page.color? theme).map fun s => ("bg_color", colorNode s)).toList ++
    [("widgets", .list (WidgetTree.toNodes c (WidgetTree.ofPage page)))])

def findings (page : Page) (index : WidgetIndex) (c : PageContext) : List Diagnostic :=
  WidgetTree.findings page index ++
    WidgetTree.collectAll (·.styleFindings c) (WidgetTree.ofPage page)

/-- A project without pages has one empty page. -/
def fallback : Page := ⟨"main", none, none, []⟩

end Page

namespace Theme

def styleNode (c : PageContext) (name : String) (values : Table String Json.Value) : Node :=
  .map (putFields c.assets false values.entries c.registry.sharedStyle
    [("id", .ident (Identifier.plain name))])

def gradientNode (g : Gradient) : Node :=
  let stop (s : GradientStop) : Node :=
    .map [("color", colorNode s.color), ("position", .int s.position)]
  .map (("id", .ident (Identifier.plain g.id)) ::
    ((g.direction.filter (· ≠ "")).map fun d => ("direction", .ident d)).toList ++
    [("stops", .list (g.stops.map stop))])

end Theme

namespace Project

def shownPages (p : Project) : List Page := if p.pages.isEmpty then [.fallback] else p.pages

/-- Style definitions, gradients and pages. -/
def lvgl (p : Project) (c : PageContext) : Mapping :=
  let styles := p.theme.styles.entries.map fun e => Theme.styleNode c e.1 e.2
  let gradients := p.theme.gradients.map Theme.gradientNode
  (if styles.isEmpty then [] else [("style_definitions", .list styles)]) ++
  (if gradients.isEmpty then [] else [("gradients", .list gradients)]) ++
  [("pages", .list (p.shownPages.map fun page => page.node p.theme c))]

def pageFindings (p : Project) (index : WidgetIndex) (c : PageContext) : List Diagnostic :=
  p.shownPages.flatMap fun page => page.findings index c

end Project

end TouchPanel
