import TouchPanel.Project.Basic

/-!
# Writing projects

The JSON form of a device, with the fields of each record in a fixed order. A value
that is missing is left out, apart from the default background.
-/

namespace TouchPanel

open Json

private def field (name : String) (v : Value) : List (String × Value) := [(name, v)]

private def optionalField (name : String) : Option String → List (String × Value)
  | none => []
  | some s => [(name, .string s)]

private def tableValue (t : Table String Value) : Value := .object t.entries

def Widget.toJson (w : Widget) : Value :=
  .object (field "id" (.string w.id) ++ field "type" (.string w.kind) ++
    field "x" (.number (.float w.x)) ++ field "y" (.number (.float w.y)) ++
    field "w" (.number (.float w.width)) ++ field "h" (.number (.float w.height)) ++
    optionalField "parent_id" w.parentId ++ field "props" (tableValue w.props) ++
    field "style" (tableValue w.style) ++ field "events" (tableValue w.events) ++
    w.extra.entries)

def Page.toJson (p : Page) : Value :=
  .object (field "page_id" (.string p.id) ++ optionalField "name" p.name ++
    optionalField "bg_color" p.background ++
    field "widgets" (.array (p.widgets.map Widget.toJson)))

def Source.toJson (s : Source) : Value :=
  .object (field "entity_id" (.string s.entityId) ++ field "kind" (.string s.kind.tag) ++
    optionalField "attribute" s.attr)

def LinkTarget.toJson (t : LinkTarget) : Value :=
  .object (field "widget_id" (.string t.widgetId) ++ field "action" (.string t.action) ++
    optionalField "format" t.format ++
    (t.scale.map fun x => ("scale", Value.number (.float x))).toList ++
    optionalField "condition_expr" t.condition ++ optionalField "yaml_override" t.literal)

def Link.toJson (l : Link) : Value :=
  .object (field "source" l.source.toJson ++ field "target" l.target.toJson)

def ServiceCall.toJson (c : ServiceCall) : Value :=
  .object (field "domain" (.string c.domain) ++ field "service" (.string c.service) ++
    optionalField "entity_id" c.entityId ++ field "data" (tableValue c.data))

def ActionBinding.toJson (b : ActionBinding) : Value :=
  .object (field "widget_id" (.string b.widgetId) ++ field "event" (.string b.event) ++
    (b.call.map fun c => ("call", c.toJson)).toList ++ optionalField "yaml_override" b.literal)

def SetpointScript.toJson (s : SetpointScript) : Value :=
  .object (field "id" (.string s.id) ++ field "entity_id" (.string s.entityId) ++
    field "step" (.number (.float s.step)) ++
    field "direction" (.string (match s.direction with
      | .up => "inc"
      | .down => "dec")))

def UserText.toJson (u : UserText) : Value :=
  .object (field "yaml_pre" (.string u.before) ++ field "yaml_post" (.string u.after) ++
    field "markers" (.object (u.markers.entries.map fun e => (e.1, .string e.2))))

def Gradient.toJson (g : Gradient) : Value :=
  let stop (s : GradientStop) : Value :=
    .object (field "color" (.string s.color) ++ field "position" (.number (.int s.position)))
  .object (field "id" (.string g.id) ++ optionalField "direction" g.direction ++
    field "stops" (.array (g.stops.map stop)))

def Theme.toJson (t : Theme) : Value :=
  let background := match t.background with
    | none => Value.null
    | some s => .string s
  .object (field "default_background" background ++
    field "style_definitions" (.object (t.styles.entries.map fun e => (e.1, tableValue e.2))) ++
    field "gradients" (.array (t.gradients.map Gradient.toJson)))

def Project.toJson (p : Project) : Value :=
  .object (field "model_version" (.number (.int p.modelVersion)) ++
    field "pages" (.array (p.pages.map Page.toJson)) ++
    field "bindings" (.array (p.bindings.map Source.toJson)) ++
    field "links" (.array (p.links.map Link.toJson)) ++
    field "action_bindings" (.array (p.actionBindings.map ActionBinding.toJson)) ++
    field "scripts" (.array (p.scripts.map SetpointScript.toJson)) ++
    field "advanced" p.userText.toJson ++ field "global" p.theme.toJson)

def Device.toJson (d : Device) : Value :=
  .object (field "device_id" (.string d.deviceId) ++ field "slug" (.string d.slug) ++
    field "name" (.string d.name) ++ optionalField "api_key" d.apiKey ++
    optionalField "hardware_recipe_id" d.recipeId ++ field "project" d.project.toJson)

end TouchPanel
