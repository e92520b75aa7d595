import TouchPanel.Json.Decode
import TouchPanel.Project.Basic

/-!
# Reading projects

The JSON form in which the editor hands devices and projects over.
-/

namespace TouchPanel

open Json Decoder

def DataKind.decoder : Decoder DataKind := word DataKind.ofTag?

def StepDirection.decoder : Decoder StepDirection := word fun
  | "inc" => some .up
  | "dec" => some .down
  | _ => none

namespace Widget

/-- The names of the fields that every widget has. -/
def fieldNames : List String :=
  ["id", "type", "x", "y", "w", "h", "parent_id", "props", "style", "events"]

/-- A widget is an object; all fields without a meaning here are kept. -/
def decoder : Decoder Widget := fun depth t =>
  match depth, t with
  | depth + 1, .object fields => do
    let fields ← keyed? fields
    let known ← fieldNames.mapM fun name => Record.named? [name] fields
    let others := fields.filter fun f => !fieldNames.contains f.1
    let extra ← others.mapM fun (k, t) => (t.value? depth).map fun v => (k, v)
    let (widget, _) ← (go depth extra).run known
    return widget
  | _, _ => none
where
  go (depth : Nat) (extra : List (String × Value)) : Slots Widget := do
    return {
      id := ← required string depth
      kind := ← required string depth
      x := ← orElse float 0.0 depth
      y := ← orElse float 0.0 depth
      width := ← orElse float 100.0 depth
      height := ← orElse float 50.0 depth
      parentId := ← orElse (optional string) none depth
      props := ← orElse (table value) .empty depth
      style := ← orElse (table value) .empty depth
      events := ← orElse (table value) .empty depth
      extra := .ofList extra }

end Widget

def Page.decoder : Decoder Page :=
  record [["page_id", "id"], ["name"], ["bg_color"], ["widgets"]] fun depth => do
    return {
      id := ← required string depth
      name := ← orElse (optional string) none depth
      background := ← orElse (optional string) none depth
      widgets := ← orElse (list Widget.decoder) [] depth }

def Source.decoder : Decoder Source :=
  record [["entity_id"], ["kind"], ["attribute"]] fun depth => do
    return {
      entityId := ← required string depth
      kind := ← orElse DataKind.decoder .state depth
      attr := ← orElse (optional string) none depth }

def LinkTarget.decoder : Decoder LinkTarget :=
  record [["widget_id"], ["action"], ["format"], ["scale"], ["condition_expr"],
      ["yaml_override"]] fun depth => do
    return {
      widgetId := ← required string depth
      action := ← required string depth
      format := ← orElse (optional string) none depth
      scale := ← orElse (optional float) none depth
      condition := ← orElse (optional string) none depth
      literal := ← orElse (optional string) none depth }

def Link.decoder : Decoder Link :=
  record [["source"], ["target"]] fun depth => do
    return {
      source := ← required Source.decoder depth
      target := ← required LinkTarget.decoder depth }

def ServiceCall.decoder : Decoder ServiceCall :=
  record [["domain"], ["service"], ["entity_id"], ["data"]] fun depth => do
    return {
      domain := ← orElse string "" depth
      service := ← orElse string "" depth
      entityId := ← orElse (optional string) none depth
      data := ← orElse (table value) .empty depth }

def ActionBinding.decoder : Decoder ActionBinding :=
  record [["widget_id"], ["event"], ["call"], ["yaml_override"]] fun depth => do
    return {
      widgetId := ← required string depth
      event := ← required string depth
      call := ← orElse (optional ServiceCall.decoder) none depth
      literal := ← orElse (optional string) none depth }

def SetpointScript.decoder : Decoder SetpointScript :=
  record [["id"], ["entity_id"], ["step"], ["direction"]] fun depth => do
    return {
      id := ← required string depth
      entityId := ← required string depth
      step := ← orElse float 0.5 depth
      direction := ← orElse StepDirection.decoder .up depth }

def UserText.decoder : Decoder UserText :=
  record [["yaml_pre"], ["yaml_post"], ["markers"]] fun depth => do
    return {
      before := ← orElse string "" depth
      after := ← orElse string "" depth
      markers := ← orElse (table string) .empty depth }

def GradientStop.decoder : Decoder GradientStop :=
  record [["color"], ["position"]] fun depth => do
    return {
      color := ← required string depth
      position := ← required (natBelow 256) depth }

def Gradient.decoder : Decoder Gradient :=
  record [["id"], ["direction"], ["stops"]] fun depth => do
    return {
      id := ← required string depth
      direction := ← orElse (optional string) none depth
      stops := ← orElse (list GradientStop.decoder) [] depth }

def Theme.decoder : Decoder Theme :=
  record [["default_background"], ["style_definitions"], ["gradients"]] fun depth => do
    return {
      background := ← orElse (optional string) none depth
      styles := ← orElse (table (table value)) .empty depth
      gradients := ← orElse (list Gradient.decoder) [] depth }

def Project.decoder : Decoder Project :=
  record [["model_version"], ["pages"], ["bindings"], ["links"], ["action_bindings"],
      ["scripts"], ["advanced"], ["global"]] fun depth => do
    return {
      modelVersion := ← orElse (natBelow (Nat.pow 2 32)) 0 depth
      pages := ← orElse (list Page.decoder) [] depth
      bindings := ← orElse (list Source.decoder) [] depth
      links := ← orElse (list Link.decoder) [] depth
      actionBindings := ← orElse (list ActionBinding.decoder) [] depth
      scripts := ← orElse (list SetpointScript.decoder) [] depth
      userText := ← orElse UserText.decoder .empty depth
      theme := ← orElse Theme.decoder .empty depth }

def Device.decoder : Decoder Device :=
  record [["device_id"], ["slug"], ["name"], ["api_key"], ["hardware_recipe_id"],
      ["project"]] fun depth => do
    return {
      deviceId := ← required string depth
      slug := ← required string depth
      name := ← orElse string "" depth
      apiKey := ← orElse (optional string) none depth
      recipeId := ← orElse (optional string) none depth
      project := ← orElse Project.decoder .empty depth }

/-- The device that a JSON text describes. -/
def Device.ofText? (t : Text) : Option Device := (Term.ofText? t).bind (Device.decoder nestingLimit)

/-- The project that a JSON text describes. -/
def Project.ofText? (t : Text) : Option Project :=
  (Term.ofText? t).bind (Project.decoder nestingLimit)

end TouchPanel
