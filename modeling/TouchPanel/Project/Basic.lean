import TouchPanel.Json.Value
import TouchPanel.Table
import TouchPanel.Text.Blank

/-!
# Devices and projects

What the editor hands over: a device and its design project of pages with widgets,
the data that flows in and out, and text that the user wants in the document.
-/

namespace TouchPanel

/-- A widget as the editor stores it. Its kind stays a word, because the editor may
know kinds that the schema does not. -/
structure Widget where
  id : String
  kind : String
  x : Float
  y : Float
  width : Float
  height : Float
  parentId : Option String
  props : Table String Json.Value
  style : Table String Json.Value
  events : Table String Json.Value
  /-- All other fields, among them the styles of named parts. -/
  extra : Table String Json.Value

structure Page where
  id : String
  name : Option String
  background : Option String
  widgets : List Widget

/-- What kind of value is read from the host. -/
inductive DataKind where
  | attributeNumber
  | attributeText
  | binary
  | state
  deriving DecidableEq

namespace DataKind

def tag : DataKind → String
  | attributeNumber => "attribute_number"
  | attributeText => "attribute_text"
  | binary => "binary"
  | state => "state"

def all : List DataKind := [attributeNumber, attributeText, binary, state]

def ofTag? (s : String) : Option DataKind := all.find? (·.tag = s)

/-- Whether the attribute is part of what is read. -/
def usesAttribute : DataKind → Bool
  | attributeNumber | attributeText => true
  | binary | state => false

/-- Kinds are ordered as their tags. -/
def rank : DataKind → Nat
  | attributeNumber => 0
  | attributeText => 1
  | binary => 2
  | state => 3

end DataKind

/-- A value of the host: an entity, what kind of value, and of which attribute. -/
structure Source where
  entityId : String
  kind : DataKind
  attr : Option String

/-- What a link does with a value that comes in. -/
structure LinkTarget where
  widgetId : String
  action : String
  format : Option String
  scale : Option Float
  /-- The widget is hidden while this expression over `x` is true. -/
  condition : Option String
  literal : Option String

structure Link where
  source : Source
  target : LinkTarget

/-- A call to a service of the host. -/
structure ServiceCall where
  domain : String
  service : String
  entityId : Option String
  data : Table String Json.Value

/-- What happens on the host when a widget emits an event. -/
structure ActionBinding where
  widgetId : String
  event : String
  call : Option ServiceCall
  literal : Option String

inductive StepDirection where
  | up
  | down
  deriving DecidableEq

/-- A script that moves the setpoint of an entity by one step. -/
structure SetpointScript where
  id : String
  entityId : String
  step : Float
  direction : StepDirection

/-- Hand-written document text. -/
structure UserText where
  before : String
  after : String
  markers : Table String String

structure GradientStop where
  color : String
  position : Nat

structure Gradient where
  id : String
  direction : Option String
  stops : List GradientStop

structure Theme where
  background : Option String
  styles : Table String (Table String Json.Value)
  gradients : List Gradient

structure Project where
  modelVersion : Nat
  pages : List Page
  bindings : List Source
  links : List Link
  actionBindings : List ActionBinding
  scripts : List SetpointScript
  userText : UserText
  theme : Theme

structure Device where
  deviceId : String
  /-- The name of the device on the network. -/
  slug : String
  name : String
  apiKey : Option String
  recipeId : Option String
  project : Project

/-! ## Defaults and derived values -/

def UserText.empty : UserText := ⟨"", "", .empty⟩

def Theme.empty : Theme := ⟨none, .empty, []⟩

def Project.empty : Project := ⟨0, [], [], [], [], [], .empty, .empty⟩

/-- The text without surrounding blanks, if anything is left of it. -/
def filled? (s : Option String) : Option String := (s.map trimmed).filter (· ≠ "")

/-- The text itself, unless it is missing or blank. -/
def nonBlank? (s : Option String) : Option String := s.filter fun t => !Text.allBlank t.toList

def Widget.parent? (w : Widget) : Option String := filled? w.parentId

/-- A property that is a string, without surrounding blanks. -/
def Widget.text? (w : Widget) (key : String) : Option String :=
  ((w.props.get? key).bind Json.Value.string?).map trimmed

def ServiceCall.entity? (c : ServiceCall) : Option String := filled? c.entityId

/-- The name that the document gives to the device. -/
def Device.nodeName (d : Device) : String :=
  let name := trimmed d.slug
  if name = "" then "device" else name

def Device.key? (d : Device) : Option String := filled? d.apiKey

/-- Every widget of every page, in order. -/
def Project.widgets (p : Project) : List Widget := p.pages.flatMap (·.widgets)

end TouchPanel
