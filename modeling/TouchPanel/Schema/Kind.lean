/-!
# Widget kinds and link actions

The closed sets on which the document depends: the kinds of widgets and the updates
that a link can apply to a widget.
-/

namespace TouchPanel

inductive WidgetKind where
  | container
  | label
  | button
  | arc
  | bar
  | slider
  | switch
  | checkbox
  | dropdown
  | roller
  | image
  | led
  | spinner
  | qrcode
  | textarea
  | spinbox
  | line
  deriving DecidableEq

namespace WidgetKind

def all : List WidgetKind :=
  [container, label, button, arc, bar, slider, switch, checkbox, dropdown, roller, image, led,
    spinner, qrcode, textarea, spinbox, line]

def tag : WidgetKind → String
  | container => "container"
  | label => "label"
  | button => "button"
  | arc => "arc"
  | bar => "bar"
  | slider => "slider"
  | switch => "switch"
  | checkbox => "checkbox"
  | dropdown => "dropdown"
  | roller => "roller"
  | image => "image"
  | led => "led"
  | spinner => "spinner"
  | qrcode => "qrcode"
  | textarea => "textarea"
  | spinbox => "spinbox"
  | line => "line"

def ofTag? (s : String) : Option WidgetKind := all.find? (·.tag = s)

theorem mem_all (k : WidgetKind) : k ∈ all := by cases k <;> decide

end WidgetKind

inductive LinkAction where
  | checked
  | sliderValue
  | arcValue
  | barValue
  | labelText
  | selectedIndex
  | hidden
  deriving DecidableEq

namespace LinkAction

def all : List LinkAction :=
  [checked, sliderValue, arcValue, barValue, labelText, selectedIndex, hidden]

def tag : LinkAction → String
  | checked => "widget_checked"
  | sliderValue => "slider_value"
  | arcValue => "arc_value"
  | barValue => "bar_value"
  | labelText => "label_text"
  | selectedIndex => "selected_index"
  | hidden => "obj_hidden"

def ofTag? (s : String) : Option LinkAction := all.find? (·.tag = s)

/-- The kinds of widgets that can be the target. Every widget can be hidden. -/
def targets : LinkAction → List WidgetKind
  | checked => [.switch, .checkbox, .button]
  | sliderValue => [.slider]
  | arcValue => [.arc]
  | barValue => [.bar]
  | labelText => [.label, .textarea]
  | selectedIndex => [.dropdown, .roller]
  | hidden => WidgetKind.all

def appliesTo (a : LinkAction) (k : WidgetKind) : Bool := a.targets.contains k

/-- The device action that applies the update to a widget of kind `k`. -/
def update (a : LinkAction) (k : WidgetKind) : String :=
  match a with
  | sliderValue => "lvgl.slider.update"
  | arcValue => "lvgl.arc.update"
  | barValue => "lvgl.bar.update"
  | labelText => if k = .textarea then "lvgl.textarea.update" else "lvgl.label.update"
  | selectedIndex => if k = .roller then "lvgl.roller.update" else "lvgl.dropdown.update"
  | checked | hidden => "lvgl.widget.update"

end LinkAction

end TouchPanel
