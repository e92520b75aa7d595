import TouchPanel.Schema.Registry

/-!
# Built-in key tables
-/

namespace TouchPanel

namespace KeyTables

private def plain (keys : List String) : List Field := keys.map Field.plain

/-- A field that is written even if the widget leaves it unset. -/
private def defaulted (key : String) (value : Json.Value) : Field := ⟨key, key, some value, true⟩

/-- A range from 0 to 100. -/
private def percentRange : List Field :=
  [defaulted "min_value" (.number (.int 0)), defaulted "max_value" (.number (.int 100))]

/-- Parts that have the shared style keys. -/
private def styledParts (names : List String) : Table String (List Field) :=
  .ofList (names.map (·, []))

/-- While a value is dragged only its release is worth a call. -/
private def commitOnRelease : Table String String := .ofList [("on_value", "on_release")]

private def kindTables : List (String × KindTable) := [
  ("container", { KindTable.empty with
    rootKey := some "obj"
    aliases := ["obj"]
    container := true
    props := plain ["layout"] }),
  ("label", { KindTable.empty with
    props := [.plain "text", ⟨"font", "text_font", none, false⟩, .plain "long_mode",
      .plain "recolor"] }),
  ("button", { KindTable.empty with
    container := true
    props := plain ["layout"]
    events := ["on_value"] }),
  ("arc", { KindTable.empty with
    props := plain ["value"] ++ percentRange ++
      plain ["start_angle", "end_angle", "rotation", "adjustable", "mode", "change_rate"]
    parts := styledParts ["indicator", "knob"]
    events := ["on_value", "on_change"]
    commitEvents := commitOnRelease }),
  ("bar", { KindTable.empty with
    props := plain ["value"] ++ percentRange ++ plain ["mode", "animated"]
    parts := styledParts ["indicator"] }),
  ("slider", { KindTable.empty with
    props := plain ["value"] ++ percentRange ++ plain ["mode", "animated"]
    parts := styledParts ["indicator", "knob"]
    events := ["on_value", "on_change"]
    commitEvents := commitOnRelease }),
  ("switch", { KindTable.empty with
    parts := styledParts ["indicator", "knob"]
    events := ["on_value", "on_change"] }),
  ("checkbox", { KindTable.empty with
    props := plain ["text"]
    parts := styledParts ["indicator"]
    events := ["on_value", "on_change"] }),
  ("dropdown", { KindTable.empty with
    props := plain ["options", "selected_index", "dir", "symbol"]
    parts := .ofList [("indicator", []),
      ("dropdown_list", plain ["bg_color", "bg_opa", "border_color", "border_width", "radius",
        "text_color", "text_font", "max_height"])]
    events := ["on_value", "on_change", "on_cancel"] }),
  ("roller", { KindTable.empty with
    props := plain ["options", "selected_index", "mode", "visible_row_count"]
    parts := styledParts ["selected"]
    events := ["on_value", "on_change"] }),
  ("image", { KindTable.empty with
    props := plain ["src", "zoom", "angle", "pivot_x", "pivot_y", "antialias", "mode"] }),
  ("led", { KindTable.empty with
    props := plain ["color", "brightness"] }),
  ("spinner", { KindTable.empty with
    props := [defaulted "spin_time" (.string "2s"), defaulted "arc_length" (.string "60deg")]
    parts := styledParts ["indicator"] }),
  ("qrcode", { KindTable.empty with
    props := plain ["text", "size", "light_color", "dark_color"] }),
  ("textarea", { KindTable.empty with
    props := plain ["text", "placeholder_text", "max_length", "one_line", "password_mode",
      "accepted_chars"]
    parts := styledParts ["cursor", "textarea_placeholder"]
    events := ["on_value", "on_ready"] }),
  ("spinbox", { KindTable.empty with
    props := plain ["value", "range_from", "range_to", "digits", "decimal_places", "step",
      "rollover"]
    events := ["on_value"] }),
  ("line", { KindTable.empty with
    props := plain ["points"] })]

def builtin : KeyTables where
  props := plain ["align", "align_to", "hidden", "clickable", "checkable", "scrollable",
    "scrollbar_mode", "styles", "group"]
  style := plain ["bg_color", "bg_opa", "bg_grad", "bg_grad_color", "bg_grad_dir", "bg_main_stop",
    "bg_grad_stop", "bg_image_src", "border_color", "border_opa", "border_width", "border_side",
    "radius", "pad_all", "pad_top", "pad_bottom", "pad_left", "pad_right", "pad_row",
    "pad_column", "text_color", "text_opa", "text_font", "text_align", "text_letter_space",
    "text_line_space", "text_decor", "opa", "shadow_color", "shadow_opa", "shadow_width",
    "shadow_ofs_x", "shadow_ofs_y", "shadow_spread", "outline_color", "outline_opa",
    "outline_width", "outline_pad", "arc_color", "arc_opa", "arc_width", "arc_rounded",
    "line_color", "line_opa", "line_width", "line_rounded", "image_recolor",
    "image_recolor_opa", "clip_corner", "transform_angle", "transform_zoom"]
  events := ["on_click", "on_short_click", "on_long_press", "on_press", "on_release", "on_focus",
    "on_defocus"]
  kinds := .ofList kindTables

end KeyTables

namespace Registry

theorem isOk_build_builtin : (build .builtin).isOk = true := by decide +kernel

def builtin : Registry :=
  match h : build .builtin with
  | .ok r => r
  | .error _ => absurd isOk_build_builtin (by simp [h, Except.isOk, Except.toBool])

end Registry

end TouchPanel
