import TouchPanel.Project.Reading
import TouchPanel.Project.Writing
import TouchPanel.Proofs.Json.Decode

/-!
# Devices are read back

A device that was read from a JSON text is read again from the text that is written for it. Each
record is shown as the list of its fields, where a field without a value is left out. A default is
written also where it was missing, which may nest deeper than what was read; so each record says
how many levels it needs below it, and a document allows for more than a device needs.
-/

namespace TouchPanel

open Json Json.Decoder Json.Value

variable {depth : Nat}

theorem restored_word {α : Type} {read : String → Option α} {tag : α → String}
    (h : ∀ a, read (tag a) = some a) :
    Restores (word read) (fun a => .string (tag a)) depth := fun _ a _ _ => h a

/-- A field with a string that may be missing. -/
theorem keepsField_optionalString :
    KeepsField (orElse (optional string) none depth) (Option.map Value.string) :=
  keepsField_optional restores_string nofun

/-! ## The theme -/

namespace GradientStop

def fields (s : GradientStop) : List (String × Option Value) :=
  [("color", some (.string s.color)), ("position", some (.number (.int s.position)))]

def toJson (s : GradientStop) : Value := .object (present s.fields)

theorem restores (depth : Nat) : Restores decoder toJson (depth + 1) := by
  refine restores_record (fun _ => rfl) (fun _ => rfl) ?_
  refine (keepsField_required restores_string).bind fun color => ?_
  refine (keepsField_required (restores_natBelow (by decide))).bind fun position => ?_
  exact .pure rfl

end GradientStop

namespace Gradient

def fields (g : Gradient) : List (String × Option Value) :=
  [("id", some (.string g.id)), ("direction", g.direction.map .string),
    ("stops", some (.array (g.stops.map GradientStop.toJson)))]

theorem toJson_eq (g : Gradient) : g.toJson = .object (present g.fields) := by
  obtain ⟨id, _ | direction, stops⟩ := g <;> rfl

theorem restores (depth : Nat) : Restores decoder toJson (depth + 3) := by
  refine restores_record (fun _ => rfl) toJson_eq ?_
  refine (keepsField_required restores_string).bind fun id => ?_
  refine keepsField_optionalString.bind fun direction => ?_
  refine (keepsField_orElse (restores_list (GradientStop.restores depth)) fun _ => rfl).bind
    fun stops => ?_
  exact .pure rfl

end Gradient

namespace Theme

def fields (t : Theme) : List (String × Option Value) :=
  [("default_background", some ((t.background.map Value.string).getD .null)),
    ("style_definitions",
      some (.object (t.styles.entries.map fun e => (e.1, .object e.2.entries)))),
    ("gradients", some (.array (t.gradients.map Gradient.toJson)))]

theorem toJson_eq (t : Theme) : t.toJson = .object (present t.fields) := by
  obtain ⟨_ | background, styles, gradients⟩ := t <;> rfl

/-- The background is written as null if there is none. -/
theorem restores_background : Restores (optional string)
    (fun s => (s.map Value.string).getD .null) depth := by
  intro t s hs _
  cases s <;> rfl

theorem restores (depth : Nat) : Restores decoder toJson (depth + 5) := by
  refine restores_record (fun _ => rfl) toJson_eq ?_
  refine (keepsField_orElse restores_background fun _ => rfl).bind fun background => ?_
  refine (keepsField_orElse (restores_table (restores_entries (restores_value _)))
    fun _ => rfl).bind fun styles => ?_
  refine (keepsField_orElse (restores_list (Gradient.restores depth)) fun _ => rfl).bind
    fun gradients => ?_
  exact .pure rfl

end Theme

/-! ## Text and scripts -/

namespace UserText

def fields (u : UserText) : List (String × Option Value) :=
  [("yaml_pre", some (.string u.before)), ("yaml_post", some (.string u.after)),
    ("markers", some (.object (u.markers.entries.map fun e => (e.1, .string e.2))))]

theorem toJson_eq (u : UserText) : u.toJson = .object (present u.fields) := rfl

theorem restores (depth : Nat) : Restores decoder toJson (depth + 2) := by
  refine restores_record (fun _ => rfl) toJson_eq ?_
  refine (keepsField_orElse restores_string fun _ => rfl).bind fun before => ?_
  refine (keepsField_orElse restores_string fun _ => rfl).bind fun after => ?_
  refine (keepsField_orElse (restores_table restores_string) fun _ => rfl).bind fun markers => ?_
  exact .pure rfl

end UserText

namespace SetpointScript

def fields (s : SetpointScript) : List (String × Option Value) :=
  [("id", some (.string s.id)), ("entity_id", some (.string s.entityId)),
    ("step", some (.number (.float s.step))),
    ("direction", some (.string (match s.direction with
      | .up => "inc"
      | .down => "dec")))]

theorem toJson_eq (s : SetpointScript) : s.toJson = .object (present s.fields) := rfl

theorem restores_direction : Restores StepDirection.decoder (fun direction =>
    .string (match direction with
      | .up => "inc"
      | .down => "dec")) depth :=
  restored_word fun direction => by cases direction <;> rfl

theorem restores (depth : Nat) : Restores decoder toJson (depth + 1) := by
  refine restores_record (fun _ => rfl) toJson_eq ?_
  refine (keepsField_required restores_string).bind fun id => ?_
  refine (keepsField_required restores_string).bind fun entityId => ?_
  refine (keepsField_orElse restores_float (restored_float _)).bind fun step => ?_
  refine (keepsField_orElse restores_direction fun _ => rfl).bind fun direction => ?_
  exact .pure rfl

end SetpointScript

/-! ## Data in and out -/

namespace Source

def fields (s : Source) : List (String × Option Value) :=
  [("entity_id", some (.string s.entityId)), ("kind", some (.string s.kind.tag)),
    ("attribute", s.attr.map .string)]

theorem toJson_eq (s : Source) : s.toJson = .object (present s.fields) := by
  obtain ⟨entityId, kind, _ | attr⟩ := s <;> rfl

theorem restores_kind : Restores DataKind.decoder (fun kind => .string kind.tag) depth :=
  restored_word fun kind => by cases kind <;> rfl

theorem restores (depth : Nat) : Restores decoder toJson (depth + 1) := by
  refine restores_record (fun _ => rfl) toJson_eq ?_
  refine (keepsField_required restores_string).bind fun entityId => ?_
  refine (keepsField_orElse restores_kind fun _ => rfl).bind fun kind => ?_
  refine keepsField_optionalString.bind fun attr => ?_
  exact .pure rfl

end Source

namespace LinkTarget

def fields (t : LinkTarget) : List (String × Option Value) :=
  [("widget_id", some (.string t.widgetId)), ("action", some (.string t.action)),
    ("format", t.format.map .string), ("scale", t.scale.map fun x => .number (.float x)),
    ("condition_expr", t.condition.map .string), ("yaml_override", t.literal.map .string)]

theorem toJson_eq (t : LinkTarget) : t.toJson = .object (present t.fields) := by
  obtain ⟨widgetId, action, _ | format, _ | scale, _ | condition, _ | literal⟩ := t <;> rfl

theorem restores (depth : Nat) : Restores decoder toJson (depth + 1) := by
  refine restores_record (fun _ => rfl) toJson_eq ?_
  refine (keepsField_required restores_string).bind fun widgetId => ?_
  refine (keepsField_required restores_string).bind fun action => ?_
  refine keepsField_optionalString.bind fun format => ?_
  refine (keepsField_optional restores_float nofun).bind fun scale => ?_
  refine keepsField_optionalString.bind fun condition => ?_
  refine keepsField_optionalString.bind fun literal => ?_
  exact .pure rfl

end LinkTarget

namespace Link

def fields (l : Link) : List (String × Option Value) :=
  [("source", some l.source.toJson), ("target", some l.target.toJson)]

theorem toJson_eq (l : Link) : l.toJson = .object (present l.fields) := rfl

theorem restores (depth : Nat) : Restores decoder toJson (depth + 2) := by
  refine restores_record (fun _ => rfl) toJson_eq ?_
  refine (keepsField_required (Source.restores depth)).bind fun source => ?_
  refine (keepsField_required (LinkTarget.restores depth)).bind fun target => ?_
  exact .pure rfl

end Link

namespace ServiceCall

def fields (c : ServiceCall) : List (String × Option Value) :=
  [("domain", some (.string c.domain)), ("service", some (.string c.service)),
    ("entity_id", c.entityId.map .string), ("data", some (.object c.data.entries))]

theorem toJson_eq (c : ServiceCall) : c.toJson = .object (present c.fields) := by
  obtain ⟨domain, service, _ | entityId, data⟩ := c <;> rfl

theorem restores (depth : Nat) : Restores decoder toJson (depth + 2) := by
  refine restores_record (fun _ => rfl) toJson_eq ?_
  refine (keepsField_orElse restores_string fun _ => rfl).bind fun domain => ?_
  refine (keepsField_orElse restores_string fun _ => rfl).bind fun service => ?_
  refine keepsField_optionalString.bind fun entityId => ?_
  refine (keepsField_orElse (restores_entries (restores_value _)) fun _ => rfl).bind
    fun data => ?_
  exact .pure rfl

end ServiceCall

namespace ActionBinding

def fields (b : ActionBinding) : List (String × Option Value) :=
  [("widget_id", some (.string b.widgetId)), ("event", some (.string b.event)),
    ("call", b.call.map ServiceCall.toJson), ("yaml_override", b.literal.map .string)]

theorem toJson_eq (b : ActionBinding) : b.toJson = .object (present b.fields) := by
  obtain ⟨widgetId, event, _ | call, _ | literal⟩ := b <;> rfl

theorem restores (depth : Nat) : Restores decoder toJson (depth + 3) := by
  refine restores_record (fun _ => rfl) toJson_eq ?_
  refine (keepsField_required restores_string).bind fun widgetId => ?_
  refine (keepsField_required restores_string).bind fun event => ?_
  refine (keepsField_optional (ServiceCall.restores depth) nofun).bind fun call => ?_
  refine keepsField_optionalString.bind fun literal => ?_
  exact .pure rfl

end ActionBinding

/-! ## Widgets and pages -/

namespace Widget

/-- The fields that every widget has. -/
def fields (w : Widget) : List (String × Option Value) :=
  [("id", some (.string w.id)), ("type", some (.string w.kind)),
    ("x", some (.number (.float w.x))), ("y", some (.number (.float w.y))),
    ("w", some (.number (.float w.width))), ("h", some (.number (.float w.height))),
    ("parent_id", w.parentId.map .string), ("props", some (.object w.props.entries)),
    ("style", some (.object w.style.entries)), ("events", some (.object w.events.entries))]

theorem toJson_eq (w : Widget) :
    w.toJson = .object (present w.fields ++ w.extra.entries) := by
  obtain ⟨id, kind, x, y, width, height, _ | parentId, props, style, events, extra⟩ := w <;> rfl

theorem keeps_go (extra : List (String × Value)) :
    Keeps (decoder.go (depth + 1) extra) [] fun w => w.fields.map (·.2) := by
  have hvalues : KeepsField (orElse (table value) .empty (depth + 1))
      fun t => some (Value.object t.entries) :=
    keepsField_orElse (restores_entries (restores_value depth)) fun _ => rfl
  have hfloat (default : Float) : KeepsField (orElse float default (depth + 1))
      fun x => some (Value.number (.float x)) :=
    keepsField_orElse restores_float (restored_float default)
  refine (keepsField_required restores_string).bind fun id => ?_
  refine (keepsField_required restores_string).bind fun kind => ?_
  refine (hfloat _).bind fun x => ?_
  refine (hfloat _).bind fun y => ?_
  refine (hfloat _).bind fun width => ?_
  refine (hfloat _).bind fun height => ?_
  refine keepsField_optionalString.bind fun parentId => ?_
  refine hvalues.bind fun props => ?_
  refine hvalues.bind fun style => ?_
  refine hvalues.bind fun events => ?_
  exact .pure rfl

theorem extra_of_run_go {extra : List (String × Value)} : ∀ s w s',
    (decoder.go depth extra).run s = some (w, s') → w.extra = .ofList extra := by
  unfold decoder.go
  iterate 10 refine forall_of_run_bind fun _ => ?_
  intro s w s' h
  obtain ⟨rfl, -⟩ := Prod.mk.inj (Option.some.inj h)
  rfl

theorem go_congr {extra extra' : List (String × Value)}
    (h : Table.ofList extra = Table.ofList extra') :
    decoder.go depth extra = decoder.go depth extra' := by
  unfold decoder.go
  rw [h]

/-- A field without a meaning, with the value that is kept of it. -/
def kept (depth : Nat) (f : String × Term) : Option (String × Value) :=
  (value depth f.2).map fun v => (f.1, v)

theorem decoder_object (fields : List (Option String × Term)) :
    decoder (depth + 1) (.object fields) = (keyed? fields).bind fun keyed =>
      (fieldNames.mapM fun name => Record.named? [name] keyed).bind fun known =>
        ((keyed.filter fun f => !fieldNames.contains f.1).mapM (kept depth)).bind fun extra =>
          ((decoder.go depth extra).run known).bind fun p => some p.1 :=
  rfl

theorem filter_unknown {w : Widget}
    (h : ∀ e ∈ w.extra.entries, fieldNames.contains e.1 = false) :
    (termFields (present w.fields ++ w.extra.entries)).filter
      (fun f => !fieldNames.contains f.1) = termFields w.extra.entries := by
  have hknown : (present w.fields).filter (fun e => !fieldNames.contains e.1) = [] := by
    rw [filter_present (!fieldNames.contains ·)]
    rfl
  have hextra : w.extra.entries.filter (fun e => !fieldNames.contains e.1) = w.extra.entries :=
    List.filter_eq_self.2 fun e he => by rw [h e he]; rfl
  rw [termFields, List.filter_map]
  change termFields ((present w.fields ++ w.extra.entries).filter fun e =>
    !fieldNames.contains e.1) = _
  rw [List.filter_append, hknown, hextra, List.nil_append]

/-- Every field is found again, and those without a meaning are told apart by their keys. -/
theorem decoder_toTerm {w : Widget}
    (hunknown : ∀ e ∈ w.extra.entries, fieldNames.contains e.1 = false)
    (hextra : ∀ e ∈ w.extra.entries, value depth e.2.toTerm = some e.2)
    (hknown : (decoder.go depth w.extra.entries).run (w.fields.map (·.2.map toTerm)) =
      some (w, [])) : decoder (depth + 1) w.toJson.toTerm = some w := by
  have hnamed : (fieldNames.map ([·])).mapM
      (Record.named? · (termFields (present w.fields ++ w.extra.entries))) =
        some (w.fields.map (·.2.map toTerm)) := by
    refine mapM_named?_present rfl fun e he names hnames => ?_
    obtain ⟨name, hname, rfl⟩ := List.mem_map.1 hnames
    have hne : e.1 ≠ name := by
      rintro rfl
      simpa [hname] using hunknown e he
    simp [hne]
  have hkept : (termFields w.extra.entries).mapM (kept depth) = some w.extra.entries :=
    mapM_map_eq fun e he => congrArg (Option.map fun v => (e.1, v)) (hextra e he)
  rw [List.mapM_map] at hnamed
  rw [toJson_eq, toTerm, decoder_object, keyed?_fieldTerms, Option.bind_some,
    filter_unknown hunknown, hkept]
  refine (congrArg (Option.bind · _) hnamed).trans ?_
  rw [Option.bind_some, Option.bind_some, hknown, Option.bind_some]

theorem restores (depth : Nat) : Restores decoder toJson (depth + 2) := by
  intro t w hw hfaithful
  cases t with
  | object fields =>
    rw [decoder_object] at hw
    obtain ⟨keyed, -, hw⟩ := Option.bind_eq_some_iff.1 hw
    obtain ⟨known, -, hw⟩ := Option.bind_eq_some_iff.1 hw
    obtain ⟨extra, hextra, hw⟩ := Option.bind_eq_some_iff.1 hw
    obtain ⟨⟨w', s'⟩, hrun, heq⟩ := Option.bind_eq_some_iff.1 hw
    obtain rfl : w' = w := Option.some.inj heq
    have hofList : w'.extra = .ofList extra := extra_of_run_go _ _ _ hrun
    have hread : ∀ e ∈ w'.extra.entries, fieldNames.contains e.1 = false ∧
        ∃ t, value (depth + 1) t = some e.2 := by
      intro e he
      rw [hofList] at he
      obtain ⟨f, hf, hkept⟩ := mem_of_mapM hextra (Table.mem_of_mem_ofList he)
      obtain ⟨v, hv, rfl⟩ := Option.map_eq_some_iff.1 hkept
      exact ⟨by simpa using (List.mem_filter.1 hf).2, f.2, hv⟩
    rw [toJson_eq, isFaithful_object] at hfaithful
    obtain ⟨l, hl, hkeep⟩ := keeps_go extra _ _ _ hrun
    rw [List.nil_append] at hl
    subst hl
    have hgo := hkeep (fun v hv => by
      obtain ⟨k, hk⟩ := mem_present hv
      exact hfaithful _ (List.mem_append_left _ hk)) []
    have hsame : Table.ofList extra = Table.ofList w'.extra.entries := by
      rw [Table.ofList_entries, hofList]
    rw [List.append_nil, List.map_map, go_congr hsame] at hgo
    refine decoder_toTerm (fun e he => (hread e he).1) (fun e he => ?_) hgo
    obtain ⟨-, t, ht⟩ := hread e he
    exact restores_value _ t e.2 ht (hfaithful e (List.mem_append_right _ he))
  | _ => cases hw

end Widget

namespace Page

def fields (p : Page) : List (String × Option Value) :=
  [("page_id", some (.string p.id)), ("name", p.name.map .string),
    ("bg_color", p.background.map .string),
    ("widgets", some (.array (p.widgets.map Widget.toJson)))]

theorem toJson_eq (p : Page) : p.toJson = .object (present p.fields) := by
  obtain ⟨id, _ | name, _ | background, widgets⟩ := p <;> rfl

theorem restores (depth : Nat) : Restores decoder toJson (depth + 4) := by
  refine restores_record (fun _ => rfl) toJson_eq ?_
  refine (keepsField_required restores_string).bind fun id => ?_
  refine keepsField_optionalString.bind fun name => ?_
  refine keepsField_optionalString.bind fun background => ?_
  refine (keepsField_orElse (restores_list (Widget.restores depth)) fun _ => rfl).bind
    fun widgets => ?_
  exact .pure rfl

end Page

/-! ## Projects and devices -/

namespace Project

def fields (p : Project) : List (String × Option Value) :=
  [("model_version", some (.number (.int p.modelVersion))),
    ("pages", some (.array (p.pages.map Page.toJson))),
    ("bindings", some (.array (p.bindings.map Source.toJson))),
    ("links", some (.array (p.links.map Link.toJson))),
    ("action_bindings", some (.array (p.actionBindings.map ActionBinding.toJson))),
    ("scripts", some (.array (p.scripts.map SetpointScript.toJson))),
    ("advanced", some p.userText.toJson), ("global", some p.theme.toJson)]

theorem toJson_eq (p : Project) : p.toJson = .object (present p.fields) := rfl

theorem restores (depth : Nat) : Restores decoder toJson (depth + 6) := by
  have hbound : Nat.pow 2 32 ≤ Nat.pow 2 64 := by decide
  refine restores_record (fun _ => rfl) toJson_eq ?_
  refine (keepsField_orElse (restores_natBelow hbound)
    (restored_natBelow hbound (by decide))).bind fun modelVersion => ?_
  refine (keepsField_orElse (restores_list (Page.restores depth)) fun _ => rfl).bind
    fun pages => ?_
  refine (keepsField_orElse (restores_list (Source.restores _)) fun _ => rfl).bind
    fun bindings => ?_
  refine (keepsField_orElse (restores_list (Link.restores _)) fun _ => rfl).bind fun links => ?_
  refine (keepsField_orElse (restores_list (ActionBinding.restores _)) fun _ => rfl).bind
    fun actionBindings => ?_
  refine (keepsField_orElse (restores_list (SetpointScript.restores _)) fun _ => rfl).bind
    fun scripts => ?_
  refine (keepsField_orElse (UserText.restores _)
    (UserText.restores _ (.object []) .empty rfl)).bind fun userText => ?_
  refine (keepsField_orElse (Theme.restores _) (Theme.restores _ (.object []) .empty rfl)).bind
    fun theme => ?_
  exact .pure rfl

end Project

namespace Device

def fields (d : Device) : List (String × Option Value) :=
  [("device_id", some (.string d.deviceId)), ("slug", some (.string d.slug)),
    ("name", some (.string d.name)), ("api_key", d.apiKey.map .string),
    ("hardware_recipe_id", d.recipeId.map .string), ("project", some d.project.toJson)]

theorem toJson_eq (d : Device) : d.toJson = .object (present d.fields) := by
  obtain ⟨deviceId, slug, name, _ | apiKey, _ | recipeId, project⟩ := d <;> rfl

theorem restores (depth : Nat) : Restores decoder toJson (depth + 7) := by
  refine restores_record (fun _ => rfl) toJson_eq ?_
  refine (keepsField_required restores_string).bind fun deviceId => ?_
  refine (keepsField_required restores_string).bind fun slug => ?_
  refine (keepsField_orElse restores_string fun _ => rfl).bind fun name => ?_
  refine keepsField_optionalString.bind fun apiKey => ?_
  refine keepsField_optionalString.bind fun recipeId => ?_
  refine (keepsField_orElse (Project.restores depth)
    (Project.restores depth (.object []) .empty rfl)).bind fun project => ?_
  exact .pure rfl

/-- A device that was read from a text, whose doubles are read back from their own texts, is read
again from the text that is written for it, and what is then written is the same text. -/
theorem read_again {t : Text} {d : Device} (h : ofText? t = some d)
    (hfaithful : d.toJson.IsFaithful) : ofText? d.toJson.text = some d ∧
      ∀ d', ofText? d.toJson.text = some d' → d'.toJson.text = d.toJson.text := by
  obtain ⟨term, -, hterm⟩ := Option.bind_eq_some_iff.1 h
  have hread : ofText? d.toJson.text = some d := by
    rw [ofText?, Term.ofText?_text hfaithful.isLegible]
    exact restores 120 term d hterm hfaithful
  refine ⟨hread, fun d' hd' => ?_⟩
  obtain rfl := Option.some.inj (hread.symm.trans hd')
  rfl

/-- A device with a page under its other name, a widget of a kind that the schema does not know, a
field without a meaning, and fields that are null or missing. -/
def gaugeText : Text :=
  ("\x7b\"device_id\":\"panel-1\",\"slug\":\"hall\",\"api_key\":null,\"project\":\x7b\"pages\":" ++
    "[\x7b\"id\":\"main\",\"widgets\":[\x7b\"id\":\"dial\",\"type\":\"gauge\",\"w\":120.5," ++
    "\"parent_id\":null,\"needle\":\x7b\"angle\":[1,null]\x7d\x7d]\x7d]\x7d\x7d").toList

theorem read_again_gauge : ∃ d, ofText? gaugeText = some d ∧ d.toJson.IsFaithful ∧
    ofText? d.toJson.text = some d := by
  have hread : ((ofText? gaugeText).any fun d => decide d.toJson.IsFaithful) = true := by
    decide +kernel
  cases hd : ofText? gaugeText with
  | none =>
    rw [hd] at hread
    cases hread
  | some d =>
    rw [hd] at hread
    have hfaithful : d.toJson.IsFaithful := of_decide_eq_true hread
    exact ⟨d, rfl, hfaithful, (read_again hd hfaithful).1⟩

end Device

end TouchPanel
