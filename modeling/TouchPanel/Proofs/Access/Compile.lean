import TouchPanel.Proofs.Access.Document
import TouchPanel.Proofs.Access.Forest

/-!
# Accesses of a compilation

A compilation reads and changes texts and lists at places that it has computed before. Here each
of these accesses may have no result, and then there is no document. It turns out that there is
always one, whatever the device, the recipe, the registry and the options are.
-/

namespace TouchPanel

namespace Access

open Text

/-! ## Handlers -/

/-- The node of a value that is sent with a call. -/
def payload? : Json.Value → Option (Option Node)
  | .string s =>
    if startsWith Node.lambdaTag (trim s.toList) then textNode? s else some (some (.str s))
  | v => jsonNode? v

theorem payload?_eq (v : Json.Value) : payload? v = some (ServiceCall.payloadNode? v) := by
  cases v with
  | string s =>
    rw [payload?, ServiceCall.payloadNode?.eq_def, textNode?_eq]
    dsimp only
    split <;> rfl
  | null | bool b | number n | array items | object fields => exact jsonNode?_eq _

/-- The entry of a value that is sent with a call. -/
def sentPair? (c : ServiceCall) (entry : String × Json.Value) : Option (Option (String × Node)) :=
  if c.entity?.isSome && entry.1 = "entity_id" then some none
  else (payload? entry.2).map (·.map fun node => (entry.1, node))

/-- The data of a call; its entity comes first. -/
def callData? (c : ServiceCall) : Option Mapping := do
  let sent ← c.data.entries.mapM (sentPair? c)
  match c.entity? with
  | some entity => return ("entity_id", .str entity) :: sent.filterMap id
  | none => return sent.filterMap id

theorem callData?_eq (c : ServiceCall) : callData? c = some c.dataNode := by
  have hsent : c.data.entries.mapM (sentPair? c) = some (c.data.entries.map fun entry =>
      if c.entity?.isSome && entry.1 = "entity_id" then none
      else (ServiceCall.payloadNode? entry.2).map fun node => (entry.1, node)) :=
    mapM_eq fun entry _ => by
      rw [sentPair?, payload?_eq]
      split <;> rfl
  rw [callData?, hsent, ServiceCall.dataNode]
  simp only [Option.bind_eq_bind, Option.bind_some, List.filterMap_map, Function.id_comp]
  cases c.entity? <;> rfl

/-- Delay, lock and call. -/
def statements? (c : ServiceCall) (widgetId : String) (options : Options) : Option (List Node) := do
  let data ← callData? c
  let call := Node.single "homeassistant.action" (.map [
    ("action", .ident (trimmed c.domain ++ "." ++ trimmed c.service)), ("data", .map data)])
  return (if 0 < options.outboundDelay then [.single "delay" (.ident s!"{options.outboundDelay}ms")]
    else []) ++
  ((c.lock? widgetId).map (Lock.writer options.lockWindow)).toList ++ [call]

theorem statements?_eq (c : ServiceCall) (widgetId : String) (options : Options) :
    statements? c widgetId options = some (c.statements widgetId options) := by
  rw [statements?, callData?_eq]
  rfl

/-- The handler of a binding and what there is to say about it. -/
def handler? (b : ActionBinding) (i : Nat) (index : WidgetIndex) (options : Options) :
    Option (List Diagnostic × Option Handler) :=
  match index.get? b.widgetId with
  | none => some ([.danglingActionWidget i b.widgetId], none)
  | some target =>
    let requested := trimmed b.event
    match target.schema.filter (·.supportsEvent requested) with
    | none => some ([.unknownEvent i b.widgetId target.kindTag requested], none)
    | some schema =>
      let commit := schema.commitEvent? requested
      let notes := (commit.map (.commitEventSubstituted b.widgetId requested)).toList
      let event := commit.getD requested
      match nonBlank? b.literal, b.call.filter (·.isComplete) with
      | some text, _ => some (notes, some ⟨target.outId, event, i, .fragment text, none⟩)
      | none, some call => do
        let statements ← statements? call target.outId options
        return (notes ++ call.findings i,
          some ⟨target.outId, event, i, .list statements, call.lock? target.outId⟩)
      | none, none => some (notes ++ [.incompleteCall i b.widgetId], none)

theorem handler?_eq (b : ActionBinding) (i : Nat) (index : WidgetIndex) (options : Options) :
    handler? b i index options = some (b.resolve i index options) := by
  rw [handler?, ActionBinding.resolve]
  cases index.get? b.widgetId with
  | none => rfl
  | some target =>
    simp only [statements?_eq]
    cases target.schema.filter (·.supportsEvent (trimmed b.event)) with
    | none => rfl
    | some schema => cases nonBlank? b.literal <;> cases b.call.filter (·.isComplete) <;> rfl

/-- Takes in the binding at index `i`. -/
def addHandler? (index : WidgetIndex) (options : Options) (hs : Handlers)
    (entry : ActionBinding × Nat) : Option Handlers := do
  let (b, i) := entry
  let (notes, handler) ← handler? b i index options
  match handler with
  | none => return { hs with diagnostics := hs.diagnostics ++ notes }
  | some h =>
    let shadowed := (Handlers.find? hs.list h.widgetId h.event).map fun earlier =>
      Diagnostic.shadowedAction b.widgetId h.event earlier.index i
    return ⟨h :: hs.list, hs.diagnostics ++ notes ++ shadowed.toList⟩

theorem addHandler?_eq (index : WidgetIndex) (options : Options) (hs : Handlers)
    (entry : ActionBinding × Nat) :
    addHandler? index options hs entry = some (hs.add index options entry) := by
  obtain ⟨b, i⟩ := entry
  simp only [addHandler?, Handlers.add, handler?_eq, Option.bind_eq_bind, Option.bind_some]
  cases (b.resolve i index options).2 <;> rfl

/-! ## Fragments and document -/

/-- The fragments of a project, and what is found in it. -/
def fragments? (p : Project) (registry : Registry) (options : Options) :
    Option (Fragments × List Diagnostic) := do
  let policy := options.idPolicy
  let index := WidgetIndex.ofProject p registry policy
  let assets := AssetTable.ofProject p
  let handlers ← p.actionBindings.zipIdx.foldlM (addHandler? index options) ⟨[], []⟩
  let context : PageContext := ⟨registry, assets, handlers.list, policy, p.theme.styles.keys⟩
  let (lvgl, found) ← lvgl? p index context
  let (declared, bindingFindings) := Declarations.ofBindings p.bindings
  let links := LinkRun.ofLinks p.links index declared
  let scripts := ScriptRun.ofScripts p.scripts links.declarations
  return ({ lvgl
            sensors := scripts.declarations.sections
            globals := Lock.globals (handlers.locks ++ links.locks)
            scripts := scripts.nodes
            fonts := assets.fontNodes options
            images := assets.imageNodes options },
    index.findings p.pages policy ++ handlers.diagnostics ++ found ++ bindingFindings ++
      links.diagnostics ++ scripts.diagnostics)

theorem fragments?_eq (p : Project) (registry : Registry) (options : Options) :
    fragments? p registry options = some (Fragments.ofProject p registry options) := by
  simp only [fragments?, foldlM_eq (addHandler?_eq _ options), lvgl?_eq, Option.bind_eq_bind,
    Option.bind_some]
  rfl

/-- The document of a device, if no access on the way to it is out of range. -/
def compile? (d : Device) (recipe : Text) (registry : Registry) (options : Options) :
    Option Compilation := do
  let (fragments, compiled) ← fragments? d.project registry options
  let (document, assembled) ← assemble? d recipe fragments options
  return ⟨document, compiled ++ assembled⟩

theorem compile?_eq (d : Device) (recipe : Text) (registry : Registry) (options : Options) :
    compile? d recipe registry options =
      some (Compilation.ofDevice d recipe registry options) := by
  simp only [compile?, fragments?_eq, assemble?_eq, Option.bind_eq_bind, Option.bind_some]
  rfl

/-! ## Schemas -/

/-- The schema of a kind stands at the place of the kind. -/
theorem getElem?_schemas (registry : Registry) (kind : WidgetKind) :
    registry.schemas[kind.ctorIdx]? = some (registry.schema kind) := by
  have hall : WidgetKind.all[kind.ctorIdx]? = some kind := by cases kind <;> rfl
  rw [← registry.complete, List.getElem?_map, Option.map_eq_some_iff] at hall
  obtain ⟨s, hs, hkind⟩ := hall
  have hfind : registry.schemas.find? (·.kind = kind) = some (registry.schema kind) :=
    (Option.some_get (registry.isSome_find kind)).symm
  have hschema : (registry.schema kind).kind = kind := by simpa using List.find?_some hfind
  have hnodup : (registry.schemas.map Schema.kind).Nodup := by
    rw [registry.complete]
    decide
  have hsame : s = registry.schema kind :=
    List.inj_on_of_nodup_map hnodup (List.mem_of_getElem? hs) (List.mem_of_find?_eq_some hfind)
      (hkind.trans hschema.symm)
  rw [hs, hsame]

end Access

/-- No access of a compilation is out of range, whatever is compiled. This holds as well for
entries that are put into any section of any text, for any list that is written, for the quotes
of any expression, and for the schema of any kind. -/
theorem accesses_in_range :
    (∀ d recipe registry options, Access.compile? d recipe registry options =
      some (Compilation.ofDevice d recipe registry options)) ∧
    (∀ t entries, (Recipe.Section.split t).mapM (Access.append? · entries) =
      some ((Recipe.Section.split t).map (·.append? entries))) ∧
    (∀ items n, Access.writeList? items n = some (Node.renderList items n)) ∧
    (∀ code, Access.unquoteCode? code = some (Node.unquoteCode code)) ∧
    ∀ (registry : Registry) (kind : WidgetKind),
      registry.schemas[kind.ctorIdx]? = some (registry.schema kind) :=
  ⟨Access.compile?_eq,
    fun _ entries => Access.mapM_eq fun _ hs =>
      Access.append?_eq (Access.opens_of_mem_split hs) entries,
    Access.writeList?_eq, Access.unquoteCode?_eq, Access.getElem?_schemas⟩

end TouchPanel
