import TouchPanel.Proofs.Egress.Handler
import TouchPanel.Proofs.Fragments
import TouchPanel.Proofs.Output.Undivided
import TouchPanel.Proofs.Widget.Asset
import TouchPanel.Proofs.Widget.Built
import TouchPanel.Proofs.Widget.Distinct

/-!
# Pages without a line that begins or ends a document

A page has such a line only if a string of the project has one, by itself or as the expression that
it stands for: ids are made plain, and numbers and colours stand on one line.
-/

namespace TouchPanel

open Text Recipe Node

/-! ## Strings -/

/-- The expression that a string stands for. -/
def Node.codeOf? (s : String) : Option Text :=
  (after? lambdaTag (trim s.toList)).map fun code => unquoteCode (trim code)

/-- A string without a line that begins or ends a document, by itself or as an expression. -/
structure IsWhole (s : String) : Prop where
  text : IsUndivided s.toList
  code : ∀ code ∈ codeOf? s, IsUndivided code

instance (s : String) : Decidable (IsWhole s) :=
  decidable_of_iff (IsUndivided s.toList ∧ ∀ code ∈ codeOf? s, IsUndivided code)
    ⟨fun h => ⟨h.1, h.2⟩, fun h => ⟨h.text, h.code⟩⟩

/-- A string without a line that begins or ends a document. -/
abbrev IsUndividedString (s : String) : Prop := IsUndivided s.toList

theorem isUndivided_trimmed {s : String} (h : IsUndividedString s) :
    IsUndividedString (trimmed s) := by
  unfold IsUndividedString trimmed
  rw [String.toList_ofList]
  exact isUndivided_trim.2 h

/-- Around an expression stands more of a line that has an ordinary character. -/
theorem Text.IsOrdinaryLine.around {a b l : Text} (h : IsOrdinaryLine l) (ha : '\n' ∉ a)
    (hb : '\n' ∉ b) : IsOrdinaryLine (a ++ l ++ b) := by
  obtain ⟨hl, c, hmem, hc⟩ := h
  exact ⟨by simp [ha, hl, hb], c, by simp [hmem], hc⟩

/-! ## Ids -/

theorem isOrdinary_of_isPlainChar {c : Char} (h : Identifier.isPlainChar c = true) :
    isOrdinary c = true := by
  have hblank : isBlank c = false := Identifier.isBlank_of_isPlainChar h
  have hhyphen : c ≠ '-' := by
    rintro rfl
    cases h
  have hdot : c ≠ '.' := by
    rintro rfl
    cases h
  simp [isOrdinary, hblank, hhyphen, hdot]

theorem Identifier.IsPlain.isUndivided {s : String} (h : Identifier.IsPlain s) :
    IsUndividedString s :=
  isUndivided_of_ordinary fun c hc => isOrdinary_of_isPlainChar (h c hc)

theorem isUndivided_emitted {policy : Identifier.Policy} (h : IsUndividedString policy.replacement)
    (raw : String) : IsUndividedString (policy.emitted raw) := by
  rcases Identifier.emitted_eq_or_isPlain policy raw with heq | hplain
  · exact heq ▸ h
  · exact hplain.isUndivided

namespace Asset

theorem isOrdinaryLine_imageId (file : String) : IsOrdinaryLine (imageId file).toList :=
  ⟨(AssetTable.imageId_spec file).1, 'a', by simp [imageId], by decide⟩

theorem isOrdinaryLine_fontId (key : FontKey) (n : Nat) : IsOrdinaryLine (fontId key n).toList :=
  ⟨AssetTable.isLineText_fontId key n, 'f', by simp [fontId, toString], by decide⟩

end Asset

namespace AssetTable

/-- The files that a table declares. -/
def files (t : AssetTable) : List String := t.images.values ++ t.fonts.keys.map (·.file)

theorem isOrdinaryLine_of_fonts {p : Project} {key : FontKey} {id : String}
    (h : (ofProject p).fonts.get? key = some id) : IsOrdinaryLine id.toList := by
  obtain ⟨n, -, rfl⟩ := exists_fontId h
  exact Asset.isOrdinaryLine_fontId _ _

theorem isOrdinaryLine_of_idOf? {p : Project} {ref id : String}
    (h : (ofProject p).idOf? ref = some id) : IsOrdinaryLine id.toList := by
  have hmem := Table.mem_of_mem_ofList (Table.get?_eq_some_iff.1 h)
  rcases List.mem_append.1 hmem with himage | hfont
  · obtain ⟨file, -, rfl⟩ := mem_imageIds.1 himage
    exact Asset.isOrdinaryLine_imageId file
  · obtain ⟨key, -, hid⟩ := mem_fontIds.1 hfont
    exact isOrdinaryLine_of_fonts hid

end AssetTable

/-! ## Values -/

theorem undivided_ofText? {s : String} (hs : IsWhole s) {node : Node}
    (h : ofText? s = some node) : Undivided node := by
  unfold ofText? at h
  split at h
  · cases h
  · split at h
    · next code hcode =>
      cases h
      refine .lambda ?_
      rw [String.toList_ofList]
      exact hs.code _ (Option.map_eq_some_iff.2 ⟨code, hcode, rfl⟩)
    · cases h
      split
      · exact .text hs.text
      · exact .str hs.text

theorem builds_undivided : Builds IsWhole IsUndividedString Undivided where
  map h := .map (fun e he => (h e he).1) fun e he => (h e he).2
  list := .list
  bool := .bool
  int := .int
  float := .float
  text hs h := undivided_ofText? hs h
  field h := h.text

theorem newline_not_mem_hexColor? {t digits : Text} (h : hexColor? t = some digits) :
    '\n' ∉ digits.map Char.toUpper := by
  unfold hexColor? at h
  obtain ⟨hdigits, heq⟩ := Option.ite_none_right_eq_some.1 h
  rw [Option.some.inj heq] at hdigits
  rw [Bool.and_eq_true, List.all_eq_true] at hdigits
  rw [List.mem_map]
  rintro ⟨c, hc, hupper⟩
  have hnewline : c = '\n' := by
    unfold Char.toUpper at hupper
    split at hupper
    · next hlower =>
      have hval : c.val = '\n'.val - ('A'.val - 'a'.val) := by
        rw [← congrArg Char.val hupper, UInt32.add_sub_cancel]
      rw [hval] at hlower
      exact absurd hlower (by decide)
    · exact hupper
  have hhex := hdigits.2 c hc
  rw [hnewline] at hhex
  cases hhex

theorem undivided_colorNode {s : String} (h : IsUndividedString s) : Undivided (colorNode s) := by
  unfold colorNode
  split
  · next digits hdigits =>
    refine .ident (IsOrdinaryLine.isUndivided ?_)
    rw [String.toList_ofList]
    exact ⟨by simpa using newline_not_mem_hexColor? hdigits, 'x', by simp, by decide⟩
  · exact .str (isUndivided_trimmed h)

/-! ## Event handlers -/

namespace Lock

variable {lock widgetId : String}

theorem isUndivided_name (entity : String) (h : IsUndividedString widgetId) :
    IsUndividedString (name entity widgetId) := by
  have hslug : IsLineText ("etd_lock_" ++ Identifier.slug entity) :=
    (by decide : IsLineText "etd_lock_").append (Identifier.isLineText_slug entity)
  have hfront : IsOrdinaryLine ("etd_lock_" ++ Identifier.slug entity).toList :=
    ⟨hslug, 'e', by simp, by decide⟩
  have hname := hfront.isUndivided.append_cons (c := '_') (by decide)
    (isUndivided_nil.append_cons (c := '_') (by decide) h)
  simpa [IsUndividedString, name] using hname

/-- A statement that names a lock between two parentheses. -/
theorem isUndivided_named (front : Text) {back : Text} (hfront : IsUndivided front)
    (hback : IsUndivided back) (h : IsUndividedString lock) :
    IsUndivided (front ++ '(' :: (lock.toList ++ ')' :: back)) :=
  hfront.append_cons (by decide) (h.append_cons (by decide) hback)

theorem undivided_writer (window : Nat) (h : IsUndividedString lock) :
    Undivided (writer window lock) := by
  have hline : IsLineText (" = millis() + " ++ window.repr ++ ";") :=
    ((by decide : IsLineText " = millis() + ").append (isLineText_repr window)).append (by decide)
  have hback : IsOrdinaryLine (" = millis() + " ++ window.repr ++ ";").toList :=
    ⟨hline, 'm', by simp, by decide⟩
  refine builds_undivided.single (by decide) (.raw ?_)
  have hcode := isUndivided_named "id".toList (by decide) hback.isUndivided h
  simpa [toString] using hcode

end Lock

namespace ServiceCall

/-- The service to which a call is made, as it is written. -/
def serviceName (c : ServiceCall) : String := trimmed c.domain ++ "." ++ trimmed c.service

variable {c : ServiceCall}

theorem undivided_payload {v : Json.Value} (hv : ∀ s ∈ v.strings, IsWhole s) {node : Node}
    (h : payloadNode? v = some node) : Undivided node := by
  unfold payloadNode? at h
  split at h
  · next s =>
    have hs : IsWhole s := hv s List.mem_cons_self
    split at h
    · exact undivided_ofText? hs h
    · cases h
      exact .str hs.text
  · exact builds_undivided.value hv h

theorem undivided_callNode (hname : IsUndividedString c.serviceName)
    (hc : ∀ s ∈ c.strings, IsWhole s) : Undivided c.callNode := by
  simp only [strings, List.forall_mem_append, List.forall_mem_cons] at hc
  obtain ⟨⟨-, -, hentity⟩, hdata⟩ := hc
  have hfields : ∀ drop : String → Bool, Mapping.Each IsUndividedString Undivided
      (c.data.entries.filterMap fun e =>
        if drop e.1 then none else (payloadNode? e.2).map fun n => (e.1, n)) := by
    intro drop e he
    obtain ⟨⟨k, v⟩, hmem, hv⟩ := List.mem_filterMap.1 he
    obtain ⟨-, hv⟩ := Option.ite_none_left_eq_some.1 hv
    obtain ⟨node, hnode, rfl⟩ := Option.map_eq_some_iff.1 hv
    have hsub := Json.Value.strings_subset_fieldStrings hmem
    exact ⟨(hdata k (hsub List.mem_cons_self)).text,
      undivided_payload (fun s hs => hdata s (hsub (List.mem_cons_of_mem _ hs))) hnode⟩
  have hnodes : c.dataNode.Each IsUndividedString Undivided := by
    have hrest := hfields fun k => c.entity?.isSome && k = "entity_id"
    unfold dataNode
    dsimp only
    split
    · next entity hsome =>
      obtain ⟨raw, hraw, rfl⟩ := Option.map_eq_some_iff.1 (Option.filter_eq_some_iff.1 hsome).1
      refine Mapping.Each.cons (by decide) (.str (isUndivided_trimmed ?_)) hrest
      exact (hentity raw (Option.mem_toList.2 hraw)).text
    · exact hrest
  refine builds_undivided.single (by decide) (builds_undivided.map ?_)
  exact .cons (by decide) (.ident hname)
    (.cons (by decide) (builds_undivided.map hnodes) Mapping.each_nil)

end ServiceCall

namespace Handler

variable {options : Options} {b : ActionBinding} {h : Handler}

theorem undivided_delay (options : Options) : ∀ node ∈ delay options, Undivided node := by
  intro node hnode
  unfold delay at hnode
  split at hnode
  · obtain rfl := List.mem_singleton.1 hnode
    have hline : IsLineText (options.outboundDelay.repr ++ "ms") :=
      (isLineText_repr _).append (by decide)
    have htime : IsOrdinaryLine (options.outboundDelay.repr ++ "ms").toList :=
      ⟨hline, 'm', by simp, by decide⟩
    exact builds_undivided.single (by decide) (.ident htime.isUndivided)
  · cases hnode

theorem IsMade.undivided (made : h.IsMade options b) (hb : ∀ s ∈ b.strings, IsWhole s)
    (hcall : ∀ call ∈ b.call, IsUndividedString call.serviceName)
    (hid : IsUndividedString h.widgetId) : Undivided h.node := by
  simp only [ActionBinding.strings, List.forall_mem_append, List.forall_mem_cons,
    List.forall_mem_flatMap] at hb
  obtain ⟨⟨-, -, hstrings⟩, hliteral⟩ := hb
  have hdelay := undivided_delay options
  cases made with
  | @literal text hand node lock =>
    have htext := (Option.filter_eq_some_iff.1 hand).1
    rw [node]
    exact .fragment (hliteral text (Option.mem_toList.2 htext)).text
  | @unlocked call hand made about node lock =>
    have hnode := ServiceCall.undivided_callNode (hcall call made)
      (hstrings call (Option.mem_toList.2 made))
    rw [node]
    exact .list (List.forall_mem_append.2 ⟨hdelay, List.forall_mem_singleton.2 hnode⟩)
  | @locked call entity hand made about node lock =>
    have hnode := ServiceCall.undivided_callNode (hcall call made)
      (hstrings call (Option.mem_toList.2 made))
    have hwriter := Lock.undivided_writer options.lockWindow (Lock.isUndivided_name entity hid)
    rw [node]
    refine .list (List.forall_mem_append.2 ⟨hdelay, ?_⟩)
    exact List.forall_mem_cons.2 ⟨hwriter, List.forall_mem_singleton.2 hnode⟩

end Handler

/-! ## The pages of a project -/

namespace Fragments

variable {p : Project} {registry : Registry} {options : Options}

theorem exists_emitted_widgetId :
    ∀ h ∈ (handlersOf p registry options).list,
      ∃ raw, h.widgetId = options.idPolicy.emitted raw := by
  intro h hh
  obtain ⟨b, i, -, hresolve⟩ := Handlers.exists_resolve h hh
  obtain ⟨target, schema, haimed⟩ := Handler.exists_isAimed_of_resolve hresolve
  rw [haimed.widgetId]
  exact ⟨_, WidgetIndex.outId_of_get? _ haimed.found⟩

/-- What the strings of a project, the ids and the names of the schema are made of has no line that
begins or ends a document. -/
structure AreWhole (p : Project) (registry : Registry) (options : Options) : Prop where
  strings : ∀ s ∈ p.strings, IsWhole s
  calls : ∀ b ∈ p.actionBindings, ∀ call ∈ b.call, IsUndividedString call.serviceName
  files : ∀ file ∈ (AssetTable.ofProject p).files, IsUndividedString (options.assetPath file)
  replacement : IsUndividedString options.reservedIdReplacement
  registry : ∀ s ∈ registry.strings, IsWhole s

namespace AreWhole

theorem isUndivided_outputId (h : AreWhole p registry options) (raw : String) :
    IsUndividedString (options.idPolicy.emitted raw) := by
  have hreplacement : IsUndividedString options.idPolicy.replacement := h.replacement
  exact isUndivided_emitted hreplacement raw

theorem undivided_handlers (h : AreWhole p registry options) :
    ∀ handler ∈ (handlersOf p registry options).list, Undivided handler.node := by
  have hstrings := h.strings
  simp only [Project.strings, List.forall_mem_append] at hstrings
  obtain ⟨⟨⟨⟨-, hbindings⟩, -⟩, -⟩, -⟩ := hstrings
  intro handler hhandler
  obtain ⟨b, hb, hmade⟩ := Handlers.isMade_ofBindings _ _ _ handler hhandler
  obtain ⟨raw, hid⟩ := exists_emitted_widgetId handler hhandler
  have hmem : b ∈ p.actionBindings := List.mem_of_getElem? hb
  refine hmade.undivided (fun s hs => hbindings s (List.mem_flatMap.2 ⟨b, hmem, hs⟩))
    (h.calls b hmem) ?_
  rw [hid]
  exact h.isUndivided_outputId raw

theorem builds_undivided (h : AreWhole p registry options) :
    (contextOf p registry options).Builds IsWhole IsUndividedString Undivided where
  toBuilds := TouchPanel.builds_undivided
  name raw := .ident (Identifier.isPlain_plain raw).isUndivided
  id raw := .ident (h.isUndivided_outputId raw)
  direction hs := .ident hs.text
  color hs := undivided_colorNode hs.text
  asset hs := .ident (AssetTable.isOrdinaryLine_of_idOf? hs).isUndivided
  fragment hs := .fragment hs.text
  handlers := h.undivided_handlers
  keys := by decide
  registry := h.registry

theorem undivided_lvgl (h : AreWhole p registry options) :
    (ofProject p registry options).1.lvgl.Each IsUndividedString Undivided := by
  rw [ofProject_eq]
  exact h.builds_undivided.lvgl h.strings

end AreWhole

end Fragments

end TouchPanel
