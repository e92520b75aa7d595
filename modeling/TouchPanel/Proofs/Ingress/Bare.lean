import TouchPanel.Proofs.Document.Order
import TouchPanel.Proofs.Ingress.Update
import TouchPanel.Proofs.Widget.Distinct

/-!
# Carriage returns in rendered nodes

A carriage return at the end of a line is taken for a part of the line ending when the line is
read again. No line of an inbound section ends with one: quoted texts end with a quote, blocks
and fragments are trimmed, and expressions end with a semicolon.
-/

namespace TouchPanel

open Text

/-! ## Ends of texts and rows -/

namespace Text

/-- A text that does not end with a carriage return. -/
def IsBare (t : Text) : Prop := ∀ c ∈ t.getLast?, c ≠ '\r'

instance (t : Text) : Decidable (IsBare t) :=
  Option.decidableForallMem t.getLast?

theorem IsBare.bare_eq {t : Text} (h : IsBare t) : bare t = t := by
  refine List.rdropWhile_eq_self_iff.2 fun hne hlast => ?_
  exact h _ (List.getLast?_eq_some_getLast hne) (by simpa using hlast)

theorem isBare_nil : IsBare [] := by simp [IsBare]

theorem EndsClean.isBare {t : Text} (h : EndsClean t) : IsBare t := by
  obtain ⟨a, c, rfl, hc⟩ := h.eq_concat
  intro x hx hreturn
  rw [List.getLast?_append, List.getLast?_singleton, Option.mem_def, Option.some_or] at hx
  obtain rfl := Option.some.inj hx
  rw [hreturn] at hc
  cases hc

theorem IsBare.append {t : Text} (h : IsBare t) (hne : t ≠ []) (a : Text) : IsBare (a ++ t) := by
  intro c hc
  refine h c ?_
  rw [Option.mem_def] at hc ⊢
  rw [List.getLast?_append, List.getLast?_eq_some_getLast hne, Option.some_or] at hc
  rw [List.getLast?_eq_some_getLast hne, hc]

theorem IsBare.cons {t : Text} (h : IsBare t) {c : Char} (hc : c ≠ '\r') : IsBare (c :: t) := by
  cases t with
  | nil => simpa [IsBare] using hc
  | cons d t => exact h.append (List.cons_ne_nil d t) [c]

end Text

namespace Row

/-- Rows of which none ends with a carriage return. -/
def AllBare (rows : List Row) : Prop := ∀ r ∈ rows, IsBare r.body

theorem bare_line {r : Row} (h : IsBare r.body) (n : Nat) : bare (line n r) = line n r := by
  unfold line
  split
  · rfl
  · next hne => exact (h.append hne _).bare_eq

end Row

namespace Node

/-! ## Nodes -/

/-- What is written as it is does not end with a carriage return. -/
inductive Bare : Node → Prop
  | str (s : String) : Bare (.str s)
  | ident {s : String} (h : IsBare s.toList) : Bare (.ident s)
  | raw {s : String} (h : IsBare s.toList) : Bare (.raw s)
  | bool (b : Bool) : Bare (.bool b)
  | lambda {code : String} (h : IsBare code.toList) : Bare (.lambda code)
  | fragment (s : String) : Bare (.fragment s)
  | map {entries : Mapping} (h : ∀ e ∈ entries, Bare e.2) : Bare (.map entries)
  | list {items : List Node} (h : ∀ n ∈ items, Bare n) : Bare (.list items)

theorem allBare_fragmentRows (t : Text) : Row.AllBare (fragmentRows t) := by
  intro r hr
  obtain ⟨l, hl, rfl⟩ := List.mem_map.1 hr
  exact (endsClean_trim (by simpa using (List.mem_filter.1 hl).2)).isBare

theorem allBare_blockRows (t : Text) : Row.AllBare (blockRows t) := by
  intro r hr
  obtain ⟨l, -, rfl⟩ := List.mem_map.1 hr
  split
  · exact isBare_nil
  · next hl => exact (endsClean_trimEnd (by simpa using hl)).isBare

theorem isBare_blockHeader (a t : Text) : IsBare (a ++ blockHeader t) := by
  unfold blockHeader
  split
  · split <;> exact IsBare.append (by decide) (by decide) a
  · exact IsBare.append (by decide) (by decide) a

variable {node : Node}

theorem Bare.inline (h : Bare node) : ∀ scalar ∈ node.inline?, IsBare scalar := by
  intro scalar hscalar
  cases inline_of_mem hscalar with
  | str s => exact (endsClean_quote _).isBare
  | ident s =>
    cases h with
    | ident h => exact h
  | raw s =>
    cases h with
    | raw h => exact h
  | int n | float x => cases h
  | bool b => cases b <;> decide
  | @lambda code short =>
    cases h with
    | lambda h =>
      cases hcode : code.toList with
      | nil => decide
      | cons c r => exact (hcode ▸ h).append (List.cons_ne_nil c r) _
  | noEntries | noItems => decide

theorem isRowwise_bare : IsRowwise Bare (fun _ => True) IsBare where
  scalar h := h.inline
  entry h e he := by
    cases h with
    | map h => exact ⟨trivial, h e he⟩
  item h n hn := by
    cases h with
    | list h => exact h n hn
  value {key t} _ h :=
    ((h.cons (by decide)).cons (by decide)).append (List.cons_ne_nil _ _) key
  opening {key} _ := IsBare.append (by decide) (by decide) key
  dashed h := (h.cons (by decide)).cons (by decide)
  dash := by decide
  header t := ⟨isBare_blockHeader [] t, isBare_blockHeader _ t⟩
  block _ := allBare_blockRows _
  fragment _ := allBare_fragmentRows _

/-- The rows of a node, as an entry and as an item. -/
theorem Bare.rows (h : Bare node) :
    (∀ key, Row.AllBare (entryRows key node)) ∧ Row.AllBare (itemRows node) := by
  obtain ⟨hentry, hitem⟩ := isRowwise_bare.rows node h
  exact ⟨fun key => hentry key trivial, hitem⟩

theorem bare_entryLines {items : List Node} (h : ∀ node ∈ items, Bare node) (n : Nat) :
    ∀ l ∈ entryLines items n, bare l = l := by
  intro l hl
  obtain ⟨r, hr, rfl⟩ := List.mem_map.1 hl
  rw [listRows_eq_flatMap] at hr
  obtain ⟨node, hnode, hrow⟩ := List.mem_flatMap.1 hr
  exact Row.bare_line ((h node hnode).rows.2 r hrow) n

theorem Bare.single {key : String} {node : Node} (h : Bare node) : Bare (.single key node) :=
  .map (List.forall_mem_singleton.2 h)

/-- An expression with its semicolon. -/
theorem bare_code (code : String) : Bare (.lambda (code ++ ";")) :=
  .lambda (endsClean_append code ⟨';', rfl, rfl⟩).isBare

end Node

open Node

/-! ## Updates of widgets -/

namespace LinkUpdate

theorem bare_formatted (format argument : String) : Bare (formatted format argument) := by
  refine .map ?_
  simp only [List.forall_mem_cons, List.not_mem_nil, false_imp_iff, implies_true, and_true]
  exact ⟨.str _, .list (by simpa using Bare.str argument)⟩

theorem bare_text (source : DataKind) (t : LinkTarget) : Bare (text source t) := by
  unfold text
  split
  · exact bare_formatted _ _
  · exact bare_formatted _ _
  · exact bare_code "return x"
  · exact bare_code "return x"
  · exact bare_formatted _ _
  · exact bare_formatted _ _
  · exact bare_code "return x ? \"ON\" : \"OFF\""

theorem Carries.bare {link : Link} {action : LinkAction} {i : Nat} {e : String × Node}
    (h : Carries link i action e) : Bare e.2 := by
  cases h with
  | checked => exact .single (bare_code _)
  | value | selectedIndex => exact bare_code _
  | labelText => exact bare_text _ _
  | hidden => exact .lambda (endsClean_append _ ⟨';', rfl, rfl⟩).isBare

theorem bare_node {link : Link} {action : LinkAction} {target : IndexedWidget} {i : Nat}
    {update : Node} (hid : IsBare target.outId.toList)
    (h : node link action target i = .ok update) : Bare update := by
  rcases node_cases h with ⟨text, -, rfl⟩ | ⟨-, kind, e, hcarries, rfl⟩
  · exact .fragment text
  · refine .single (.map ?_)
    simp only [List.forall_mem_cons, List.not_mem_nil, false_imp_iff, implies_true, and_true]
    exact ⟨.ident hid, hcarries.bare⟩

end LinkUpdate

theorem Lock.bare_guarded (lock : String) {update : Node} (h : Bare update) :
    Bare (guarded lock [update]) := by
  refine .single (.map ?_)
  simp only [List.forall_mem_cons, List.not_mem_nil, false_imp_iff, implies_true, and_true]
  refine ⟨.single (.raw ?_), .list (List.forall_mem_singleton.2 h)⟩
  exact (endsClean_append _ ⟨';', rfl, rfl⟩).isBare

/-! ## Inbound sections -/

/-- A string in which no character is blank. -/
def IsSolid (s : String) : Prop := ∀ c ∈ s.toList, isBlank c = false

instance (s : String) : Decidable (IsSolid s) :=
  List.decidableBAll (fun c => isBlank c = false) s.toList

theorem IsSolid.isBare {s : String} (h : IsSolid s) : IsBare s.toList := by
  intro c hc hreturn
  have hblank := h c (List.mem_of_getLast? hc)
  rw [hreturn] at hblank
  cases hblank

theorem IsSolid.append {a b : String} (ha : IsSolid a) (hb : IsSolid b) : IsSolid (a ++ b) := by
  unfold IsSolid
  rw [String.toList_append]
  exact List.forall_mem_append.2 ⟨ha, hb⟩

theorem Identifier.IsPlain.isSolid {s : String} (h : IsPlain s) : IsSolid s := fun c hc =>
  isBlank_of_isPlainChar (h c hc)

theorem isSolid_plain (raw : String) : IsSolid (Identifier.plain raw) :=
  (Identifier.isPlain_plain raw).isSolid

theorem isSolid_emitted {policy : Identifier.Policy} (h : IsSolid policy.replacement)
    (raw : String) : IsSolid (policy.emitted raw) := by
  rcases Identifier.emitted_eq_or_isPlain policy raw with heq | hplain
  · exact heq ▸ h
  · exact hplain.isSolid

theorem isSolid_of_valid {options : Options} (h : options.fault? = none) :
    IsSolid options.reservedIdReplacement := by
  rw [← Document.plain_of_valid h]
  exact isSolid_plain _

theorem Declarations.bare_entry {key : SourceKey} {updates : List Node} (hkey : key.IsWritable)
    (h : ∀ u ∈ updates, Bare u) : Bare (entry key updates) := by
  refine .map fun f hf => ?_
  cases field_of_mem key updates rfl f hf with
  | platform => exact .ident (by decide)
  | id => exact .ident key.isPlain_id.isSolid.isBare
  | entityId => exact .ident hkey.entity_clean.isBare
  | attrWord plain => exact .ident (plain ▸ isSolid_plain key.attr).isBare
  | attrText => exact .str _
  | initial => exact .bool true
  | trigger => exact .single (.list h)

namespace Fragments

/-- Nothing in an inbound section ends a line with a carriage return. -/
theorem bare_sensors (p : Project) (registry : Registry) {options : Options}
    (hvalid : options.fault? = none) :
    ∀ s ∈ (ofProject p registry options).1.sensors, ∀ node ∈ s.2, Bare node := by
  have hpolicy : IsSolid options.idPolicy.replacement := isSolid_of_valid hvalid
  have hscripts : (scriptsOf p registry options).declarations.IsWritable :=
    isWritable_scriptsOf p registry (Document.isLineText_of_valid hvalid)
  rw [ofProject_eq]
  intro s hs node hnode
  obtain ⟨e, he, rfl⟩ := Declarations.exists_of_mem_sections hs hnode
  refine Declarations.bare_entry (hscripts e he).1 fun u hu => ?_
  obtain ⟨link, i, target, a, -, -, hattaches, rfl⟩ := exists_attached p registry options he hu
  refine Lock.bare_guarded _ (LinkUpdate.bare_node ?_ hattaches.update)
  rw [WidgetIndex.outId_of_get? _ hattaches.fits.target_found]
  exact (isSolid_emitted hpolicy _).isBare

end Fragments

end TouchPanel
