import TouchPanel.Proofs.Document.Join
import TouchPanel.Proofs.Document.Merge

/-!
# Parts of a document

A document consists of the sections of the filled recipe in a fixed order, some of them
changed or made up, and of the generated sections that follow.
-/

namespace TouchPanel.Document

open Text Recipe

/-! ## Sections of a recipe -/

/-- A section of a text: it begins with the line of its key, or it has none. -/
structure IsPart (s : Section) : Prop where
  free : ∀ l ∈ s.lines, '\n' ∉ l
  keyed : ∀ key, s.key = some key → ∃ l r, s.IsKeyed key l r
  keyless : s.key = none → ∀ l ∈ s.lines, isInner l = true

variable {s : Section} {t key l : Text} {r : List Text}

theorem isPart_of_mem_split (h : s ∈ Section.split t) : IsPart s := by
  have hfree : ∀ l ∈ lines t, '\n' ∉ l := fun l => newline_not_mem_of_mem_lines
  rw [Section.split, ofLines_eq] at h
  rcases List.mem_append.1 h with h | h
  · split at h
    · cases h
    · rw [List.mem_singleton.1 h]
      exact ⟨fun l hl => hfree l ((List.takeWhile_prefix _).subset hl), by simp,
        fun _ l hl => isInner_of_mem_leadOf hl⟩
  · obtain ⟨key, l, r, hs⟩ := isKeyed_of_mem_keyedOf h
    refine ⟨fun l hl => hfree l (lines_subset_of_mem_keyedOf h hl), fun key' hkey => ?_,
      fun hnone => ?_⟩
    · obtain rfl : key = key' := Option.some.inj (hs.key_eq.symm.trans hkey)
      exact ⟨l, r, hs⟩
    · rw [hs.key_eq] at hnone
      cases hnone

/-- The entries of a generated section open none. -/
theorem isBody_lines_renderList {items : List Node} (h : ∀ node ∈ items, node.IsEntry) (n : Nat) :
    ∀ x ∈ lines (Node.renderList items n), IsBody x := by
  intro x hx
  refine ⟨?_, newline_not_mem_of_mem_lines hx⟩
  have hmem : bare x ∈ (Node.entryLines items n).map bare := by
    rw [← map_bare_lines_unlines (Node.newline_not_mem_entryLines h),
      ← Node.renderList_eq_unlines]
    exact List.mem_map_of_mem hx
  obtain ⟨y, hy, hxy⟩ := List.mem_map.1 hmem
  rw [isInner, ← topLevelKey?_bare, ← hxy, topLevelKey?_bare]
  exact Node.isInner_entryLines h y hy

theorem IsPart.append? {s' : Section} {name : Text} {entries : List Node} (hs : IsPart s)
    (hname : s.key = some name) (hentries : ∀ node ∈ entries, node.IsEntry)
    (h : s.append? entries = some s') : IsPart s' := by
  obtain ⟨l, r, hkeyed⟩ := hs.keyed name hname
  have hbody := isBody_lines_renderList hentries
  obtain ⟨l', r', hkeyed'⟩ := hkeyed.append? h fun n x hx => (hbody n x hx).1
  obtain ⟨n, head, body, tail, -, hr, hhead, rfl⟩ := hkeyed.append?_lines h
  have hfree := hs.free
  rw [hkeyed.lines_eq, hr] at hfree
  obtain ⟨hl, hrest⟩ := List.forall_mem_cons.1 hfree
  refine ⟨List.forall_mem_cons.2 ⟨?_, ?_⟩, fun key hkey => ?_, fun hnone => ?_⟩
  · rcases hhead with rfl | ⟨-, rfl⟩
    · exact hl
    · exact newline_not_mem_key_colon (topLevelKey?_spec hkeyed.head).1
  · rw [List.forall_mem_append] at hrest ⊢
    exact ⟨hrest.1, List.forall_mem_append.2 ⟨fun x hx => (hbody n x hx).2, hrest.2⟩⟩
  · obtain rfl : name = key := Option.some.inj (hkeyed'.key_eq.symm.trans hkey)
    exact ⟨l', r', hkeyed'⟩
  · rw [hkeyed'.key_eq] at hnone
    cases hnone

/-! ## Texts that hold no section -/

/-- The keys of joined lines are keys of the lines. -/
theorem topLevelKey?_of_mem_splitOn {ls : List Text} (hfree : ∀ l ∈ ls, '\n' ∉ l) {l : Text}
    (hl : l ∈ (trimEnd (joinLines ls)).splitOn '\n') :
    l = [] ∨ ∃ y ∈ ls, topLevelKey? l = topLevelKey? y := by
  rw [trimEnd_joinLines] at hl
  by_cases hnil : tidyEnd ls = []
  · rw [hnil] at hl
    exact Or.inl (List.mem_singleton.1 hl)
  · rw [splitOn_joinLines (newline_not_mem_tidyEnd hfree) hnil] at hl
    obtain ⟨y, hy, rfl | rfl⟩ := mem_tidyEnd hl
    · exact Or.inr ⟨l, hy, rfl⟩
    · exact Or.inr ⟨y, hy, topLevelKey?_trimEnd y⟩

theorem isInner_splitOn_of_joinLines {ls : List Text} (hfree : ∀ l ∈ ls, '\n' ∉ l)
    (hinner : ∀ l ∈ ls, isInner l = true) :
    ∀ l ∈ (trimEnd (joinLines ls)).splitOn '\n', isInner l = true := by
  intro l hl
  rcases topLevelKey?_of_mem_splitOn hfree hl with rfl | ⟨y, hy, hkey⟩
  · rfl
  · rw [isInner, hkey]
    exact hinner y hy

theorem isInner_header {d : Device} (h : IsLineText d.deviceId ∧ IsLineText d.slug) :
    ∀ l ∈ (trimEnd (header d)).splitOn '\n', isInner l = true := by
  refine isInner_splitOn_of_joinLines ?_ ?_
  · simp only [List.forall_mem_cons, List.not_mem_nil, false_imp_iff, implies_true, and_true]
    exact ⟨by decide, IsLineText.append (by decide : IsLineText "# device_id: ") h.1,
      IsLineText.append (by decide : IsLineText "# slug: ") h.2⟩
  · simp only [List.forall_mem_cons, List.not_mem_nil, false_imp_iff, implies_true, and_true]
    have hcomment : ∀ a b : String, a.toList.head? = some '#' → isInner (a ++ b).toList = true := by
      intro a b ha
      refine isInner_iff.2 (topLevelKey?_of_head fun c hc => ?_)
      rw [String.toList_append, List.head?_append, ha] at hc
      obtain rfl := Option.some.inj hc
      rfl
    exact ⟨by decide, hcomment _ _ rfl, hcomment _ _ rfl⟩

theorem isInner_preamble (h : IsPart s) (hkey : s.key = none) :
    ∀ l ∈ (trimEnd (preamble s)).splitOn '\n', isInner l = true := by
  have hinner : ∀ l ∈ lines s.text, isInner l = true := by
    intro l hl
    have hfree : ∀ x ∈ s.lines.rdropWhile allBlank, '\n' ∉ x := fun x hx =>
      h.free x ((List.rdropWhile_prefix _ _).subset hx)
    have hmem : bare l ∈ (s.lines.rdropWhile allBlank).map bare :=
      (bareLines_joinLines_isPrefix hfree).subset (List.mem_map_of_mem hl)
    obtain ⟨x, hx, heq⟩ := List.mem_map.1 hmem
    rw [isInner, ← topLevelKey?_bare, ← heq, topLevelKey?_bare]
    exact h.keyless hkey x ((List.rdropWhile_prefix _ _).subset hx)
  refine isInner_splitOn_of_joinLines (fun l hl => ?_) fun l hl => ?_
  · exact newline_not_mem_of_mem_lines (List.mem_of_mem_filter hl)
  · exact hinner l (List.mem_of_mem_filter hl)

/-! ## Sections taken out -/

theorem filter_eraseP_of_imp {α : Type} {p q : α → Bool} (h : ∀ x, p x = true → q x = true)
    (l : List α) : (l.eraseP p).filter q = (l.filter q).eraseP p := by
  induction l with
  | nil => rfl
  | cons x l ih =>
    by_cases hp : p x = true
    · rw [List.eraseP_cons_of_pos hp, List.filter_cons_of_pos (h x hp), List.eraseP_cons_of_pos hp]
    · rw [List.eraseP_cons_of_neg hp]
      by_cases hq : q x = true
      · rw [List.filter_cons_of_pos hq, List.filter_cons_of_pos hq, List.eraseP_cons_of_neg hp, ih]
      · rw [List.filter_cons_of_neg hq, List.filter_cons_of_neg hq, ih]

theorem filter_eraseP_of_disjoint {α : Type} {p q : α → Bool}
    (h : ∀ x, p x = true → q x = false) (l : List α) : (l.eraseP p).filter q = l.filter q := by
  induction l with
  | nil => rfl
  | cons x l ih =>
    by_cases hp : p x = true
    · rw [List.eraseP_cons_of_pos hp, List.filter_cons_of_neg (by simp [h x hp])]
    · rw [List.eraseP_cons_of_neg hp, List.filter_cons, List.filter_cons, ih]

theorem named_takeSection_self (name : String) (ss : List Section) :
    named name.toList (takeSection name ss).2 = (named name.toList ss).tail := by
  have hfilter := filter_eraseP_of_imp (p := fun s : Section => s.key == some name.toList)
    (fun _ h => h) ss
  refine hfilter.trans ?_
  change (named name.toList ss).eraseP _ = _
  cases hnamed : named name.toList ss with
  | nil => rfl
  | cons s r =>
    have hs : s ∈ named name.toList ss := hnamed ▸ List.mem_cons_self
    exact List.eraseP_cons_of_pos (by simpa using (mem_named.1 hs).2)

theorem named_takeSection_of_ne {name : String} {key : Text} (h : key ≠ name.toList)
    (ss : List Section) : named key (takeSection name ss).2 = named key ss := by
  refine filter_eraseP_of_disjoint (fun s hs => ?_) ss
  rw [beq_iff_eq] at hs
  rw [hs]
  simpa using Ne.symm h

theorem takeSection_fst (name : String) (ss : List Section) :
    (takeSection name ss).1 = (named name.toList ss).head? := List.head?_filter.symm

theorem key_of_mem_takeSection {name : String} {ss : List Section}
    (h : s ∈ (takeSection name ss).1) : s.key = some name.toList := by
  have hkey := List.find?_some h
  exact beq_iff_eq.1 hkey

/-- The sections that no place of their own is reserved for. -/
def others (ss : List Section) : List Section :=
  ["esphome", "api", "wifi", "ota"].foldl (fun ss name => (takeSection name ss).2) ss

/-- The sections of the network: those of the recipe, or else default ones. -/
def networkTexts (options : Options) (default : Text) : Option Section → List Text
  | some s => [s.text]
  | none => if options.defaultNetwork then [default] else []

def networkParts (options : Options) (default : Section) : Option Section → List Section
  | some s => [s]
  | none => if options.defaultNetwork then [default] else []

theorem fst_takeSection_of_ne {name other : String} (hne : name ≠ other) (ss : List Section) :
    (takeSection name (takeSection other ss).2).1 = (takeSection name ss).1 := by
  rw [takeSection_fst, takeSection_fst,
    named_takeSection_of_ne fun heq => hne (String.toList_inj.1 heq)]

theorem sectionTexts_eq (d : Device) (options : Options) (recipe : Text) (ss : List Section)
    (added : List (String × List Node)) :
    sectionTexts d options recipe ss added =
      ((if options.headerComment then [header d] else []) ++
        ((others ss).filter (·.key.isNone)).map preamble) ++
      (esphomeSection d.nodeName.toList recipe (takeSection "esphome" ss).1 ::
        apiSection (d.key?.map String.toList) (takeSection "api" ss).1 ::
        (networkTexts options defaultWifi (takeSection "wifi" ss).1 ++
        (networkTexts options defaultOta (takeSection "ota" ss).1 ++
        (((others ss).filter (·.key.isSome)).map Section.text ++ added.map sectionText)))) := by
  have hapi : (takeSection "api" (takeSection "esphome" ss).2).1 = (takeSection "api" ss).1 :=
    fst_takeSection_of_ne (by decide) ss
  have hwifi : (takeSection "wifi" (takeSection "api" (takeSection "esphome" ss).2).2).1 =
      (takeSection "wifi" ss).1 := by
    rw [fst_takeSection_of_ne (by decide), fst_takeSection_of_ne (by decide)]
  have hota : (takeSection "ota"
      (takeSection "wifi" (takeSection "api" (takeSection "esphome" ss).2).2).2).1 =
      (takeSection "ota" ss).1 := by
    rw [fst_takeSection_of_ne (by decide), fst_takeSection_of_ne (by decide),
      fst_takeSection_of_ne (by decide)]
  rw [← hapi, ← hwifi, ← hota]
  simp only [sectionTexts, others, List.foldl_cons, List.foldl_nil, List.append_assoc,
    List.cons_append, List.nil_append]
  rfl

/-! ## The parts in their order -/

/-- The sections that a document has in any case, and the ones it has by default. -/
structure FixedParts where
  esphome : Section
  esphome_key : esphome.key = some "esphome".toList
  api : Section
  api_key : api.key = some "api".toList
  wifi : Section
  wifi_key : wifi.key = some "wifi".toList
  ota : Section
  ota_key : ota.key = some "ota".toList

def generated (s : String × List Node) : Section := ⟨some s.1.toList, sectionLines s⟩

def FixedParts.parts (fixed : FixedParts) (options : Options) (ss : List Section)
    (added : List (String × List Node)) : List Section :=
  fixed.esphome :: fixed.api ::
    (networkParts options fixed.wifi (takeSection "wifi" ss).1 ++
    (networkParts options fixed.ota (takeSection "ota" ss).1 ++
    ((others ss).filter (·.key.isSome) ++ added.map generated)))

theorem IsPart.writes (h : IsPart s) (hkey : s.key.isSome = true) : Writes s.text s := by
  obtain ⟨key, hkey⟩ := Option.isSome_iff_exists.1 hkey
  obtain ⟨l, r, hs⟩ := h.keyed key hkey
  exact writes_text hs h.free

theorem mem_of_mem_others {ss : List Section} (h : s ∈ others ss) : s ∈ ss := by
  have hsub : ∀ name (ss : List Section), (takeSection name ss).2 ⊆ ss := fun _ _ =>
    List.eraseP_sublist.subset
  exact hsub _ _ (hsub _ _ (hsub _ _ (hsub _ _ h)))

end TouchPanel.Document
