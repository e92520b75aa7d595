import TouchPanel.Proofs.Document.Comment
import TouchPanel.Proofs.Document.Order

/-!
# The name in the section of a device

A text without the placeholder of the name gets the name of the device in its section `esphome`, on
a line at the indentation of the other lines. One line is put in the place of another or in front
of them all, unless the first such line has the name already.
-/

namespace TouchPanel.Document

open Text Recipe

variable {name l : Text} {n : Nat} {ls ls' : List Text} {s : Section}

/-! ## Lines with a name -/

/-- A line `name` at the indentation `n`. -/
def isNameAt (n : Nat) (l : Text) : Bool :=
  (valueOf? "name".toList l).isSome && indentOf l == n

/-- A line whose value is the name between any quotes, or quoted with escapes. -/
def ShowsName (name l : Text) : Prop :=
  ∃ value, valueOf? "name".toList l = some value ∧ (value = quote name ∨ unquoted value = name)

/-- Lines, and what they are once the first line `name` at the indentation `n` has the name. -/
inductive IsNamed (name : Text) (n : Nat) : List Text → List Text → Prop
  | kept {a b : List Text} {l value : Text} (first : ∀ x ∈ a, isNameAt n x = false)
      (indent : indentOf l = n) (value_eq : valueOf? "name".toList l = some value)
      (same : unquoted value = name) : IsNamed name n (a ++ l :: b) (a ++ l :: b)
  | replaced {a b : List Text} {l value : Text} (first : ∀ x ∈ a, isNameAt n x = false)
      (indent : indentOf l = n) (value_eq : valueOf? "name".toList l = some value)
      (other : unquoted value ≠ name) :
      IsNamed name n (a ++ l :: b) (a ++ quotedLine n "name".toList name :: b)
  | inserted {ls : List Text} (none : ∀ x ∈ ls, isNameAt n x = false) :
      IsNamed name n ls (quotedLine n "name".toList name :: ls)

theorem indentOf_nameLine (n : Nat) (name : Text) :
    indentOf (quotedLine n "name".toList name) = n := by
  unfold quotedLine
  rw [List.append_assoc, List.append_assoc]
  exact indentOf_spaces_append n (by decide) _

theorem trimStart_nameLine (n : Nat) (name : Text) :
    trimStart (quotedLine n "name".toList name) = "name: ".toList ++ quote name := by
  unfold quotedLine
  rw [List.append_assoc, List.append_assoc]
  exact trimStart_blank_append (allBlank_spaces n) fun c hc => by cases hc; rfl

theorem isContent_nameLine (n : Nat) (name : Text) :
    isContent (quotedLine n "name".toList name) = true :=
  isContent_of_head? (c := 'n') (by rw [trimStart_nameLine]; rfl) (by decide)

theorem valueOf?_nameLine (hn : 0 < n) (name : Text) :
    valueOf? "name".toList (quotedLine n "name".toList name) = some (quote name) := by
  have hlead : (leadingBlanks (quotedLine n "name".toList name)).isEmpty = false := by
    obtain ⟨n, rfl⟩ := Nat.exists_eq_succ_of_ne_zero (Nat.ne_of_gt hn)
    rfl
  have hvalue : trim (' ' :: quote name) = quote name := by
    have hstart : trimStart (' ' :: quote name) = quote name := rfl
    rw [trim, hstart, (Node.endsClean_quote name).trimEnd_eq]
  unfold valueOf?
  rw [hlead, trimStart_nameLine]
  exact congrArg some hvalue

theorem showsName_nameLine (hn : 0 < n) (name : Text) :
    ShowsName name (quotedLine n "name".toList name) :=
  ⟨quote name, valueOf?_nameLine hn name, Or.inl rfl⟩

theorem isContent_of_name {value : Text} (h : valueOf? "name".toList l = some value) :
    isContent l = true := by
  have hsome : (valueOf? ('n' :: "ame".toList) l).isSome = true := Option.isSome_of_eq_some h
  exact isContent_of_valueOf? (by decide) hsome

/-! ## What a change of the name keeps -/

/-- A name stands among the lines, at the indentation that was asked for. -/
theorem IsNamed.exists_showsName (h : IsNamed name n ls ls') (hn : 0 < n) :
    ∃ l ∈ ls', indentOf l = n ∧ ShowsName name l := by
  have hline := showsName_nameLine hn name
  cases h with
  | kept first indent value_eq same =>
    exact ⟨_, by simp, indent, _, value_eq, Or.inr same⟩
  | replaced => exact ⟨_, by simp, indentOf_nameLine n name, hline⟩
  | inserted => exact ⟨_, List.mem_cons_self, indentOf_nameLine n name, hline⟩

/-- The first line of content stays at its indentation. -/
theorem IsNamed.indentOf_find? (h : IsNamed name n ls ls')
    (hfirst : ∀ l ∈ ls.find? isContent, indentOf l = n) :
    (ls'.find? isContent).map indentOf = some n := by
  have hname := isContent_nameLine n name
  cases h with
  | @kept a b l value first indent value_eq same =>
    have hsome : ((a ++ l :: b).find? isContent).isSome = true :=
      List.find?_isSome.2 ⟨l, by simp, isContent_of_name value_eq⟩
    obtain ⟨x, hx⟩ := Option.isSome_iff_exists.1 hsome
    rw [hx, Option.map_some, hfirst x hx]
  | @replaced a b l value first indent value_eq other =>
    rw [List.find?_append] at hfirst ⊢
    cases ha : a.find? isContent with
    | some x =>
      rw [ha, Option.some_or] at hfirst
      rw [Option.some_or, Option.map_some, hfirst x rfl]
    | none =>
      rw [Option.none_or, List.find?_cons_of_pos hname, Option.map_some, indentOf_nameLine]
  | inserted => rw [List.find?_cons_of_pos hname, Option.map_some, indentOf_nameLine]

theorem rdropWhile_append_cons {p : Text → Bool} (hl : p l = false) (a b : List Text) :
    (a ++ l :: b).rdropWhile p = a ++ l :: b.rdropWhile p := by
  have hstop : (l :: a.reverse).dropWhile p = l :: a.reverse :=
    List.dropWhile_cons_of_neg (by simp [hl])
  rw [List.rdropWhile, List.reverse_append, List.reverse_cons, List.append_assoc,
    List.singleton_append, List.dropWhile_append, hstop]
  cases hb : b.reverse.dropWhile p with
  | nil => simp [List.rdropWhile, hb]
  | cons x r => simp [List.rdropWhile, hb]

/-- Blank lines at the end do not count. -/
theorem IsNamed.rdropWhile_allBlank (h : IsNamed name n ls ls') :
    IsNamed name n (ls.rdropWhile allBlank) (ls'.rdropWhile allBlank) := by
  have hline := not_allBlank_of_isContent (isContent_nameLine n name)
  cases h with
  | kept first indent value_eq same =>
    rw [rdropWhile_append_cons (not_allBlank_of_isContent (isContent_of_name value_eq))]
    exact .kept first indent value_eq same
  | replaced first indent value_eq other =>
    rw [rdropWhile_append_cons (not_allBlank_of_isContent (isContent_of_name value_eq)),
      rdropWhile_append_cons hline]
    exact .replaced first indent value_eq other
  | inserted none =>
    rw [← List.nil_append (_ :: ls), rdropWhile_append_cons hline]
    exact .inserted fun x hx => none x ((List.rdropWhile_prefix _ _).subset hx)

/-! ## The section -/

theorem isInfix_unquoted (t : Text) : unquoted t <:+: t :=
  (List.rdropWhile_prefix _ _).isInfix.trans (List.dropWhile_suffix _).isInfix

theorem infix_of_valueOf? {key value : Text} (h : valueOf? key l = some value) :
    unquoted value <:+: l := by
  obtain ⟨r, hsuffix, rfl⟩ := exists_suffix_of_valueOf? h
  have htrim : trim r <:+: r := (trimEnd_isPrefix _).isInfix.trans (List.dropWhile_suffix _).isInfix
  have hline : r <:+: l := ((List.suffix_cons ':' r).trans hsuffix).isInfix
  exact (isInfix_unquoted _).trans (htrim.trans hline)

/-- A line `name` without the placeholder is kept if it has the name, and replaced otherwise. -/
theorem isNamed_nameLine {a b : List Text} (first : ∀ x ∈ a, isNameAt n x = false)
    (hl : isNameAt n l = true) (hplain : occurs deviceNamePlaceholder l = false) :
    IsNamed name n (a ++ l :: b) (a ++ nameLine name l :: b) := by
  obtain ⟨hsome, hindent⟩ := Bool.and_eq_true_iff.1 hl
  obtain ⟨value, hvalue⟩ := Option.isSome_iff_exists.1 hsome
  have hfree : occurs deviceNamePlaceholder (unquoted value) = false := by
    rw [← Bool.not_eq_true, occurs_iff_infix] at hplain ⊢
    exact fun hin => hplain (hin.trans (infix_of_valueOf? hvalue))
  rw [beq_iff_eq] at hindent
  unfold nameLine
  rw [hvalue, Option.getD_some, hindent]
  dsimp only
  rw [hfree, Bool.or_false]
  split
  · next hsame => exact .kept first hindent hvalue (beq_iff_eq.1 hsame)
  · next hother => exact .replaced first hindent hvalue fun hsame => hother (beq_iff_eq.2 hsame)

theorem isNamed_namedLines (name : Text) (s : Section)
    (hplain : ∀ l ∈ s.lines.drop 1, occurs deviceNamePlaceholder l = false) :
    IsNamed name s.childIndent (s.lines.drop 1) (namedLines name false s) := by
  have hnone := isSome_updateFirst? (isNameLine s) (nameLine name) (s.lines.drop 1)
  unfold namedLines
  dsimp only
  cases hupdate : updateFirst? (isNameLine s) (nameLine name) (s.lines.drop 1) with
  | some ls =>
    obtain ⟨a, x, b, hsplit, first, hx, rfl⟩ := exists_of_updateFirst? hupdate
    rw [hsplit] at hplain ⊢
    exact isNamed_nameLine first hx (hplain x (by simp))
  | none =>
    rw [hupdate, Option.isSome_none, Eq.comm, List.any_eq_false] at hnone
    exact .inserted fun x hx => Bool.eq_false_of_not_eq_true (hnone x hx)

/-- The lines below the key of a section, without blank ones at the end. -/
def linesBelow (s : Option Section) : List Text :=
  ((s.map (·.lines.drop 1)).getD []).rdropWhile allBlank

/-- The indentation of the lines of a section, or 2 where there are none. -/
def innerIndent (s : Option Section) : Nat := (s.map Section.childIndent).getD 2

theorem indentOf_find?_linesBelow (s : Option Section) :
    ∀ l ∈ (linesBelow s).find? isContent, indentOf l = innerIndent s := by
  intro l hl
  cases s with
  | none => cases hl
  | some s =>
    have hsplit : s.lines.drop 1 =
        linesBelow (some s) ++ (s.lines.drop 1).rtakeWhile allBlank :=
      List.rdropWhile_append_rtakeWhile.symm
    have hchild : s.firstChild? = some l := by
      rw [Section.firstChild?, hsplit, find?_append_blank (fun _ => isContent_of_allBlank)
        (fun x hx => List.mem_rtakeWhile_imp hx)]
      exact hl
    rw [innerIndent, Option.map_some, Option.getD_some, Section.childIndent, hchild]
    rfl

theorem innerIndent_pos {s : Option Section}
    (h : ∀ x ∈ s, ∀ child ∈ x.firstChild?, 0 < indentOf child) : 0 < innerIndent s := by
  cases s with
  | none => decide
  | some s =>
    rw [innerIndent, Option.map_some, Option.getD_some, Section.childIndent]
    cases hchild : s.firstChild? with
    | none => decide
    | some child => exact h s rfl child hchild

/-- The section `esphome` of a text that does not have the placeholder of the name. -/
theorem exists_lines_named (name : Text) {t : Text} {found : Option Section}
    (hfree : ∀ s ∈ found, ∀ l ∈ s.lines, '\n' ∉ l)
    (hplain : ∀ s ∈ found, ∀ l ∈ s.lines, occurs deviceNamePlaceholder l = false)
    (ht : occurs deviceNamePlaceholder t = false) :
    ∃ ls, esphomeSection name t found = joinLines ("esphome:".toList :: ls) ∧
      (∀ l ∈ ls, '\n' ∉ l) ∧ IsNamed name (innerIndent found) (linesBelow found) ls := by
  cases found with
  | none =>
    refine ⟨_, rfl, ?_, .inserted (by simp [linesBelow])⟩
    exact List.forall_mem_singleton.2 (newline_not_mem_quotedLine 2 (by decide) name)
  | some s =>
    have hnamed := isNamed_namedLines name s fun l hl => hplain s rfl l (List.mem_of_mem_drop hl)
    have hlines := newline_not_mem_namedLines (hfree s rfl) name false
    refine ⟨(namedLines name false s).rdropWhile allBlank, ?_,
      fun l hl => hlines l ((List.rdropWhile_prefix _ _).subset hl), hnamed.rdropWhile_allBlank⟩
    unfold esphomeSection
    rw [ht]
    exact congrArg joinLines (rdropWhile_append_cons (a := []) (by decide) _)

/-- The section `esphome` of a text. -/
def esphomeOf (t : Text) : Option Section := (named "esphome".toList (Section.split t)).head?

theorem takeSection_esphome {added : List (String × List Node)}
    (hadded : ∀ e ∈ added, e.1 ≠ "esphome") (t : Text) :
    (takeSection "esphome" (mergeSections (Section.split t) added).1).1 = esphomeOf t := by
  have hnot : "esphome".toList ∉ added.map (·.1.toList) := by
    intro hmem
    obtain ⟨e, he, heq⟩ := List.mem_map.1 hmem
    exact hadded e he (String.toList_inj.1 heq)
  rw [takeSection_fst, named_mergeSections_of_not_mem hnot, esphomeOf]

theorem occurs_of_mem_esphomeOf {t : Text} (ht : occurs deviceNamePlaceholder t = false) :
    ∀ s ∈ esphomeOf t, ∀ l ∈ s.lines, occurs deviceNamePlaceholder l = false := by
  intro s hs l hl
  have hmem := List.mem_of_mem_head? hs
  rw [named_split] at hmem
  have hline := lines_subset_of_mem_keyedOf (mem_named.1 hmem).1 hl
  rw [occurs_eq_any_lines (by decide) (by decide) (by decide), List.any_eq_false] at ht
  exact Bool.eq_false_of_not_eq_true (ht l hline)

/-- A text without the placeholder of the name gets the name into its section `esphome`: a line
`name` with it stands at the indentation of the first line of content, and below the key at most one
line is new. Blank lines at the end of the section are left out. -/
theorem esphome_section_named (d : Device) {t : Text} {added : List (String × List Node)}
    (hadded : ∀ e ∈ added, e.1 ≠ "esphome")
    (hplain : occurs deviceNamePlaceholder t = false)
    (hindent : ∀ s ∈ esphomeOf t, ∀ child ∈ s.firstChild?, 0 < indentOf child) :
    let found := (takeSection "esphome" (mergeSections (Section.split t) added).1).1
    let n := innerIndent (esphomeOf t)
    ∃ ls, esphomeSection d.nodeName.toList t found = joinLines ("esphome:".toList :: ls) ∧
      (∀ l ∈ ls, '\n' ∉ l) ∧
      IsNamed d.nodeName.toList n (linesBelow (esphomeOf t)) ls ∧
      (ls.find? isContent).map indentOf = some n ∧
      ∃ l ∈ ls, indentOf l = n ∧ ShowsName d.nodeName.toList l := by
  intro found n
  have hfound : found = esphomeOf t := takeSection_esphome hadded t
  have hfree : ∀ s ∈ esphomeOf t, ∀ l ∈ s.lines, '\n' ∉ l := fun s hs =>
    (isPart_of_mem_split (mem_named.1 (List.mem_of_mem_head? hs)).1).free
  obtain ⟨ls, heq, hlines, hnamed⟩ := exists_lines_named d.nodeName.toList hfree
    (occurs_of_mem_esphomeOf hplain) hplain
  exact ⟨ls, hfound ▸ heq, hlines, hnamed,
    hnamed.indentOf_find? (indentOf_find?_linesBelow (esphomeOf t)),
    hnamed.exists_showsName (innerIndent_pos hindent)⟩

/-- A recipe whose section `esphome` has the lines. -/
def esphomeRecipe (below : List String) : Text :=
  joinLines ((["esphome:"] ++ below ++ ["lvgl:", "  #__LVGL_PAGES__"]).map String.toList)

theorem esphome_section_named_panel :
    let t := esphomeRecipe ["  # the panel in the hall", "  platform: esp32", "  name: other", ""]
    let found := (takeSection "esphome" (mergeSections (Section.split t) [("sensor", [])]).1).1
    ∃ ls, esphomeSection panel.nodeName.toList t found = joinLines ("esphome:".toList :: ls) ∧
      IsNamed panel.nodeName.toList 2 (["  # the panel in the hall", "  platform: esp32",
        "  name: other"].map String.toList) ls ∧
      ∃ l ∈ ls, indentOf l = 2 ∧ ShowsName panel.nodeName.toList l := by
  intro t found
  have hadded : ∀ e ∈ [("sensor", ([] : List Node))], e.1 ≠ "esphome" := by decide
  obtain ⟨ls, heq, -, hnamed, -, hname⟩ :=
    esphome_section_named panel (t := t) hadded (by decide) (by decide)
  exact ⟨ls, heq, hnamed, hname⟩

/-- A device with a quote in its name. -/
def inchPanel : Device := { panel with slug := "12\" panel" }

/-- A line with a name that has an escape is written anew, and blank lines at the end of a section
are left out. -/
theorem escaped_name_written_anew :
    let l := "  name:  \"12\\\" panel\"".toList
    let t := esphomeRecipe ["  name:  \"12\\\" panel\"", "  platform: esp32", ""]
    occurs deviceNamePlaceholder t = false ∧
      (esphomeOf t).map (·.lines.drop 1) = some [l, "  platform: esp32".toList, []] ∧
      isNameAt (innerIndent (esphomeOf t)) l = true ∧
      valueOf? "name".toList l = some (quote inchPanel.nodeName.toList) ∧
      l ∉ lines (esphomeSection inchPanel.nodeName.toList t (esphomeOf t)) ∧
      [] ∉ lines (esphomeSection inchPanel.nodeName.toList t (esphomeOf t)) := by
  decide +kernel

end TouchPanel.Document
