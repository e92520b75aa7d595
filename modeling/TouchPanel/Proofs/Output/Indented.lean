import TouchPanel.Proofs.Ingress.Bare
import TouchPanel.Proofs.Output.Undivided
import TouchPanel.Proofs.Recipe.Tail

/-!
# Rendering and indentation

A node that is rendered at some indentation has the lines that it has at the margin, each behind
as many spaces unless it is empty. So it does not matter whether a node is indented when it is
rendered or when it takes the place of a marker.
-/

namespace TouchPanel

open Text Recipe

/-! ## Lines -/

namespace Text

/-- A line behind `n` spaces, unless it is empty. -/
def indentLine (n : Nat) (l : Text) : Text := if l = [] then [] else spaces n ++ l

/-- A text with `n` spaces in front of each line that is not empty. -/
def indent (n : Nat) (t : Text) : Text := joinLines ((t.splitOn '\n').map (indentLine n))

variable {l : Text} {ls : List Text}

theorem indentLine_eq_nil_iff {n : Nat} : indentLine n l = [] ↔ l = [] := by
  unfold indentLine
  split
  · next h => simp [h]
  · next h => simp [h]

theorem unlines_eq_joinLines (ls : List Text) : unlines ls = joinLines (ls ++ [[]]) := by
  rw [joinLines_concat, List.append_nil]

theorem indent_unlines (h : ∀ l ∈ ls, '\n' ∉ l) (n : Nat) :
    indent n (unlines ls) = unlines (ls.map (indentLine n)) := by
  have hfree : ∀ l ∈ ls ++ [[]], '\n' ∉ l :=
    List.forall_mem_append.2 ⟨h, List.forall_mem_singleton.2 List.not_mem_nil⟩
  rw [indent, unlines_eq_joinLines, splitOn_joinLines hfree (by simp), List.map_append,
    unlines_eq_joinLines]
  rfl

/-- Without newlines at its end a text of lines has those up to the last that is not empty. -/
theorem lines_dropNewlines_unlines (h : AllLines ls) :
    lines (dropEndWhile (· == '\n') (unlines ls)) = ls.rdropWhile List.isEmpty := by
  induction ls using List.reverseRecOn with
  | nil => rfl
  | append_singleton init last ih =>
    obtain ⟨hinit, hlast⟩ := List.forall_mem_append.1 h
    obtain ⟨hfree, hbare⟩ := List.forall_mem_singleton.1 hlast
    by_cases hnil : last = []
    · have hempty : unlines (init ++ [last]) = unlines init ++ ['\n'] := by
        rw [unlines_concat, joinLines_concat, hnil, List.append_nil]
      rw [List.rdropWhile_concat_pos _ _ _ (by simp [hnil]), ← ih hinit, hempty, dropEndWhile,
        dropEndWhile, List.reverse_append]
      rfl
    · obtain ⟨a, c, rfl⟩ := (List.eq_nil_or_concat' last).resolve_left hnil
      have hc : (c == '\n') = false := by
        rw [beq_eq_false_iff_ne]
        rintro rfl
        exact hfree (by simp)
      have hdrop : dropEndWhile (· == '\n') (unlines (init ++ [a ++ [c]])) =
          joinLines (init ++ [a ++ [c]]) := by
        rw [unlines_concat, joinLines_concat, dropEndWhile]
        simp [hc]
      rw [hdrop, h.lines_joinLines (by simp), List.rdropWhile_concat_neg _ _ _ (by simp)]

theorem rdropWhile_map_indentLine (n : Nat) (ls : List Text) :
    (ls.map (indentLine n)).rdropWhile List.isEmpty =
      (ls.rdropWhile List.isEmpty).map (indentLine n) := by
  have hsame : List.isEmpty ∘ indentLine n = List.isEmpty := by
    funext l
    rw [Bool.eq_iff_iff, Function.comp_apply, List.isEmpty_iff, List.isEmpty_iff,
      indentLine_eq_nil_iff]
  rw [List.rdropWhile, ← List.map_reverse, List.dropWhile_map, hsame, ← List.map_reverse]
  rfl

end Text

/-! ## Numbers -/

namespace Decimal

variable {digits : Text}

theorem endsClean_of_isDigit (hne : digits ≠ []) (h : ∀ c ∈ digits, c.isDigit = true) :
    EndsClean digits :=
  ⟨_, List.getLast?_eq_some_getLast hne, Node.isBlank_of_isDigit (h _ (List.getLast_mem hne))⟩

theorem endsClean_positional (hne : digits ≠ []) (h : ∀ c ∈ digits, c.isDigit = true)
    (places : Int) : EndsClean (positional digits places) := by
  unfold positional
  split
  · exact (endsClean_of_isDigit hne h).append ('0' :: '.' :: List.replicate (-places).toNat '0')
  · dsimp only
    rw [← List.singleton_append, ← List.append_assoc]
    refine EndsClean.append ?_ _
    split
    · exact endsClean_concat [] rfl
    · next hrest =>
      exact endsClean_of_isDigit (by simpa using hrest) fun c hc => h c (List.mem_of_mem_drop hc)

theorem endsClean_magnitude (l : Layout) (m : Nat) (q : Int) : EndsClean (l.magnitude m q) := by
  have hdigits : ∀ c ∈ ofNat (shortest l.tie m q).digits, c.isDigit = true :=
    fun _ hc => isDigit_of_mem_ofNat hc
  unfold Layout.magnitude
  dsimp only
  split
  · exact endsClean_concat ['0', '.'] rfl
  · split
    · exact endsClean_positional Nat.toDigits_ne_nil hdigits _
    · exact (Node.endsClean_ofInt _).append _

end Decimal

theorem endsClean_documentFloat (x : Float) : EndsClean (documentFloat x) := by
  unfold documentFloat Decimal.Layout.text
  cases Binary64.parts x with
  | finite negative m q =>
    have hclean := Decimal.endsClean_magnitude documentNumber m q
    dsimp only
    split
    · exact hclean.append ['-']
    · exact hclean
  | _ => exact endsClean_concat ['0', '.'] rfl

/-! ## Nodes -/

namespace Text

/-- A text without line breaks. -/
def IsUnbroken (t : Text) : Prop := '\n' ∉ t ∧ '\r' ∉ t

instance (t : Text) : Decidable (IsUnbroken t) := inferInstanceAs (Decidable (_ ∧ _))

end Text

namespace Node

/-- A node whose keys, words and verbatim scalars have no line break and whose expressions have no
carriage return. -/
inductive Unbroken : Node → Prop
  | str (s : String) : Unbroken (.str s)
  | ident {s : String} (h : IsUnbroken s.toList) : Unbroken (.ident s)
  | int (n : Int) : Unbroken (.int n)
  | float (x : Float) : Unbroken (.float x)
  | bool (b : Bool) : Unbroken (.bool b)
  | lambda {code : String} (h : '\r' ∉ code.toList) : Unbroken (.lambda code)
  | raw {s : String} (h : IsUnbroken s.toList) : Unbroken (.raw s)
  | text (s : String) : Unbroken (.text s)
  | fragment (s : String) : Unbroken (.fragment s)
  | map {entries : Mapping} (keys : ∀ e ∈ entries, IsUnbroken e.1.toList)
      (values : ∀ e ∈ entries, Unbroken e.2) : Unbroken (.map entries)
  | list {items : List Node} (h : ∀ node ∈ items, Unbroken node) : Unbroken (.list items)

/-- A body that is read back from its line. -/
def IsBody (t : Text) : Prop := '\n' ∉ t ∧ IsBare t

variable {node : Node}

theorem isBody_of_isUnbroken {t : Text} (h : IsUnbroken t) : IsBody t :=
  ⟨h.1, fun _ hc => ne_of_mem_of_not_mem (List.mem_of_getLast? hc) h.2⟩

theorem Unbroken.inline (h : Unbroken node) : ∀ scalar ∈ node.inline?, IsBody scalar := by
  intro scalar hscalar
  cases inline_of_mem hscalar with
  | str s => exact ⟨newline_not_mem_quote _, (endsClean_quote _).isBare⟩
  | ident s =>
    cases h with
    | ident h => exact isBody_of_isUnbroken h
  | raw s =>
    cases h with
    | raw h => exact isBody_of_isUnbroken h
  | int n => exact ⟨newline_not_mem_ofInt n, (endsClean_ofInt n).isBare⟩
  | float x => exact ⟨(isOrdinaryLine_documentFloat x).1, (endsClean_documentFloat x).isBare⟩
  | bool b => cases b <;> exact isBody_of_isUnbroken (by decide)
  | lambda short =>
    cases h with
    | lambda h =>
      have hfree := newline_not_mem_of_isInlineCode short
      exact isBody_of_isUnbroken ⟨by simpa using hfree, by simpa using h⟩
  | noEntries | noItems => exact isBody_of_isUnbroken (by decide)

theorem isRowwise_unbroken : IsRowwise Unbroken IsUnbroken IsBody where
  scalar h := h.inline
  entry h e he := by
    cases h with
    | map keys values => exact ⟨keys e he, values e he⟩
  item h n hn := by
    cases h with
    | list h => exact h n hn
  value {key _} hkey h :=
    ⟨by simp [hkey.1, h.1],
      ((h.2.cons (by decide)).cons (by decide)).append (List.cons_ne_nil _ _) key⟩
  opening {key} hkey := ⟨by simp [hkey.1], IsBare.append (by decide) (by decide) key⟩
  dashed h := ⟨by simp [h.1], (h.2.cons (by decide)).cons (by decide)⟩
  dash := by
    refine ⟨by decide, ?_⟩
    decide
  header t :=
    ⟨⟨newline_not_mem_blockHeader t, isBare_blockHeader [] t⟩,
      by simp [newline_not_mem_blockHeader t], isBare_blockHeader _ t⟩
  block _ r hr := ⟨allFree_blockRows _ r hr, allBare_blockRows _ r hr⟩
  fragment _ r hr := ⟨allFree_fragmentRows _ r hr, allBare_fragmentRows _ r hr⟩

end Node

/-! ## Rows -/

namespace Row

open Node (IsBody)

variable {rows : List Row}

theorem line_eq_indentLine (n : Nat) (r : Row) : line n r = indentLine n (line 0 r) := by
  by_cases hbody : r.body = []
  · rw [line, line, if_pos hbody, if_pos hbody]
    rfl
  · have hspaces : spaces (n + r.indent) = spaces n ++ spaces r.indent :=
      List.replicate_add n r.indent ' '
    rw [line, line, if_neg hbody, if_neg hbody, indentLine, if_neg (by simp [hbody]), hspaces,
      Nat.zero_add, List.append_assoc]

theorem map_line_eq (n : Nat) (rows : List Row) :
    rows.map (line n) = (rows.map (line 0)).map (indentLine n) := by
  rw [List.map_map]
  exact List.map_congr_left fun r _ => line_eq_indentLine n r

theorem allLines_of_bodies (h : Each IsBody rows) (n : Nat) : AllLines (rows.map (line n)) := by
  intro l hl
  obtain ⟨r, hr, rfl⟩ := List.mem_map.1 hl
  exact ⟨newline_not_mem_line n (h r hr).1, bare_line (h r hr).2 n⟩

theorem render_eq_indent (h : Each IsBody rows) (n : Nat) :
    render n rows = Text.indent n (render 0 rows) := by
  have hlines := allLines_of_bodies h 0
  rw [render_eq_unlines, render_eq_unlines, indent_unlines (fun l hl => (hlines l hl).1),
    map_line_eq]

/-- The lines of rows at the margin, put in place of a marker behind `n` spaces. -/
theorem payload_lines_eq (h : Each IsBody rows) {n : Nat} {line : Text}
    (hline : leadingBlanks line = spaces n) :
    (lines (dropEndWhile (· == '\n') (render 0 rows))).map (indentLike line) =
      (lines (render n rows)).rdropWhile List.isEmpty := by
  have hlike : indentLike line = indentLine n := by
    funext l
    cases l <;> simp [indentLike, indentLine, hline]
  rw [render_eq_unlines, render_eq_unlines, lines_dropNewlines_unlines (allLines_of_bodies h 0),
    (allLines_of_bodies h n).lines_unlines, map_line_eq n, rdropWhile_map_indentLine, hlike]

end Row

namespace Recipe

theorem substituteLines?_of_first {marker line : Text} {a : List Text}
    (ha : ∀ l ∈ a, isMarkerLine marker l = false) (hline : isMarkerLine marker line = true)
    (payload b : List Text) :
    substituteLines? marker payload (a ++ line :: b) =
      some (a ++ payload.map (indentLike line) ++ b.filter (!isMarkerLine marker ·)) := by
  induction a with
  | nil => exact if_pos hline
  | cons l a ih =>
    obtain ⟨hl, hrest⟩ := List.forall_mem_cons.1 ha
    rw [List.cons_append, substituteLines?, if_neg (by simp [hl]), ih hrest]
    rfl

end Recipe

/-! ## Mappings and lists -/

open Node in
/-- What is rendered at indentation `n` is what is rendered at the margin with `n` spaces in front
of each line that is not empty. In place of a marker behind `n` spaces, what is rendered at the
margin has the lines that it has at indentation `n`, up to the last one that is not empty. -/
theorem render_commutes_with_indent (n : Nat) :
    (∀ m : Mapping, Unbroken (.map m) → m.render n = indent n (m.render 0)) ∧
      (∀ items : List Node, (∀ node ∈ items, Unbroken node) →
        renderList items n = indent n (renderList items 0)) ∧
      ∀ (m : Mapping) (marker t line : Text) (before after : List Text), Unbroken (.map m) →
        lines t = before ++ line :: after → (∀ l ∈ before, isMarkerLine marker l = false) →
        isMarkerLine marker line = true → leadingBlanks line = spaces n →
        replaceMarker? marker (m.render 0) t =
          some (unlines (before ++ (lines (m.render n)).rdropWhile List.isEmpty ++
            after.filter (!isMarkerLine marker ·))) := by
  have hrows {m : Mapping} (h : Unbroken (.map m)) : Row.Each IsBody (mapRows m) := by
    cases h with
    | map keys values => exact isRowwise_unbroken.mapRows fun e he => ⟨keys e he, values e he⟩
  refine ⟨fun m h => Row.render_eq_indent (hrows h) n,
    fun items h => Row.render_eq_indent (isRowwise_unbroken.listRows h) n, ?_⟩
  intro m marker t line before after h hlines hbefore hline hindent
  rw [replaceMarker?, hlines, substituteLines?_of_first hbefore hline]
  simp only [Mapping.render]
  rw [Row.payload_lines_eq (hrows h) hindent, Option.map_some]

open Node in
/-- A page whose last text has an empty line, put in place of a marker behind two spaces. -/
theorem render_commutes_with_indent_page :
    let page : Node := .map [("id", .ident "main"), ("note", .text "two\nlines\n\n")]
    let m : Mapping := [("pages", .list [page])]
    let t := "lvgl:\n  #__LVGL_PAGES__\nlogger:".toList
    Unbroken (.map m) ∧
      lines t = ["lvgl:".toList] ++ "  #__LVGL_PAGES__".toList :: ["logger:".toList] ∧
      replaceMarker? pagesMarker (m.render 0) t =
        some (unlines (["lvgl:".toList] ++ (lines (m.render 2)).rdropWhile List.isEmpty ++
          ["logger:".toList])) := by
  intro page m t
  have hpage : Unbroken page :=
    .map (by decide)
      (List.forall_mem_cons.2 ⟨.ident (by decide), List.forall_mem_singleton.2 (.text _)⟩)
  have hm : Unbroken (.map m) :=
    .map (by decide) (List.forall_mem_singleton.2 (.list (List.forall_mem_singleton.2 hpage)))
  have hlines : lines t = ["lvgl:".toList] ++ "  #__LVGL_PAGES__".toList :: ["logger:".toList] := by
    decide
  exact ⟨hm, hlines, (render_commutes_with_indent 2).2.2 m pagesMarker t _ _ _ hm hlines (by decide)
    (by decide) (by decide)⟩

end TouchPanel
