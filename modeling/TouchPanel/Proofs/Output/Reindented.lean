import TouchPanel.Proofs.Access.Basic
import TouchPanel.Proofs.Output.Indented

/-!
# Re-indenting a fragment

A fragment that is re-indented keeps its non-blank lines, trimmed, and the differences between
their indentations. So its rows do not depend on how it was indented before, and re-indenting it
twice is re-indenting it once.
-/

namespace TouchPanel

open Text

/-! ## Lines of a fragment -/

namespace Text

/-- The lines that hold more than blanks. -/
def nonblankLines (t : Text) : List Text := (lines t).filter (!allBlank ·)

/-- The number of blanks in front of a line. -/
def leadingWidth (l : Text) : Nat := (leadingBlanks l).length

/-- The number of spaces in front of a line. -/
def leadingSpaces (l : Text) : Nat := (l.takeWhile (· == ' ')).length

/-- The least indentation of the lines that hold more than blanks. -/
def commonWidth (t : Text) : Nat := (((nonblankLines t).map leadingWidth).min?).getD 0

variable {t l : Text} {n k : Nat}

theorem not_allBlank_of_mem_nonblankLines (h : l ∈ nonblankLines t) : allBlank l = false := by
  simpa using List.of_mem_filter h

/-- The least indentation is reached. -/
theorem min?_leadingWidth (h : nonblankLines t ≠ []) :
    ((nonblankLines t).map leadingWidth).min? = some (commonWidth t) := by
  have hne : ((nonblankLines t).map leadingWidth).min? ≠ none := by
    rw [Ne, List.min?_eq_none_iff, List.map_eq_nil_iff]
    exact h
  obtain ⟨w, hw⟩ := Option.ne_none_iff_exists'.1 hne
  rw [commonWidth, hw, Option.getD_some]

theorem commonWidth_le (h : l ∈ nonblankLines t) : commonWidth t ≤ leadingWidth l :=
  (List.min?_eq_some_iff.1 (min?_leadingWidth (List.ne_nil_of_mem h))).2 _ (List.mem_map_of_mem h)

theorem exists_leadingWidth_eq (h : nonblankLines t ≠ []) :
    ∃ l ∈ nonblankLines t, leadingWidth l = commonWidth t :=
  List.mem_map.1 (List.min?_eq_some_iff.1 (min?_leadingWidth h)).1

/-! ### Trimmed lines behind spaces -/

theorem isBlank_space {c : Char} (h : (c == ' ') = true) : isBlank c = true := by
  rw [beq_iff_eq.1 h]
  rfl

theorem exists_trim_cons (h : allBlank l = false) : ∃ c r, trim l = c :: r ∧ isBlank c = false := by
  obtain ⟨c, r, hcons⟩ := List.exists_cons_of_ne_nil (endsClean_trim h).ne_nil
  have hstart := trimStart_trim l
  rw [hcons, trimStart, List.dropWhile_eq_self_iff] at hstart
  exact ⟨c, r, hcons, by simpa using hstart⟩

/-- Characters of a kind in front of one of another kind. -/
theorem takeWhile_spaces_append {p : Char → Bool} (hp : p ' ' = true) {c : Char}
    (hc : p c = false) (k : Nat) (r : Text) : (spaces k ++ c :: r).takeWhile p = spaces k := by
  rw [List.takeWhile_append_of_pos fun d hd => by rw [List.eq_of_mem_replicate hd, hp],
    List.takeWhile_cons_of_neg (by simp [hc]), List.append_nil]

theorem leadingWidth_spaces_append (h : allBlank l = false) (k : Nat) :
    leadingWidth (spaces k ++ trim l) = k := by
  obtain ⟨c, r, hcons, hc⟩ := exists_trim_cons h
  rw [leadingWidth, leadingBlanks, hcons, takeWhile_spaces_append rfl hc]
  exact List.length_replicate

theorem leadingSpaces_spaces_append (h : allBlank l = false) (k : Nat) :
    leadingSpaces (spaces k ++ trim l) = k := by
  obtain ⟨c, r, hcons, hc⟩ := exists_trim_cons h
  have hspace : (c == ' ') = false := by
    rw [← Bool.not_eq_true]
    intro h
    rw [isBlank_space h] at hc
    cases hc
  rw [leadingSpaces, hcons, takeWhile_spaces_append (p := (· == ' ')) rfl hspace]
  exact List.length_replicate

theorem allBlank_spaces (k : Nat) : allBlank (spaces k) = true :=
  List.all_eq_true.2 fun c hc => by rw [List.eq_of_mem_replicate hc]; rfl

theorem trim_spaces_append_trim (k : Nat) (l : Text) : trim (spaces k ++ trim l) = trim l := by
  rw [trim_blank_append (allBlank_spaces k), trim_trim]

end Text

/-! ## Rows of a fragment -/

theorem fragmentRows_eq (t : Text) :
    fragmentRows t =
      (nonblankLines t).map fun l => ⟨leadingWidth l - commonWidth t, trim l⟩ := rfl

/-- The line that a line becomes when a fragment is re-indented. -/
def reindentLine (t : Text) (n : Nat) (l : Text) : Text :=
  spaces (n + (leadingWidth l - commonWidth t)) ++ trim l

theorem map_line_fragmentRows (t : Text) (n : Nat) :
    (fragmentRows t).map (Row.line n) = (nonblankLines t).map (reindentLine t n) := by
  rw [fragmentRows_eq, List.map_map]
  refine List.map_congr_left fun l hl => if_neg ?_
  exact (endsClean_trim (not_allBlank_of_mem_nonblankLines hl)).ne_nil

theorem reindent_eq_unlines (t : Text) (n : Nat) :
    reindent t n = unlines ((nonblankLines t).map (reindentLine t n)) := by
  rw [reindent, Row.render_eq_unlines, map_line_fragmentRows]

theorem lines_reindent (t : Text) (n : Nat) :
    lines (reindent t n) = (nonblankLines t).map (reindentLine t n) := by
  have hbodies : Row.Each Node.IsBody (fragmentRows t) := fun r hr =>
    ⟨Node.allFree_fragmentRows t r hr, Node.allBare_fragmentRows t r hr⟩
  rw [reindent_eq_unlines, ← map_line_fragmentRows,
    (Row.allLines_of_bodies hbodies n).lines_unlines]

section Line

variable {t l : Text} (hl : l ∈ nonblankLines t) (n : Nat)

include hl

theorem leadingWidth_reindentLine :
    leadingWidth (reindentLine t n l) = n + (leadingWidth l - commonWidth t) :=
  leadingWidth_spaces_append (not_allBlank_of_mem_nonblankLines hl) _

theorem leadingSpaces_reindentLine :
    leadingSpaces (reindentLine t n l) = n + (leadingWidth l - commonWidth t) :=
  leadingSpaces_spaces_append (not_allBlank_of_mem_nonblankLines hl) _

theorem not_allBlank_reindentLine : allBlank (reindentLine t n l) = false :=
  ((endsClean_trim (not_allBlank_of_mem_nonblankLines hl)).append _).not_allBlank

end Line

/-- No line of a fragment that is re-indented is blank. -/
theorem nonblankLines_reindent (t : Text) (n : Nat) :
    nonblankLines (reindent t n) = (nonblankLines t).map (reindentLine t n) := by
  rw [nonblankLines, lines_reindent]
  refine List.filter_eq_self.2 (List.forall_mem_map.2 fun l hl => ?_)
  rw [not_allBlank_reindentLine hl]
  rfl

/-- The least of the indentations that a fragment gets is the one it is re-indented to. -/
theorem min?_map_reindentLine {t : Text} (h : nonblankLines t ≠ []) (n : Nat) :
    ((nonblankLines t).map fun l => n + (leadingWidth l - commonWidth t)).min? = some n := by
  obtain ⟨l, hl, hwidth⟩ := exists_leadingWidth_eq h
  refine List.min?_eq_some_iff.2 ⟨List.mem_map.2 ⟨l, hl, ?_⟩, List.forall_mem_map.2 fun _ _ => ?_⟩
  · rw [hwidth, Nat.sub_self, Nat.add_zero]
  · exact Nat.le_add_right n _

theorem commonWidth_reindent {t : Text} (h : nonblankLines t ≠ []) (n : Nat) :
    commonWidth (reindent t n) = n := by
  have hwidths : (nonblankLines (reindent t n)).map leadingWidth =
      (nonblankLines t).map fun l => n + (leadingWidth l - commonWidth t) := by
    rw [nonblankLines_reindent, List.map_map]
    exact List.map_congr_left fun l hl => leadingWidth_reindentLine hl n
  rw [commonWidth, hwidths, min?_map_reindentLine h, Option.getD_some]

/-- The rows of a fragment do not depend on how it was indented. -/
theorem fragmentRows_reindent (t : Text) (n : Nat) :
    fragmentRows (reindent t n) = fragmentRows t := by
  rw [fragmentRows_eq, fragmentRows_eq, nonblankLines_reindent, List.map_map]
  refine List.map_congr_left fun l hl => ?_
  rw [Function.comp_apply, commonWidth_reindent (List.ne_nil_of_mem hl),
    leadingWidth_reindentLine hl, Nat.add_sub_cancel_left, reindentLine, trim_spaces_append_trim]

/-! ## Subtractions -/

namespace Access

/-- The fragment re-indented to `n` columns, if no indentation is less than the one that is taken
off. -/
def reindent? (t : Text) (n : Nat) : Option Text :=
  ((nonblankLines t).mapM fun l =>
    (sub? (n + leadingWidth l) (commonWidth t)).map fun k => spaces k ++ trim l).map unlines

theorem reindent?_eq (t : Text) (n : Nat) : reindent? t n = some (reindent t n) := by
  have hline : ∀ l ∈ nonblankLines t,
      ((sub? (n + leadingWidth l) (commonWidth t)).map fun k => spaces k ++ trim l) =
        some (reindentLine t n l) := by
    intro l hl
    have hle := commonWidth_le hl
    rw [sub?, if_pos (by omega), Option.map_some, Nat.add_sub_assoc hle, reindentLine]
  rw [reindent?, mapM_eq hline, Option.map_some, reindent_eq_unlines]

end Access

/-! ## Re-indenting twice -/

/-- Re-indenting twice is re-indenting once. What is re-indented has the non-blank lines, trimmed
and behind spaces. The least number of these is the indentation that is asked for, the numbers
differ as the numbers of blanks did, and no more is taken off a line than its blanks. -/
theorem reindent_composes (t : Text) (n : Nat) :
    (∀ m, reindent (reindent t n) m = reindent t m) ∧
      List.Forall₂ (fun l l' => l' = spaces (leadingSpaces l') ++ trim l)
        (nonblankLines t) (lines (reindent t n)) ∧
      (nonblankLines t ≠ [] → ((lines (reindent t n)).map leadingSpaces).min? = some n) ∧
      (∀ p ∈ (nonblankLines t).zip (lines (reindent t n)),
        ∀ q ∈ (nonblankLines t).zip (lines (reindent t n)),
          (leadingSpaces p.2 : Int) - leadingSpaces q.2 = leadingWidth p.1 - leadingWidth q.1) ∧
      Access.reindent? t n = some (reindent t n) := by
  refine ⟨fun m => ?_, ?_, fun hne => ?_, ?_, Access.reindent?_eq t n⟩
  · rw [reindent, fragmentRows_reindent, reindent]
  · rw [lines_reindent, List.forall₂_map_right_iff, List.forall₂_same]
    intro l hl
    rw [leadingSpaces_reindentLine hl, reindentLine]
  · have hspaces : (lines (reindent t n)).map leadingSpaces =
        (nonblankLines t).map fun l => n + (leadingWidth l - commonWidth t) := by
      rw [lines_reindent, List.map_map]
      exact List.map_congr_left fun l hl => leadingSpaces_reindentLine hl n
    rw [hspaces, min?_map_reindentLine hne]
  · rw [lines_reindent, ← List.map_prod_left_eq_zip]
    refine List.forall_mem_map.2 fun l hl => List.forall_mem_map.2 fun l' hl' => ?_
    have hle := commonWidth_le hl
    have hle' := commonWidth_le hl'
    dsimp only
    rw [leadingSpaces_reindentLine hl, leadingSpaces_reindentLine hl']
    omega

/-- A fragment whose lines are indented by different blanks. -/
theorem reindent_composes_wide :
    let t := " - delay: 1s\n\n\u3000- if:\r\n\u00a0\u00a0  then: \n".toList
    nonblankLines t ≠ [] ∧ ((lines (reindent t 4)).map leadingSpaces).min? = some 4 ∧
      reindent (reindent t 4) 2 = "  - delay: 1s\n  - if:\n     then:\n".toList := by
  intro t
  have hne : nonblankLines t ≠ [] := by decide
  obtain ⟨htwice, -, hleast, -⟩ := reindent_composes t 4
  refine ⟨hne, hleast hne, (htwice 2).trans ?_⟩
  decide

end TouchPanel
