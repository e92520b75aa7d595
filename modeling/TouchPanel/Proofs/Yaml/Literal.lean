import TouchPanel.Proofs.Output.Indented
import TouchPanel.Proofs.Yaml.Quoted

/-!
# Reading literal blocks back

The lines of a text, each behind the indentation of a block and without the blanks at its end, are
read as a literal block: empty lines wherever they stand, and lines that begin with blanks of their
own, for the indentation is given in the header when the first of them does.
-/

namespace TouchPanel.Yaml

open Text

variable {b : BlockText} {least width column : Nat}

/-! ## Places -/

theorem place_newline (line column offset : Nat) (r : Text) :
    Source.place line column offset ('\n' :: r) =
      ⟨'\n', line, column, offset⟩ :: Source.place (line + 1) 0 0 r := by
  rw [Source.place]
  · simp
  · intro r' h
    cases h

theorem isBreak_of_isInline {c : Char} (hc : isInline c = true) : isBreak c = false := by
  simp only [isInline, Bool.and_eq_true, Bool.not_eq_true'] at hc
  exact hc.2

theorem place_spaces_succ (line column offset k : Nat) (r : Text) :
    Source.place line column offset (spaces (k + 1) ++ r) =
      ⟨' ', line, column, offset⟩ :: Source.place line (column + 1) (offset + 1) (spaces k ++ r) :=
  place_cons (by decide) line column offset (spaces k ++ r)

theorem place_spaces (line column offset k : Nat) (r : Text) :
    (Source.place line column offset (spaces k ++ r)).dropWhile (·.char == ' ') =
      (Source.place line (column + k) (offset + k) r).dropWhile (·.char == ' ') := by
  induction k generalizing column offset with
  | zero => rfl
  | succ k ih =>
    rw [place_spaces_succ, List.dropWhile_cons_of_pos (by simp), ih, Nat.add_assoc, Nat.add_assoc,
      Nat.add_comm 1 k]

/-- What can stand behind a block whose parent is at a column: nothing, or a line that goes no
deeper than the column and begins with a character that is no blank. -/
def IsOutside (column : Nat) (rest : Text) : Prop :=
  rest = [] ∨ ∃ k ≤ column, ∃ c r, rest = spaces k ++ c :: r ∧ isSpace c = false ∧
    isInline c = true

/-! ## What has been read -/

namespace BlockText

/-- The lines that have been read, of which the last ones are only line breaks. -/
structure Holds (b : BlockText) (ls : List Text) : Prop where
  text : b.reversed.reverse ++ (b.lineEnd ++ b.empty) = unlines ls
  breaks : ∀ c ∈ b.lineEnd ++ b.empty, c = '\n'
  last : ∀ c ∈ b.reversed.head?, c ≠ '\n'

/-- The next line that is not empty begins at a column: this is the indentation, or the indentation
is taken from that line, which then begins with no blank of its own. -/
def Ready (width : Nat) (b : BlockText) (ls : List Text) : Prop :=
  b.indentation = some width ∨
    b.indentation = none ∧ b.deepest ≤ width ∧
      ∀ l ∈ ls.find? (· ≠ []), ∀ c ∈ l.head?, isSpace c = false

variable {ls front : List Text} {l : Text}

theorem Ready.eq_width (h : b.Ready width ls) : ∀ w ∈ b.indentation, w = width := by
  intro w hw
  rcases h with hknown | ⟨hnone, -⟩
  · exact (Option.some.inj (hknown.symm.trans hw)).symm
  · cases hnone.symm.trans hw

/-- Stripping leaves no line break at the end. -/
theorem Holds.strip (h : b.Holds ls) :
    b.text .strip = dropEndWhile (· == '\n') (unlines ls) := by
  have hlast : b.reversed.dropWhile (· == '\n') = b.reversed := by
    cases hr : b.reversed with
    | nil => rfl
    | cons c r => exact List.dropWhile_cons_of_neg (by simpa using h.last c (by simp [hr]))
  have hbreaks : ∀ c ∈ (b.lineEnd ++ b.empty).reverse, (c == '\n') = true := fun c hc =>
    beq_iff_eq.2 (h.breaks c (List.mem_reverse.1 hc))
  rw [BlockText.text, ← h.text, dropEndWhile, List.reverse_append, List.reverse_reverse,
    List.dropWhile_append_of_pos hbreaks, hlast]

/-! ## Lines -/

theorem blockLines?_inLine {t : Text} (ht : ∀ c ∈ t, isInline c = true) (b : BlockText)
    (line column offset : Nat) (r : Text) :
    blockLines? false least true b (Source.place line column offset (t ++ '\n' :: r)) =
      blockLines? false least false
        { b with reversed := t.reverse ++ b.reversed, lineEnd := ['\n'] }
        (Source.place (line + 1) 0 0 r) := by
  induction t generalizing b column offset with
  | nil =>
    rw [List.nil_append, place_newline, blockLines?]
    rfl
  | cons c t ih =>
    obtain ⟨hc, ht⟩ := List.forall_mem_cons.1 ht
    rw [List.cons_append, place_cons hc, blockLines?, if_neg (by simp [isBreak_of_isInline hc]),
      ih ht]
    simp

theorem blockLines?_spaces {k : Nat} (h : ∀ w ∈ b.indentation, column + k ≤ w)
    (line offset : Nat) (r : Text) :
    blockLines? false least false b (Source.place line column offset (spaces k ++ r)) =
      blockLines? false least false b (Source.place line (column + k) (offset + k) r) := by
  induction k generalizing column offset with
  | zero => rfl
  | succ k ih =>
    have hbefore : b.indentation.any (· ≤ column) = false := by
      cases hw : b.indentation with
      | none => rfl
      | some w =>
        have hlt := h w hw
        simp
        omega
    rw [place_spaces_succ, blockLines?, hbefore, if_pos (by simp),
      ih (fun w hw => by have := h w hw; omega), Nat.add_assoc, Nat.add_assoc, Nat.add_comm 1 k]

/-- A character that may begin a line does so at the indentation, and ends the block elsewhere. -/
theorem blockLines?_begin {g : Glyph} (hbreak : isBreak g.char = false)
    (hopen : b.indentation.any (· ≤ g.column) = false → isSpace g.char = false) {indentation : Nat}
    (h : b.indentation.getD (max (max b.deepest g.column) least) = indentation) (r : Source) :
    blockLines? false least false b (g :: r) =
      if g.column = indentation then
        blockLines? false least true
          (({ b with indentation := some indentation }).beginLine false g.char) r
      else some ({ b with indentation := some indentation }, g :: r) := by
  subst h
  rw [blockLines?]
  cases hindented : b.indentation.any (· ≤ g.column) with
  | true => simp [hbreak]
  | false =>
    have hblanks : g.char ≠ ' ' ∧ g.char ≠ '\t' := by
      simpa [isSpace] using hopen hindented
    simp [hblanks, hbreak]

theorem Holds.add_empty (h : b.Holds front) (deepest : Nat) :
    Holds { b with empty := b.empty ++ ['\n'], deepest } (front ++ [[]]) where
  text := by
    rw [unlines_append, ← h.text]
    simp [unlines]
  breaks := by
    intro c hc
    rw [← List.append_assoc] at hc
    rcases List.mem_append.1 hc with hc | hc
    · exact h.breaks c hc
    · exact List.mem_singleton.1 hc
  last := h.last

theorem Holds.add_line (h : b.Holds front) {c : Char} {t : Text}
    (ht : ∀ x ∈ c :: t, isInline x = true) (indentation : Option Nat) :
    Holds
      { ({ b with indentation }).beginLine false c with
        reversed := t.reverse ++ (({ b with indentation }).beginLine false c).reversed
        lineEnd := ['\n'] }
      (front ++ [c :: t]) where
  text := by
    rw [unlines_append, ← h.text]
    simp [beginLine, between, unlines]
  breaks := by
    simp [beginLine]
  last := by
    have hfree : '\n' ∉ c :: t := fun hmem => absurd (ht _ hmem) (by decide)
    rw [List.mem_cons, not_or] at hfree
    intro x hx
    cases hr : t.reverse with
    | nil =>
      simp only [beginLine, hr, List.nil_append, List.head?_cons, Option.mem_def,
        Option.some.injEq] at hx
      exact hx ▸ Ne.symm hfree.1
    | cons y s =>
      simp only [beginLine, hr, List.cons_append, List.head?_cons, Option.mem_def,
        Option.some.injEq] at hx
      subst hx
      have hmem : y ∈ t := List.mem_reverse.1 (hr ▸ List.mem_cons_self)
      exact fun hy => hfree.2 (hy ▸ hmem)

/-- One line is read. -/
theorem Holds.read_line (h : b.Holds front) (hready : b.Ready width (l :: ls))
    (hleast : least ≤ width) (hl : ∀ c ∈ l, isInline c = true) (line : Nat) (r : Text) :
    ∃ b' : BlockText,
      blockLines? false least false b (Source.place line 0 0 (indentLine width l ++ '\n' :: r)) =
        blockLines? false least false b' (Source.place (line + 1) 0 0 r) ∧
      b'.Holds (front ++ [l]) ∧ b'.Ready width ls := by
  cases l with
  | nil =>
    refine ⟨_, ?_, h.add_empty (max b.deepest 0), ?_⟩
    · rw [indentLine, if_pos rfl, List.nil_append, place_newline, blockLines?]
      simp [isBreak]
    · rcases hready with hknown | ⟨hnone, hdeepest, hfirst⟩
      · exact Or.inl hknown
      · exact Or.inr ⟨hnone, by simpa using hdeepest, by simpa using hfirst⟩
  | cons c t =>
    obtain ⟨hc, ht⟩ := List.forall_mem_cons.1 hl
    refine ⟨_, ?_, h.add_line hl (some width), Or.inl rfl⟩
    have hbefore : ∀ w ∈ b.indentation, 0 + width ≤ w := fun w hw => by
      rw [hready.eq_width w hw, Nat.zero_add]
    have hopen : b.indentation.any (· ≤ width) = false → isSpace c = false := by
      rcases hready with hknown | ⟨-, -, hfirst⟩
      · simp [hknown]
      · exact fun _ => hfirst (c :: t) rfl c rfl
    have hwidth : b.indentation.getD (max (max b.deepest width) least) = width := by
      rcases hready with hknown | ⟨hnone, hdeepest, -⟩
      · rw [hknown]
        rfl
      · rw [hnone, Option.getD_none]
        omega
    rw [indentLine, if_neg (List.cons_ne_nil c t), List.append_assoc, blockLines?_spaces hbefore,
      List.cons_append, place_cons hc, Nat.zero_add,
      blockLines?_begin (isBreak_of_isInline hc) hopen hwidth, if_pos rfl, blockLines?_inLine ht]

/-- Lines are read one after the other. -/
theorem Holds.read_lines (h : b.Holds front) (hready : b.Ready width ls) (hleast : least ≤ width)
    (hls : ∀ l ∈ ls, ∀ c ∈ l, isInline c = true) (line : Nat) (r : Text) :
    ∃ (b' : BlockText) (line' : Nat),
      blockLines? false least false b
          (Source.place line 0 0 (unlines (ls.map (indentLine width)) ++ r)) =
        blockLines? false least false b' (Source.place line' 0 0 r) ∧
      b'.Holds (front ++ ls) ∧ b'.Ready width [] := by
  induction ls generalizing b front line with
  | nil => exact ⟨b, line, rfl, by rwa [List.append_nil], hready⟩
  | cons l ls ih =>
    obtain ⟨hl, hls⟩ := List.forall_mem_cons.1 hls
    obtain ⟨b₁, hline, h₁, hready₁⟩ :=
      h.read_line hready hleast hl line (unlines (ls.map (indentLine width)) ++ r)
    obtain ⟨b₂, line', hlines, h₂, hready₂⟩ := ih h₁ hready₁ hls (line + 1)
    have hcons : unlines ((l :: ls).map (indentLine width)) ++ r =
        indentLine width l ++ '\n' :: (unlines (ls.map (indentLine width)) ++ r) := by
      simp [unlines]
    exact ⟨b₂, line', by rw [hcons, hline, hlines], by simpa using h₂, hready₂⟩

/-- At a line outside the block the spaces in front of it have been skipped. -/
theorem Holds.read_end (h : b.Holds ls) (hready : b.Ready width []) (hcolumn : column < least)
    (hleast : least ≤ width) {rest : Text} (hrest : IsOutside column rest) (line : Nat) :
    ∃ b' : BlockText,
      blockLines? false least false b (Source.place line 0 0 rest) =
        some (b', (Source.place line 0 0 rest).dropWhile (·.char == ' ')) ∧ b'.Holds ls := by
  rcases hrest with rfl | ⟨k, hk, c, r, rfl, hspace, hc⟩
  · exact ⟨b, by rw [Source.place, blockLines?]; rfl, h⟩
  · have hbefore : ∀ w ∈ b.indentation, 0 + k ≤ w := fun w hw => by
      rw [hready.eq_width w hw]
      omega
    have hindentation : k ≠ b.indentation.getD (max (max b.deepest k) least) := by
      rcases hready with hknown | ⟨hnone, -⟩
      · rw [hknown, Option.getD_some]
        omega
      · rw [hnone, Option.getD_none]
        omega
    have hblank : c ≠ ' ' := by
      rintro rfl
      cases hspace
    refine ⟨_, ?_, (⟨h.text, h.breaks, h.last⟩ : Holds { b with
      indentation := some (b.indentation.getD (max (max b.deepest k) least)) } ls)⟩
    rw [place_spaces, blockLines?_spaces hbefore, place_cons hc, Nat.zero_add,
      blockLines?_begin (isBreak_of_isInline hc) (fun _ => hspace) rfl, if_neg hindentation,
      List.dropWhile_cons_of_neg (by simpa using hblank)]

end BlockText

/-! ## Literal blocks -/

/-- The header of a text gives no indentation if the text begins with no blank of its own. -/
theorem blockHeader_cases (t : Text) :
    blockHeader t = ['|', '2', '-'] ∨ blockHeader t = ['|', '-'] ∧
      ∀ l ∈ (lines t).find? (!allBlank ·), ∀ c ∈ l.head?, isBlank c = false := by
  unfold blockHeader
  split
  · next c l hfirst =>
    by_cases hc : isBlank c = true
    · exact Or.inl (if_pos hc)
    · refine Or.inr ⟨if_neg hc, ?_⟩
      simpa [hfirst] using hc
  · next hfirst =>
    refine Or.inr ⟨rfl, fun l hl c hc => ?_⟩
    obtain ⟨r, rfl⟩ := List.head?_eq_some_iff.1 hc
    exact absurd hl (hfirst c r)

/-- What is written in the header is read. -/
theorem blockHeader?_fixed (line column offset : Nat) (r : Text) :
    blockHeader? (Source.place line column offset ('2' :: '-' :: '\n' :: r)) =
      some (⟨.strip, some 2⟩, Source.place (line + 1) 0 0 r) := by
  rw [place_cons (by decide), place_cons (by decide), place_newline]
  rfl

theorem blockHeader?_detected (line column offset : Nat) (r : Text) :
    blockHeader? (Source.place line column offset ('-' :: '\n' :: r)) =
      some (⟨.strip, none⟩, Source.place (line + 1) 0 0 r) := by
  rw [place_cons (by decide), place_newline]
  rfl

/-- The lines of a text with blanks at their ends left out. -/
def blockBodies (t : Text) : List Text := (lines t).map trimEnd

theorem find?_blockBodies (t : Text) :
    (blockBodies t).find? (· ≠ []) = ((lines t).find? (!allBlank ·)).map trimEnd := by
  rw [blockBodies, List.find?_map]
  congr 2
  funext l
  rw [Function.comp_apply, Bool.eq_iff_iff, decide_eq_true_iff, Ne, trimEnd_eq_nil_iff]
  simp

theorem isSpace_of_isBlank {c : Char} (hc : isBlank c = false) : isSpace c = false := by
  have hblanks : c ≠ ' ' ∧ c ≠ '\t' := by
    constructor <;> (rintro rfl; cases hc)
  simpa [isSpace] using hblanks

theorem mem_of_mem_blockBodies {t l : Text} (hl : l ∈ blockBodies t) {c : Char} (hc : c ∈ l) :
    c ∈ t ∧ c ≠ '\n' := by
  obtain ⟨whole, hwhole, rfl⟩ := List.mem_map.1 hl
  have hline := (trimEnd_isPrefix whole).subset hc
  exact ⟨mem_of_mem_lines hwhole hline,
    ne_of_mem_of_not_mem hline (newline_not_mem_of_mem_lines hwhole)⟩

/-- A text with the blanks at the end of each line and the newlines at its own end left out. -/
def withoutTrailing (t : Text) : Text :=
  dropEndWhile (· == '\n') (joinLines ((t.splitOn '\n').map trimEnd))

theorem dropNewlines_blockBodies {t : Text} (ht : '\r' ∉ t) :
    dropEndWhile (· == '\n') (unlines (blockBodies t)) = withoutTrailing t := by
  have hsplit : ∀ u : Text, (lines (u ++ ['\n'])).map trimEnd = (u.splitOn '\n').map trimEnd := by
    intro u
    have hbare := congrArg (List.map trimEnd) (map_bare_lines u)
    rwa [List.map_map, List.map_map, show trimEnd ∘ bare = trimEnd from funext trimEnd_bare]
      at hbare
  by_cases hclosed : Closed t
  · rcases List.eq_nil_or_concat' t with rfl | ⟨u, c, rfl⟩
    · rfl
    · obtain rfl := hclosed c (by simp)
      rw [blockBodies, withoutTrailing, hsplit, unlines_eq_joinLines, splitOn_append_newline,
        List.map_append]
      rfl
  · rw [blockBodies, withoutTrailing, ← lines_append_newline ht hclosed, hsplit]
    obtain ⟨init, last, hlast⟩ :=
      (List.eq_nil_or_concat' ((t.splitOn '\n').map trimEnd)).resolve_left (by simp)
    rw [hlast, unlines_concat, dropEndWhile, dropEndWhile, List.reverse_append]
    rfl

/-- A text without line breaks other than newlines is read back from its lines behind the
indentation of a block. -/
theorem block?_literal {t : Text} (ht : ∀ c ∈ t, c = '\n' ∨ isInline c = true) {rest : Text}
    (hrest : IsOutside column rest) (line start offset : Nat) :
    ∃ line', block? false (column + 1) (Source.place line start offset
        ((blockHeader t).tail ++ '\n' ::
          (unlines ((blockBodies t).map (indentLine (column + 2))) ++ rest))) =
      some (withoutTrailing t, (Source.place line' 0 0 rest).dropWhile (·.char == ' ')) := by
  have hreturn : '\r' ∉ t := fun hmem => absurd (ht _ hmem) (by decide)
  rw [← dropNewlines_blockBodies hreturn]
  have hbodies : ∀ l ∈ blockBodies t, ∀ c ∈ l, isInline c = true := by
    intro l hl c hc
    obtain ⟨hmem, hne⟩ := mem_of_mem_blockBodies hl hc
    exact (ht c hmem).resolve_left hne
  have hread : ∀ indentation : Option Nat,
      (BlockText.Ready (column + 2) { indentation } (blockBodies t)) →
      ∃ (b : BlockText) (line' : Nat),
        blockLines? false (column + 1) false { indentation } (Source.place (line + 1) 0 0
          (unlines ((blockBodies t).map (indentLine (column + 2))) ++ rest)) =
          some (b, (Source.place line' 0 0 rest).dropWhile (·.char == ' ')) ∧
        b.Holds (blockBodies t) := by
    intro indentation hready
    have hleast : column + 1 ≤ column + 2 := by omega
    have hstart : BlockText.Holds { indentation } [] := ⟨rfl, by simp, by simp⟩
    obtain ⟨b, line', hlines, hb, hready⟩ :=
      hstart.read_lines hready hleast hbodies (line + 1) rest
    obtain ⟨b', hend, hb'⟩ := hb.read_end hready (Nat.lt_succ_self column) hleast hrest line'
    exact ⟨b', line', hlines.trans hend, hb'⟩
  rcases blockHeader_cases t with hheader | ⟨hheader, hfirst⟩
  · obtain ⟨b, line', hlines, hb⟩ := hread (some (column + 2)) (Or.inl rfl)
    refine ⟨line', ?_⟩
    have hheader? := blockHeader?_fixed line start offset
      (unlines ((blockBodies t).map (indentLine (column + 2))) ++ rest)
    simp [block?, hheader, hheader?, hlines, hb.strip]
  · have hready : BlockText.Ready (column + 2) { indentation := none } (blockBodies t) := by
      refine Or.inr ⟨rfl, Nat.zero_le _, ?_⟩
      rw [find?_blockBodies]
      intro l hl c hc
      obtain ⟨whole, hwhole, rfl⟩ := Option.map_eq_some_iff.1 hl
      obtain ⟨blanks, -, heq⟩ := exists_eq_trimEnd_append whole
      obtain ⟨r, hr⟩ := List.head?_eq_some_iff.1 hc
      refine isSpace_of_isBlank (hfirst whole hwhole c ?_)
      rw [heq, hr]
      rfl
    obtain ⟨b, line', hlines, hb⟩ := hread none hready
    refine ⟨line', ?_⟩
    have hheader? := blockHeader?_detected line start offset
      (unlines ((blockBodies t).map (indentLine (column + 2))) ++ rest)
    simp [block?, hheader, hheader?, hlines, hb.strip]

end TouchPanel.Yaml
