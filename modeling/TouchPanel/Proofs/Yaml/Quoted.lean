import TouchPanel.Proofs.Text.Replace
import TouchPanel.Yaml.Value

/-!
# Reading quoted text back

A text between quotes is a document of its own, and its value is the text. This needs that each
character of the text is escaped or is read as itself: a document may not hold some control
characters, and a line break between quotes is read as a space or takes the blanks beside it
along.
-/

namespace TouchPanel.Yaml

open Text

/-- Whether a character that is written between quotes is read as itself. -/
def isReadable (c : Char) : Bool :=
  c.toNat < 0x20 || (isAllowed c && c != '\x85' && !isBreak c)

/-! ## Escapes -/

theorem hexValue?_hexDigit (n : Nat) : Json.Token.hexValue? (hexDigit n) = some (n % 16) := by
  have hdigits : ∀ k < 16, Json.Token.hexValue? (Nat.digitChar k) = some k := by decide
  exact hdigits _ (Nat.mod_lt n (by omega))

theorem hexValue?_of_lt {n : Nat} (h : n < 0x20) :
    hexValue? ['0', '0', hexDigit (n / 16), hexDigit n] = some n := by
  have hzero : Json.Token.hexValue? '0' = some 0 := by decide
  simp only [hexValue?, List.foldlM_cons, List.foldlM_nil, hzero, hexValue?_hexDigit,
    Option.map_some, Option.pure_def, Option.bind_eq_bind, Option.bind_some, Option.some.injEq]
  omega

/-- A character is written as it is, or what is written for it is read as that character. -/
theorem escape_read (c : Char) :
    (escape c = [c] ∧ c ≠ '"' ∧ c ≠ '\\' ∧ 0x20 ≤ c.toNat) ∨
      ∃ e, escape c = '\\' :: e ∧ ∀ s : Source, s.map (·.char) = e → ∀ r,
        Source.next isBreak (s ++ r) = false ∧ escape? (s ++ r) = some (c, e.length) := by
  -- a backslash and one letter
  have hletter : ∀ l : Char, isBreak l = false → hexEscape? l = none → letterEscape? l = some c →
      ∀ s : Source, s.map (·.char) = [l] → ∀ r,
        Source.next isBreak (s ++ r) = false ∧ escape? (s ++ r) = some (c, [l].length) := by
    intro l hbreak hhex hread s hs r
    obtain ⟨g, rfl, rfl⟩ := List.map_eq_singleton_iff.1 hs
    exact ⟨hbreak, by simp [escape?, hhex, hread]⟩
  unfold escape
  split_ifs with hquote hslash hn hr ht hb hf hcontrol
  · exact Or.inr ⟨['"'], rfl, hletter '"' (by decide) rfl (by rw [hquote]; rfl)⟩
  · exact Or.inr ⟨['\\'], rfl, hletter '\\' (by decide) rfl (by rw [hslash]; rfl)⟩
  · exact Or.inr ⟨['n'], rfl, hletter 'n' (by decide) rfl (by rw [hn]; rfl)⟩
  · exact Or.inr ⟨['r'], rfl, hletter 'r' (by decide) rfl (by rw [hr]; rfl)⟩
  · exact Or.inr ⟨['t'], rfl, hletter 't' (by decide) rfl (by rw [ht]; rfl)⟩
  · exact Or.inr ⟨['b'], rfl, hletter 'b' (by decide) rfl (by rw [hb]; rfl)⟩
  · exact Or.inr ⟨['f'], rfl, hletter 'f' (by decide) rfl (by rw [hf]; rfl)⟩
  · refine Or.inr ⟨_, rfl, fun s hs r => ?_⟩
    obtain ⟨g, digits, rfl, hg, hdigits⟩ := List.map_eq_cons_iff.1 hs
    have hlength : digits.length = 4 := by
      rw [← List.length_map (·.char), hdigits]
      rfl
    have hvalid : c.toNat.isValidChar := c.valid
    have hread : escape? (g :: digits ++ r) = some (Char.ofNatAux c.toNat hvalid, 5) := by
      have hhex : hexEscape? g.char = some 4 := by rw [hg]; rfl
      have hlong : ¬ (digits ++ r).length < 4 := by rw [List.length_append]; omega
      rw [List.cons_append, escape?, hhex]
      dsimp only
      rw [if_neg hlong, List.take_left' hlength, hdigits, hexValue?_of_lt hcontrol]
      dsimp only
      rw [dif_pos hvalid]
    refine ⟨?_, hread⟩
    rw [List.cons_append, Source.next, hg]
    rfl
  · exact Or.inl ⟨rfl, hquote, hslash, by omega⟩

/-! ## Quoted scalars -/

/-- A source that shows a text, nothing of which stands at the beginning of a line. -/
def Spells (t : Text) (s : Source) : Prop := s.map (·.char) = t ∧ ∀ g ∈ s, g.column ≠ 0

variable {t : Text} {s r : Source} {g : Glyph}

theorem not_atDocumentIndicator (h : g.column ≠ 0) (r : Source) :
    Source.atDocumentIndicator (g :: r) = false := by
  have hindicates : ∀ c, Source.indicates c (g :: r) = false := by
    intro c
    unfold Source.indicates
    split
    · next heq =>
      obtain ⟨rfl, -⟩ := List.cons.inj heq
      simp [h]
    · rfl
  rw [Source.atDocumentIndicator, hindicates, hindicates]
  rfl

theorem quoted?_skip (quote : Char) (gap : Gap) (a r : Source) :
    quoted? quote a.length gap (a ++ r) = quoted? quote 0 gap r := by
  induction a with
  | nil => rfl
  | cons g a ih => exact ih

/-- What is written between quotes is read as the text. -/
theorem quoted?_of_spells (ht : ∀ c ∈ t, isReadable c = true) (hs : Spells (t.flatMap escape) s)
    (hg : g.char = '"') (hcolumn : g.column ≠ 0) (blanks : Text) (r : Source) :
    quoted? '"' 0 (.spaces blanks) (s ++ g :: r) = some (blanks ++ t, r) := by
  induction t generalizing s blanks with
  | nil =>
    obtain rfl := List.map_eq_nil_iff.1 hs.1
    have hindicator := not_atDocumentIndicator hcolumn r
    rw [List.nil_append, quoted?, hg, hindicator]
    simp [isSpace, isBreak, Gap.text]
  | cons c t ih =>
    obtain ⟨hc, ht⟩ := List.forall_mem_cons.1 ht
    obtain ⟨hchars, hcolumns⟩ := hs
    rw [List.flatMap_cons] at hchars
    rcases escape_read c with ⟨hescape, hquote, hslash, hprintable⟩ | ⟨e, hescape, hread⟩
    · rw [hescape] at hchars
      obtain ⟨x, s, rfl, hx, hrest⟩ := List.map_eq_cons_iff.1 hchars
      obtain ⟨hxcolumn, hcolumns⟩ := List.forall_mem_cons.1 hcolumns
      have hbreak : isBreak c = false := by
        have hnot : ¬ c.toNat < 0x20 := by omega
        simp only [isReadable, hnot, decide_false, Bool.false_or, Bool.and_eq_true,
          Bool.not_eq_true'] at hc
        exact hc.2
      have hindicator := not_atDocumentIndicator hxcolumn (s ++ g :: r)
      rw [List.cons_append, quoted?, hx, hbreak, hindicator]
      by_cases hspace : isSpace c = true
      · rw [if_pos hspace]
        have hgap := ih ht ⟨hrest, hcolumns⟩ (blanks ++ [c])
        rwa [List.append_assoc] at hgap
      · rw [if_neg hspace]
        have hgap := ih ht ⟨hrest, hcolumns⟩ []
        simp [hquote, hslash, Gap.none, hgap, Gap.text]
    · rw [hescape, List.cons_append] at hchars
      obtain ⟨x, s, rfl, hx, hrest⟩ := List.map_eq_cons_iff.1 hchars
      obtain ⟨hxcolumn, hcolumns⟩ := List.forall_mem_cons.1 hcolumns
      obtain ⟨escaped, s, rfl, hescaped, hrest⟩ := List.map_eq_append_iff.1 hrest
      obtain ⟨hbreak, hchar⟩ := hread escaped hescaped (s ++ g :: r)
      have hindicator := not_atDocumentIndicator hxcolumn (escaped ++ s ++ g :: r)
      have hlength : e.length = escaped.length := by rw [← hescaped, List.length_map]
      have hgap := ih ht ⟨hrest, fun y hy => hcolumns y (List.mem_append_right _ hy)⟩ []
      rw [List.cons_append, quoted?, hx, hindicator, List.append_assoc, hbreak, hchar]
      simp [isSpace, isBreak, Gap.none, hlength, quoted?_skip, hgap, Gap.text]

/-! ## Quoted documents -/

/-- Whether a character is no line break in a source. -/
def isInline (c : Char) : Bool := c != '\r' && c != '\x85' && !isBreak c

theorem place_cons {c : Char} (hc : isInline c = true) (line column offset : Nat) (r : Text) :
    Source.place line column offset (c :: r) =
      ⟨c, line, column, offset⟩ :: Source.place line (column + 1) (offset + c.utf8Size) r := by
  simp only [isInline, Bool.and_eq_true, bne_iff_ne, Bool.not_eq_true'] at hc
  obtain ⟨⟨hreturn, hnext⟩, hbreak⟩ := hc
  have hnewline : c ≠ '\n' := by
    rintro rfl
    cases hbreak
  rw [Source.place]
  · simp [hreturn, hnext, hnewline, hbreak]
  · intro r hr
    exact absurd hr hreturn

theorem place_inline {t : Text} (ht : ∀ c ∈ t, isInline c = true) (line column offset : Nat) :
    (Source.place line column offset t).map (·.char) = t ∧
      ∀ g ∈ Source.place line column offset t, column ≤ g.column := by
  induction t generalizing column offset with
  | nil => exact ⟨rfl, fun g hg => nomatch hg⟩
  | cons c t ih =>
    obtain ⟨hc, ht⟩ := List.forall_mem_cons.1 ht
    obtain ⟨hchars, hcolumns⟩ := ih ht (column + 1) (offset + c.utf8Size)
    rw [place_cons hc]
    refine ⟨congrArg (c :: ·) hchars, fun g hg => ?_⟩
    rcases List.mem_cons.1 hg with rfl | hg
    · exact Nat.le_refl _
    · exact Nat.le_of_succ_le (hcolumns g hg)

theorem escape_allowed {c : Char} (hc : isReadable c = true) :
    ∀ x ∈ escape c, isAllowed x = true ∧ isInline x = true := by
  have hdigit : ∀ n, isAllowed (hexDigit n) = true ∧ isInline (hexDigit n) = true := by
    have hdigits : ∀ k < 16, isAllowed (Nat.digitChar k) = true ∧
        isInline (Nat.digitChar k) = true := by decide
    exact fun n => hdigits _ (Nat.mod_lt n (by omega))
  unfold escape
  split_ifs with hquote hslash hn hr ht hb hf hcontrol
  all_goals simp only [List.forall_mem_cons, List.not_mem_nil, IsEmpty.forall_iff, forall_const,
    and_true, hdigit]
  all_goals first | decide | skip
  have hallowed : isAllowed c = true ∧ c ≠ '\x85' ∧ isBreak c = false := by
    simpa [isReadable, hcontrol, and_assoc] using hc
  exact ⟨hallowed.1, by simp [isInline, hr, hallowed.2.1, hallowed.2.2]⟩

/-- The source of a text between quotes. -/
theorem exists_source_quote {t : Text} (ht : ∀ c ∈ t, isReadable c = true) :
    ∃ g s close, Source.ofText? (quote t) = some (g :: (s ++ [close])) ∧ g.char = '"' ∧
      Spells (t.flatMap escape) s ∧ close.char = '"' ∧ close.column ≠ 0 := by
  have hescaped : ∀ c ∈ t.flatMap escape ++ ['"'], isAllowed c = true ∧ isInline c = true := by
    intro c hc
    rcases List.mem_append.1 hc with hc | hc
    · obtain ⟨x, hx, hc⟩ := List.mem_flatMap.1 hc
      exact escape_allowed (ht x hx) c hc
    · obtain rfl := List.mem_singleton.1 hc
      exact ⟨by decide, by decide⟩
  have hallowed : (quote t).all isAllowed = true := by
    rw [List.all_eq_true]
    intro c hc
    rcases List.mem_cons.1 hc with rfl | hc
    · decide
    · exact (hescaped c hc).1
  have hplace : Source.place 0 0 0 (quote t) =
      ⟨'"', 0, 0, 0⟩ :: Source.place 0 1 1 (t.flatMap escape ++ ['"']) := rfl
  obtain ⟨hchars, hcolumns⟩ := place_inline (fun c hc => (hescaped c hc).2) 0 1 1
  obtain ⟨s, e, hs, hbody, he⟩ := List.map_eq_append_iff.1 hchars
  obtain ⟨close, rfl, hclose⟩ := List.map_eq_singleton_iff.1 he
  rw [hs] at hcolumns
  refine ⟨⟨'"', 0, 0, 0⟩, s, close, ?_, rfl, ⟨hbody, fun y hy => ?_⟩, hclose, ?_⟩
  · rw [Source.ofText?, if_pos hallowed, hplace, hs]
  · exact Nat.ne_of_gt (hcolumns y (List.mem_append_left _ hy))
  · exact Nat.ne_of_gt (hcolumns close (List.mem_append_right _ (List.mem_singleton.2 rfl)))

theorem skip_quote (hg : g.char = '"') (r : Source) :
    Lexer.skip false false true (g :: r) = (true, g :: r) := by
  simp [Lexer.skip, hg, isBreak, byteOrderMark]

theorem token?_quote (hg : g.char = '"') (r : Source) (l : Lexer) :
    l.token? g r = l.keyed? g
      ((quoted? '"' 0 .none r).map fun (t, rest) => (.scalar .doubleQuoted t, rest)) := by
  have hindicates : ∀ c, c ≠ '"' → Source.indicates c (g :: r) = false := by
    intro c hc
    unfold Source.indicates
    split
    · next heq =>
      obtain ⟨rfl, -⟩ := List.cons.inj heq
      simp [hg, Ne.symm hc]
    · rfl
  simp [Lexer.token?, hg, hindicates]

/-- At the end of the source the tokens are those that have been read, unless a collection is
open or a key has begun that has to be one. -/
theorem run?_end (fuel : Nat) {l : Lexer} (hrest : l.rest = []) (hcolumns : l.columns = [])
    (hkey : Lexer.isRequired l.key = false) : Lexer.run? (fuel + 1) l = some l.tokens := by
  have hclose : l.closeBlocks (fun _ => true) = l := by
    unfold Lexer.closeBlocks
    split
    · rfl
    · cases l
      subst hcolumns
      simp
  rw [Lexer.run?, hrest]
  simp [Lexer.skip, hclose, Lexer.dropKey?, hkey]

/-- Reading goes to the closing quote in one step, and nothing is left then. -/
theorem tokens?_quote {t : Text} (ht : ∀ c ∈ t, isReadable c = true) :
    tokens? (quote t) = some [.scalar .doubleQuoted t] := by
  obtain ⟨g, s, close, hsource, hg, hs, hclose, hcolumn⟩ := exists_source_quote ht
  have hread : quoted? '"' 0 .none (s ++ [close]) = some (t, []) :=
    quoted?_of_spells ht hs hclose hcolumn [] []
  have hrun : ∀ fuel, Lexer.run? (fuel + 2) { rest := g :: (s ++ [close]) } =
      some #[.scalar .doubleQuoted t] := by
    intro fuel
    have hskip : Lexer.skip (!([] : List (Option KeyPlace)).isEmpty) false true
        (g :: (s ++ [close])) = (true, g :: (s ++ [close])) := skip_quote hg _
    have htoken : Lexer.token? g (s ++ [close]) { rest := g :: (s ++ [close]) } =
        some { rest := [], tokens := #[.scalar .doubleQuoted t], keyAllowed := false,
               key := some ⟨0, g.line, g.column, g.offset, false⟩ } := by
      rw [token?_quote hg, hread]
      rfl
    have hstep : Lexer.run? (fuel + 2) { rest := g :: (s ++ [close]) } =
        (Lexer.token? g (s ++ [close]) { rest := g :: (s ++ [close]) }).bind
          (Lexer.run? (fuel + 1)) := by
      rw [Lexer.run?]
      simp only [Lexer.inFlow, hskip]
      rfl
    rw [hstep, htoken, Option.bind_some]
    exact run?_end fuel rfl rfl rfl
  rw [tokens?, hsource]
  simp [hrun]

/-- A document that is one quoted scalar has the text of the scalar as its value. -/
theorem ofText?_of_scalar {t x : Text} {style : Style} (hstyle : style ≠ .plain)
    (h : tokens? t = some [.scalar style x]) :
    Value.ofText? t = some (.string (String.ofList x)) := by
  have htree : Tree.ofText? t = some (.scalar {} style x) := by
    rw [Tree.ofText?, h]
    rfl
  have hterm : Term.ofText? t = some (.scalar none style x) := by
    rw [Term.ofText?, htree, Option.bind_some, Term.ofTree?, Term.expand]
    rfl
  have hvalue : Value.ofUntagged? style x = some (.string (String.ofList x)) := if_neg hstyle
  rw [Value.ofText?, hterm, Option.bind_some, show Value.ofTerm? (.scalar none style x) = _
    from hvalue]
  rfl

/-- What is written between quotes is a document whose value is the text. -/
theorem ofText?_quote {t : Text} (ht : ∀ c ∈ t, isReadable c = true) :
    Value.ofText? (quote t) = some (.string (String.ofList t)) :=
  ofText?_of_scalar (by decide) (tokens?_quote ht)

end TouchPanel.Yaml
