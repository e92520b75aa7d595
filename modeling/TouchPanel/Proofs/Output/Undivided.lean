import TouchPanel.Proofs.Recipe.Read

/-!
# Texts of one YAML document

A line of three hyphens begins a YAML document and a line of three dots ends it. A node whose texts
have no such line is written without one: behind a key or a dash no text can make a line of that
kind, and blocks and fragments have the lines of their texts.
-/

namespace TouchPanel

open Text Recipe

/-! ## Lines and texts -/

namespace Text

/-- A line that begins or ends a YAML document. -/
def isBoundary (line : Text) : Bool := trim line == "---".toList || trim line == "...".toList

/-- A text without a line that begins or ends a YAML document. -/
def IsUndivided (t : Text) : Prop := ∀ l ∈ lines t, isBoundary l = false

instance (t : Text) : Decidable (IsUndivided t) :=
  List.decidableBAll (fun l => isBoundary l = false) (lines t)

variable {a b l t : Text} {c : Char}

theorem isChoice_isBoundary : IsChoice isBoundary where
  nil := by decide
  trimEnd l := by rw [isBoundary, isBoundary, trim_trimEnd]

/-- A character that stands on no line that begins or ends a document. -/
def isOrdinary (c : Char) : Bool := !isBlank c && c != '-' && c != '.'

theorem isBoundary_of_mem (hc : isOrdinary c = true) (h : c ∈ l) : isBoundary l = false := by
  obtain ⟨⟨hblank, hhyphen⟩, hdot⟩ : (isBlank c = false ∧ c ≠ '-') ∧ c ≠ '.' := by
    simpa [isOrdinary] using hc
  obtain ⟨a, b, ha, hb, hl⟩ := exists_eq_append_trim l
  have hmem : c ∈ trim l := by
    rw [hl] at h
    rcases List.mem_append.1 h with h | h
    · rcases List.mem_append.1 h with h | h
      · rw [List.all_eq_true.1 ha c h] at hblank
        cases hblank
      · exact h
    · rw [List.all_eq_true.1 hb c h] at hblank
      cases hblank
  rw [← Bool.not_eq_true]
  intro hboundary
  rw [isBoundary, Bool.or_eq_true, beq_iff_eq, beq_iff_eq] at hboundary
  rcases hboundary with heq | heq
  · rw [heq] at hmem
    exact hhyphen (List.eq_of_mem_replicate (n := 3) hmem)
  · rw [heq] at hmem
    exact hdot (List.eq_of_mem_replicate (n := 3) hmem)

theorem chosen_isBoundary_eq_nil_iff {ls : List Text} :
    chosen isBoundary ls = [] ↔ ∀ l ∈ ls, isBoundary l = false := by
  rw [chosen, List.map_eq_nil_iff, List.filter_eq_nil_iff]
  exact forall₂_congr fun l _ => by rw [Bool.not_eq_true]

theorem isUndivided_iff_chosen : IsUndivided t ↔ chosen isBoundary (lines t) = [] :=
  chosen_isBoundary_eq_nil_iff.symm

theorem isUndivided_iff_splitOn : IsUndivided t ↔ ∀ l ∈ t.splitOn '\n', isBoundary l = false := by
  rw [isUndivided_iff_chosen, ← chosen_splitOn isChoice_isBoundary, chosen_isBoundary_eq_nil_iff]

theorem isUndivided_of_line (h : '\n' ∉ l) : IsUndivided l ↔ isBoundary l = false := by
  rw [isUndivided_iff_splitOn, List.splitOn_eq_singleton h, List.forall_mem_singleton]

/-- A line with an ordinary character. -/
def IsOrdinaryLine (l : Text) : Prop := '\n' ∉ l ∧ ∃ c ∈ l, isOrdinary c = true

theorem IsOrdinaryLine.isUndivided (h : IsOrdinaryLine l) : IsUndivided l := by
  obtain ⟨hl, c, hmem, hc⟩ := h
  exact (isUndivided_of_line hl).2 (isBoundary_of_mem hc hmem)

theorem isUndivided_append_newline :
    IsUndivided (a ++ '\n' :: b) ↔ IsUndivided a ∧ IsUndivided b := by
  simp only [isUndivided_iff_chosen, ← chosen_splitOn isChoice_isBoundary]
  rw [splitOn_append_newline, chosen_append, List.append_eq_nil_iff]

/-- A text is built of its lines from the last one on. -/
theorem line_induction {P : Text → Prop} (line : ∀ l, '\n' ∉ l → P l)
    (cons : ∀ l t, '\n' ∉ l → P t → P (l ++ '\n' :: t)) (t : Text) : P t := by
  have hfree : ∀ l ∈ t.splitOn '\n', '\n' ∉ l := fun l => newline_not_mem_of_mem_splitOn
  have hne := List.splitOn_ne_nil '\n' t
  rw [← joinLines_splitOn t]
  generalize t.splitOn '\n' = ls at hfree hne
  induction ls with
  | nil => exact absurd rfl hne
  | cons l ls ih =>
    obtain ⟨hl, hls⟩ := List.forall_mem_cons.1 hfree
    by_cases hnil : ls = []
    · rw [hnil]
      exact line l hl
    · rw [joinLines_cons hnil]
      exact cons l _ hl (ih hls hnil)

/-- What stands in front of the first line of a text may change if that line is none of the kind
afterwards. -/
theorem IsUndivided.change_front {x y : Text} (ht : IsUndivided (x ++ t)) (hx : '\n' ∉ x)
    (hy : '\n' ∉ y)
    (h : ∀ l, '\n' ∉ l → isBoundary (x ++ l) = false → isBoundary (y ++ l) = false) :
    IsUndivided (y ++ t) := by
  have hline : ∀ l, '\n' ∉ l → IsUndivided (x ++ l) → IsUndivided (y ++ l) := by
    intro l hl hboundary
    rw [isUndivided_of_line (by simp [hx, hl])] at hboundary
    rw [isUndivided_of_line (by simp [hy, hl])]
    exact h l hl hboundary
  induction t using line_induction with
  | line l hl => exact hline l hl ht
  | cons l t hl _ =>
    rw [← List.append_assoc, isUndivided_append_newline] at ht ⊢
    exact ⟨hline l hl ht.1, ht.2⟩

/-- A line that has an ordinary character in the middle parts the lines of two texts. -/
theorem IsUndivided.append_cons (ha : IsUndivided a) (hc : isOrdinary c = true)
    (hb : IsUndivided b) : IsUndivided (a ++ c :: b) := by
  induction a using line_induction with
  | line l hl =>
    have hnewline : '\n' ∉ l ++ [c] := by
      rintro h
      rcases List.mem_append.1 h with h | h
      · exact hl h
      · rw [← List.mem_singleton.1 h] at hc
        cases hc
    rw [← List.singleton_append, ← List.append_assoc]
    exact IsUndivided.change_front (x := []) hb (by simp) hnewline fun r _ _ =>
      isBoundary_of_mem hc (by simp)
  | cons l t _ ih =>
    rw [isUndivided_append_newline] at ha
    rw [List.append_assoc, List.cons_append, isUndivided_append_newline]
    exact ⟨ha.1, ih ha.2⟩

theorem isUndivided_nil : IsUndivided [] := by decide

theorem isUndivided_of_ordinary (h : ∀ c ∈ t, isOrdinary c = true) : IsUndivided t := by
  induction t with
  | nil => exact isUndivided_nil
  | cons c t ih =>
    obtain ⟨hc, ht⟩ := List.forall_mem_cons.1 h
    exact isUndivided_nil.append_cons hc (ih ht)

/-- A line behind the dash of a block list. -/
theorem IsUndivided.dashed (h : IsUndivided t) : IsUndivided ('-' :: ' ' :: t) := by
  refine IsUndivided.change_front (x := []) (y := ['-', ' ']) h (by simp) (by decide) ?_
  intro l _ _
  obtain ⟨r, hr⟩ : trim (['-', ' '] ++ l) <+: '-' :: ' ' :: l := trimEnd_isPrefix _
  rw [← Bool.not_eq_true]
  intro hboundary
  rw [isBoundary, Bool.or_eq_true, beq_iff_eq, beq_iff_eq] at hboundary
  rcases hboundary with heq | heq
  · rw [heq] at hr
    cases hr
  · rw [heq] at hr
    cases hr

/-! ### Trimming -/

theorem trim_blank_append (hb : allBlank b = true) (t : Text) : trim (b ++ t) = trim t := by
  rw [trim, trimStart, List.dropWhile_append_of_pos (List.all_eq_true.1 hb)]
  rfl

theorem isBoundary_blank_append (hb : allBlank b = true) (l : Text) :
    isBoundary (b ++ l) = isBoundary l := by
  rw [isBoundary, isBoundary, trim_blank_append hb]

theorem isUndivided_blank_append (hb : allBlank b = true) :
    IsUndivided (b ++ t) ↔ IsUndivided t := by
  induction b using line_induction with
  | line l hl =>
    have hsame := isBoundary_blank_append hb
    constructor
    · intro h
      exact h.change_front (y := []) hl (by simp) fun r _ hr => (hsame r).symm.trans hr
    · intro h
      exact IsUndivided.change_front (x := []) h (by simp) hl fun r _ hr => (hsame r).trans hr
  | cons l b hl ih =>
    obtain ⟨hline, hrest⟩ : allBlank l = true ∧ allBlank b = true := by
      rw [allBlank_append, Bool.and_eq_true] at hb
      exact ⟨hb.1, hb.2⟩
    have hempty : IsUndivided l := by
      rw [isUndivided_of_line hl, ← List.append_nil l, isBoundary_blank_append hline]
      decide
    rw [List.append_assoc, List.cons_append, isUndivided_append_newline, ih hrest]
    exact and_iff_right hempty

theorem isUndivided_trimEnd : IsUndivided (trimEnd t) ↔ IsUndivided t := by
  rw [isUndivided_iff_chosen, isUndivided_iff_chosen, chosen_lines_trimEnd isChoice_isBoundary]

theorem isUndivided_trim : IsUndivided (trim t) ↔ IsUndivided t := by
  rw [trim, isUndivided_trimEnd]
  conv_rhs => rw [← leadingBlanks_append_trimStart t]
  exact (isUndivided_blank_append (Document.allBlank_leadingBlanks t)).symm

end Text

/-! ## Rows -/

namespace Row

variable {rows : List Row}

theorem isUndivided_render (h : Each IsUndivided rows) (n : Nat) : IsUndivided (render n rows) := by
  induction rows with
  | nil => exact isUndivided_nil
  | cons r rows ih =>
    obtain ⟨hr, hrows⟩ := List.forall_mem_cons.1 h
    have hline : IsUndivided (line n r) := by
      unfold line
      split
      · exact isUndivided_nil
      · exact (isUndivided_blank_append (Document.allBlank_spaces _)).2 hr
    rw [render_eq_unlines, List.map_cons, unlines, List.flatMap_cons, List.append_assoc,
      List.singleton_append, isUndivided_append_newline]
    refine ⟨hline, ?_⟩
    have hrest := ih hrows
    rwa [render_eq_unlines] at hrest

end Row

/-! ## Numbers -/

namespace Decimal

theorem isDigit_of_mem_ofNat {n : Nat} {c : Char} (h : c ∈ ofNat n) : c.isDigit = true :=
  Nat.isDigit_of_mem_toDigits (by omega) (by omega) h

theorem isOrdinary_of_isDigit {c : Char} (h : c.isDigit = true) : isOrdinary c = true := by
  have hbounds := Char.isDigit_iff_toNat.1 h
  have hhyphen : c ≠ '-' := by
    rintro rfl
    cases h
  have hdot : c ≠ '.' := by
    rintro rfl
    cases h
  simp [isOrdinary, Node.isBlank_of_isDigit h, hhyphen, hdot]

theorem exists_ofNat (n : Nat) : ∃ c r, ofNat n = c :: r ∧ isOrdinary c = true := by
  have hne : ofNat n ≠ [] := Nat.toDigits_ne_nil
  obtain ⟨c, r, hcons⟩ := List.exists_cons_of_ne_nil hne
  have hmem : c ∈ ofNat n := by simp [hcons]
  exact ⟨c, r, hcons, isOrdinary_of_isDigit (isDigit_of_mem_ofNat hmem)⟩

theorem newline_not_mem_ofNat (n : Nat) : '\n' ∉ ofNat n := fun h => by
  cases isDigit_of_mem_ofNat h

theorem isOrdinaryLine_ofInt (n : Int) : IsOrdinaryLine (ofInt n) := by
  obtain ⟨c, r, hcons, hc⟩ := exists_ofNat n.natAbs
  refine ⟨Node.newline_not_mem_ofInt n, c, ?_, hc⟩
  unfold ofInt
  rw [hcons]
  split <;> simp

variable {digits r : Text} {c : Char}

theorem isOrdinaryLine_positional (hdigits : digits = c :: r) (hc : isOrdinary c = true)
    (h : '\n' ∉ digits) (places : Int) : IsOrdinaryLine (positional digits places) := by
  unfold positional
  split
  · exact ⟨by simp [h, List.mem_replicate], '0', List.mem_cons_self, by decide⟩
  · next hplaces =>
    have htake : '\n' ∉ digits.take places.toNat := fun hmem => h (List.mem_of_mem_take hmem)
    have hdrop : '\n' ∉ digits.drop places.toNat := fun hmem => h (List.mem_of_mem_drop hmem)
    have hmem : c ∈ digits.take places.toNat := by
      obtain ⟨n, hn⟩ := Nat.exists_eq_succ_of_ne_zero (by omega : places.toNat ≠ 0)
      rw [hn, hdigits, List.take_succ_cons]
      exact List.mem_cons_self
    dsimp only
    refine ⟨?_, c, by simp [hmem], hc⟩
    split <;> simp [htake, hdrop, List.mem_replicate]

theorem isOrdinaryLine_scientific (h : '\n' ∉ digits) (plusSign : Bool) (exponent : Int) :
    IsOrdinaryLine (scientific plusSign digits exponent) := by
  have htake : '\n' ∉ digits.take 1 := fun hmem => h (List.mem_of_mem_take hmem)
  have hdrop : '\n' ∉ digits.drop 1 := fun hmem => h (List.mem_of_mem_drop hmem)
  unfold scientific
  generalize digits.drop 1 = rest at hdrop
  dsimp only
  refine ⟨?_, 'e', List.mem_append_left _ (List.mem_append_right _ ?_), by decide⟩
  · split <;> split <;> simp [htake, hdrop, Node.newline_not_mem_ofInt]
  · split <;> simp

theorem isOrdinaryLine_magnitude (l : Layout) (m : Nat) (q : Int) :
    IsOrdinaryLine (l.magnitude m q) := by
  obtain ⟨c, r, hcons, hc⟩ := exists_ofNat (shortest l.tie m q).digits
  have hline := newline_not_mem_ofNat (shortest l.tie m q).digits
  unfold Layout.magnitude
  dsimp only
  split
  · exact ⟨by decide, '0', by decide, by decide⟩
  · split
    · exact isOrdinaryLine_positional hcons hc hline _
    · exact isOrdinaryLine_scientific hline _ _

end Decimal

theorem isOrdinaryLine_documentFloat (x : Float) : IsOrdinaryLine (documentFloat x) := by
  have hzero : IsOrdinaryLine "0.0".toList := ⟨by decide, '0', by decide, by decide⟩
  unfold documentFloat Decimal.Layout.text
  cases Binary64.parts x with
  | finite negative m q =>
    obtain ⟨hline, c, hmem, hc⟩ := Decimal.isOrdinaryLine_magnitude documentNumber m q
    dsimp only
    split
    · exact ⟨by simp [hline], c, List.mem_cons_of_mem _ hmem, hc⟩
    · exact ⟨hline, c, hmem, hc⟩
  | _ => exact hzero

/-! ## Nodes -/

namespace Node

/-- What is written of the strings and keys of a node has no line that begins or ends a
document. -/
inductive Undivided : Node → Prop
  | str {s : String} (h : IsUndivided s.toList) : Undivided (.str s)
  | ident {s : String} (h : IsUndivided s.toList) : Undivided (.ident s)
  | int (n : Int) : Undivided (.int n)
  | float (x : Float) : Undivided (.float x)
  | bool (b : Bool) : Undivided (.bool b)
  | lambda {code : String} (h : IsUndivided code.toList) : Undivided (.lambda code)
  | raw {s : String} (h : IsUndivided s.toList) : Undivided (.raw s)
  | text {s : String} (h : IsUndivided s.toList) : Undivided (.text s)
  | fragment {s : String} (h : IsUndivided s.toList) : Undivided (.fragment s)
  | map {entries : Mapping} (keys : ∀ e ∈ entries, IsUndivided e.1.toList)
      (values : ∀ e ∈ entries, Undivided e.2) : Undivided (.map entries)
  | list {items : List Node} (h : ∀ n ∈ items, Undivided n) : Undivided (.list items)

theorem isUndivided_fragmentRows {t : Text} (h : IsUndivided t) :
    Row.Each IsUndivided (fragmentRows t) := by
  intro r hr
  obtain ⟨l, hl, rfl⟩ := List.mem_map.1 hr
  have hmem : l ∈ lines t := List.mem_of_mem_filter hl
  exact isUndivided_trim.2 ((isUndivided_of_line (newline_not_mem_of_mem_lines hmem)).2 (h l hmem))

theorem isUndivided_blockRows {t : Text} (h : IsUndivided t) :
    Row.Each IsUndivided (blockRows t) := by
  intro r hr
  obtain ⟨l, hl, rfl⟩ := List.mem_map.1 hr
  split
  · exact isUndivided_nil
  · exact isUndivided_trimEnd.2 ((isUndivided_of_line (newline_not_mem_of_mem_lines hl)).2 (h l hl))

theorem isOrdinaryLine_quote (t : Text) : IsOrdinaryLine (quote t) :=
  ⟨newline_not_mem_quote t, '"', List.mem_cons_self, by decide⟩

variable {node : Node}

theorem Undivided.inline (h : Undivided node) : ∀ scalar ∈ node.inline?, IsUndivided scalar := by
  intro scalar hscalar
  cases inline_of_mem hscalar with
  | str s => exact (isOrdinaryLine_quote _).isUndivided
  | ident s =>
    cases h with
    | ident h => exact h
  | raw s =>
    cases h with
    | raw h => exact h
  | int n => exact (Decimal.isOrdinaryLine_ofInt n).isUndivided
  | float x => exact (isOrdinaryLine_documentFloat x).isUndivided
  | bool b => cases b <;> decide
  | lambda short =>
    cases h with
    | lambda h =>
      have hcode := (isUndivided_blank_append (b := [' ']) rfl).2 h
      exact (by decide : IsUndivided "!lambd".toList).append_cons (c := 'a') (by decide) hcode
  | noEntries | noItems => decide

theorem isRowwise_undivided : IsRowwise Undivided IsUndivided IsUndivided where
  scalar h := h.inline
  entry h e he := by
    cases h with
    | map keys values => exact ⟨keys e he, values e he⟩
  item h n hn := by
    cases h with
    | list h => exact h n hn
  value hkey h := hkey.append_cons (by decide) ((isUndivided_blank_append (b := [' ']) rfl).2 h)
  opening hkey := hkey.append_cons (by decide) isUndivided_nil
  dashed h := h.dashed
  dash := by decide
  header t := by
    unfold blockHeader
    split
    · split <;> exact ⟨by decide, by decide⟩
    · exact ⟨by decide, by decide⟩
  block h := by
    rcases h with h | h | h
    · cases h with
      | str h => exact isUndivided_blockRows h
    · cases h with
      | text h => exact isUndivided_blockRows h
    · cases h with
      | lambda h => exact isUndivided_blockRows h
  fragment h := by
    cases h with
    | fragment h => exact isUndivided_fragmentRows h

theorem isUndivided_renderList {items : List Node} (h : ∀ n ∈ items, Undivided n) (n : Nat) :
    IsUndivided (renderList items n) :=
  Row.isUndivided_render (isRowwise_undivided.listRows h) n

end Node

theorem Mapping.isUndivided_render {m : Mapping}
    (h : ∀ e ∈ m, IsUndivided e.1.toList ∧ e.2.Undivided) (n : Nat) : IsUndivided (m.render n) :=
  Row.isUndivided_render (Node.isRowwise_undivided.mapRows h) n

end TouchPanel
