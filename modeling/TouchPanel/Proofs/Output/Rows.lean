import TouchPanel.Output.Rows
import TouchPanel.Proofs.Text.Replace

/-!
# Lines of rendered nodes

Each row of a node becomes one line if no text that is written as it is has a newline. The
last line of a node ends as its last value does.
-/

namespace TouchPanel

open Text

/-! ## Ends of texts -/

namespace Text

/-- A text whose last character is no blank. -/
def EndsClean (t : Text) : Prop := ∃ c ∈ t.getLast?, isBlank c = false

theorem EndsClean.append {t : Text} (h : EndsClean t) (a : Text) : EndsClean (a ++ t) := by
  obtain ⟨c, hc, hblank⟩ := h
  refine ⟨c, ?_, hblank⟩
  rw [Option.mem_def] at hc ⊢
  rw [List.getLast?_append, hc]
  rfl

theorem endsClean_concat (t : Text) {c : Char} (h : isBlank c = false) : EndsClean (t ++ [c]) :=
  ⟨c, by simp, h⟩

theorem EndsClean.eq_concat {t : Text} (h : EndsClean t) :
    ∃ a c, t = a ++ [c] ∧ isBlank c = false := by
  obtain ⟨c, hc, hblank⟩ := h
  obtain ⟨a, rfl⟩ := List.getLast?_eq_some_iff.1 hc
  exact ⟨a, c, rfl, hblank⟩

theorem EndsClean.not_allBlank {t : Text} (h : EndsClean t) : allBlank t = false := by
  obtain ⟨a, c, rfl, hc⟩ := h.eq_concat
  simp [allBlank, hc]

theorem EndsClean.ne_nil {t : Text} (h : EndsClean t) : t ≠ [] := by
  rintro rfl
  obtain ⟨c, hc, -⟩ := h
  cases hc

theorem EndsClean.trimEnd_eq {t : Text} (h : EndsClean t) : trimEnd t = t := by
  obtain ⟨a, c, rfl, hc⟩ := h.eq_concat
  rw [trimEnd_append_of_not_blank a (by simp [allBlank, hc])]
  simp [trimEnd, dropEndWhile, hc]

theorem EndsClean.bare_eq {t : Text} (h : EndsClean t) : bare t = t := by
  rw [← h.trimEnd_eq, bare_trimEnd]

theorem endsClean_trimEnd {t : Text} (h : allBlank t = false) : EndsClean (trimEnd t) := by
  have hne : trimEnd t ≠ [] := by
    rw [Ne, trimEnd_eq_nil_iff, h]
    decide
  have hlast : ¬ isBlank ((trimEnd t).getLast hne) = true := List.rdropWhile_last_not isBlank t hne
  exact ⟨_, List.getLast?_eq_some_getLast hne, by simpa using hlast⟩

theorem endsClean_trim {t : Text} (h : allBlank t = false) : EndsClean (trim t) := by
  refine endsClean_trimEnd ?_
  have hsplit := leadingBlanks_append_trimStart t
  rw [← hsplit, allBlank_append] at h
  have hlead : allBlank (leadingBlanks t) = true := List.all_takeWhile
  rwa [hlead, Bool.true_and] at h

theorem tidyEnd_concat (init : List Text) {last : Text} (h : EndsClean last) :
    tidyEnd (init ++ [last]) = init ++ [last] := by
  induction init with
  | nil => simp [tidyEnd, h.not_allBlank, h.trimEnd_eq]
  | cons l init ih =>
    have hblank : (init ++ [last]).all allBlank = false := by simp [h.not_allBlank]
    rw [List.cons_append, tidyEnd, hblank, ih]
    rfl

theorem unlines_concat (init : List Text) (last : Text) :
    unlines (init ++ [last]) = joinLines (init ++ [last]) ++ ['\n'] := by
  rw [joinLines_concat, unlines, unlines, List.flatMap_append, List.flatMap_singleton,
    List.append_assoc]

theorem trimEnd_unlines_concat (init : List Text) {last : Text} (h : EndsClean last) :
    trimEnd (unlines (init ++ [last])) = joinLines (init ++ [last]) := by
  rw [unlines_concat, trimEnd_append_blank _ rfl, trimEnd_joinLines, tidyEnd_concat init h]

theorem dropNewlines_unlines_concat (init : List Text) {last : Text} (h : EndsClean last) :
    dropEndWhile (· == '\n') (unlines (init ++ [last])) = joinLines (init ++ [last]) := by
  obtain ⟨a, c, rfl, hc⟩ := h.eq_concat
  have hne : c ≠ '\n' := by
    rintro rfl
    cases hc
  rw [unlines_concat, joinLines_concat, dropEndWhile, List.reverse_append]
  simp [hne]

/-- The last line of a text ends as the text. -/
theorem endsClean_getLast_lines {t : Text} (h : EndsClean t) :
    ∃ l ∈ (lines t).getLast?, EndsClean l := by
  obtain ⟨init, last, -, ht, hinit, hlast⟩ := exists_splitOn_concat t
  obtain ⟨c, hc, hblank⟩ := h
  rw [ht, Option.mem_def, List.getLast?_append, Option.or_eq_some_iff] at hc
  rcases hc with hc | ⟨hnone, hc⟩
  · have hne : last ≠ [] := by
      rintro rfl
      cases hc
    refine ⟨last, ?_, c, hc, hblank⟩
    rw [ht, lines_unlines_append hinit hlast hne]
    simp
  · -- the text would end with a newline, which is a blank
    obtain rfl := closed_flatten (isLine_of_mem_map hinit) c (by rwa [← List.flatMap_def])
    cases hblank

end Text

/-! ## Rows -/

namespace Row

/-- The line of a row. -/
def line (n : Nat) (r : Row) : Text := if r.body = [] then [] else spaces (n + r.indent) ++ r.body

theorem render_eq_unlines (n : Nat) (rows : List Row) :
    render n rows = unlines (rows.map (line n)) := by
  rw [render, unlines, List.flatMap_map]
  congr 1
  funext r
  unfold text line
  split <;> simp

theorem line_shift (n m : Nat) (r : Row) : line n (shift m r) = line (n + m) r := by
  unfold line shift
  rw [Nat.add_assoc]

theorem newline_not_mem_line (n : Nat) {r : Row} (h : '\n' ∉ r.body) : '\n' ∉ line n r := by
  unfold line spaces
  split
  · simp
  · simp [h, List.mem_replicate]

/-- Rows of which each is one line. -/
def AllFree (rows : List Row) : Prop := ∀ r ∈ rows, '\n' ∉ r.body

/-- Rows of which the last one ends clean. -/
def LastClean (rows : List Row) : Prop := ∃ r ∈ rows.getLast?, EndsClean r.body

/-- Rows whose bodies all have a property. -/
def Each (P : Text → Prop) (rows : List Row) : Prop := ∀ r ∈ rows, P r.body

section

variable {P : Text → Prop} {rows : List Row}

theorem Each.cons {r : Row} (hr : P r.body) (h : Each P rows) : Each P (r :: rows) :=
  List.forall_mem_cons.2 ⟨hr, h⟩

theorem each_singleton {r : Row} (h : P r.body) : Each P [r] := List.forall_mem_singleton.2 h

theorem Each.shift (h : Each P rows) (n : Nat) : Each P (rows.map (shift n)) := by
  intro r hr
  obtain ⟨s, hs, rfl⟩ := List.mem_map.1 hr
  exact h s hs

theorem Each.asItem (h : Each P rows) (hitem : ∀ {t}, P t → P ('-' :: ' ' :: t)) :
    Each P (asItem rows) := by
  cases rows with
  | nil => exact h
  | cons r rows =>
    obtain ⟨hr, hrest⟩ := List.forall_mem_cons.1 h
    exact .cons (hitem hr) (Each.shift hrest 2)

theorem each_flatMap {α : Type} {as : List α} {f : α → List Row} (h : ∀ a ∈ as, Each P (f a)) :
    Each P (as.flatMap f) := by
  intro r hr
  obtain ⟨a, ha, hmem⟩ := List.mem_flatMap.1 hr
  exact h a ha r hmem

end

theorem LastClean.append {b : List Row} (h : LastClean b) (a : List Row) : LastClean (a ++ b) := by
  obtain ⟨r, hr, hclean⟩ := h
  refine ⟨r, ?_, hclean⟩
  rw [Option.mem_def] at hr ⊢
  rw [List.getLast?_append, hr]
  rfl

theorem LastClean.shift {rows : List Row} (h : LastClean rows) (n : Nat) :
    LastClean (rows.map (shift n)) := by
  obtain ⟨r, hr, hclean⟩ := h
  refine ⟨r.shift n, ?_, hclean⟩
  rw [List.getLast?_map]
  exact Option.mem_map_of_mem _ hr

theorem LastClean.cons_shift {rows : List Row} (h : LastClean rows) (r : Row) (n : Nat) :
    LastClean (r :: rows.map (Row.shift n)) :=
  (h.shift n).append [r]

theorem LastClean.asItem {rows : List Row} (h : LastClean rows) : LastClean (asItem rows) := by
  cases rows with
  | nil => exact h
  | cons r rows =>
    obtain ⟨s, hs, hclean⟩ := h
    cases rows with
    | nil =>
      obtain rfl := Option.some.inj hs
      exact ⟨_, rfl, hclean.append ['-', ' ']⟩
    | cons r' rows =>
      have hlast : LastClean (r' :: rows) := ⟨s, by simpa using hs, hclean⟩
      exact hlast.cons_shift _ 2

end Row

/-! ## Nodes -/

namespace Node

/-- What is written as it is has no newline. -/
inductive OneLine : Node → Prop
  | str (s : String) : OneLine (.str s)
  | ident {s : String} (h : '\n' ∉ s.toList) : OneLine (.ident s)
  | raw {s : String} (h : '\n' ∉ s.toList) : OneLine (.raw s)
  | int (n : Int) : OneLine (.int n)
  | bool (b : Bool) : OneLine (.bool b)
  | lambda (code : String) : OneLine (.lambda code)
  | fragment (s : String) : OneLine (.fragment s)
  | map {entries : Mapping} (keys : ∀ e ∈ entries, '\n' ∉ e.1.toList)
      (values : ∀ e ∈ entries, OneLine e.2) : OneLine (.map entries)
  | list {items : List Node} (h : ∀ n ∈ items, OneLine n) : OneLine (.list items)

/-- What is written last ends with a character that is no blank. -/
inductive LastClean : Node → Prop
  | str {s : String} (h : '\n' ∈ s.toList → EndsClean s.toList) : LastClean (.str s)
  | ident {s : String} (h : EndsClean s.toList) : LastClean (.ident s)
  | raw {s : String} (h : EndsClean s.toList) : LastClean (.raw s)
  | int (n : Int) : LastClean (.int n)
  | bool (b : Bool) : LastClean (.bool b)
  | lambda {code : String} (h : EndsClean code.toList) : LastClean (.lambda code)
  | fragment {s : String} (h : allBlank s.toList = false) : LastClean (.fragment s)
  | map {key : String} {node : Node} (init : Mapping) (h : LastClean node) :
      LastClean (.map (init ++ [(key, node)]))
  | list {node : Node} (init : List Node) (h : LastClean node) : LastClean (.list (init ++ [node]))

theorem mapRows_eq_flatMap (m : Mapping) :
    mapRows m = m.flatMap fun e => entryRows e.1.toList e.2 := by
  induction m with
  | nil => rfl
  | cons e r ih => rw [mapRows, ih, List.flatMap_cons]

theorem listRows_eq_flatMap (items : List Node) : listRows items = items.flatMap itemRows := by
  induction items with
  | nil => rfl
  | cons n r ih => rw [listRows, ih, List.flatMap_cons]

variable {node : Node} {key : Text}

theorem entryRows_of_inline {scalar : Text} (h : node.inline? = some scalar) (key : Text) :
    entryRows key node = [⟨0, key ++ ':' :: ' ' :: scalar⟩] := by
  rw [entryRows.eq_def, h]

theorem itemRows_of_inline {scalar : Text} (h : node.inline? = some scalar) :
    itemRows node = [⟨0, '-' :: ' ' :: scalar⟩] := by
  rw [itemRows.eq_def, h]

/-- What a node writes on the line of its key or dash. -/
inductive Inline : Node → Text → Prop
  | str (s : String) : Inline (.str s) (quote s.toList)
  | ident (s : String) : Inline (.ident s) s.toList
  | raw (s : String) : Inline (.raw s) s.toList
  | int (n : Int) : Inline (.int n) (Decimal.ofInt n)
  | float (x : Float) : Inline (.float x) (documentFloat x)
  | bool (b : Bool) : Inline (.bool b) (if b then "true".toList else "false".toList)
  | lambda {code : String} (short : isInlineCode code.toList = true) :
      Inline (.lambda code) ("!lambda ".toList ++ code.toList)
  | noEntries : Inline (.map []) ['{', '}']
  | noItems : Inline (.list []) ['[', ']']

theorem inline_of_mem {scalar : Text} (h : scalar ∈ node.inline?) : Inline node scalar := by
  unfold inline? at h
  split at h
  · obtain ⟨-, hquote⟩ := Option.ite_none_left_eq_some.1 h
    exact Option.some.inj hquote ▸ .str _
  · exact Option.some.inj h ▸ .ident _
  · exact Option.some.inj h ▸ .raw _
  · exact Option.some.inj h ▸ .int _
  · exact Option.some.inj h ▸ .float _
  · exact Option.some.inj h ▸ .bool _
  · obtain ⟨hshort, htext⟩ := Option.ite_none_right_eq_some.1 h
    exact Option.some.inj htext ▸ .lambda hshort
  · exact Option.some.inj h ▸ .noEntries
  · exact Option.some.inj h ▸ .noItems
  all_goals cases h

/-! ### Properties of each row -/

/-- A family of nodes in whose rows a property holds of each body: with a member its entries and
items are members, its scalar and the rows of its text have the property, and the property is kept
by a key that is allowed and by a dash. -/
structure IsRowwise (D : Node → Prop) (K P : Text → Prop) : Prop where
  scalar {node : Node} (h : D node) : ∀ scalar ∈ node.inline?, P scalar
  entry {entries : Mapping} (h : D (.map entries)) : ∀ e ∈ entries, K e.1.toList ∧ D e.2
  item {items : List Node} (h : D (.list items)) : ∀ n ∈ items, D n
  value {key t : Text} (hkey : K key) (h : P t) : P (key ++ ':' :: ' ' :: t)
  opening {key : Text} (hkey : K key) : P (key ++ [':'])
  dashed {t : Text} (h : P t) : P ('-' :: ' ' :: t)
  dash : P ['-']
  header (t : Text) : P (blockHeader t) ∧ P ("!lambda ".toList ++ blockHeader t)
  block {s : String} (h : D (.str s) ∨ D (.text s) ∨ D (.lambda s)) :
    Row.Each P (blockRows s.toList)
  fragment {s : String} (h : D (.fragment s)) : Row.Each P (fragmentRows s.toList)

variable {D : Node → Prop} {K P : Text → Prop}

/-- The rows of a member, as an entry and as an item. -/
theorem IsRowwise.rows (hP : IsRowwise D K P) (node : Node) (h : D node) :
    (∀ key, K key → Row.Each P (entryRows key node)) ∧ Row.Each P (itemRows node) := by
  cases hs : node.inline? with
  | some scalar =>
    have hscalar := hP.scalar h scalar hs
    rw [itemRows_of_inline hs]
    refine ⟨fun key hkey => ?_, Row.each_singleton (hP.dashed hscalar)⟩
    rw [entryRows_of_inline hs]
    exact Row.each_singleton (hP.value hkey hscalar)
  | none =>
    -- the node takes several rows: an opening row, and below it a block, entries or items
    simp only [entryRows.eq_def, itemRows.eq_def, hs]
    match node, h, hs with
    | .str s, h, _ =>
      obtain ⟨hheader, -⟩ := hP.header s.toList
      have hblock := (hP.block (.inl h)).shift 2
      exact ⟨fun key hkey => .cons (hP.value hkey hheader) hblock,
        .cons (hP.dashed hheader) hblock⟩
    | .text s, h, _ =>
      obtain ⟨hheader, -⟩ := hP.header s.toList
      have hblock := (hP.block (.inr (.inl h))).shift 2
      exact ⟨fun key hkey => .cons (hP.value hkey hheader) hblock,
        .cons (hP.dashed hheader) hblock⟩
    | .lambda s, h, _ =>
      obtain ⟨-, hheader⟩ := hP.header s.toList
      have hblock := (hP.block (.inr (.inr h))).shift 2
      exact ⟨fun key hkey => .cons (by simpa using hP.value hkey hheader) hblock,
        .cons (hP.dashed hheader) hblock⟩
    | .fragment s, h, _ =>
      have hrows := hP.fragment h
      exact ⟨fun key hkey => .cons (hP.opening hkey) (hrows.shift 2), hrows⟩
    | .map entries, h, _ =>
      have hrows : Row.Each P (mapRows entries) := by
        rw [mapRows_eq_flatMap]
        refine Row.each_flatMap fun e he => ?_
        obtain ⟨hkey, hnode⟩ := hP.entry h e he
        exact (IsRowwise.rows hP e.2 hnode).1 _ hkey
      exact ⟨fun key hkey => .cons (hP.opening hkey) (hrows.shift 2), hrows.asItem hP.dashed⟩
    | .list items, h, _ =>
      have hrows : Row.Each P (listRows items) := by
        rw [listRows_eq_flatMap]
        exact Row.each_flatMap fun n hn => (IsRowwise.rows hP n (hP.item h n hn)).2
      exact ⟨fun key hkey => .cons (hP.opening hkey) (hrows.shift 2),
        .cons hP.dash (hrows.shift 2)⟩
termination_by node
decreasing_by
  · obtain ⟨key, node⟩ := e
    have hlt := List.sizeOf_lt_of_mem he
    simp only [Node.map.sizeOf_spec, Prod.mk.sizeOf_spec] at hlt ⊢
    omega
  · have hlt := List.sizeOf_lt_of_mem hn
    simp only [Node.list.sizeOf_spec]
    omega

theorem IsRowwise.listRows (hP : IsRowwise D K P) {items : List Node} (h : ∀ n ∈ items, D n) :
    Row.Each P (listRows items) := by
  rw [listRows_eq_flatMap]
  exact Row.each_flatMap fun n hn => (hP.rows n (h n hn)).2

theorem IsRowwise.mapRows (hP : IsRowwise D K P) {m : Mapping}
    (h : ∀ e ∈ m, K e.1.toList ∧ D e.2) : Row.Each P (mapRows m) := by
  rw [mapRows_eq_flatMap]
  exact Row.each_flatMap fun e he => (hP.rows e.2 (h e he).2).1 _ (h e he).1

/-! ### One line for each row -/

theorem newline_not_mem_blockHeader (t : Text) : '\n' ∉ blockHeader t := by
  unfold blockHeader
  split
  · split <;> decide
  · decide

theorem allFree_fragmentRows (t : Text) : Row.AllFree (fragmentRows t) := by
  intro r hr
  obtain ⟨l, hl, rfl⟩ := List.mem_map.1 hr
  have hfree := newline_not_mem_of_mem_lines (List.mem_of_mem_filter hl)
  exact fun hmem => hfree (trim_subset l hmem)

theorem allFree_blockRows (t : Text) : Row.AllFree (blockRows t) := by
  intro r hr
  obtain ⟨l, hl, rfl⟩ := List.mem_map.1 hr
  have hfree := newline_not_mem_of_mem_lines hl
  split
  · simp
  · exact fun hmem => hfree ((trimEnd_isPrefix l).subset hmem)

theorem newline_not_mem_ofInt (n : Int) : '\n' ∉ Decimal.ofInt n := by
  have hdigits : ∀ k, '\n' ∉ Decimal.ofNat k := fun k hmem => by
    have hdigit := Nat.isDigit_of_mem_toDigits (by omega) (by omega) hmem
    cases hdigit
  unfold Decimal.ofInt
  split <;> simp [hdigits]

theorem newline_not_mem_of_isInlineCode {t : Text} (h : isInlineCode t = true) : '\n' ∉ t := by
  unfold isInlineCode at h
  simp only [Bool.and_eq_true, Bool.not_eq_true'] at h
  simpa using h.1.1.1.1

theorem OneLine.inline (h : OneLine node) : ∀ scalar ∈ node.inline?, '\n' ∉ scalar := by
  intro scalar hscalar
  cases inline_of_mem hscalar with
  | str s => exact newline_not_mem_quote _
  | ident s =>
    cases h with
    | ident h => exact h
  | raw s =>
    cases h with
    | raw h => exact h
  | int n => exact newline_not_mem_ofInt n
  | float x => cases h
  | bool b => cases b <;> decide
  | lambda short => simpa using newline_not_mem_of_isInlineCode short
  | noEntries | noItems => decide

theorem isRowwise_oneLine : IsRowwise OneLine ('\n' ∉ ·) ('\n' ∉ ·) where
  scalar h := h.inline
  entry h e he := by
    cases h with
    | map keys values => exact ⟨keys e he, values e he⟩
  item h n hn := by
    cases h with
    | list h => exact h n hn
  value hkey h := by simp [hkey, h]
  opening hkey := by simp [hkey]
  dashed h := by simp [h]
  dash := by simp
  header t := by simp [newline_not_mem_blockHeader t]
  block _ := allFree_blockRows _
  fragment _ := allFree_fragmentRows _

/-- The rows of a node, as an entry and as an item. -/
theorem OneLine.allFree (h : OneLine node) :
    (∀ key, '\n' ∉ key → Row.AllFree (entryRows key node)) ∧ Row.AllFree (itemRows node) :=
  isRowwise_oneLine.rows node h

/-! ### The last row -/

theorem lastClean_fragmentRows {t : Text} (h : allBlank t = false) :
    Row.LastClean (fragmentRows t) := by
  have hne : (lines t).filter (!allBlank ·) ≠ [] := by
    intro hnil
    have hblank : allBlank t = true := allBlank_of_lines fun l hl => by
      simpa using List.filter_eq_nil_iff.1 hnil l hl
    rw [hblank] at h
    cases h
  have hlast := List.getLast_mem hne
  obtain ⟨-, hblank⟩ := List.mem_filter.1 hlast
  have hclean : EndsClean (trim (((lines t).filter (!allBlank ·)).getLast hne)) :=
    endsClean_trim (by simpa using hblank)
  unfold fragmentRows
  dsimp only
  rw [Row.LastClean, List.getLast?_map, List.getLast?_eq_some_getLast hne]
  exact ⟨_, rfl, hclean⟩

theorem lastClean_blockRows {t : Text} (h : EndsClean t) : Row.LastClean (blockRows t) := by
  obtain ⟨l, hl, hclean⟩ := endsClean_getLast_lines h
  refine ⟨⟨0, trimEnd l⟩, ?_, ?_⟩
  · rw [blockRows, List.getLast?_map, Option.mem_def.1 hl]
    simp [hclean.not_allBlank]
  · exact endsClean_trimEnd hclean.not_allBlank

theorem endsClean_quote (t : Text) : EndsClean (quote t) := endsClean_concat _ rfl

theorem isBlank_of_isDigit {c : Char} (h : c.isDigit = true) : isBlank c = false := by
  have hbounds := Char.isDigit_iff_toNat.1 h
  have hlow : '0'.toNat = 48 := rfl
  have hhigh : '9'.toNat = 57 := rfl
  simp [isBlank]
  omega

theorem endsClean_ofInt (n : Int) : EndsClean (Decimal.ofInt n) := by
  have hdigits : ∀ k, EndsClean (Decimal.ofNat k) := fun k => by
    have hne : Decimal.ofNat k ≠ [] := Nat.toDigits_ne_nil
    have hdigit := Nat.isDigit_of_mem_toDigits (by omega) (by omega) (List.getLast_mem hne)
    refine ⟨_, List.getLast?_eq_some_getLast hne, isBlank_of_isDigit hdigit⟩
  unfold Decimal.ofInt
  split
  · exact (hdigits _).append ['-']
  · exact hdigits _

theorem LastClean.inline (h : LastClean node) : ∀ scalar ∈ node.inline?, EndsClean scalar := by
  intro scalar hscalar
  cases inline_of_mem hscalar with
  | str s => exact endsClean_quote _
  | ident s =>
    cases h with
    | ident h => exact h
  | raw s =>
    cases h with
    | raw h => exact h
  | int n => exact endsClean_ofInt n
  | float x => cases h
  | bool b =>
    cases b
    · exact endsClean_concat "fals".toList rfl
    · exact endsClean_concat "tru".toList rfl
  | lambda short =>
    cases h with
    | lambda h => exact h.append _
  | noEntries => exact endsClean_concat ['{'] rfl
  | noItems => exact endsClean_concat ['['] rfl

theorem LastClean.rows_of_inline (h : LastClean node) {scalar : Text}
    (hs : node.inline? = some scalar) :
    (∀ key, Row.LastClean (entryRows key node)) ∧ Row.LastClean (itemRows node) := by
  have hclean := h.inline scalar hs
  constructor
  · intro key
    rw [entryRows_of_inline hs]
    exact ⟨_, rfl, (hclean.append [':', ' ']).append key⟩
  · rw [itemRows_of_inline hs]
    exact ⟨_, rfl, hclean.append ['-', ' ']⟩

theorem lastClean_mapRows (init : Mapping) {key : String}
    (h : ∀ key, Row.LastClean (entryRows key node)) :
    Row.LastClean (mapRows (init ++ [(key, node)])) := by
  rw [mapRows_eq_flatMap, List.flatMap_append]
  exact Row.LastClean.append (by simpa using h key.toList) _

theorem lastClean_listRows (init : List Node) (h : Row.LastClean (itemRows node)) :
    Row.LastClean (listRows (init ++ [node])) := by
  rw [listRows_eq_flatMap, List.flatMap_append]
  exact Row.LastClean.append (by simpa using h) _

theorem LastClean.rows (h : LastClean node) :
    (∀ key, Row.LastClean (entryRows key node)) ∧ Row.LastClean (itemRows node) := by
  induction h with
  | @str s h =>
    cases hs : (Node.str s).inline? with
    | some scalar => exact (LastClean.str h).rows_of_inline hs
    | none =>
      have hblock : Row.LastClean (blockRows s.toList) := by
        refine lastClean_blockRows (h ?_)
        by_contra hmem
        simp [inline?, hmem] at hs
      constructor
      · intro key
        rw [entryRows.eq_def, hs]
        exact hblock.cons_shift _ 2
      · rw [itemRows.eq_def, hs]
        exact hblock.cons_shift _ 2
  | ident h => exact (LastClean.ident h).rows_of_inline rfl
  | raw h => exact (LastClean.raw h).rows_of_inline rfl
  | int n => exact (LastClean.int n).rows_of_inline rfl
  | bool b => exact (LastClean.bool b).rows_of_inline rfl
  | @lambda code h =>
    cases hs : (Node.lambda code).inline? with
    | some scalar => exact (LastClean.lambda h).rows_of_inline hs
    | none =>
      have hblock := lastClean_blockRows h
      constructor
      · intro key
        rw [entryRows.eq_def, hs]
        exact hblock.cons_shift _ 2
      · rw [itemRows.eq_def, hs]
        exact hblock.cons_shift _ 2
  | fragment h =>
    have hrows := lastClean_fragmentRows h
    constructor
    · intro key
      rw [entryRows.eq_def]
      exact hrows.cons_shift _ 2
    · rw [itemRows.eq_def]
      exact hrows
  | @map key node init h ih =>
    have hrows : Row.LastClean (mapRows (init ++ [(key, node)])) := lastClean_mapRows init ih.1
    obtain ⟨e, r, hcons⟩ : ∃ e r, init ++ [(key, node)] = e :: r :=
      List.exists_cons_of_ne_nil (by simp)
    rw [hcons] at hrows ⊢
    constructor
    · intro key
      rw [entryRows.eq_def]
      exact hrows.cons_shift _ 2
    · rw [itemRows.eq_def]
      exact hrows.asItem
  | @list node init h ih =>
    have hrows : Row.LastClean (listRows (init ++ [node])) := lastClean_listRows init ih.2
    obtain ⟨n, r, hcons⟩ : ∃ n r, init ++ [node] = n :: r :=
      List.exists_cons_of_ne_nil (by simp)
    rw [hcons] at hrows ⊢
    constructor
    · intro key
      rw [entryRows.eq_def]
      exact hrows.cons_shift _ 2
    · rw [itemRows.eq_def]
      exact hrows.cons_shift _ 2

end Node

end TouchPanel
