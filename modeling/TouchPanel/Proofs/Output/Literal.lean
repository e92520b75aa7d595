import TouchPanel.Proofs.Yaml.Literal

/-!
# Literal blocks of the output

A text of several lines is written as a literal block below its key or its dash. Wherever it stands
in a mapping or a list, its lines are read back as the text, without the blanks at the ends of its
lines and the newlines at its end.
-/

namespace TouchPanel

open Text

/-! ## Nodes that are written as blocks -/

namespace Node

/-- A node that is written as a literal block, with its text. -/
inductive IsLiteral : Node → Text → Prop
  | str {s : String} (h : '\n' ∈ s.toList) : IsLiteral (.str s) s.toList
  | text (s : String) : IsLiteral (.text s) s.toList
  | lambda {code : String} (h : isInlineCode code.toList = false) :
      IsLiteral (.lambda code) code.toList

/-- What is written between the opening of a node and its header. -/
def tag : Node → Text
  | .lambda _ => "!lambda ".toList
  | _ => []

/-- The rows of a mapping or a list. -/
def rows : Node → List Row
  | .map entries => mapRows entries
  | .list items => listRows items
  | _ => []

/-- A mapping or a list as block text indented by `n` columns. -/
def render (container : Node) (n : Nat) : Text := Row.render n container.rows

/-- A node stands somewhere in a mapping or a list, behind its key or its dash, which is `column`
columns to the right of where the container begins. -/
inductive IsWithin (node : Node) : (opener : Text) → (column : Nat) → (container : Node) → Prop
  | value {m : Mapping} {key : String} (h : (key, node) ∈ m) :
      IsWithin node (key.toList ++ [':', ' ']) 0 (.map m)
  | item {items : List Node} (h : node ∈ items) : IsWithin node ['-', ' '] 0 (.list items)
  | inEntry {m : Mapping} {key : String} {inner : Node} {opener : Text} {column : Nat}
      (h : (key, inner) ∈ m) (hinner : IsWithin node opener column inner) :
      IsWithin node opener (column + 2) (.map m)
  | inItem {items : List Node} {inner : Node} {opener : Text} {column : Nat}
      (h : inner ∈ items) (hinner : IsWithin node opener column inner) :
      IsWithin node opener (column + 2) (.list items)

variable {node container : Node} {t opener : Text} {column : Nat}

theorem IsLiteral.inline_eq (h : node.IsLiteral t) : node.inline? = none := by
  cases h with
  | str h => exact if_pos (by simpa using h)
  | text s => rfl
  | lambda h => exact if_neg (by simp [h])

theorem tag_str (s : String) : (Node.str s).tag = [] := rfl

theorem tag_text (s : String) : (Node.text s).tag = [] := rfl

theorem tag_lambda (code : String) : (Node.lambda code).tag = "!lambda ".toList := rfl

theorem IsLiteral.entryRows_eq (h : node.IsLiteral t) (key : Text) :
    entryRows key node = ⟨0, key ++ [':', ' '] ++ (node.tag ++ blockHeader t)⟩ ::
      (blockRows t).map (Row.shift 2) := by
  rw [entryRows.eq_def, h.inline_eq]
  cases h <;> simp [tag_str, tag_text, tag_lambda]

theorem IsLiteral.itemRows_eq (h : node.IsLiteral t) :
    itemRows node = ⟨0, ['-', ' '] ++ (node.tag ++ blockHeader t)⟩ ::
      (blockRows t).map (Row.shift 2) := by
  rw [itemRows.eq_def, h.inline_eq]
  cases h <;> simp [tag_str, tag_text, tag_lambda]

/-- A mapping or a list that is not empty. -/
def IsCollection : Node → Prop
  | .map entries => entries ≠ []
  | .list items => items ≠ []
  | _ => False

theorem IsWithin.isCollection (h : IsWithin node opener column container) :
    container.IsCollection := by
  cases h with
  | value h | inEntry h | item h | inItem h => exact List.ne_nil_of_mem h

theorem IsCollection.entryRows_eq (h : container.IsCollection) (key : Text) :
    entryRows key container = ⟨0, key ++ [':']⟩ :: container.rows.map (Row.shift 2) := by
  rw [entryRows.eq_def]
  cases container with
  | map entries =>
    obtain ⟨e, r, rfl⟩ := List.exists_cons_of_ne_nil h
    rfl
  | list items =>
    obtain ⟨i, r, rfl⟩ := List.exists_cons_of_ne_nil h
    rfl
  | _ => exact h.elim

theorem itemRows_map {m : Mapping} (h : m ≠ []) : itemRows (.map m) = Row.asItem (mapRows m) := by
  obtain ⟨e, r, rfl⟩ := List.exists_cons_of_ne_nil h
  rw [itemRows.eq_def]
  rfl

theorem itemRows_list {items : List Node} (h : items ≠ []) :
    itemRows (.list items) = ⟨0, ['-']⟩ :: (listRows items).map (Row.shift 2) := by
  obtain ⟨i, r, rfl⟩ := List.exists_cons_of_ne_nil h
  rw [itemRows.eq_def]
  rfl

end Node

/-! ## Blocks among rows -/

namespace Row

/-- The row of an opening stands behind other rows and with the rows of its block below it. The
opening begins at a column, behind a dash if it belongs to the first entry of an item. -/
def HasBlock (opening : Text) (block : List Row) (column : Nat) (front rows : List Row) : Prop :=
  ∃ indent lead back,
    rows = front ++ ⟨indent, lead ++ opening⟩ :: (block.map (shift (column + 2)) ++ back) ∧
      indent + lead.length = column ∧ (lead = [] ∨ lead = ['-', ' '])

variable {opening : Text} {block front rows : List Row} {column : Nat}

theorem hasBlock_cons (opening : Text) (block : List Row) :
    HasBlock opening block 0 [] (⟨0, opening⟩ :: block.map (shift 2)) :=
  ⟨0, [], [], by simp, rfl, Or.inl rfl⟩

theorem HasBlock.between (h : HasBlock opening block column front rows) (a b : List Row) :
    HasBlock opening block column (a ++ front) (a ++ rows ++ b) := by
  obtain ⟨indent, lead, back, rfl, hcolumn, hlead⟩ := h
  exact ⟨indent, lead, back ++ b, by simp, hcolumn, hlead⟩

theorem shift_shift (n m : Nat) (r : Row) : (r.shift m).shift n = r.shift (n + m) := by
  rw [shift, shift, shift, Nat.add_assoc]

theorem map_shift_two (block : List Row) (n : Nat) :
    (block.map (shift n)).map (shift 2) = block.map (shift (n + 2)) := by
  rw [List.map_map]
  refine List.map_congr_left fun r _ => ?_
  rw [Function.comp_apply, shift_shift, Nat.add_comm]

theorem HasBlock.below (h : HasBlock opening block column front rows) (r : Row) :
    HasBlock opening block (column + 2) (r :: front.map (shift 2)) (r :: rows.map (shift 2)) := by
  obtain ⟨indent, lead, back, rfl, hcolumn, hlead⟩ := h
  refine ⟨2 + indent, lead, back.map (shift 2), ?_, by omega, hlead⟩
  rw [List.map_append, List.map_cons, List.map_append, map_shift_two]
  rfl

/-- A block in the first row of an item is opened behind the dash. -/
theorem HasBlock.asItem (h : HasBlock opening block column front rows)
    (hfirst : front = [] → column = 0) :
    ∃ front', HasBlock opening block (column + 2) front' (asItem rows) := by
  obtain ⟨indent, lead, back, rfl, hcolumn, hlead⟩ := h
  cases front with
  | nil =>
    obtain rfl := hfirst rfl
    obtain rfl : lead = [] := List.length_eq_zero_iff.1 (by omega)
    refine ⟨[], 0, ['-', ' '], back.map (shift 2), ?_, rfl, Or.inr rfl⟩
    rw [List.nil_append, Row.asItem, List.map_append, map_shift_two]
    rfl
  | cons r front =>
    have hrest : HasBlock opening block column front
        (front ++ ⟨indent, lead ++ opening⟩ :: (block.map (shift (column + 2)) ++ back)) :=
      ⟨indent, lead, back, rfl, hcolumn, hlead⟩
    exact ⟨_, hrest.below ⟨0, '-' :: ' ' :: r.body⟩⟩

end Row

namespace Node

variable {node container : Node} {t opener : Text} {column : Nat}

/-- A node that is written as a block has its block wherever it stands. -/
theorem IsWithin.hasBlock (hnode : node.IsLiteral t)
    (h : IsWithin node opener column container) :
    ∃ front, Row.HasBlock (opener ++ (node.tag ++ blockHeader t)) (blockRows t) column front
      container.rows ∧ (∀ m, container = .map m → front = [] → column = 0) := by
  induction h with
  | @value m key h =>
    obtain ⟨a, b, rfl⟩ := List.append_of_mem h
    have hblock := Row.hasBlock_cons (key.toList ++ [':', ' '] ++ (node.tag ++ blockHeader t))
      (blockRows t)
    rw [← hnode.entryRows_eq] at hblock
    have hrows : rows (.map (a ++ (key, node) :: b)) =
        mapRows a ++ entryRows key.toList node ++ mapRows b := by
      simp [rows, mapRows_eq_flatMap]
    exact ⟨_, hrows ▸ hblock.between (mapRows a) (mapRows b), fun _ _ _ => rfl⟩
  | @item items h =>
    obtain ⟨a, b, rfl⟩ := List.append_of_mem h
    have hblock := Row.hasBlock_cons (['-', ' '] ++ (node.tag ++ blockHeader t)) (blockRows t)
    rw [← hnode.itemRows_eq] at hblock
    have hrows : rows (.list (a ++ node :: b)) = listRows a ++ itemRows node ++ listRows b := by
      simp [rows, listRows_eq_flatMap]
    exact ⟨_, hrows ▸ hblock.between (listRows a) (listRows b), fun _ _ _ => rfl⟩
  | @inEntry m key inner opener column h hinner ih =>
    obtain ⟨front, hblock, -⟩ := ih
    obtain ⟨a, b, rfl⟩ := List.append_of_mem h
    have hbelow := hblock.below ⟨0, key.toList ++ [':']⟩
    rw [← hinner.isCollection.entryRows_eq] at hbelow
    have hrows : rows (.map (a ++ (key, inner) :: b)) =
        mapRows a ++ entryRows key.toList inner ++ mapRows b := by
      simp [rows, mapRows_eq_flatMap]
    exact ⟨_, hrows ▸ hbelow.between (mapRows a) (mapRows b),
      fun _ _ hnil => absurd hnil (by simp)⟩
  | @inItem items inner opener column h hinner ih =>
    obtain ⟨front, hblock, hfirst⟩ := ih
    obtain ⟨a, b, rfl⟩ := List.append_of_mem h
    have hitem : ∃ front', Row.HasBlock (opener ++ (node.tag ++ blockHeader t)) (blockRows t)
        (column + 2) front' (itemRows inner) := by
      cases inner with
      | map m =>
        rw [itemRows_map hinner.isCollection]
        exact hblock.asItem (hfirst m rfl)
      | list items =>
        rw [itemRows_list hinner.isCollection]
        exact ⟨_, hblock.below _⟩
      | _ => exact hinner.isCollection.elim
    obtain ⟨front', hblock'⟩ := hitem
    have hrows : rows (.list (a ++ inner :: b)) = listRows a ++ itemRows inner ++ listRows b := by
      simp [rows, listRows_eq_flatMap]
    exact ⟨_, hrows ▸ hblock'.between (listRows a) (listRows b), fun _ heq => nomatch heq⟩

end Node

/-! ## Reading -/

namespace Row

theorem map_line_blockRows (t : Text) (n k : Nat) :
    ((blockRows t).map (shift k)).map (line n) = (Yaml.blockBodies t).map (indentLine (n + k)) := by
  rw [blockRows, Yaml.blockBodies, List.map_map, List.map_map, List.map_map]
  refine List.map_congr_left fun l _ => ?_
  rw [Function.comp_apply, Function.comp_apply, Function.comp_apply, line_shift]
  by_cases hblank : allBlank l = true
  · rw [if_pos hblank, trimEnd_eq_nil_iff.2 hblank]
    rfl
  · rw [if_neg hblank]
    rfl

end Row

/-- What stands in front of an opening on its line: spaces, and a dash in the first line of an
item. -/
def IsMargin (column : Nat) (margin : Text) : Prop :=
  margin = spaces column ∨ ∃ k, column = k + 2 ∧ margin = spaces k ++ ['-', ' ']

open Node in
/-- A text without line breaks other than newlines that is written as a literal block, as the value
of a key or as an item, at any depth and indentation: what is written from the header on, as far as
the next line that is outside of the block, is read as the text without the blanks at the ends of
its lines and the newlines at its end. -/
theorem literal_reads_back {node container : Node} {t opener : Text} {column : Nat}
    (hnode : node.IsLiteral t) (ht : ∀ c ∈ t, c = '\n' ∨ Yaml.isInline c = true)
    (h : IsWithin node opener column container) (n : Nat) :
    ∃ front margin block back,
      container.render n =
        front ++ (margin ++ (opener ++ (node.tag ++ '|' :: (block ++ back)))) ∧
      Closed front ∧ IsMargin (n + column) margin ∧
      ∀ rest, Yaml.IsOutside (n + column) rest → ∀ line start offset, ∃ line',
        Yaml.block? false (n + column + 1) (Yaml.Source.place line start offset (block ++ rest)) =
          some (Yaml.withoutTrailing t,
            (Yaml.Source.place line' 0 0 rest).dropWhile (·.char == ' ')) := by
  obtain ⟨front, ⟨indent, lead, back, hrows, hcolumn, hlead⟩, -⟩ := h.hasBlock hnode
  have hheader : blockHeader t = '|' :: (blockHeader t).tail := by
    rcases Yaml.blockHeader_cases t with hcase | ⟨hcase, -⟩ <;> rw [hcase] <;> rfl
  have hopening : Row.line n ⟨indent, lead ++ (opener ++ (node.tag ++ blockHeader t))⟩ =
      spaces (n + indent) ++ lead ++ (opener ++ (node.tag ++ '|' :: (blockHeader t).tail)) := by
    rw [Row.line, if_neg (by rw [hheader]; simp), ← hheader]
    simp
  refine ⟨unlines (front.map (Row.line n)), spaces (n + indent) ++ lead,
    (blockHeader t).tail ++ '\n' ::
      unlines ((Yaml.blockBodies t).map (indentLine (n + column + 2))),
    unlines (back.map (Row.line n)), ?_, closed_unlines _, ?_, ?_⟩
  · rw [Node.render, Row.render_eq_unlines, hrows, List.map_append, List.map_cons, List.map_append,
      unlines_append, hopening, Row.map_line_blockRows, ← Nat.add_assoc]
    simp [unlines]
  · rcases hlead with rfl | rfl
    · obtain rfl : indent = column := by simpa using hcolumn
      exact Or.inl (List.append_nil _)
    · exact Or.inr ⟨n + indent, by rw [← hcolumn]; rfl, rfl⟩
  · intro rest hrest line start offset
    have hread := Yaml.block?_literal ht hrest line start offset
    rwa [← List.cons_append, ← List.append_assoc] at hread

open Node in
/-- A text that begins with an empty line and an indented one, in the first entry of an item. -/
theorem literal_reads_back_indented :
    let t := "\n  two\nthree \n\n".toList
    let opener := "note".toList ++ [':', ' ']
    let node : Node := .text "\n  two\nthree \n\n"
    let container : Node := .map [("then", .list [.map [("note", node), ("x", .int 1)]])]
    node.IsLiteral t ∧ (∀ c ∈ t, c = '\n' ∨ Yaml.isInline c = true) ∧
      IsWithin node opener 4 container ∧
      Yaml.withoutTrailing t = "\n  two\nthree".toList ∧
      ∃ front margin block back,
        container.render 2 =
          front ++ (margin ++ (opener ++ (node.tag ++ '|' :: (block ++ back)))) ∧
        Closed front ∧ IsMargin 6 margin ∧
        ∀ rest, Yaml.IsOutside 6 rest → ∀ line start offset, ∃ line',
          Yaml.block? false 7 (Yaml.Source.place line start offset (block ++ rest)) =
            some (Yaml.withoutTrailing t,
              (Yaml.Source.place line' 0 0 rest).dropWhile (·.char == ' ')) := by
  intro t opener node container
  have hnode : node.IsLiteral t := .text _
  have hall : t.all (fun c => c = '\n' || Yaml.isInline c) = true := by decide
  have ht : ∀ c ∈ t, c = '\n' ∨ Yaml.isInline c = true := by simpa using hall
  have hvalue : IsWithin node opener 0 (.map [("note", node), ("x", .int 1)]) :=
    .value List.mem_cons_self
  have hwithin : IsWithin node opener 4 container :=
    .inEntry List.mem_cons_self (.inItem List.mem_cons_self hvalue)
  exact ⟨hnode, ht, hwithin, by decide, literal_reads_back hnode ht hwithin 2⟩

end TouchPanel
