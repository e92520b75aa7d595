import TouchPanel.Output.Content
import TouchPanel.Proofs.Access.Basic
import TouchPanel.Proofs.Output.Rows

/-!
# Accesses of the writer

The writer puts an item that is a mapping behind its dash by cutting the padding off the mapping as
it is written. A mapping that is not empty begins with its padding, so what is cut off is there.
-/

namespace TouchPanel.Access

open Text Node

/-! ## Writing -/

/-- The lines of a literal block. -/
def writeBlock (t : Text) (n : Nat) : Text := Row.render n (blockRows t)

mutual

/-- Writes `key: node`. -/
def writePair? (key : Text) (node : Node) (n : Nat) : Option Text :=
  let opening := spaces n ++ key ++ [':']
  match node.inline? with
  | some scalar => some (opening ++ ' ' :: scalar ++ ['\n'])
  | none =>
    match node with
    | .map entries => (writeMap? entries (n + 2)).map (opening ++ '\n' :: ·)
    | .list items => (writeList? items (n + 2)).map (opening ++ '\n' :: ·)
    | .fragment s => some (opening ++ '\n' :: reindent s.toList (n + 2))
    | .lambda s =>
      some (opening ++ " !lambda ".toList ++ blockHeader s.toList ++
        '\n' :: writeBlock s.toList (n + 2))
    | .str s | .text s =>
      some (opening ++ ' ' :: blockHeader s.toList ++ '\n' :: writeBlock s.toList (n + 2))
    | _ => some []

/-- Writes the entries of a mapping. -/
def writeMap? (m : List (String × Node)) (n : Nat) : Option Text :=
  match m with
  | [] => some []
  | (key, node) :: r => do
    let entry ← writePair? key.toList node n
    let rest ← writeMap? r n
    return entry ++ rest

/-- Writes one item of a list. -/
def writeItem? (node : Node) (n : Nat) : Option Text :=
  let opening := spaces n ++ ['-']
  match node.inline? with
  | some scalar => some (opening ++ ' ' :: scalar ++ ['\n'])
  | none =>
    match node with
    | .map entries => do
      let body ← writeMap? entries (n + 2)
      let body ← dropBytes? (n + 2) body
      return opening ++ ' ' :: body
    | .list items => (writeList? items (n + 2)).map (opening ++ '\n' :: ·)
    | .fragment s => some (reindent s.toList n)
    | .lambda s =>
      some (opening ++ " !lambda ".toList ++ blockHeader s.toList ++
        '\n' :: writeBlock s.toList (n + 2))
    | .str s | .text s =>
      some (opening ++ ' ' :: blockHeader s.toList ++ '\n' :: writeBlock s.toList (n + 2))
    | _ => some []

/-- Writes the items of a list. -/
def writeList? (items : List Node) (n : Nat) : Option Text :=
  match items with
  | [] => some []
  | node :: r => do
    let item ← writeItem? node n
    let rest ← writeList? r n
    return item ++ rest

end

/-! ## Rows as text -/

variable {n : Nat}

theorem byteSize_spaces (n : Nat) : byteSize (spaces n) = n := by
  induction n with
  | zero => rfl
  | succ n ih =>
    have hspaces : spaces (n + 1) = ' ' :: spaces n := rfl
    have hsize : ' '.utf8Size = 1 := by decide
    rw [hspaces, byteSize, ih, hsize, Nat.add_comm]

theorem render_cons (n : Nat) {r : Row} (h : r.body ≠ []) (rows : List Row) :
    Row.render n (r :: rows) =
      spaces (n + r.indent) ++ r.body ++ '\n' :: Row.render n rows := by
  rw [Row.render, List.flatMap_cons, Row.text, if_neg h, Row.render]
  simp

theorem render_append (n : Nat) (a b : List Row) :
    Row.render n (a ++ b) = Row.render n a ++ Row.render n b :=
  List.flatMap_append

theorem render_shift (n k : Nat) (rows : List Row) :
    Row.render n (rows.map (Row.shift k)) = Row.render (n + k) rows := by
  rw [Row.render_eq_unlines, Row.render_eq_unlines, List.map_map]
  congr 1
  exact List.map_congr_left fun r _ => Row.line_shift n k r

/-- Rows below an opening one. -/
theorem render_opened (n : Nat) {body : Text} (h : body ≠ []) (rows : List Row) :
    Row.render n (⟨0, body⟩ :: rows.map (Row.shift 2)) =
      spaces n ++ body ++ '\n' :: Row.render (n + 2) rows := by
  rw [render_cons n h, render_shift, Nat.add_zero]

/-- The first row of an entry is not empty and not indented. -/
theorem exists_entryRows_cons (key : Text) (node : Node) :
    ∃ body rows, body ≠ [] ∧ entryRows key node = ⟨0, body⟩ :: rows := by
  cases hs : node.inline? with
  | some scalar => exact ⟨_, [], by simp, entryRows_of_inline hs key⟩
  | none =>
    rw [entryRows.eq_def, hs]
    cases node with
    | str s | text s | lambda s | fragment s | map m | list items => exact ⟨_, _, by simp, rfl⟩
    | _ => cases hs

/-- What is cut off a mapping is the padding of its first line. -/
theorem exists_dropBytes?_render (e : String × Node) (m : Mapping) (n : Nat) :
    ∃ body, dropBytes? (n + 2) (Mapping.render (e :: m) (n + 2)) = some body ∧
      Row.render n (Row.asItem (mapRows (e :: m))) = spaces n ++ '-' :: ' ' :: body := by
  obtain ⟨body, rows, hbody, hrows⟩ := exists_entryRows_cons e.1.toList e.2
  have hmap : mapRows (e :: m) = ⟨0, body⟩ :: (rows ++ mapRows m) := by
    rw [mapRows, hrows]
    rfl
  have hpadding := dropBytes?_byteSize_append (spaces (n + 2))
    (body ++ '\n' :: Row.render (n + 2) (rows ++ mapRows m))
  rw [byteSize_spaces, ← List.append_assoc] at hpadding
  refine ⟨body ++ '\n' :: Row.render (n + 2) (rows ++ mapRows m), ?_, ?_⟩
  · rw [Mapping.render, hmap, render_cons (n + 2) hbody, Nat.add_zero, hpadding]
  · rw [hmap, Row.asItem, render_cons n (List.cons_ne_nil _ _), render_shift]
    simp

/-! ## No padding is missed -/

mutual

theorem writePair?_eq (key : Text) (node : Node) (n : Nat) :
    writePair? key node n = some (Row.render n (entryRows key node)) := by
  cases hs : node.inline? with
  | some scalar =>
    rw [writePair?.eq_def, hs, entryRows_of_inline hs, render_cons n (by simp)]
    simp [Row.render]
  | none =>
    rw [writePair?.eq_def, entryRows.eq_def, hs]
    match node with
    | .map entries =>
      have hentries := writeMap?_eq entries (n + 2)
      simp only [hentries]
      rw [render_opened n (by simp)]
      simp [Mapping.render]
    | .list items =>
      have hitems := writeList?_eq items (n + 2)
      simp only [hitems]
      rw [render_opened n (by simp)]
      simp [renderList]
    | .fragment s =>
      simp only
      rw [render_opened n (by simp)]
      simp [reindent]
    | .lambda s =>
      simp only
      rw [render_opened n (by simp)]
      simp [writeBlock]
    | .str s | .text s =>
      simp only
      rw [render_opened n (by simp)]
      simp [writeBlock]
    | .int n | .float x | .bool b | .ident s | .raw s => cases hs

theorem writeMap?_eq (m : Mapping) (n : Nat) :
    writeMap? m n = some (Mapping.render m n) := by
  match m with
  | [] => rfl
  | (key, node) :: r =>
    have hentry := writePair?_eq key.toList node n
    have hrest := writeMap?_eq r n
    rw [writeMap?, hentry, hrest, Mapping.render, Mapping.render, mapRows, render_append]
    rfl

theorem writeItem?_eq (node : Node) (n : Nat) :
    writeItem? node n = some (Row.render n (itemRows node)) := by
  cases hs : node.inline? with
  | some scalar =>
    rw [writeItem?.eq_def, hs, itemRows_of_inline hs, render_cons n (by simp)]
    simp [Row.render]
  | none =>
    rw [writeItem?.eq_def, itemRows.eq_def, hs]
    match node with
    | .map [] => cases hs
    | .map (e :: m) =>
      have hentries := writeMap?_eq (e :: m) (n + 2)
      obtain ⟨body, hcut, hrows⟩ := exists_dropBytes?_render e m n
      simp [hentries, hcut, hrows]
    | .list items =>
      have hitems := writeList?_eq items (n + 2)
      simp only [hitems]
      rw [render_opened n (by simp)]
      simp [renderList]
    | .fragment s => rfl
    | .lambda s =>
      simp only
      rw [render_opened n (by simp)]
      simp [writeBlock]
    | .str s | .text s =>
      simp only
      rw [render_opened n (by simp)]
      simp [writeBlock]
    | .int n | .float x | .bool b | .ident s | .raw s => cases hs

theorem writeList?_eq (items : List Node) (n : Nat) :
    writeList? items n = some (renderList items n) := by
  match items with
  | [] => rfl
  | node :: r =>
    have hitem := writeItem?_eq node n
    have hrest := writeList?_eq r n
    rw [writeList?, hitem, hrest, renderList, renderList, listRows, render_append]
    rfl

end

end TouchPanel.Access
