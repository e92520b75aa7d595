import TouchPanel.Identifier
import TouchPanel.Proofs.Output.Rows
import TouchPanel.Proofs.Yaml.Quoted

/-!
# Rendered nodes are unambiguous

A node that is put together from mappings, lists, strings of one line, integers and truth values
can be told from its text. Only indentation, dashes and colons show how it is put together: the
rows below a key or a dash are indented and the next entry or item is not, so the rows of a node
show the node and also where it ends.
-/

namespace TouchPanel

open Text

/-! ## Scalars -/

namespace Text

/-- An escaped character shows which one it is and where it ends. -/
theorem escape_append_inj {c c' : Char} {t t' : Text} (h : escape c ++ t = escape c' ++ t') :
    c = c' ∧ t = t' := by
  rcases Yaml.escape_read c with ⟨hc, hquote, hslash, -⟩ | ⟨e, he, hread⟩ <;>
    rcases Yaml.escape_read c' with ⟨hc', hquote', hslash', -⟩ | ⟨e', he', hread'⟩
  · rw [hc, hc'] at h
    exact List.cons.inj h
  · rw [hc, he'] at h
    exact absurd (List.cons.inj h).1 hslash
  · rw [he, hc'] at h
    exact absurd (List.cons.inj h).1.symm hslash'
  · -- both are escapes, and one reader reads both
    rw [he, he', List.cons_append, List.cons_append] at h
    have hsame := (List.cons.inj h).2
    let glyphs (a : Text) : Yaml.Source := a.map fun x => ⟨x, 0, 0, 0⟩
    have hchars (a : Text) : (glyphs a).map (·.char) = a := by
      rw [List.map_map]
      exact List.map_id a
    have hglyphs : glyphs e ++ glyphs t = glyphs e' ++ glyphs t' := by
      rw [← List.map_append, ← List.map_append, hsame]
    have hleft := (hread _ (hchars e) (glyphs t)).2
    have hright := (hread' _ (hchars e') (glyphs t')).2
    rw [hglyphs, hright, Option.some.injEq, Prod.mk.injEq] at hleft
    exact ⟨hleft.1.symm, (List.append_inj hsame hleft.2.symm).2⟩

theorem flatMap_escape_injective : Function.Injective fun t : Text => t.flatMap escape := by
  have hne (c : Char) : escape c ≠ [] := by
    rcases Yaml.escape_read c with ⟨hc, -⟩ | ⟨e, he, -⟩
    · simp [hc]
    · simp [he]
  intro t t' h
  dsimp only at h
  induction t generalizing t' with
  | nil =>
    cases t' with
    | nil => rfl
    | cons c' t' => exact absurd (List.append_eq_nil_iff.1 h.symm).1 (hne c')
  | cons c t ih =>
    cases t' with
    | nil => exact absurd (List.append_eq_nil_iff.1 h).1 (hne c)
    | cons c' t' =>
      rw [List.flatMap_cons, List.flatMap_cons] at h
      obtain ⟨rfl, hrest⟩ := escape_append_inj h
      rw [ih hrest]

/-- A text up to the first `c` and what follows it. -/
theorem append_cons_inj {c : Char} {a a' b b' : Text} (ha : c ∉ a) (ha' : c ∉ a')
    (h : a ++ c :: b = a' ++ c :: b') : a = a' ∧ b = b' := by
  have hfront {a b : Text} (ha : c ∉ a) : (a ++ c :: b).takeWhile (· != c) = a := by
    have hne : ∀ x ∈ a, (x != c) = true := fun x hx => bne_iff_ne.2 (ne_of_mem_of_not_mem hx ha)
    rw [List.takeWhile_append_of_pos hne, List.takeWhile_cons_of_neg (by simp), List.append_nil]
  obtain rfl : a = a' := by rw [← hfront ha, h, hfront ha']
  exact ⟨rfl, (List.cons.inj (List.append_cancel_left h)).2⟩

theorem quote_injective : Function.Injective quote := by
  intro t t' h
  have hbody : t.flatMap escape ++ ['"'] = t'.flatMap escape ++ ['"'] := (List.cons.inj h).2
  exact flatMap_escape_injective (List.append_cancel_right hbody)

end Text

namespace Decimal

theorem ofNat_injective : Function.Injective ofNat := by
  intro n n' h
  have hread (k : Nat) : Nat.ofDigitChars 10 (ofNat k) 0 = k :=
    Nat.ofDigitChars_toDigits (by omega) (by omega)
  rw [← hread n, h, hread]

theorem isDigit_of_mem_ofInt {n : Int} {c : Char} (h : c ∈ ofInt n) :
    c = '-' ∨ c.isDigit = true := by
  have hdigits : ∀ c ∈ ofNat n.natAbs, c.isDigit = true := fun _ hmem =>
    Nat.isDigit_of_mem_toDigits (by omega) (by omega) hmem
  unfold ofInt at h
  split at h
  · exact (List.mem_cons.1 h).imp id (hdigits c)
  · exact Or.inr (hdigits c h)

theorem ofInt_injective : Function.Injective ofInt := by
  have hsign (k : Nat) (t : Text) : ofNat k ≠ '-' :: t := by
    intro h
    have hmem : '-' ∈ ofNat k := h ▸ List.mem_cons_self
    have hdigit := Nat.isDigit_of_mem_toDigits (by omega) (by omega) hmem
    cases hdigit
  intro n n' h
  unfold ofInt at h
  split at h <;> split at h
  · have habs := ofNat_injective (List.cons.inj h).2
    omega
  · exact absurd h.symm (hsign _ _)
  · exact absurd h (hsign _ _)
  · have habs := ofNat_injective h
    omega

end Decimal

/-! ## Rows -/

namespace Row

/-- A body that can be told from its line, whatever the indentation. -/
def IsVisible (body : Text) : Prop := '\n' ∉ body ∧ ∃ c t, body = c :: t ∧ c ≠ ' '

/-- Rows that begin at the margin. -/
def Flush (rows : List Row) : Prop := ∀ r ∈ rows.head?, r.indent = 0

variable {rows rows' a a' : List Row} {r r' : Row}

/-- The row that a line shows. -/
def ofLine (n : Nat) (l : Text) : Row :=
  ⟨(l.takeWhile (· == ' ')).length - n, l.dropWhile (· == ' ')⟩

theorem ofLine_line (n : Nat) (h : IsVisible r.body) : ofLine n (line n r) = r := by
  obtain ⟨-, c, t, hbody, hc⟩ := h
  have hspaces : ∀ x ∈ spaces (n + r.indent), (x == ' ') = true := fun x hx => by
    rw [List.eq_of_mem_replicate hx]
    rfl
  have hline : line n r = spaces (n + r.indent) ++ r.body := by
    rw [line, if_neg (by simp [hbody])]
  have htake : r.body.takeWhile (· == ' ') = [] := by simp [hbody, hc]
  have hdrop : r.body.dropWhile (· == ' ') = r.body := by simp [hbody, hc]
  rw [ofLine, hline, List.takeWhile_append_of_pos hspaces, List.dropWhile_append_of_pos hspaces,
    htake, hdrop, List.append_nil, spaces, List.length_replicate, Nat.add_sub_cancel_left]

theorem segments_unlines {ls : List Text} (h : ∀ l ∈ ls, '\n' ∉ l) :
    segments (unlines ls) = ls.map (· ++ ['\n']) := by
  have hsegments := segments_flatten_append (isLine_of_mem_map h) []
  rw [List.append_nil, ← List.flatMap_def] at hsegments
  rw [unlines, hsegments]
  exact List.append_nil _

theorem eq_of_render_eq {n : Nat} (h : Each IsVisible rows) (h' : Each IsVisible rows')
    (heq : render n rows = render n rows') : rows = rows' := by
  have hfree {rows : List Row} (h : Each IsVisible rows) :
      ∀ l ∈ rows.map (line n), '\n' ∉ l := by
    intro l hl
    obtain ⟨r, hr, rfl⟩ := List.mem_map.1 hl
    exact newline_not_mem_line n (h r hr).1
  have hread {rows : List Row} (h : Each IsVisible rows) :
      (rows.map (line n)).map (ofLine n) = rows := by
    rw [List.map_map]
    exact (List.map_congr_left fun r hr => ofLine_line n (h r hr)).trans (List.map_id rows)
  rw [render_eq_unlines, render_eq_unlines] at heq
  have hsegments := congrArg segments heq
  rw [segments_unlines (hfree h), segments_unlines (hfree h')] at hsegments
  have hlines := (List.map_inj_right fun _ _ => List.append_cancel_right).1 hsegments
  rw [← hread h, hlines, hread h']

theorem shift_injective (n : Nat) : Function.Injective (shift n) := by
  rintro ⟨i, t⟩ ⟨j, u⟩ h
  obtain ⟨hindent, hbody⟩ := Row.mk.inj h
  rw [Row.mk.injEq]
  exact ⟨Nat.add_left_cancel hindent, hbody⟩

/-- An opening row and the rows below it end where a row begins at the margin. -/
theorem opening_append_inj (ha : Flush a) (ha' : Flush a')
    (h : r :: (rows.map (shift 2) ++ a) = r' :: (rows'.map (shift 2) ++ a')) :
    r = r' ∧ rows = rows' ∧ a = a' := by
  have hbelow {rows a : List Row} (ha : Flush a) :
      (rows.map (shift 2) ++ a).takeWhile (0 < ·.indent) = rows.map (shift 2) := by
    have hdeep : ∀ x ∈ rows.map (shift 2), decide (0 < x.indent) = true := by
      intro x hx
      obtain ⟨r, -, rfl⟩ := List.mem_map.1 hx
      exact decide_eq_true (by simp only [shift]; omega)
    have hend : a.takeWhile (0 < ·.indent) = [] := by
      cases a with
      | nil => rfl
      | cons x a =>
        have hx : x.indent = 0 := ha x rfl
        simp [hx]
    rw [List.takeWhile_append_of_pos hdeep, hend, List.append_nil]
  obtain ⟨hr, hrest⟩ := List.cons.inj h
  have hrows : rows.map (shift 2) = rows'.map (shift 2) := by
    rw [← hbelow ha, hrest, hbelow ha']
  rw [hrows] at hrest
  exact ⟨hr, List.map_injective_iff.2 (shift_injective 2) hrows, List.append_cancel_left hrest⟩

end Row

/-! ## Plain nodes -/

namespace Node

open Row

/-- A key of letters, digits and underscores. -/
def IsWord (key : String) : Prop :=
  key ≠ "" ∧ ∀ c ∈ key.toList, Identifier.isPlainChar c = true

instance (key : String) : Decidable (IsWord key) :=
  @instDecidableAnd _ _ inferInstance (List.decidableBAll _ key.toList)

/-- A node that is put together from mappings, lists, strings of one line, integers and truth
values, and whose keys are words. -/
inductive IsPlain : Node → Prop
  | str {s : String} (h : '\n' ∉ s.toList) : IsPlain (.str s)
  | int (n : Int) : IsPlain (.int n)
  | bool (b : Bool) : IsPlain (.bool b)
  | map {m : Mapping} (keys : ∀ e ∈ m, IsWord e.1) (values : ∀ e ∈ m, IsPlain e.2) :
      IsPlain (.map m)
  | list {items : List Node} (h : ∀ node ∈ items, IsPlain node) : IsPlain (.list items)

variable {node node' : Node} {key key' : String} {scalar : Text} {a a' : List Row}

theorem IsWord.exists_cons (h : IsWord key) :
    ∃ c t, key.toList = c :: t ∧ Identifier.isPlainChar c = true := by
  obtain ⟨hne, hchars⟩ := h
  obtain ⟨c, t, hkey⟩ := List.exists_cons_of_ne_nil (mt String.toList_eq_nil_iff.1 hne)
  exact ⟨c, t, hkey, hchars c (hkey ▸ List.mem_cons_self)⟩

theorem IsWord.not_mem (h : IsWord key) {c : Char} (hc : Identifier.isPlainChar c = false) :
    c ∉ key.toList := by
  intro hmem
  rw [h.2 c hmem] at hc
  cases hc

theorem IsPlain.oneLine (h : IsPlain node) : OneLine node := by
  induction h with
  | str _ => exact .str _
  | int n => exact .int n
  | bool b => exact .bool b
  | map keys _ ih => exact .map (fun e he => (keys e he).not_mem (by decide)) ih
  | list _ ih => exact .list ih

/-! ### Scalars -/

/-- The place of a node among the kinds of nodes, from the first character of its scalar. -/
def kindOf (scalar : Text) : Nat :=
  match scalar.head? with
  | some '"' => (Node.str "").ctorIdx
  | some 't' | some 'f' => (Node.bool true).ctorIdx
  | some '\x7b' => (Node.map []).ctorIdx
  | some '[' => (Node.list []).ctorIdx
  | _ => (Node.int 0).ctorIdx

theorem kindOf_ofInt (n : Int) : kindOf (Decimal.ofInt n) = (Node.int n).ctorIdx := by
  cases hscalar : Decimal.ofInt n with
  | nil => rfl
  | cons c t =>
    have hc := Decimal.isDigit_of_mem_ofInt (n := n) (hscalar ▸ List.mem_cons_self)
    unfold kindOf
    split
    all_goals first | rfl | skip
    all_goals
      next heq =>
        obtain rfl := Option.some.inj heq
        rcases hc with hc | hc <;> cases hc

/-- A plain node that has a scalar, case by case. -/
theorem IsPlain.inline_cases (h : IsPlain node) (hs : node.inline? = some scalar) :
    (∃ s, node = .str s ∧ scalar = quote s.toList) ∨
      (∃ n, node = .int n ∧ scalar = Decimal.ofInt n) ∨
      (∃ b, node = .bool b ∧ scalar = if b then "true".toList else "false".toList) ∨
      (node = .map [] ∧ scalar = ['\x7b', '\x7d']) ∨ (node = .list [] ∧ scalar = ['[', ']']) := by
  cases h with
  | str h =>
    obtain ⟨-, hquote⟩ := Option.ite_none_left_eq_some.1 hs
    exact .inl ⟨_, rfl, (Option.some.inj hquote).symm⟩
  | int n => exact .inr (.inl ⟨n, rfl, (Option.some.inj hs).symm⟩)
  | bool b => exact .inr (.inr (.inl ⟨b, rfl, (Option.some.inj hs).symm⟩))
  | @map m _ _ =>
    cases m with
    | nil => exact .inr (.inr (.inr (.inl ⟨rfl, (Option.some.inj hs).symm⟩)))
    | cons e r => cases hs
  | @list items _ =>
    cases items with
    | nil => exact .inr (.inr (.inr (.inr ⟨rfl, (Option.some.inj hs).symm⟩)))
    | cons n r => cases hs

theorem IsPlain.kindOf_eq (h : IsPlain node) (hs : node.inline? = some scalar) :
    kindOf scalar = node.ctorIdx := by
  rcases h.inline_cases hs with
    ⟨s, rfl, rfl⟩ | ⟨n, rfl, rfl⟩ | ⟨b, rfl, rfl⟩ | ⟨rfl, rfl⟩ | ⟨rfl, rfl⟩
  · rfl
  · exact kindOf_ofInt n
  · cases b <;> rfl
  · rfl
  · rfl

/-- A scalar shows its node. -/
theorem IsPlain.eq_of_inline (h : IsPlain node) (h' : IsPlain node')
    (hs : node.inline? = some scalar) (hs' : node'.inline? = some scalar) : node = node' := by
  have hkind : node.ctorIdx = node'.ctorIdx := (h.kindOf_eq hs).symm.trans (h'.kindOf_eq hs')
  rcases h.inline_cases hs with
    ⟨s, rfl, rfl⟩ | ⟨n, rfl, rfl⟩ | ⟨b, rfl, rfl⟩ | ⟨rfl, rfl⟩ | ⟨rfl, rfl⟩ <;>
    rcases h'.inline_cases hs' with
      ⟨s', rfl, heq⟩ | ⟨n', rfl, heq⟩ | ⟨b', rfl, heq⟩ | ⟨rfl, -⟩ | ⟨rfl, -⟩
  all_goals try cases hkind
  · rw [String.toList_inj.1 (quote_injective heq)]
  · rw [Decimal.ofInt_injective heq]
  · cases b <;> cases b' <;> first | rfl | cases heq
  · rfl
  · rfl

/-- No scalar looks like the line of a key. -/
theorem IsPlain.scalar_ne (h : IsPlain node) (hs : node.inline? = some scalar) (hkey : IsWord key)
    (t : Text) : scalar ≠ key.toList ++ ':' :: t := by
  obtain ⟨c, r, hcons, hc⟩ := hkey.exists_cons
  intro heq
  have hcolon : ':' ∈ scalar := by simp [heq]
  have hhead : scalar.head? = some c := by simp [heq, hcons]
  rcases h.inline_cases hs with
    ⟨s, rfl, rfl⟩ | ⟨n, rfl, rfl⟩ | ⟨b, rfl, rfl⟩ | ⟨rfl, rfl⟩ | ⟨rfl, rfl⟩
  · obtain rfl := Option.some.inj hhead
    cases hc
  · rcases Decimal.isDigit_of_mem_ofInt hcolon with h | h <;> cases h
  · cases b <;> simp at hcolon
  · simp at hcolon
  · simp at hcolon

/-! ### Entries and items -/

/-- What stands behind the colon of a key or behind a dash on the same line. -/
def opening (node : Node) : Text :=
  match node.inline? with
  | some scalar => ' ' :: scalar
  | none => []

/-- The rows of what a node is put together from. -/
def innerRows : Node → List Row
  | .map entries => mapRows entries
  | .list items => listRows items
  | _ => []

theorem opening_of_inline (hs : node.inline? = some scalar) : node.opening = ' ' :: scalar := by
  rw [opening, hs]

theorem IsPlain.innerRows_of_inline (h : IsPlain node) (hs : node.inline? = some scalar) :
    node.innerRows = [] := by
  rcases h.inline_cases hs with
    ⟨s, rfl, rfl⟩ | ⟨n, rfl, rfl⟩ | ⟨b, rfl, rfl⟩ | ⟨rfl, rfl⟩ | ⟨rfl, rfl⟩ <;>
    rfl

/-- A plain node without a scalar is a mapping or a list that is not empty. -/
theorem IsPlain.none_cases (h : IsPlain node) (hs : node.inline? = none) :
    (∃ e r, node = .map (e :: r)) ∨ ∃ n r, node = .list (n :: r) := by
  cases h with
  | str h => simp [inline?, h] at hs
  | int n => cases hs
  | bool b => cases hs
  | @map m _ _ =>
    cases m with
    | nil => cases hs
    | cons e r => exact .inl ⟨e, r, rfl⟩
  | @list items _ =>
    cases items with
    | nil => cases hs
    | cons n r => exact .inr ⟨n, r, rfl⟩

theorem IsPlain.entryRows_eq (h : IsPlain node) (key : Text) :
    entryRows key node = ⟨0, key ++ ':' :: node.opening⟩ :: node.innerRows.map (Row.shift 2) := by
  cases hs : node.inline? with
  | some scalar =>
    rw [entryRows_of_inline hs, opening_of_inline hs, h.innerRows_of_inline hs]
    rfl
  | none =>
    rcases h.none_cases hs with ⟨e, r, rfl⟩ | ⟨n, r, rfl⟩
    · rw [entryRows.eq_def]
      rfl
    · rw [entryRows.eq_def]
      rfl

theorem IsPlain.itemRows_eq (h : IsPlain node) :
    (itemRows node = ⟨0, '-' :: node.opening⟩ :: node.innerRows.map (Row.shift 2)) ∨
      ∃ e r, node = .map (e :: r) ∧ itemRows node = asItem (mapRows (e :: r)) := by
  cases hs : node.inline? with
  | some scalar =>
    rw [itemRows_of_inline hs, opening_of_inline hs, h.innerRows_of_inline hs]
    exact .inl rfl
  | none =>
    rcases h.none_cases hs with ⟨e, r, rfl⟩ | ⟨n, r, rfl⟩
    · exact .inr ⟨e, r, rfl, by rw [itemRows.eq_def]; rfl⟩
    · exact .inl (by rw [itemRows.eq_def]; rfl)

/-- The rows of a mapping and of a list begin at the margin. -/
theorem flush_mapRows {m : Mapping} (h : ∀ e ∈ m, IsPlain e.2) : Flush (mapRows m) := by
  cases m with
  | nil => exact fun r hr => nomatch hr
  | cons e m =>
    intro r hr
    rw [mapRows, (h e List.mem_cons_self).entryRows_eq] at hr
    obtain rfl := Option.some.inj hr
    rfl

theorem flush_listRows {items : List Node} (h : ∀ node ∈ items, IsPlain node) :
    Flush (listRows items) := by
  cases items with
  | nil => exact fun r hr => nomatch hr
  | cons node items =>
    intro r hr
    rw [listRows] at hr
    rcases (h node List.mem_cons_self).itemRows_eq with hrows | ⟨e, m, rfl, hrows⟩
    · rw [hrows] at hr
      obtain rfl := Option.some.inj hr
      rfl
    · obtain ⟨r', rows, hcons⟩ : ∃ r' rows, mapRows (e :: m) = r' :: rows := by
        cases h _ List.mem_cons_self with
        | map _ values =>
          rw [mapRows, (values e List.mem_cons_self).entryRows_eq]
          exact ⟨_, _, rfl⟩
      rw [hrows, hcons] at hr
      obtain rfl := Option.some.inj hr
      rfl

/-! ### Nodes from their rows -/

/-- Among the plain nodes a node is the only one with its opening and its inner rows. -/
def IsDetermined (node : Node) : Prop :=
  ∀ node', IsPlain node' → node.opening = node'.opening → node.innerRows = node'.innerRows →
    node = node'

/-- The first row of a mapping. -/
theorem IsPlain.exists_mapRows {e : String × Node} {m : Mapping} (h : IsPlain (.map (e :: m))) :
    IsWord e.1 ∧ ∃ rows, mapRows (e :: m) = ⟨0, e.1.toList ++ ':' :: e.2.opening⟩ :: rows := by
  cases h with
  | map keys values =>
    have hrows := (values e List.mem_cons_self).entryRows_eq e.1.toList
    refine ⟨keys e List.mem_cons_self, e.2.innerRows.map (Row.shift 2) ++ mapRows m, ?_⟩
    rw [mapRows, hrows]
    rfl

/-- The line of an item that is a mapping is not the line of another item. -/
theorem IsPlain.opening_ne (h : IsPlain node) (hkey : IsWord key) (t : Text) :
    node.opening ≠ ' ' :: (key.toList ++ ':' :: t) := by
  intro heq
  unfold opening at heq
  split at heq
  · next scalar hs => exact h.scalar_ne hs hkey t (List.cons.inj heq).2
  · cases heq

theorem mapRows_inj {m m' : Mapping} (hm : ∀ e ∈ m, IsDetermined e.2) (h : IsPlain (.map m))
    (h' : IsPlain (.map m')) (heq : mapRows m = mapRows m') : m = m' := by
  induction m generalizing m' with
  | nil =>
    cases m' with
    | nil => rfl
    | cons e' m' =>
      obtain ⟨-, rows, hrows⟩ := h'.exists_mapRows
      rw [hrows] at heq
      cases heq
  | cons e m ih =>
    cases m' with
    | nil =>
      obtain ⟨-, rows, hrows⟩ := h.exists_mapRows
      rw [hrows] at heq
      cases heq
    | cons e' m' =>
      obtain ⟨key, node⟩ := e
      obtain ⟨key', node'⟩ := e'
      cases h with
      | map keys values =>
      cases h' with
      | map keys' values' =>
        obtain ⟨hkey, hkeys⟩ := List.forall_mem_cons.1 keys
        obtain ⟨hkey', hkeys'⟩ := List.forall_mem_cons.1 keys'
        obtain ⟨hnode, hnodes⟩ := List.forall_mem_cons.1 values
        obtain ⟨hnode', hnodes'⟩ := List.forall_mem_cons.1 values'
        obtain ⟨hfirst, hrest⟩ := List.forall_mem_cons.1 hm
        rw [mapRows, mapRows, hnode.entryRows_eq, hnode'.entryRows_eq] at heq
        obtain ⟨hhead, hinner, htail⟩ :=
          opening_append_inj (flush_mapRows hnodes) (flush_mapRows hnodes') heq
        -- the key ends at the first colon
        obtain ⟨hname, hopening⟩ := append_cons_inj (hkey.not_mem (by decide))
          (hkey'.not_mem (by decide)) (Row.mk.inj hhead).2
        obtain rfl : key = key' := String.toList_inj.1 hname
        obtain rfl : node = node' := hfirst node' hnode' hopening hinner
        rw [ih hrest (.map hkeys hnodes) (.map hkeys' hnodes') htail]

theorem item_append_inj (hd : IsDetermined node) (h : IsPlain node) (h' : IsPlain node')
    (ha : Flush a) (ha' : Flush a') (heq : itemRows node ++ a = itemRows node' ++ a') :
    node = node' ∧ a = a' := by
  rcases h.itemRows_eq with hrows | ⟨e, m, rfl, hrows⟩ <;>
    rcases h'.itemRows_eq with hrows' | ⟨e', m', rfl, hrows'⟩
  · rw [hrows, hrows'] at heq
    obtain ⟨hhead, hinner, htail⟩ := opening_append_inj ha ha' heq
    exact ⟨hd node' h' (List.cons.inj (Row.mk.inj hhead).2).2 hinner, htail⟩
  · obtain ⟨hkey, rows, hcons⟩ := h'.exists_mapRows
    rw [hrows, hrows', hcons] at heq
    exact absurd (List.cons.inj (Row.mk.inj (List.cons.inj heq).1).2).2 (h.opening_ne hkey _)
  · obtain ⟨hkey, rows, hcons⟩ := h.exists_mapRows
    rw [hrows, hrows', hcons] at heq
    exact absurd (List.cons.inj (Row.mk.inj (List.cons.inj heq).1).2).2.symm (h'.opening_ne hkey _)
  · obtain ⟨-, rows, hcons⟩ := h.exists_mapRows
    obtain ⟨-, rows', hcons'⟩ := h'.exists_mapRows
    rw [hrows, hrows', hcons, hcons'] at heq
    obtain ⟨hhead, hinner, htail⟩ := opening_append_inj ha ha' heq
    -- without the dash the rows are those of the two mappings
    have hbody := (List.cons.inj (List.cons.inj (Row.mk.inj hhead).2).2).2
    dsimp only at hbody
    refine ⟨hd _ h' rfl ?_, htail⟩
    rw [innerRows, innerRows, hcons, hcons', hbody, hinner]

theorem listRows_inj {items items' : List Node} (hitems : ∀ node ∈ items, IsDetermined node)
    (h : ∀ node ∈ items, IsPlain node) (h' : ∀ node ∈ items', IsPlain node)
    (heq : listRows items = listRows items') : items = items' := by
  have hne {node : Node} {r : List Node} (h : IsPlain node) : listRows (node :: r) ≠ [] := by
    rw [listRows]
    rcases h.itemRows_eq with hrows | ⟨e, m, rfl, hrows⟩
    · simp [hrows]
    · obtain ⟨-, rows, hcons⟩ := h.exists_mapRows
      simp [hrows, hcons, asItem]
  induction items generalizing items' with
  | nil =>
    cases items' with
    | nil => rfl
    | cons node' items' => exact absurd heq.symm (hne (h' node' List.mem_cons_self))
  | cons node items ih =>
    cases items' with
    | nil => exact absurd heq (hne (h node List.mem_cons_self))
    | cons node' items' =>
      obtain ⟨hnode, hnodes⟩ := List.forall_mem_cons.1 h
      obtain ⟨hnode', hnodes'⟩ := List.forall_mem_cons.1 h'
      obtain ⟨hfirst, hrest⟩ := List.forall_mem_cons.1 hitems
      rw [listRows, listRows] at heq
      obtain ⟨rfl, htail⟩ := item_append_inj hfirst hnode hnode' (flush_listRows hnodes)
        (flush_listRows hnodes') heq
      rw [ih hrest hnodes hnodes' htail]

/-- Rows below a mapping are not rows below a list. -/
theorem IsPlain.innerRows_ne {e : String × Node} {m : Mapping} {n : Node} {r : List Node}
    (h : IsPlain (.map (e :: m))) (h' : IsPlain (.list (n :: r))) :
    mapRows (e :: m) ≠ listRows (n :: r) := by
  obtain ⟨hkey, rows, hcons⟩ := h.exists_mapRows
  obtain ⟨c, t, hc, hword⟩ := hkey.exists_cons
  cases h' with
  | list h' =>
    intro heq
    rw [listRows, hcons, hc] at heq
    have hdash : c = '-' := by
      rcases (h' n List.mem_cons_self).itemRows_eq with hrows | ⟨e', m', rfl, hrows⟩
      · rw [hrows] at heq
        exact (List.cons.inj (Row.mk.inj (List.cons.inj heq).1).2).1
      · obtain ⟨-, rows', hcons'⟩ := (h' _ List.mem_cons_self).exists_mapRows
        rw [hrows, hcons'] at heq
        exact (List.cons.inj (Row.mk.inj (List.cons.inj heq).1).2).1
    rw [hdash] at hword
    cases hword

theorem inline?_of_opening {t : Text} (h : node.opening = t) : node.inline? = t.tail? := by
  subst h
  cases hs : node.inline? <;> simp [opening, hs]

theorem IsPlain.isDetermined_of_inline (h : IsPlain node) (hs : node.inline? = some scalar) :
    IsDetermined node := by
  intro node' h' hopening _
  rw [opening_of_inline hs] at hopening
  exact h.eq_of_inline h' hs (inline?_of_opening hopening.symm)

/-- A plain node of the same opening has no scalar either. -/
theorem IsPlain.none_cases_of_opening (h' : IsPlain node') (hs : node.inline? = none)
    (hopening : node.opening = node'.opening) :
    (∃ e r, node' = .map (e :: r)) ∨ ∃ n r, node' = .list (n :: r) := by
  refine h'.none_cases (inline?_of_opening (t := []) ?_)
  rw [← hopening, opening, hs]

theorem IsPlain.isDetermined (h : IsPlain node) : IsDetermined node := by
  induction h with
  | str h => exact (IsPlain.str h).isDetermined_of_inline (if_neg (by simpa using h))
  | int n => exact (IsPlain.int n).isDetermined_of_inline rfl
  | bool b => exact (IsPlain.bool b).isDetermined_of_inline rfl
  | @map m keys values ih =>
    have hplain := IsPlain.map keys values
    cases m with
    | nil => exact hplain.isDetermined_of_inline rfl
    | cons e m =>
      intro node' h' hopening hrows
      rcases h'.none_cases_of_opening rfl hopening with ⟨e', m', rfl⟩ | ⟨n', r', rfl⟩
      · rw [mapRows_inj ih hplain h' hrows]
      · exact absurd hrows (hplain.innerRows_ne h')
  | @list items h ih =>
    have hplain := IsPlain.list h
    cases items with
    | nil => exact hplain.isDetermined_of_inline rfl
    | cons n r =>
      intro node' h' hopening hrows
      rcases h'.none_cases_of_opening rfl hopening with ⟨e', m', rfl⟩ | ⟨n', r', rfl⟩
      · exact absurd hrows.symm (h'.innerRows_ne hplain)
      · cases h' with
        | list h' => rw [listRows_inj ih h h' hrows]

/-! ### Lines -/

theorem IsPlain.newline_not_mem_opening (h : IsPlain node) : '\n' ∉ node.opening := by
  cases hs : node.inline? with
  | none => simp [opening, hs]
  | some scalar => simp [opening_of_inline hs, h.oneLine.inline scalar hs]

theorem IsPlain.visible_entryRows (h : IsPlain node) (hrows : Each IsVisible node.innerRows)
    (hkey : IsWord key) : Each IsVisible (entryRows key.toList node) := by
  obtain ⟨c, t, hcons, hc⟩ := hkey.exists_cons
  rw [h.entryRows_eq]
  refine .cons ⟨?_, c, t ++ ':' :: node.opening, by rw [hcons]; rfl, ?_⟩ (hrows.shift 2)
  · simp [hkey.not_mem (c := '\n') (by decide), h.newline_not_mem_opening]
  · rintro rfl
    cases hc

theorem IsVisible.dashed {t : Text} (h : IsVisible t) : IsVisible ('-' :: ' ' :: t) :=
  ⟨by simp [h.1], '-', ' ' :: t, rfl, by decide⟩

theorem IsPlain.visible_itemRows (h : IsPlain node) (hrows : Each IsVisible node.innerRows) :
    Each IsVisible (itemRows node) := by
  rcases h.itemRows_eq with heq | ⟨e, m, rfl, heq⟩
  · rw [heq]
    refine .cons ⟨?_, '-', node.opening, rfl, by decide⟩ (hrows.shift 2)
    simp [h.newline_not_mem_opening]
  · rw [heq]
    exact hrows.asItem IsVisible.dashed

/-- Each row of a plain node can be told from its line. -/
theorem IsPlain.visible_innerRows (h : IsPlain node) : Each IsVisible node.innerRows := by
  induction h with
  | str _ | int _ | bool _ => exact fun r hr => absurd hr List.not_mem_nil
  | @map m keys values ih =>
    rw [innerRows, mapRows_eq_flatMap]
    exact each_flatMap fun e he => (values e he).visible_entryRows (ih e he) (keys e he)
  | @list items h ih =>
    rw [innerRows, listRows_eq_flatMap]
    exact each_flatMap fun node hnode => (h node hnode).visible_itemRows (ih node hnode)

/-- At each indentation, two plain mappings with the same text are the same mapping, and two lists
of plain nodes with the same text are the same list. -/
theorem render_unambiguous (n : Nat) :
    (∀ m m' : Mapping, IsPlain (.map m) → IsPlain (.map m') → m.render n = m'.render n → m = m') ∧
      ∀ items items' : List Node, (∀ node ∈ items, IsPlain node) →
        (∀ node ∈ items', IsPlain node) → renderList items n = renderList items' n →
          items = items' := by
  constructor
  · intro m m' h h' heq
    have hrows : mapRows m = mapRows m' :=
      eq_of_render_eq h.visible_innerRows h'.visible_innerRows heq
    have hvalues : ∀ e ∈ m, IsDetermined e.2 := by
      cases h with
      | map _ values => exact fun e he => (values e he).isDetermined
    exact mapRows_inj hvalues h h' hrows
  · intro items items' h h' heq
    have hrows : listRows items = listRows items' :=
      eq_of_render_eq (IsPlain.list h).visible_innerRows (IsPlain.list h').visible_innerRows heq
    exact listRows_inj (fun node hnode => (h node hnode).isDetermined) h h' hrows

/-- A mapping whose second value was put into it last. -/
theorem render_unambiguous_inserted :
    let points : Node := .list [.map [("x", .int (-3)), ("y", .map [])], .list [.bool true]]
    let m : Mapping := [("id", .str "a: b"), ("points", points)]
    let m' : Mapping := Mapping.insert [("id", .str "a: b"), ("points", .list [])] "points" points
    IsPlain (.map m) ∧ IsPlain (.map m') ∧ m.render 2 = m'.render 2 ∧ m = m' := by
  intro points m m'
  have hpoint : IsPlain (.map [("x", .int (-3)), ("y", .map [])]) :=
    .map (by decide) (by simp [IsPlain.int, IsPlain.map])
  have hpoints : IsPlain points := .list (by simp [hpoint, IsPlain.list, IsPlain.bool])
  have hm : IsPlain (.map m) := .map (by decide) (by simp [m, IsPlain.str, hpoints])
  have hm' : IsPlain (.map m') :=
    .map (by decide) (by simp [m', Mapping.insert, IsPlain.str, hpoints])
  have htext : m.render 2 = m'.render 2 := by simp [m, m', Mapping.insert]
  exact ⟨hm, hm', htext, (render_unambiguous 2).1 m m' hm hm' htext⟩

end Node

end TouchPanel
