import TouchPanel.Text.Blank

/-!
# Accesses by place

Taking a text apart at a byte or a list at a place has no result if the byte does not lie between
two characters or the place is out of range. At the end of a part that is known to stand in front,
there is always a result.
-/

namespace TouchPanel.Access

open Text

/-! ## Texts -/

/-- The difference of two numbers of bytes. -/
def sub? (a b : Nat) : Option Nat := if b ≤ a then some (a - b) else none

/-- The first bytes of a text. -/
def takeBytes? : Nat → Text → Option Text
  | 0, _ => some []
  | _ + 1, [] => none
  | n + 1, c :: r =>
    if c.utf8Size ≤ n + 1 then (takeBytes? (n + 1 - c.utf8Size) r).map (c :: ·) else none

/-- A text without its first bytes. -/
def dropBytes? : Nat → Text → Option Text
  | 0, t => some t
  | _ + 1, [] => none
  | n + 1, c :: r => if c.utf8Size ≤ n + 1 then dropBytes? (n + 1 - c.utf8Size) r else none

/-- The bytes of a text from one place to another. -/
def sliceBytes? (first last : Nat) (t : Text) : Option Text :=
  (takeBytes? last t).bind (dropBytes? first)

theorem byteSize_append (a b : Text) : byteSize (a ++ b) = byteSize a + byteSize b := by
  induction a with
  | nil => exact (Nat.zero_add _).symm
  | cons c a ih => rw [List.cons_append, byteSize, byteSize, ih, Nat.add_assoc]

theorem sub?_byteSize_append (a b : Text) :
    sub? (byteSize (a ++ b)) (byteSize b) = some (byteSize a) := by
  rw [byteSize_append, sub?, if_pos (Nat.le_add_left _ _), Nat.add_sub_cancel]

/-- The bytes of a front part of a text can be taken and dropped. -/
theorem splitBytes?_byteSize_append (a b : Text) :
    takeBytes? (byteSize a) (a ++ b) = some a ∧ dropBytes? (byteSize a) (a ++ b) = some b := by
  induction a with
  | nil => cases b <;> exact ⟨rfl, rfl⟩
  | cons c a ih =>
    obtain ⟨n, hn⟩ := Nat.exists_eq_succ_of_ne_zero (Nat.ne_of_gt c.utf8Size_pos)
    have hsize : byteSize (c :: a) = n + byteSize a + 1 := by rw [byteSize, hn]; omega
    have hrest : n + byteSize a + 1 - c.utf8Size = byteSize a := by omega
    have hfits : c.utf8Size ≤ n + byteSize a + 1 := by omega
    rw [hsize, List.cons_append, takeBytes?, dropBytes?, if_pos hfits, if_pos hfits, hrest, ih.1]
    exact ⟨rfl, ih.2⟩

theorem takeBytes?_byteSize_append (a b : Text) : takeBytes? (byteSize a) (a ++ b) = some a :=
  (splitBytes?_byteSize_append a b).1

theorem dropBytes?_byteSize_append (a b : Text) : dropBytes? (byteSize a) (a ++ b) = some b :=
  (splitBytes?_byteSize_append a b).2

/-- A text can be taken apart exactly where a part of it ends. -/
theorem takeBytes?_eq_some_iff {n : Nat} {t a : Text} :
    takeBytes? n t = some a ↔ ∃ r, t = a ++ r ∧ byteSize a = n := by
  constructor
  · intro h
    fun_induction takeBytes? n t generalizing a with
    | case1 t => exact ⟨t, by cases h; rfl, by cases h; rfl⟩
    | case2 n => cases h
    | case3 n c r hfits ih =>
      obtain ⟨front, hfront, rfl⟩ := Option.map_eq_some_iff.1 h
      obtain ⟨rest, rfl, hsize⟩ := ih hfront
      exact ⟨rest, rfl, by rw [byteSize]; omega⟩
    | case4 n c r hfits => cases h
  · rintro ⟨r, rfl, rfl⟩
    exact takeBytes?_byteSize_append a r

theorem dropBytes?_eq_some_iff {n : Nat} {t r : Text} :
    dropBytes? n t = some r ↔ ∃ a, t = a ++ r ∧ byteSize a = n := by
  constructor
  · intro h
    fun_induction dropBytes? n t with
    | case1 t => exact ⟨[], by cases h; rfl, rfl⟩
    | case2 n => cases h
    | case3 n c t hfits ih =>
      obtain ⟨a, rfl, hsize⟩ := ih h
      exact ⟨c :: a, rfl, by rw [byteSize]; omega⟩
    | case4 n c t hfits => cases h
  · rintro ⟨a, rfl, rfl⟩
    exact dropBytes?_byteSize_append a r

example : dropBytes? 1 "é".toList = none := by decide

theorem sliceBytes?_byteSize_append (a b c : Text) :
    sliceBytes? (byteSize a) (byteSize (a ++ b)) (a ++ b ++ c) = some b := by
  rw [sliceBytes?, takeBytes?_byteSize_append, Option.bind_some, dropBytes?_byteSize_append]

/-! ## Lists -/

section

variable {α : Type}

/-- The elements in front of a place. -/
def upTo? (i : Nat) (l : List α) : Option (List α) := if i ≤ l.length then some (l.take i) else none

/-- The elements from a place on. -/
def from? (i : Nat) (l : List α) : Option (List α) := if i ≤ l.length then some (l.drop i) else none

/-- Puts elements in at a place. -/
def spliceAt? (i : Nat) (more l : List α) : Option (List α) :=
  if i ≤ l.length then some (l.take i ++ more ++ l.drop i) else none

/-- Puts an element in at a place. -/
def insertAt? (i : Nat) (a : α) (l : List α) : Option (List α) := spliceAt? i [a] l

/-- Replaces the element at a place. -/
def setAt? (i : Nat) (a : α) (l : List α) : Option (List α) :=
  if i < l.length then some (l.set i a) else none

/-- Takes out the element at a place. -/
def removeAt? (i : Nat) (l : List α) : Option (α × List α) := l[i]?.map fun a => (a, l.eraseIdx i)

/-- The place of the last element that satisfies `p`. -/
def lastIdx? (p : α → Bool) (l : List α) : Option Nat :=
  (l.reverse.findIdx? p).map fun i => l.length - (i + 1)

/-- Takes out the first element that satisfies `p`, if there is one. -/
def removeFirst? (p : α → Bool) (l : List α) : Option (Option α × List α) :=
  match l.findIdx? p with
  | none => some (none, l)
  | some i => (removeAt? i l).map fun (a, l) => (some a, l)

variable {p : α → Bool} {l : List α}

theorem upTo?_append (a b : List α) : upTo? a.length (a ++ b) = some a := by
  rw [upTo?, if_pos (by simp), List.take_left]

theorem from?_append (a b : List α) : from? a.length (a ++ b) = some b := by
  rw [from?, if_pos (by simp), List.drop_left]

theorem spliceAt?_append (a more b : List α) :
    spliceAt? a.length more (a ++ b) = some (a ++ more ++ b) := by
  rw [spliceAt?, if_pos (by simp), List.take_left, List.drop_left]

theorem insertAt?_append (a : List α) (x : α) (b : List α) :
    insertAt? a.length x (a ++ b) = some (a ++ x :: b) := by
  rw [insertAt?, spliceAt?_append, List.append_assoc, List.singleton_append]

theorem getElem?_append (a : List α) (x : α) (b : List α) : (a ++ x :: b)[a.length]? = some x := by
  simp

theorem setAt?_append (a : List α) (x y : α) (b : List α) :
    setAt? a.length y (a ++ x :: b) = some (a ++ y :: b) := by
  rw [setAt?, if_pos (by simp), List.set_append_right _ _ (Nat.le_refl _), Nat.sub_self]
  rfl

theorem removeAt?_append (a : List α) (x : α) (b : List α) :
    removeAt? a.length (a ++ x :: b) = some (x, a ++ b) := by
  rw [removeAt?, getElem?_append, List.eraseIdx_append_of_length_le (Nat.le_refl _), Nat.sub_self]
  rfl

/-- An element is found where a part ends that has none, or there is none. -/
theorem findIdx?_cases (p : α → Bool) (l : List α) :
    (l.findIdx? p = none ∧ ∀ x ∈ l, p x = false) ∨
      ∃ a x b, l = a ++ x :: b ∧ (∀ y ∈ a, p y = false) ∧ p x = true ∧
        l.findIdx? p = some a.length := by
  induction l with
  | nil => exact Or.inl ⟨rfl, by simp⟩
  | cons x l ih =>
    by_cases hx : p x = true
    · exact Or.inr ⟨[], x, l, rfl, by simp, hx, by simp [List.findIdx?_cons, hx]⟩
    · rw [Bool.not_eq_true] at hx
      have hcons : (x :: l).findIdx? p = (l.findIdx? p).map (· + 1) := by
        simp [List.findIdx?_cons, hx]
      rcases ih with ⟨hnone, hl⟩ | ⟨a, y, b, rfl, ha, hy, hat⟩
      · exact Or.inl ⟨by rw [hcons, hnone]; rfl, List.forall_mem_cons.2 ⟨hx, hl⟩⟩
      · exact Or.inr ⟨x :: a, y, b, rfl, List.forall_mem_cons.2 ⟨hx, ha⟩, hy, by
          rw [hcons, hat]; rfl⟩

/-- The last element is found where a part begins that has no other, or there is none. -/
theorem lastIdx?_cases (p : α → Bool) (l : List α) :
    (lastIdx? p l = none ∧ ∀ x ∈ l, p x = false) ∨
      ∃ a x b, l = a ++ x :: b ∧ (∀ y ∈ b, p y = false) ∧ p x = true ∧
        lastIdx? p l = some a.length := by
  rcases findIdx?_cases p l.reverse with ⟨hnone, hl⟩ | ⟨a, x, b, hsplit, ha, hx, hat⟩
  · exact Or.inl ⟨by rw [lastIdx?, hnone]; rfl, fun x hx => hl x (List.mem_reverse.2 hx)⟩
  · have hlist : l = b.reverse ++ x :: a.reverse := by
      rw [← List.reverse_reverse l, hsplit]
      simp
    refine Or.inr ⟨b.reverse, x, a.reverse, hlist, fun y hy => ha y (List.mem_reverse.1 hy), hx, ?_⟩
    rw [lastIdx?, hat, Option.map_some, hlist]
    simp

/-- What is dropped from the end ends at the last element that is kept. -/
theorem dropWhile_reverse_append_cons {a b : List α} {x : α} (hb : ∀ y ∈ b, p y = true)
    (hx : p x = false) : (a ++ x :: b).reverse.dropWhile p = x :: a.reverse := by
  rw [List.reverse_append, List.reverse_cons, List.append_assoc, List.singleton_append,
    List.dropWhile_append_of_pos fun y hy => hb y (List.mem_reverse.1 hy),
    List.dropWhile_cons_of_neg (by simp [hx])]

theorem removeFirst?_eq (p : α → Bool) (l : List α) :
    removeFirst? p l = some (l.find? p, l.eraseP p) := by
  rw [removeFirst?]
  rcases findIdx?_cases p l with ⟨hnone, hall⟩ | ⟨a, x, b, rfl, ha, hx, hat⟩
  · have hfind : l.find? p = none := List.find?_eq_none.2 fun x hmem => by simp [hall x hmem]
    rw [hnone, hfind, List.eraseP_of_forall_not fun x hmem => by simp [hall x hmem]]
  · have hbefore : ∀ y ∈ a, ¬p y = true := fun y hmem => by simp [ha y hmem]
    have hfind : (a ++ x :: b).find? p = some x := by
      rw [List.find?_append, List.find?_eq_none.2 hbefore, Option.none_or, List.find?_cons, hx]
    rw [hat, hfind, List.eraseP_append_right (x :: b) hbefore, List.eraseP_cons, hx]
    simp only [removeAt?_append, Option.map_some, cond_true]

/-! ## Runs over a list -/

variable {β : Type}

/-- A step that always has a result does so for all elements. -/
theorem mapM_eq {f? : α → Option β} {f : α → β} (h : ∀ a ∈ l, f? a = some (f a)) :
    l.mapM f? = some (l.map f) := by
  induction l with
  | nil => rfl
  | cons a l ih =>
    obtain ⟨ha, hl⟩ := List.forall_mem_cons.1 h
    rw [List.mapM_cons, ha, ih hl]
    rfl

theorem mapM_eq_filterMap {f? f : α → Option β} (h : ∀ a ∈ l, f? a = f a ∧ (f a).isSome) :
    l.mapM f? = some (l.filterMap f) := by
  induction l with
  | nil => rfl
  | cons a l ih =>
    obtain ⟨⟨ha, hsome⟩, hl⟩ := List.forall_mem_cons.1 h
    obtain ⟨b, hb⟩ := Option.isSome_iff_exists.1 hsome
    rw [List.mapM_cons, ha, hb, ih hl, List.filterMap_cons_some hb]
    rfl

theorem foldlM_eq {f? : β → α → Option β} {f : β → α → β} (h : ∀ b a, f? b a = some (f b a))
    (b : β) : l.foldlM f? b = some (l.foldl f b) := by
  induction l generalizing b with
  | nil => rfl
  | cons a l ih =>
    rw [List.foldlM_cons, h, List.foldl_cons]
    exact ih (f b a)

end

end TouchPanel.Access
