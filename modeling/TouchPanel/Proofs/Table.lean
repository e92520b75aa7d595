import Mathlib.Data.List.Induction
import Mathlib.Data.List.Sort
import TouchPanel.Table

/-!
# Looking up in a sorted table

Inserting, changing and erasing an entry is seen at its own key and at no other. What a
table holds is read off its entries or off its look-ups alike, and a table is known by either.
-/

namespace TouchPanel.Table

open Std

variable {κ α : Type} [Ord κ]

@[simp] theorem keys_modify (t : Table κ α) (key : κ) (f : α → α) :
    (t.modify key f).keys = t.keys := by
  rw [keys, keys, modify, List.map_map]
  refine List.map_congr_left fun e _ => ?_
  simp only [Function.comp_apply]
  split <;> rfl

theorem pairwise_keys (t : Table κ α) : t.keys.Pairwise fun a b => compare a b = .lt :=
  List.pairwise_map.2 t.sorted

private theorem get?_modify (t : Table κ α) (key k : κ) (f : α → α) :
    (t.modify key f).get? k =
      (t.entries.find? fun e => compare k e.1 == .eq).map fun e =>
        if compare key e.1 == .eq then f e.2 else e.2 := by
  have hkeys : (fun e : κ × α => compare k e.1 == .eq) ∘
      (fun e => if compare key e.1 == .eq then (e.1, f e.2) else e) =
        fun e => compare k e.1 == .eq := by
    funext e
    simp only [Function.comp_apply]
    split <;> rfl
  rw [get?, modify, List.find?_map, hkeys, Option.map_map]
  congr 1
  funext e
  simp only [Function.comp_apply]
  split <;> rfl

@[simp] theorem get?_modify_self (t : Table κ α) (key : κ) (f : α → α) :
    (t.modify key f).get? key = (t.get? key).map f := by
  rw [get?_modify, get?]
  cases hfind : t.entries.find? fun e => compare key e.1 == .eq with
  | none => rfl
  | some e =>
    have hkey := List.find?_some hfind
    rw [Option.map_some, if_pos hkey]
    rfl

/-- The entries of a table that a test keeps. -/
def keep (t : Table κ α) (test : κ × α → Bool) : Table κ α :=
  ⟨t.entries.filter test, t.sorted.filter _⟩

theorem get?_mapWithKey {β : Type} [LawfulEqOrd κ] (t : Table κ α) (f : κ → α → β) (key : κ) :
    (t.mapWithKey f).get? key = (t.get? key).map (f key) := by
  rw [get?, mapWithKey, List.find?_map, Option.map_map, get?, Option.map_map]
  have hkeys : (fun e : κ × β => compare key e.1 == .eq) ∘ (fun e : κ × α => (e.1, f e.1 e.2)) =
      fun e => compare key e.1 == .eq := rfl
  rw [hkeys]
  cases hfind : t.entries.find? fun e => compare key e.1 == .eq with
  | none => rfl
  | some e =>
    have hkey : key = e.1 := by simpa using List.find?_some hfind
    rw [hkey]
    rfl

variable [LawfulEqOrd κ]

theorem find?_place_self (key : κ) (value : α) (l : List (κ × α)) :
    (place key value l).find? (fun e => compare key e.1 == .eq) = some (key, value) := by
  induction l with
  | nil => simp [place]
  | cons e r ih =>
    rw [place]
    split
    · simp
    · simp
    · next h => simp [h, ih]

theorem find?_place_of_ne {key k : κ} (hne : k ≠ key) (value : α) (l : List (κ × α)) :
    (place key value l).find? (fun e => compare k e.1 == .eq) =
      l.find? (fun e => compare k e.1 == .eq) := by
  induction l with
  | nil => simp [place, hne]
  | cons e r ih =>
    rw [place]
    split
    · simp [hne]
    · next h =>
      obtain rfl := LawfulEqCmp.eq_of_compare h
      simp [hne]
    · rw [List.find?_cons, List.find?_cons, ih]

@[simp] theorem get?_erase_self (t : Table κ α) (key : κ) : (t.erase key).get? key = none := by
  simp [get?, erase]

theorem get?_erase_of_ne (t : Table κ α) {key k : κ} (hne : k ≠ key) :
    (t.erase key).get? k = t.get? k := by
  rw [get?, get?, erase, List.find?_filter]
  congr 2
  funext e
  by_cases h : k = e.1
  · simp [← h, Ne.symm hne]
  · simp [h]

theorem get?_modify_of_ne (t : Table κ α) {key k : κ} (hne : k ≠ key) (f : α → α) :
    (t.modify key f).get? k = t.get? k := by
  rw [get?_modify, get?]
  cases hfind : t.entries.find? fun e => compare k e.1 == .eq with
  | none => rfl
  | some e =>
    have hk : k = e.1 := by simpa using List.find?_some hfind
    simp [← hk, Ne.symm hne]

theorem get?_eq_some_iff {t : Table κ α} {key : κ} {value : α} :
    t.get? key = some value ↔ (key, value) ∈ t.entries := by
  obtain ⟨l, hl⟩ := t
  unfold get?
  dsimp only
  induction l with
  | nil => simp
  | cons e r ih =>
    obtain ⟨he, hr⟩ := List.pairwise_cons.1 hl
    rw [List.find?_cons, List.mem_cons]
    by_cases hkey : key = e.1
    · have hrest : (key, value) ∉ r := by
        intro hmem
        have hlt := he _ hmem
        rw [hkey, compare_self] at hlt
        cases hlt
      obtain ⟨k, v⟩ := e
      simp only [hkey] at hrest ⊢
      simp [hrest, eq_comm]
    · have hne : (key, value) ≠ e := fun h => hkey (h ▸ rfl)
      have hskip : (compare key e.1 == .eq) = false := by simpa using hkey
      rw [hskip]
      simp only [ih hr, hne, false_or]

theorem get?_keep (t : Table κ α) (test : κ × α → Bool) (key : κ) :
    (t.keep test).get? key = (t.get? key).filter fun value => test (key, value) := by
  apply Option.ext
  intro value
  rw [get?_eq_some_iff, Option.filter_eq_some_iff, get?_eq_some_iff]
  exact List.mem_filter

theorem get?_keep_of_all (t : Table κ α) {test : κ × α → Bool} {key : κ}
    (h : ∀ value, test (key, value) = true) : (t.keep test).get? key = t.get? key := by
  rw [get?_keep]
  cases t.get? key with
  | none => rfl
  | some value => exact Option.filter_some_pos (h value)

theorem contains_iff {t : Table κ α} {key : κ} : t.contains key = true ↔ key ∈ t.keys := by
  rw [contains, Option.isSome_iff_exists, keys, List.mem_map]
  constructor
  · rintro ⟨value, h⟩
    exact ⟨(key, value), get?_eq_some_iff.1 h, rfl⟩
  · rintro ⟨⟨k, value⟩, h, rfl⟩
    exact ⟨value, get?_eq_some_iff.2 h⟩

theorem nodup_keys (t : Table κ α) : t.keys.Nodup := by
  refine t.pairwise_keys.imp fun {a b} hlt heq => ?_
  rw [heq, compare_self] at hlt
  cases hlt

variable [TransOrd κ]

@[simp] theorem get?_insert_self (t : Table κ α) (key : κ) (value : α) :
    (t.insert key value).get? key = some value := by
  rw [get?, insert, find?_place_self]
  rfl

theorem get?_insert_of_ne (t : Table κ α) {key k : κ} (hne : k ≠ key) (value : α) :
    (t.insert key value).get? k = t.get? k := by
  rw [get?, get?, insert, find?_place_of_ne hne]

theorem mem_keys_insert {t : Table κ α} {key k : κ} {value : α} :
    k ∈ (t.insert key value).keys ↔ k = key ∨ k ∈ t.keys := by
  by_cases h : k = key
  · subst h
    simp [← contains_iff, contains, get?_insert_self]
  · rw [← contains_iff, ← contains_iff, contains, contains, get?_insert_of_ne t h]
    simp [h]

theorem mem_keys_ofList {l : List (κ × α)} {key : κ} :
    key ∈ (ofList l).keys ↔ key ∈ l.map (·.1) := by
  have hfold : ∀ t : Table κ α, key ∈ (l.foldl (fun t e => t.insert e.1 e.2) t).keys ↔
      key ∈ t.keys ∨ key ∈ l.map (·.1) := by
    induction l with
    | nil => simp
    | cons e r ih =>
      intro t
      rw [List.foldl_cons, ih, mem_keys_insert, List.map_cons, List.mem_cons, or_assoc,
        or_left_comm]
  rw [ofList, hfold]
  simp [keys, empty]

theorem mem_of_mem_ofList {l : List (κ × α)} {e : κ × α} (h : e ∈ (ofList l).entries) :
    e ∈ l := by
  refine List.foldlRecOn (motive := fun t : Table κ α => ∀ e ∈ t.entries, e ∈ l) l
    (fun t e => t.insert e.1 e.2) (by simp [empty]) ?_ e h
  intro t ht x hx y hy
  rcases mem_place hy with rfl | hy
  · exact hx
  · exact ht y hy

theorem exists_get?_ofList {l : List (κ × α)} {key : κ} (h : key ∈ l.map (·.1)) :
    ∃ value, (ofList l).get? key = some value :=
  Option.isSome_iff_exists.1 (contains_iff.2 (mem_keys_ofList.2 h))

/-- A key is looked up in the later list first. -/
theorem get?_ofList_append (l l' : List (κ × α)) (key : κ) :
    (ofList (l ++ l')).get? key = ((ofList l').get? key).or ((ofList l).get? key) := by
  have hlast : ∀ (l : List (κ × α)) (e : κ × α), ofList (l ++ [e]) = (ofList l).insert e.1 e.2 := by
    intro l e
    unfold ofList
    rw [List.foldl_append]
    rfl
  induction l' using List.reverseRecOn with
  | nil =>
    rw [List.append_nil]
    rfl
  | append_singleton l' e ih =>
    rw [← List.append_assoc, hlast, hlast]
    by_cases hkey : key = e.1
    · rw [hkey, get?_insert_self, get?_insert_self, Option.some_or]
    · rw [get?_insert_of_ne _ hkey, get?_insert_of_ne _ hkey, ih]

/-! ## Known by its members -/

/-- A list that is ordered by a key is known by its members. -/
theorem eq_of_mem_iff {β : Type} {key : β → κ} {l l' : List β}
    (hl : l.Pairwise fun a b => compare (key a) (key b) = .lt)
    (hl' : l'.Pairwise fun a b => compare (key a) (key b) = .lt) (h : ∀ e, e ∈ l ↔ e ∈ l') :
    l = l' := by
  have hirrefl : Std.Irrefl fun a b : β => compare (key a) (key b) = .lt :=
    ⟨fun a => by rw [compare_self]; decide⟩
  have hantisymm : Std.Antisymm fun a b : β => compare (key a) (key b) = .lt :=
    ⟨fun a b hab hba => absurd (TransCmp.lt_trans hab hba) (hirrefl.irrefl a)⟩
  exact hl.eq_of_mem_iff hl' h

/-- Two tables with the same look-ups are the same. -/
theorem ext_get? {s t : Table κ α} (h : ∀ key, s.get? key = t.get? key) : s = t := by
  apply Table.ext
  refine eq_of_mem_iff s.sorted t.sorted fun e => ?_
  rw [← get?_eq_some_iff, ← get?_eq_some_iff, h]

/-- A table is made of its entries again. -/
@[simp] theorem ofList_entries (t : Table κ α) : ofList t.entries = t := by
  apply ext_get?
  intro key
  by_cases hkey : key ∈ t.keys
  · obtain ⟨value, hvalue⟩ := exists_get?_ofList (l := t.entries) hkey
    rw [hvalue, get?_eq_some_iff.2 (mem_of_mem_ofList (get?_eq_some_iff.1 hvalue))]
  · have hof : key ∉ (ofList t.entries).keys := fun h => hkey (mem_keys_ofList.1 h)
    rw [← contains_iff, contains, Bool.not_eq_true, Option.isSome_eq_false_iff,
      Option.isNone_iff_eq_none] at hkey hof
    rw [hkey, hof]

/-- A new entry that a test drops makes no difference to what the test keeps. -/
theorem keep_insert (t : Table κ α) {test : κ × α → Bool} {key : κ} {value : α}
    (hnew : t.get? key = none) (hdropped : test (key, value) = false) :
    (t.insert key value).keep test = t.keep test := by
  apply ext_get?
  intro k
  rw [get?_keep, get?_keep]
  by_cases hk : k = key
  · rw [hk, get?_insert_self, hnew, Option.filter_none, Option.filter_some_neg (by simp [hdropped])]
  · rw [get?_insert_of_ne t hk]

theorem keys_ofList_congr {l l' : List (κ × α)}
    (h : ∀ key, key ∈ l.map (·.1) ↔ key ∈ l'.map (·.1)) : (ofList l).keys = (ofList l').keys := by
  refine eq_of_mem_iff (pairwise_keys _) (pairwise_keys _) fun key => ?_
  rw [mem_keys_ofList, mem_keys_ofList, h]

end TouchPanel.Table
