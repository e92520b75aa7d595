import TouchPanel.FileTree.Access
import TouchPanel.Proofs.Table

/-!
# What file operations leave alone

An operation on a file tree changes the entry that its path leads to and no other. No
operation here removes a directory, so a path that leads somewhere before an operation
leads to the same names after it.
-/

namespace TouchPanel.FileTree

variable {t t' : FileTree} {p : Path} {names : List String}

/-- The text of the file with the given names. -/
def fileAt (t : FileTree) (names : List String) : Option Text :=
  match t.entryAt names with
  | some (.file text) => some text
  | _ => none

theorem fileAt_congr (h : t'.entryAt names = t.entryAt names) :
    t'.fileAt names = t.fileAt names := by
  rw [fileAt, fileAt, h]

/-! ## Entries -/

@[simp] theorem home_put (t : FileTree) (names : List String) (e : Entry) :
    (t.put names e).home = t.home := rfl

@[simp] theorem home_erase (t : FileTree) (names : List String) :
    (t.erase names).home = t.home := rfl

theorem entryAt_put_of_ne (t : FileTree) {other : List String} (h : other ≠ names) (e : Entry) :
    (t.put names e).entryAt other = t.entryAt other := by
  simp [entryAt, put, Table.get?_insert_of_ne t.entries h]

theorem entryAt_erase_of_ne (t : FileTree) {other : List String} (h : other ≠ names) :
    (t.erase names).entryAt other = t.entryAt other := by
  simp [entryAt, erase, Table.get?_erase_of_ne t.entries h]

/-- The names of what is no directory do not lead to the working directory. -/
theorem not_isPrefixOf_home (h : t.entryAt names ≠ some .directory) :
    ¬ names.isPrefixOf t.home = true := by
  intro hp
  exact h (by rw [entryAt, if_pos hp])

theorem entryAt_put_self (h : t.entryAt names ≠ some .directory) (e : Entry) :
    (t.put names e).entryAt names = some e := by
  rw [entryAt, home_put, if_neg (not_isPrefixOf_home h)]
  exact Table.get?_insert_self t.entries names e

theorem entryAt_erase_self (h : t.entryAt names ≠ some .directory) :
    (t.erase names).entryAt names = none := by
  rw [entryAt, home_erase, if_neg (not_isPrefixOf_home h)]
  exact Table.get?_erase_self t.entries names

/-! ## Following a path -/

/-- The place where a path leads, whether there is an entry or not. -/
def LeadsTo (t : FileTree) (p : Path) (names : List String) : Prop :=
  ∃ front name, t.locate p = .ok (some (front, name)) ∧ name.utf8ByteSize ≤ nameLimit ∧
    names = front ++ [name]

/-- Where the steps of a path begin. -/
def start (t : FileTree) (p : Path) : List String := if p.isAbsolute then [] else t.home

theorem lookup_ok_iff {front : List String} {name : String} {e : Option Entry} :
    t.lookup front name = .ok e ↔
      name.utf8ByteSize ≤ nameLimit ∧ t.entryAt (front ++ [name]) = e := by
  unfold lookup
  by_cases hlen : nameLimit < name.utf8ByteSize
  · rw [if_pos hlen]
    simp [Nat.not_le.2 hlen]
  · rw [if_neg hlen, Except.ok.injEq]
    exact (and_iff_right (Nat.not_lt.1 hlen)).symm

@[simp] theorem throw_eq {α : Type} (fault : FileFault) :
    (throw fault : Except FileFault α) = .error fault := rfl

@[simp] theorem pure_eq {α : Type} (a : α) : (pure a : Except FileFault α) = .ok a := rfl

theorem bind_eq_ok {α β : Type} {x : Except FileFault α} {f : α → Except FileFault β} {b : β} :
    (x >>= f) = .ok b ↔ ∃ a, x = .ok a ∧ f a = .ok b := by
  cases x <;> simp [bind, Except.bind]

theorem enter_ok_iff {front front' : List String} {step : String} :
    t.enter front step = .ok front' ↔
      step = "." ∧ front' = front ∨ step = ".." ∧ front' = front.dropLast ∨
      step ≠ "." ∧ step ≠ ".." ∧ step.utf8ByteSize ≤ nameLimit ∧
        t.entryAt (front ++ [step]) = some .directory ∧ front' = front ++ [step] := by
  unfold enter
  split
  · next h => simp [h, @eq_comm _ front]
  · next h =>
    split
    · next h' => simp [h', @eq_comm _ front.dropLast]
    · next h' =>
      simp only [h, h', false_and, false_or, not_false_eq_true, true_and, ne_eq]
      rw [bind_eq_ok]
      constructor
      · rintro ⟨e, he, hmatch⟩
        obtain ⟨hlen, rfl⟩ := lookup_ok_iff.1 he
        split at hmatch
        · simp at hmatch
        · simp at hmatch
        · next hdir => exact ⟨hlen, hdir, (Except.ok.inj hmatch).symm⟩
      · rintro ⟨hlen, hdir, rfl⟩
        exact ⟨_, lookup_ok_iff.2 ⟨hlen, rfl⟩, by rw [hdir]; rfl⟩

theorem locate_ok_iff {front : List String} {name : String} :
    t.locate p = .ok (some (front, name)) ↔
      p.text.toList.contains '\x00' = false ∧ p.text.utf8ByteSize < pathLimit ∧
      p.steps.getLast? = some name ∧ name ≠ "." ∧ name ≠ ".." ∧
      p.steps.dropLast.foldlM t.enter (t.start p) = .ok front := by
  unfold locate
  split
  · next h => simp only [h, throw_eq, reduceCtorEq, false_and]
  · next h =>
    simp only [Bool.not_eq_true] at h
    split
    · next h' => simp [Nat.not_lt.2 h']
    · next h' =>
      simp only [h, Nat.not_le.1 h', true_and]
      cases hlast : p.steps.getLast? with
      | none => cases p.isAbsolute <;> simp
      | some last =>
        simp only [Option.some.injEq]
        rw [bind_eq_ok]
        constructor
        · rintro ⟨f, hf, hpure⟩
          by_cases hdot : last = "." ∨ last = ".."
          · simp [hdot] at hpure
          · simp only [pure_eq, Bool.or_eq_true, decide_eq_true_eq, hdot, if_false,
              Except.ok.injEq, Option.some.injEq, Prod.mk.injEq] at hpure
            obtain ⟨rfl, rfl⟩ := hpure
            exact ⟨rfl, fun h => hdot (Or.inl h), fun h => hdot (Or.inr h), hf⟩
        · rintro ⟨rfl, hdot, hdots, hf⟩
          exact ⟨front, hf, by simp [hdot, hdots]⟩

/-! ## Directories stay -/

/-- The directories of `t` are directories of `t'`. -/
structure KeepsDirectories (t t' : FileTree) : Prop where
  home : t'.home = t.home
  entry : ∀ names, t.entryAt names = some .directory → t'.entryAt names = some .directory

theorem KeepsDirectories.refl (t : FileTree) : KeepsDirectories t t := ⟨rfl, fun _ h => h⟩

theorem KeepsDirectories.trans {t'' : FileTree} (h : KeepsDirectories t t')
    (h' : KeepsDirectories t' t'') : KeepsDirectories t t'' :=
  ⟨h'.home.trans h.home, fun names hdir => h'.entry names (h.entry names hdir)⟩

theorem keepsDirectories_put (h : t.entryAt names ≠ some .directory) (e : Entry) :
    KeepsDirectories t (t.put names e) := by
  refine ⟨rfl, fun other hother => ?_⟩
  have hne : other ≠ names := by
    rintro rfl
    exact h hother
  rw [entryAt_put_of_ne t hne, hother]

theorem keepsDirectories_erase (h : t.entryAt names ≠ some .directory) :
    KeepsDirectories t (t.erase names) := by
  refine ⟨rfl, fun other hother => ?_⟩
  have hne : other ≠ names := by
    rintro rfl
    exact h hother
  rw [entryAt_erase_of_ne t hne, hother]

theorem KeepsDirectories.enter (h : KeepsDirectories t t') {front front' : List String}
    {step : String} (he : t.enter front step = .ok front') : t'.enter front step = .ok front' := by
  rw [enter_ok_iff] at he ⊢
  refine he.imp_right (Or.imp_right ?_)
  rintro ⟨hdot, hdots, hlen, hdir, hfront⟩
  exact ⟨hdot, hdots, hlen, h.entry _ hdir, hfront⟩

theorem KeepsDirectories.walk (h : KeepsDirectories t t') {steps front front' : List String}
    (hw : steps.foldlM t.enter front = .ok front') : steps.foldlM t'.enter front = .ok front' := by
  induction steps generalizing front with
  | nil => exact hw
  | cons step steps ih =>
    rw [List.foldlM_cons, bind_eq_ok] at hw ⊢
    obtain ⟨next, hnext, hrest⟩ := hw
    exact ⟨next, h.enter hnext, ih hrest⟩

/-- A path that leads to a place leads there as long as directories stay. -/
theorem LeadsTo.of_keeps (h : KeepsDirectories t t') (hp : t.LeadsTo p names) :
    t'.LeadsTo p names := by
  obtain ⟨front, name, hloc, hlen, rfl⟩ := hp
  obtain ⟨hzero, hsize, hlast, hdot, hdots, hwalk⟩ := locate_ok_iff.1 hloc
  have hstart : t'.start p = t.start p := by rw [start, start, h.home]
  refine ⟨front, name, locate_ok_iff.2 ⟨hzero, hsize, hlast, hdot, hdots, ?_⟩, hlen, rfl⟩
  rw [hstart]
  exact h.walk hwalk

/-- The place to which a path leads stays apart from those to which it does not lead later. -/
theorem LeadsTo.ne {other : List String} (hp : t.LeadsTo p names) (h : KeepsDirectories t t')
    (hother : ¬ t'.LeadsTo p other) : other ≠ names := by
  rintro rfl
  exact hother (hp.of_keeps h)

theorem LeadsTo.unique {other : List String} (h : t.LeadsTo p names) (h' : t.LeadsTo p other) :
    names = other := by
  obtain ⟨front, name, hloc, -, rfl⟩ := h
  obtain ⟨front', name', hloc', -, rfl⟩ := h'
  rw [hloc] at hloc'
  simp only [Except.ok.injEq, Option.some.injEq, Prod.mk.injEq] at hloc'
  rw [hloc'.1, hloc'.2]

/-! ## Operations -/

theorem leadsTo_of_lookup {front : List String} {name : String} {e : Option Entry}
    (hloc : t.locate p = .ok (some (front, name))) (he : t.lookup front name = .ok e) :
    t.LeadsTo p (front ++ [name]) ∧ t.entryAt (front ++ [name]) = e := by
  obtain ⟨hlen, hentry⟩ := lookup_ok_iff.1 he
  exact ⟨⟨front, name, hloc, hlen, rfl⟩, hentry⟩

theorem file_ok {text : Text} (h : t.file p = .ok (names, text)) :
    t.LeadsTo p names ∧ t.entryAt names = some (.file text) ∧ p.hasFinalSlash = false := by
  rw [file, bind_eq_ok] at h
  obtain ⟨place, hloc, h⟩ := h
  split at h
  · simp at h
  · next front name =>
    obtain ⟨e, he, h⟩ := bind_eq_ok.1 h
    obtain ⟨hlead, hentry⟩ := leadsTo_of_lookup hloc he
    split at h
    · simp at h
    · simp at h
    · next old =>
      split at h
      · simp at h
      · next hslash =>
        obtain ⟨rfl, rfl⟩ := Prod.mk.inj (Except.ok.inj h)
        exact ⟨hlead, hentry, by simpa using hslash⟩

theorem file_of_entry {text : Text} (h : t.LeadsTo p names)
    (he : t.entryAt names = some (.file text)) (hslash : p.hasFinalSlash = false) :
    t.file p = .ok (names, text) := by
  obtain ⟨front, name, hloc, hlen, rfl⟩ := h
  have hlook := lookup_ok_iff.2 ⟨hlen, he⟩
  simp [file, hloc, hlook, hslash, bind, Except.bind]

theorem read_of_entry {text : Text} (h : t.LeadsTo p names)
    (he : t.entryAt names = some (.file text)) (hslash : p.hasFinalSlash = false) :
    t.read p = .ok text := by
  rw [read, file_of_entry h he hslash]
  rfl

theorem remove_of_entry {text : Text} (h : t.LeadsTo p names)
    (he : t.entryAt names = some (.file text)) (hslash : p.hasFinalSlash = false) :
    t.remove p = .ok (t.erase names) := by
  rw [remove, file_of_entry h he hslash]
  rfl

theorem read_of_none (h : t.LeadsTo p names) (he : t.entryAt names = none) :
    t.read p = .error .absent := by
  obtain ⟨front, name, hloc, hlen, rfl⟩ := h
  have hlook := lookup_ok_iff.2 ⟨hlen, he⟩
  simp [read, file, hloc, hlook, bind, Except.bind, Except.map]

theorem write_ok {text : Text} (h : t.write p text = .ok t') :
    ∃ names, t.LeadsTo p names ∧ t.entryAt names ≠ some .directory ∧ p.hasFinalSlash = false ∧
      t' = t.put names (.file text) := by
  rw [write, bind_eq_ok] at h
  obtain ⟨place, hloc, h⟩ := h
  split at h
  · simp at h
  · next front name =>
    split at h
    · simp at h
    · next hslash =>
      obtain ⟨e, he, h⟩ := bind_eq_ok.1 h
      obtain ⟨hlead, rfl⟩ := leadsTo_of_lookup hloc he
      split at h
      · simp at h
      · next hdir =>
        exact ⟨front ++ [name], hlead, hdir, by simpa using hslash, (Except.ok.inj h).symm⟩

theorem write_of_leadsTo (h : t.LeadsTo p names) (hdir : t.entryAt names ≠ some .directory)
    (hslash : p.hasFinalSlash = false) (text : Text) :
    t.write p text = .ok (t.put names (.file text)) := by
  obtain ⟨front, name, hloc, hlen, rfl⟩ := h
  have hlook : t.lookup front name = .ok (t.entryAt (front ++ [name])) :=
    lookup_ok_iff.2 ⟨hlen, rfl⟩
  simp only [write, hloc, hlook, hslash, bind, Except.bind]
  split
  · simp at *
  · next h => simp_all

theorem remove_ok (h : t.remove p = .ok t') :
    ∃ names text, t.LeadsTo p names ∧ t.entryAt names = some (.file text) ∧ t' = t.erase names := by
  rw [remove] at h
  cases hfile : t.file p with
  | error fault => simp [hfile, Except.map] at h
  | ok found =>
    obtain ⟨names, text⟩ := found
    obtain ⟨hlead, hentry, -⟩ := file_ok hfile
    rw [hfile] at h
    exact ⟨names, text, hlead, hentry, (Except.ok.inj h).symm⟩

theorem rename_ok {source target : Path} (h : t.rename source target = .ok t') :
    ∃ old new text, t.LeadsTo source old ∧ t.entryAt old = some (.file text) ∧
      t.LeadsTo target new ∧ t.entryAt new ≠ some .directory ∧ target.hasFinalSlash = false ∧
      t' = (t.erase old).put new (.file text) := by
  rw [rename, bind_eq_ok] at h
  obtain ⟨⟨old, text⟩, hfile, h⟩ := h
  obtain ⟨hlead, hentry, -⟩ := file_ok hfile
  obtain ⟨place, hloc, h⟩ := bind_eq_ok.1 h
  split at h
  · simp at h
  · next front name =>
    obtain ⟨e, he, h⟩ := bind_eq_ok.1 h
    obtain ⟨hnew, rfl⟩ := leadsTo_of_lookup hloc he
    split at h
    · simp at h
    · next hslash =>
      split at h
      · simp at h
      · next hdir =>
        exact ⟨old, front ++ [name], text, hlead, hentry, hnew, hdir, by simpa using hslash,
          (Except.ok.inj h).symm⟩

theorem rename_of_leadsTo {source target : Path} {old new : List String} {text : Text}
    (hsource : t.LeadsTo source old) (hfile : t.entryAt old = some (.file text))
    (hplain : source.hasFinalSlash = false) (htarget : t.LeadsTo target new)
    (hdir : t.entryAt new ≠ some .directory) (hslash : target.hasFinalSlash = false) :
    t.rename source target = .ok ((t.erase old).put new (.file text)) := by
  obtain ⟨front, name, hloc, hlen, rfl⟩ := htarget
  have hlook : t.lookup front name = .ok (t.entryAt (front ++ [name])) :=
    lookup_ok_iff.2 ⟨hlen, rfl⟩
  have hfound := file_of_entry hsource hfile hplain
  simp [rename, hfound, hloc, hlook, hslash, hdir, bind, Except.bind]

theorem createDirectory_ok (h : t.createDirectory p = .ok t') :
    t' = t ∨ ∃ names, t.entryAt names = none ∧ t' = t.put names .directory := by
  rw [createDirectory, bind_eq_ok] at h
  obtain ⟨place, hloc, h⟩ := h
  split at h
  · exact Or.inl (Except.ok.inj h).symm
  · next front name =>
    obtain ⟨e, he, h⟩ := bind_eq_ok.1 h
    obtain ⟨-, hentry⟩ := lookup_ok_iff.1 he
    split at h
    · exact Or.inr ⟨front ++ [name], hentry, (Except.ok.inj h).symm⟩
    · exact Or.inl (Except.ok.inj h).symm
    · simp at h

end TouchPanel.FileTree
