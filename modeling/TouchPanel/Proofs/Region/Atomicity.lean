import TouchPanel.Region.Export
import TouchPanel.Proofs.FileTree.Run
import TouchPanel.Proofs.FileTree.Sibling

/-!
# What an export does to files

An export makes directories, writes its temporary file and moves it over the target. The
end of every run is one of a few trees, whichever step fails. From these trees follows
which files an export can change.
-/

namespace TouchPanel.Region

open FileTree

variable {α : Type} {t : FileTree} {p : Path}

/-! ## Actions that can be refused -/

theorem onFile_ends {x : StateM FileTree (Except FileFault α)}
    {post : Except ExportFault α → FileTree → Prop}
    (h : Ends x t fun result t' => post (result.mapError (.file p.text)) t') :
    Ends (onFile p x).run t post := ⟨h.holds⟩

theorem orRefuse_ends {r : Except Refusal α} {post : Except ExportFault α → FileTree → Prop}
    (h : post (r.mapError .refused) t) : Ends (orRefuse r).run t post := ⟨h⟩

theorem readTarget_ends {post : Except ExportFault Text → FileTree → Prop}
    (h : ∀ result, post result t) : Ends (readTarget p).run t post := by
  unfold readTarget
  refine onFile_ends ((read_ends t p).bind fun result t' ht => ?_)
  obtain ⟨-, rfl⟩ := ht
  split <;> exact Ends.pure (h _)

/-! ## Replacing a file -/

/-- The ways in which the replacement of a file ends: before the temporary file is
written, with the temporary file removed again, or with the temporary file moved. -/
inductive ReplaceRun (p : Path) (text : Text) (t : FileTree) :
    Except ExportFault Unit → FileTree → Prop
  | blocked {fault : ExportFault} {dirs : FileTree} (adds : AddsDirectories t dirs) :
      ReplaceRun p text t (.error fault) dirs
  | undone {fault : ExportFault} {dirs : FileTree} {old : List String}
      (adds : AddsDirectories t dirs) (leads : dirs.LeadsTo (temporary p) old)
      (free : dirs.entryAt old ≠ some .directory) :
      ReplaceRun p text t (.error fault) ((dirs.put old (.file text)).erase old)
  | done {dirs : FileTree} {old new : List String}
      (adds : AddsDirectories t dirs) (leads : dirs.LeadsTo (temporary p) old)
      (free : dirs.entryAt old ≠ some .directory)
      (target : (dirs.put old (.file text)).LeadsTo p new)
      (free_target : (dirs.put old (.file text)).entryAt new ≠ some .directory)
      (plain : p.hasFinalSlash = false) :
      ReplaceRun p text t (.ok ()) (((dirs.put old (.file text)).erase old).put new (.file text))

private theorem move_ends {text : Text} {dirs : FileTree} {old : List String}
    (adds : AddsDirectories t dirs) (leads : dirs.LeadsTo (temporary p) old)
    (free : dirs.entryAt old ≠ some .directory) (plain : (temporary p).hasFinalSlash = false) :
    Ends (ExceptT.run <| onFile p do
      match ← FileAccess.rename (temporary p) p with
      | .ok () => return .ok ()
      | .error fault =>
        let _ ← FileAccess.remove (temporary p)
        return .error fault) (dirs.put old (.file text)) (ReplaceRun p text t) := by
  have leads' := leads.of_keeps (keepsDirectories_put free (.file text))
  have hold := entryAt_put_self free (.file text)
  refine onFile_ends ((rename_ends _ _ _).bind fun result t₁ hrename => ?_)
  split
  · obtain ⟨old', new, text', hlead, hentry, target, free_target, plain_target, rfl⟩ :=
      rename_ok hrename
    obtain rfl := leads'.unique hlead
    rw [hold, Option.some.injEq, Entry.file.injEq] at hentry
    subst hentry
    exact Ends.pure (.done adds leads free target free_target plain_target)
  · obtain ⟨-, rfl⟩ := hrename
    refine (remove_ends _ _).bind fun result t₂ hremove => ?_
    have herase := remove_of_entry leads' hold plain
    cases result with
    | ok _ =>
      obtain rfl := Except.ok.inj (herase.symm.trans hremove)
      exact Ends.pure (.undone adds leads free)
    | error fault => cases herase.symm.trans hremove.1

private theorem writeAndMove_ends {text : Text} {dirs : FileTree} (adds : AddsDirectories t dirs) :
    Ends (ExceptT.run do
      onFile (temporary p) (FileAccess.write (temporary p) text)
      onFile p do
        match ← FileAccess.rename (temporary p) p with
        | .ok () => return .ok ()
        | .error fault =>
          let _ ← FileAccess.remove (temporary p)
          return .error fault) dirs (ReplaceRun p text t) := by
  have hwrite : Ends (onFile (temporary p) (FileAccess.write (temporary p) text)).run dirs
      fun result t₁ => match result with
        | .ok () => dirs.write (temporary p) text = .ok t₁
        | .error _ => t₁ = dirs := by
    refine onFile_ends ((write_ends _ _ _).mono fun result t₁ hchange => ?_)
    cases result with
    | ok _ => exact hchange
    | error _ => exact hchange.2
  refine Ends.except_bind hwrite (fun _ t₁ hok => ?_) fun fault t₁ ht => ?_
  · obtain ⟨old, leads, free, plain, rfl⟩ := write_ok hok
    exact move_ends adds leads free plain
  · obtain rfl := ht
    exact .blocked adds

theorem replaceFile_ends (t : FileTree) (p : Path) (text : Text) :
    Ends (replaceFile p text).run t (ReplaceRun p text t) := by
  unfold replaceFile
  split
  · next parent _ =>
    have hmake : Ends (onFile parent (FileAccess.createDirectories p.parents)).run t
        fun _ dirs => AddsDirectories t dirs :=
      onFile_ends (createDirectories_ends (AddsDirectories.refl t) _)
    exact Ends.except_bind hmake (fun _ dirs adds => writeAndMove_ends adds)
      fun fault dirs adds => .blocked adds
  · exact writeAndMove_ends (AddsDirectories.refl t)

/-! ## Exporting -/

/-- The ways in which an export ends. A tree is changed only by the replacement of the
target. -/
inductive ExportRun (p : Path) (t : FileTree) : Except ExportFault Merged → FileTree → Prop
  | refused {fault : ExportFault} : ExportRun p t (.error fault) t
  | same {merged : Merged} (changed : merged.changed = false) : ExportRun p t (.ok merged) t
  | failed {fault : ExportFault} {text : Text} {t' : FileTree}
      (replace : ReplaceRun p text t (.error fault) t') : ExportRun p t (.error fault) t'
  | written {merged : Merged} {t' : FileTree} (changed : merged.changed = true)
      (replace : ReplaceRun p merged.text t (.ok ()) t') : ExportRun p t (.ok merged) t'

theorem exportTo_ends (t : FileTree) (p : Path) (d : Text) (m : Mode) (expected : Option String) :
    Ends (exportTo p d m expected).run t (ExportRun p t) := by
  have refuse : ∀ {α : Type} (r : Except Refusal α),
      Ends (orRefuse r : ExceptT ExportFault (StateM FileTree) α).run t fun _ t₁ => t₁ = t :=
    fun r => orRefuse_ends rfl
  have read : Ends (readTarget p).run t fun _ t₁ => t₁ = t := readTarget_ends fun _ => rfl
  have stop : ∀ (fault : ExportFault) (t₁ : FileTree), t₁ = t → ExportRun p t (.error fault) t₁ :=
    fun fault t₁ ht => ht ▸ .refused
  unfold exportTo
  refine Ends.except_bind read (fun target t₁ ht => ?_) stop
  obtain rfl := ht
  refine Ends.except_bind (refuse _) (fun _ t₁ ht => ?_) stop
  obtain rfl := ht
  refine Ends.except_bind (refuse _) (fun merged t₁ ht => ?_) stop
  obtain rfl := ht
  split
  · next changed =>
    refine Ends.except_bind read (fun latest t₁ ht => ?_) stop
    obtain rfl := ht
    refine Ends.except_bind (refuse _) (fun _ t₁ ht => ?_) stop
    obtain rfl := ht
    refine Ends.except_bind (replaceFile_ends _ p merged.text) (fun _ t₁ replace => ?_) ?_
    · exact Ends.pure (.written changed replace)
    · exact fun fault t₁ replace => .failed replace
  · next changed => exact Ends.pure (.same (by simpa using changed))

/-! ## Files after an export -/

/-- No file but the one to which a path leads differs between two trees. -/
def OnlyAt (p : Path) (t t' : FileTree) : Prop :=
  ∀ names, ¬ t'.LeadsTo p names → t'.fileAt names = t.fileAt names

/-- The temporary file of a target is the hidden file beside it. -/
theorem temporary_beside {front names : List String} {name : String}
    (hp : t.locate p = .ok (some (front, name))) (h : t.LeadsTo (temporary p) names) :
    names = front ++ ["." ++ name ++ ".tmp"] := by
  obtain ⟨hname, hpart⟩ := name_of_locate hp
  have htemporary : temporary p = p.sibling ("." ++ name ++ ".tmp") := by
    rw [temporary, hname]
    rfl
  rw [htemporary] at h
  exact LeadsTo.sibling hp (by simpa using Path.slash_not_mem_parts hpart) (by simp) h

theorem temporary_ne {names other : List String} (hp : t.LeadsTo p names)
    (h : t.LeadsTo (temporary p) other) : other ≠ names := by
  obtain ⟨front, name, hloc, -, rfl⟩ := hp
  rw [temporary_beside hloc h]
  intro heq
  have hlen := congrArg String.length (List.singleton_inj.1 (List.append_cancel_left heq))
  rw [String.length_append, String.length_append] at hlen
  have hdot : ".".length = 1 := rfl
  omega

theorem ReplaceRun.onlyAt {text : Text} {fault : ExportFault} {t' : FileTree}
    (h : ReplaceRun p text t (.error fault) t') : OnlyAt (temporary p) t t' := by
  intro names hne
  cases h with
  | blocked adds => exact adds.fileAt names
  | @undone _ dirs old adds leads free =>
    have hold := entryAt_put_self free (.file text)
    have keeps : KeepsDirectories dirs ((dirs.put old (.file text)).erase old) :=
      (keepsDirectories_put free _).trans (keepsDirectories_erase (by simp [hold]))
    have hnames := leads.ne keeps hne
    rw [fileAt_congr (entryAt_erase_of_ne _ hnames), fileAt_congr (entryAt_put_of_ne _ hnames _),
      adds.fileAt]

/-- A tree in which a target has just been replaced with `text`, where `t` was before. -/
structure Replaced (p : Path) (text : Text) (t t' : FileTree) : Prop where
  target : t'.read p = .ok text
  temporary : t'.read (temporary p) = .error .absent
  others : ∀ names, ¬ t'.LeadsTo p names → ¬ t'.LeadsTo (Region.temporary p) names →
    t'.fileAt names = t.fileAt names

theorem ReplaceRun.replaced {text : Text} {t' : FileTree} (h : ReplaceRun p text t (.ok ()) t') :
    Replaced p text t t' := by
  cases h with
  | @done dirs old new adds leads free target free_target plain =>
    have hold := entryAt_put_self free (.file text)
    have keepsPut := keepsDirectories_put free (.file text)
    have keepsErase : KeepsDirectories (dirs.put old (.file text))
        ((dirs.put old (.file text)).erase old) := keepsDirectories_erase (by simp [hold])
    have hne : old ≠ new := temporary_ne target (leads.of_keeps keepsPut)
    have hnew : ((dirs.put old (.file text)).erase old).entryAt new ≠ some .directory := by
      rwa [entryAt_erase_of_ne _ hne.symm]
    have keepsMove := keepsDirectories_put hnew (.file text)
    have keepsAll := (keepsPut.trans keepsErase).trans keepsMove
    have target' := target.of_keeps (keepsErase.trans keepsMove)
    refine ⟨read_of_entry target' (entryAt_put_self hnew _) plain,
      read_of_none (leads.of_keeps keepsAll) ?_, ?_⟩
    · rw [entryAt_put_of_ne _ hne, entryAt_erase_self (by simp [hold])]
    · intro names hp htemporary
      have hnames : names ≠ new := target.ne (keepsErase.trans keepsMove) hp
      have hnames' : names ≠ old := leads.ne keepsAll htemporary
      rw [fileAt_congr (entryAt_put_of_ne _ hnames _), fileAt_congr (entryAt_erase_of_ne _ hnames'),
        fileAt_congr (entryAt_put_of_ne _ hnames' _), adds.fileAt]

/-- The result of an export on a file tree, and the tree after it. -/
def runExport (t : FileTree) (p : Path) (document : Text) (mode : Mode)
    (expected : Option String) : Except ExportFault Merged × FileTree :=
  (exportTo (m := StateM FileTree) p document mode expected).run.run t

/-! ## Steps -/

/-- What is done to files between exports, and the exports. -/
inductive Step where
  | write (p : Path) (text : Text)
  | delete (p : Path)
  | exportTo (p : Path) (document : Text) (mode : Mode) (expected : Option String)

/-- Writes a file in directories that are made if they are missing. -/
def writeWithin (p : Path) (text : Text) : StateM FileTree (Except FileFault Unit) := do
  let _ ← FileAccess.createDirectories p.parents
  FileAccess.write p text

/-- The tree after a step, which may have failed. -/
def Step.apply (t : FileTree) : Step → FileTree
  | .write p text => ((writeWithin p text).run t).2
  | .delete p => (change (·.remove p) t).2
  | .exportTo p document mode expected => (runExport t p document mode expected).2

def applyAll (t : FileTree) (steps : List Step) : FileTree := steps.foldl Step.apply t

/-- The places where a step that ends with `t` may alter a file. -/
def Step.Alters (t : FileTree) (names : List String) : Step → Prop
  | .write p _ | .delete p => t.LeadsTo p names
  | .exportTo p _ _ _ => t.LeadsTo p names ∨ t.LeadsTo (temporary p) names

theorem writeWithin_ends (t : FileTree) (p : Path) (text : Text) :
    Ends (writeWithin p text) t fun _ t' => OnlyAt p t t' := by
  refine (createDirectories_ends (AddsDirectories.refl t) _).bind fun _ dirs adds => ?_
  refine (write_ends dirs p text).mono fun result t' hchange => ?_
  refine hchange.tree (fun t' hwrite => ?_) fun names _ => adds.fileAt names
  obtain ⟨old, leads, free, -, rfl⟩ := write_ok hwrite
  intro names hne
  have hnames := leads.ne (keepsDirectories_put free _) hne
  rw [fileAt_congr (entryAt_put_of_ne _ hnames _), adds.fileAt]

theorem delete_ends (t : FileTree) (p : Path) :
    Ends (FileAccess.remove p) t fun _ t' => OnlyAt p t t' := by
  refine (remove_ends t p).mono fun result t' hchange => ?_
  refine hchange.tree (fun t' hremove => ?_) fun _ _ => rfl
  obtain ⟨old, text, leads, hold, rfl⟩ := remove_ok hremove
  intro names hne
  have hnames := leads.ne (keepsDirectories_erase (by simp [hold])) hne
  exact fileAt_congr (entryAt_erase_of_ne _ hnames)

theorem ExportRun.onlyAt {fault : ExportFault} {t' : FileTree}
    (h : ExportRun p t (.error fault) t') : OnlyAt (temporary p) t t' := by
  cases h with
  | refused => exact fun _ _ => rfl
  | failed replace => exact replace.onlyAt

theorem ExportRun.replaced {merged : Merged} {t' : FileTree} (h : ExportRun p t (.ok merged) t') :
    if merged.changed then Replaced p merged.text t t' else t' = t := by
  cases h with
  | same changed => rw [if_neg (by simp [changed])]
  | written changed replace =>
    rw [if_pos changed]
    exact replace.replaced

theorem ExportRun.fileAt {result : Except ExportFault Merged} {t' : FileTree}
    (h : ExportRun p t result t') {names : List String} (hp : ¬ t'.LeadsTo p names)
    (htemporary : ¬ t'.LeadsTo (temporary p) names) : t'.fileAt names = t.fileAt names := by
  cases result with
  | error fault => exact h.onlyAt names htemporary
  | ok merged =>
    have hok := h.replaced
    split at hok
    · exact hok.others names hp htemporary
    · rw [hok]

theorem Step.fileAt_apply (t : FileTree) (s : Step) {names : List String}
    (h : ¬ s.Alters (s.apply t) names) : (s.apply t).fileAt names = t.fileAt names := by
  cases s with
  | write p text => exact (writeWithin_ends t p text).holds names h
  | delete p => exact (delete_ends t p).holds names h
  | exportTo p d m expected =>
    exact (exportTo_ends t p d m expected).holds.fileAt (fun hp => h (Or.inl hp))
      fun htemporary => h (Or.inr htemporary)

/-- Whatever a run alters, one of its steps alters. -/
theorem exists_step_alters {steps : List Step} {names : List String}
    (h : (applyAll t steps).fileAt names ≠ t.fileAt names) :
    ∃ before s after, steps = before ++ s :: after ∧
      s.Alters (applyAll t (before ++ [s])) names := by
  induction steps generalizing t with
  | nil => exact absurd rfl h
  | cons s steps ih =>
    by_cases hs : (s.apply t).fileAt names = t.fileAt names
    · obtain ⟨before, s', after, rfl, halters⟩ := ih (t := s.apply t) (hs ▸ h)
      exact ⟨s :: before, s', after, rfl, halters⟩
    · exact ⟨[], s, steps, rfl, Classical.byContradiction fun hno => hs (s.fileAt_apply t hno)⟩

/-- A failed export alters no file but the temporary one, an export without a change
alters nothing, and any other leaves the text in the target and no temporary file. In a
run of steps only those that name a place alter a file there. -/
theorem export_atomic :
    (∀ (t : FileTree) (p : Path) (d : Text) (m : Mode) (expected : Option String),
      match runExport t p d m expected with
      | (.error _, t') => OnlyAt (temporary p) t t'
      | (.ok merged, t') => if merged.changed then Replaced p merged.text t t' else t' = t) ∧
    (∀ (t : FileTree) (p : Path) (front names : List String) (name : String),
      t.locate p = .ok (some (front, name)) → t.LeadsTo (temporary p) names →
        names = front ++ ["." ++ name ++ ".tmp"]) ∧
    (∀ (t : FileTree) (before after : List Step) (p : Path) (d : Text) (m : Mode)
      (expected : Option String) (names : List String),
      let t₁ := applyAll t before
      let t₂ := applyAll t₁ [.exportTo p d m expected]
      applyAll t (before ++ .exportTo p d m expected :: after) = applyAll t₂ after ∧
      (t₂.fileAt names = t₁.fileAt names ∨ t₂.LeadsTo p names ∨ t₂.LeadsTo (temporary p) names)) ∧
    (∀ (t : FileTree) (steps : List Step) (names : List String),
      (applyAll t steps).fileAt names = t.fileAt names ∨
      ∃ before s after, steps = before ++ s :: after ∧
        s.Alters (applyAll t (before ++ [s])) names) := by
  refine ⟨fun t p d m expected => ?_, fun t p front names name => temporary_beside,
    fun t before after p d m expected names => ⟨?_, ?_⟩, fun t steps names => ?_⟩
  · have hrun : ExportRun p t (runExport t p d m expected).1 (runExport t p d m expected).2 :=
      (exportTo_ends t p d m expected).holds
    split
    · next heq =>
      rw [heq] at hrun
      exact hrun.onlyAt
    · next heq =>
      rw [heq] at hrun
      exact hrun.replaced
  · simp [applyAll]
  · by_cases halters : (Step.exportTo p d m expected).Alters
      (applyAll (applyAll t before) [.exportTo p d m expected]) names
    · exact Or.inr halters
    · exact Or.inl ((Step.exportTo p d m expected).fileAt_apply _ halters)
  · by_cases h : (applyAll t steps).fileAt names = t.fileAt names
    · exact Or.inl h
    · exact Or.inr (exists_step_alters h)

example :
    let t := applyAll (.empty ["home"])
      [.exportTo ⟨"out/a.yaml"⟩ "x: 1".toList .createOrUpdate none]
    t.files = [(["out", "a.yaml"], fresh "x: 1".toList ++ '\n' :: userHint)] := by
  decide +kernel

end TouchPanel.Region
