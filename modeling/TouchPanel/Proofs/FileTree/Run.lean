import TouchPanel.FileTree.Access
import TouchPanel.Proofs.FileTree.Frame

/-!
# Runs of file actions

What an action on a file tree ends with, for each of the operations and for those that
follow one another. Making directories changes no file, whichever of them fails.
-/

namespace TouchPanel.FileTree

variable {α β : Type} {t t' t'' : FileTree} {p : Path} {names : List String}

/-- An action started on `t` ends with a result and a tree that satisfy `post`. -/
structure Ends (x : StateM FileTree α) (t : FileTree) (post : α → FileTree → Prop) : Prop where
  holds : post (x.run t).1 (x.run t).2

theorem Ends.pure {a : α} {post : α → FileTree → Prop} (h : post a t) :
    Ends (Pure.pure a : StateM FileTree α) t post := ⟨h⟩

theorem Ends.bind {x : StateM FileTree α} {f : α → StateM FileTree β}
    {mid : α → FileTree → Prop} {post : β → FileTree → Prop} (hx : Ends x t mid)
    (hf : ∀ a t', mid a t' → Ends (f a) t' post) : Ends (x >>= f) t post :=
  ⟨(hf _ _ hx.holds).holds⟩

theorem Ends.mono {x : StateM FileTree α} {post post' : α → FileTree → Prop} (hx : Ends x t post)
    (h : ∀ a t', post a t' → post' a t') : Ends x t post' :=
  ⟨h _ _ hx.holds⟩

theorem Ends.except_bind {ε : Type} {x : ExceptT ε (StateM FileTree) α}
    {f : α → ExceptT ε (StateM FileTree) β} {mid : Except ε α → FileTree → Prop}
    {post : Except ε β → FileTree → Prop} (hx : Ends x.run t mid)
    (ok : ∀ a t', mid (.ok a) t' → Ends (f a).run t' post)
    (error : ∀ fault t', mid (.error fault) t' → post (.error fault) t') :
    Ends (x >>= f).run t post := by
  rw [ExceptT.run_bind]
  refine hx.bind fun result t' h => ?_
  cases result with
  | ok a => exact ok a t' h
  | error fault => exact Ends.pure (error fault t' h)

theorem Ends.except_ok {ε : Type} {x : ExceptT ε (StateM FileTree) α}
    {f : α → ExceptT ε (StateM FileTree) β} {post : Except ε β → FileTree → Prop} {a : α}
    (hx : Ends x.run t fun result after => result = .ok a ∧ after = t')
    (hf : Ends (f a).run t' post) : Ends (x >>= f).run t post := by
  refine hx.except_bind (fun b after hdone => ?_) fun fault after hdone => ?_
  · obtain ⟨hb, rfl⟩ := hdone
    obtain rfl := Except.ok.inj hb
    exact hf
  · cases hdone.1

theorem Ends.except_error {ε : Type} {x : ExceptT ε (StateM FileTree) α}
    {f : α → ExceptT ε (StateM FileTree) β} {post : Except ε β → FileTree → Prop} {fault : ε}
    (hx : Ends x.run t fun result after => result = .error fault ∧ after = t')
    (hpost : post (.error fault) t') : Ends (x >>= f).run t post := by
  refine hx.except_bind (fun b after hdone => ?_) fun other after hdone => ?_
  · cases hdone.1
  · obtain ⟨hother, rfl⟩ := hdone
    obtain rfl := Except.error.inj hother
    exact hpost

/-- The result and the tree with which a change of `t` ends. -/
def Changed (f : FileTree → Except FileFault FileTree) (t : FileTree) :
    Except FileFault Unit → FileTree → Prop
  | .ok (), t' => f t = .ok t'
  | .error fault, t' => f t = .error fault ∧ t' = t

theorem Changed.tree {f : FileTree → Except FileFault FileTree} {result : Except FileFault Unit}
    {motive : FileTree → Prop} (h : Changed f t result t') (ok : ∀ t', f t = .ok t' → motive t')
    (same : motive t) : motive t' := by
  cases result with
  | ok _ => exact ok t' h
  | error _ => exact h.2 ▸ same

theorem change_ends (f : FileTree → Except FileFault FileTree) (t : FileTree) :
    Ends (change f) t (Changed f t) := by
  apply Ends.mk
  change Changed f t (change f t).1 (change f t).2
  rw [change]
  cases hf : f t with
  | ok t' => exact hf
  | error fault => exact ⟨hf, rfl⟩

theorem change_succeeds {f : FileTree → Except FileFault FileTree} (h : f t = .ok t') :
    Ends (change f) t fun result after => result = .ok () ∧ after = t' := by
  apply Ends.mk
  change (change f t).1 = _ ∧ (change f t).2 = _
  rw [change, h]
  exact ⟨rfl, rfl⟩

theorem read_ends (t : FileTree) (p : Path) :
    Ends (FileAccess.read p) t fun result t' => result = t.read p ∧ t' = t := ⟨rfl, rfl⟩

theorem write_ends (t : FileTree) (p : Path) (text : Text) :
    Ends (FileAccess.write p text) t (Changed (·.write p text) t) := change_ends _ t

theorem makeDirectory_ends (t : FileTree) (p : Path) :
    Ends (FileAccess.createDirectory p) t (Changed (·.createDirectory p) t) := change_ends _ t

theorem rename_ends (t : FileTree) (source target : Path) :
    Ends (FileAccess.rename source target) t (Changed (·.rename source target) t) :=
  change_ends _ t

theorem remove_ends (t : FileTree) (p : Path) :
    Ends (FileAccess.remove p) t (Changed (·.remove p) t) := change_ends _ t

theorem write_succeeds {text : Text} (h : t.write p text = .ok t') :
    Ends (FileAccess.write p text) t fun result after => result = .ok () ∧ after = t' :=
  change_succeeds (f := (·.write p text)) h

theorem rename_succeeds {source target : Path} (h : t.rename source target = .ok t') :
    Ends (FileAccess.rename source target) t fun result after => result = .ok () ∧ after = t' :=
  change_succeeds (f := (·.rename source target)) h

/-! ## Making directories -/

/-- Directories may be new in `t'`, and nothing else is. -/
structure AddsDirectories (t t' : FileTree) : Prop where
  keeps : KeepsDirectories t t'
  fileAt : ∀ names, t'.fileAt names = t.fileAt names

theorem AddsDirectories.refl (t : FileTree) : AddsDirectories t t :=
  ⟨KeepsDirectories.refl t, fun _ => rfl⟩

theorem AddsDirectories.put (h : AddsDirectories t t') (hfree : t'.entryAt names = none) :
    AddsDirectories t (t'.put names .directory) := by
  have hdir : t'.entryAt names ≠ some .directory := by simp [hfree]
  refine ⟨h.keeps.trans (keepsDirectories_put hdir _), fun other => ?_⟩
  rw [← h.fileAt other]
  by_cases hother : other = names
  · rw [hother, FileTree.fileAt, FileTree.fileAt, entryAt_put_self hdir, hfree]
  · exact fileAt_congr (entryAt_put_of_ne t' hother _)

theorem createDirectory_ends (h : AddsDirectories t t') (p : Path) :
    Ends (FileAccess.createDirectory p) t' fun _ t'' => AddsDirectories t t'' := by
  refine (makeDirectory_ends t' p).mono fun result t'' hchange => ?_
  refine hchange.tree (fun t'' hmake => ?_) h
  rcases createDirectory_ok hmake with rfl | ⟨names, hfree, rfl⟩
  · exact h
  · exact h.put hfree

theorem createDirectories_ends (h : AddsDirectories t t') (ps : List Path) :
    Ends (FileAccess.createDirectories ps) t' fun _ t'' => AddsDirectories t t'' := by
  induction ps generalizing t' with
  | nil => exact Ends.pure h
  | cons p around ih =>
    unfold FileAccess.createDirectories
    refine (createDirectory_ends h p).bind fun result t₁ h₁ => ?_
    split
    · refine (ih h₁).bind fun result t₂ h₂ => ?_
      split
      · exact Ends.pure h₂
      · exact createDirectory_ends h₂ p
    · exact Ends.pure h₁

end TouchPanel.FileTree
