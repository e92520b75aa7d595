import TouchPanel.Proofs.Region.Atomicity
import TouchPanel.Proofs.Region.Frame

/-!
# Previews and exports

A preview answers for a target that is given as text what an export answers for a file
that holds this text and can be replaced. The hash of the preview then keeps the export
from a file that holds anything else.
-/

namespace TouchPanel.Region

open FileTree

variable {t : FileTree} {p : Path}

/-- What an export reads at a path; a file that is not there holds the empty text. -/
def Holds (t : FileTree) (p : Path) (text : Text) : Prop :=
  t.read p = .ok text ∨ t.read p = .error .absent ∧ text = []

/-- A file can be put at a path, in place of another one or where nothing is. -/
def Free (t : FileTree) (p : Path) : Prop :=
  ∃ names, t.LeadsTo p names ∧ t.entryAt names ≠ some .directory ∧ p.hasFinalSlash = false

/-- The directories above a path are there or can be made, and then neither the path nor
its temporary file is taken by a directory. -/
def Writable (t : FileTree) (p : Path) : Prop :=
  ∃ dirs, (FileAccess.createDirectories p.parents : StateM FileTree _).run t = (.ok (), dirs) ∧
    Free dirs (temporary p) ∧ Free dirs p

theorem readTarget_of_holds {text : Text} (h : Holds t p text) :
    Ends (readTarget p).run t fun result after => result = .ok text ∧ after = t := by
  unfold readTarget
  refine onFile_ends ((read_ends t p).bind fun result after hread => ?_)
  obtain ⟨rfl, rfl⟩ := hread
  rcases h with hok | ⟨habsent, rfl⟩
  · rw [hok]
    exact Ends.pure ⟨rfl, rfl⟩
  · rw [habsent]
    exact Ends.pure ⟨rfl, rfl⟩

theorem writeAndMove_succeeds {dirs : FileTree} (htmp : Free dirs (temporary p))
    (hp : Free dirs p) (text : Text) :
    Ends (ExceptT.run do
      onFile (temporary p) (FileAccess.write (temporary p) text)
      onFile p do
        match ← FileAccess.rename (temporary p) p with
        | .ok () => return .ok ()
        | .error fault =>
          let _ ← FileAccess.remove (temporary p)
          return .error fault) dirs fun result _ => result = .ok () := by
  obtain ⟨old, hold, hfree, hplain⟩ := htmp
  obtain ⟨new, hnew, hdir, hslash⟩ := hp
  have hne : old ≠ new := temporary_ne hnew hold
  have hwrite := write_of_leadsTo hold hfree hplain text
  have keeps := keepsDirectories_put hfree (.file text)
  have hdir' : (dirs.put old (.file text)).entryAt new ≠ some .directory := by
    rwa [entryAt_put_of_ne _ hne.symm]
  have hrename := rename_of_leadsTo (hold.of_keeps keeps) (entryAt_put_self hfree _) hplain
    (hnew.of_keeps keeps) hdir' hslash
  have hput : Ends (onFile (temporary p) (FileAccess.write (temporary p) text)).run dirs
      fun result after => result = .ok () ∧ after = dirs.put old (.file text) := by
    refine onFile_ends ((write_succeeds hwrite).mono fun result after hdone => ?_)
    obtain ⟨rfl, rfl⟩ := hdone
    exact ⟨rfl, rfl⟩
  refine Ends.except_ok hput (onFile_ends ((rename_succeeds hrename).bind fun _ _ hdone => ?_))
  obtain ⟨rfl, rfl⟩ := hdone
  exact Ends.pure rfl

theorem replaceFile_succeeds (w : Writable t p) (text : Text) :
    Ends (replaceFile p text).run t fun result _ => result = .ok () := by
  obtain ⟨dirs, hmake, htmp, hp⟩ := w
  unfold replaceFile
  split
  · next parent _ =>
    have hdirs : Ends (onFile parent (FileAccess.createDirectories p.parents)).run t
        fun result after => result = .ok () ∧ after = dirs := by
      refine onFile_ends (Ends.mk ?_)
      rw [hmake]
      exact ⟨rfl, rfl⟩
    exact Ends.except_ok hdirs (writeAndMove_succeeds htmp hp text)
  · next hnone =>
    have hparents : p.parents = [] :=
      List.head?_eq_none_iff.1 (Option.eq_none_iff_forall_ne_some.2 hnone)
    rw [hparents] at hmake
    obtain rfl : t = dirs := congrArg Prod.snd hmake
    exact writeAndMove_succeeds htmp hp text

theorem orRefuse_ok {α : Type} (a : α) :
    Ends (orRefuse (.ok a) : ExceptT ExportFault (StateM FileTree) α).run t
      fun result after => result = .ok a ∧ after = t := ⟨rfl, rfl⟩

theorem orRefuse_error {α : Type} (refusal : Refusal) :
    Ends (orRefuse (.error refusal) : ExceptT ExportFault (StateM FileTree) α).run t
      fun result after => result = .error (.refused refusal) ∧ after = t := ⟨rfl, rfl⟩

/-- What an export answers for a file with a known text when the hash guard lets it pass. -/
theorem exportTo_of_holds {target : Text} (h : Holds t p target) (w : Writable t p)
    (document : Text) (mode : Mode) {expected : Option String}
    (hhash : ∀ hash ∈ expected, hash = hashOf target) :
    Ends (exportTo p document mode expected).run t
      fun result _ => result = (merge target document mode).mapError .refused := by
  have read := readTarget_of_holds h
  have hguard : demandHash expected target = .ok () := by
    cases expected with
    | none => rfl
    | some hash => rw [demandHash, if_pos (hhash hash rfl)]
  unfold exportTo
  refine Ends.except_ok read ?_
  rw [hguard]
  refine Ends.except_ok (orRefuse_ok ()) ?_
  cases hmerge : merge target document mode with
  | error refusal => exact Ends.except_error (orRefuse_error refusal) rfl
  | ok merged =>
    refine Ends.except_ok (orRefuse_ok merged) ?_
    split
    · have hsame : demandSame target target = .ok () := if_pos rfl
      refine Ends.except_ok read ?_
      rw [hsame]
      refine Ends.except_ok (orRefuse_ok ()) ?_
      refine Ends.except_bind (replaceFile_succeeds w merged.text) (fun _ _ _ => ?_) ?_
      · exact Ends.pure rfl
      · intro fault after hdone
        cases hdone
    · exact Ends.pure rfl

/-- An export that expects another hash refuses before anything else. -/
theorem exportTo_of_modified {current : Text} (h : Holds t p current) (document : Text)
    (mode : Mode) {hash : String} (hne : hash ≠ hashOf current) :
    Ends (exportTo p document mode (some hash)).run t fun result after =>
      result = .error (.refused (.modified hash (hashOf current))) ∧ after = t := by
  have hguard : demandHash (some hash) current = .error (.modified hash (hashOf current)) :=
    if_neg hne
  unfold exportTo
  refine Ends.except_ok (readTarget_of_holds h) ?_
  rw [hguard]
  exact Ends.except_error (orRefuse_error _) ⟨rfl, rfl⟩

theorem changed_of_merge {target document : Text} {mode : Mode} {merged : Merged}
    (h : merge target document mode = .ok merged) :
    merged.changed = true ↔ merged.text ≠ target := by
  unfold merge at h
  split at h
  · cases h
  · split at h
    · cases h
    · obtain rfl := Except.ok.inj h
      exact bne_iff_ne
    · split at h
      · cases h
      · split at h
        · obtain rfl := Except.ok.inj h
          exact bne_iff_ne
        · obtain rfl := Except.ok.inj h
          exact bne_iff_ne

/-- After an export the target holds the merged text, whether it has been written or not. -/
theorem holds_of_exported {target document : Text} {mode : Mode} {merged : Merged}
    {t' : FileTree} (h : Holds t p target) (hmerge : merge target document mode = .ok merged)
    (hrun : ExportRun p t (.ok merged) t') : Holds t' p merged.text := by
  have hafter := hrun.replaced
  split at hafter
  · exact Or.inl hafter.target
  · next hsame =>
    have htext : merged.text = target := by simpa using mt (changed_of_merge hmerge).2 hsame
    rw [hafter, htext]
    exact h

theorem preview_of_merge {target document : Text} {mode : Mode} {merged : Merged}
    (h : merge target document mode = .ok merged) :
    preview target document mode = .ok ⟨merged, hashOf target, hashOf merged.text⟩ := by
  rw [preview, h]
  rfl

theorem preview_ok_iff {target document : Text} {mode : Mode} {seen : Preview} :
    preview target document mode = .ok seen ↔
      merge target document mode = .ok seen.merged ∧ seen.expectedHash = hashOf target ∧
        seen.newHash = hashOf seen.merged.text := by
  obtain ⟨merged, expected, new⟩ := seen
  unfold preview
  cases merge target document mode with
  | error refusal => simp [Except.map]
  | ok found =>
    simp only [Except.map, Except.ok.injEq, Preview.mk.injEq]
    constructor
    · rintro ⟨rfl, rfl, rfl⟩
      exact ⟨rfl, rfl, rfl⟩
    · rintro ⟨rfl, rfl, rfl⟩
      exact ⟨rfl, rfl, rfl⟩

theorem preview_error_iff {target document : Text} {mode : Mode} {refusal : Refusal} :
    preview target document mode = .error refusal ↔
      merge target document mode = .error refusal := by
  unfold preview
  cases merge target document mode with
  | error found => simp [Except.map]
  | ok found => simp [Except.map]

/-- A preview of a target and an export into a file that holds it succeed alike and with
the same result. With the hash of an earlier preview the export writes what the preview
showed, or the file holds something else and keeps it. -/
theorem preview_foresees_export {current : Text} (held : Holds t p current)
    (writable : Writable t p) (document : Text) (mode : Mode) :
    (∀ expected : Option String, (∀ hash ∈ expected, hash = hashOf current) →
      let result := (runExport t p document mode expected).1
      (∀ merged, (∃ seen, preview current document mode = .ok seen ∧ seen.merged = merged) ↔
        result = .ok merged) ∧
      ∀ refusal, preview current document mode = .error refusal ↔
        result = .error (.refused refusal)) ∧
    ∀ (target : Text) (seen : Preview), (hashOf current = hashOf target → current = target) →
      preview target document mode = .ok seen →
      let run := runExport t p document mode (some seen.expectedHash)
      (current = target ∧ run.1 = .ok seen.merged ∧
        ∃ text, Holds run.2 p text ∧ hashOf text = seen.newHash) ∨
      (current ≠ target ∧
        run.1 = .error (.refused (.modified seen.expectedHash (hashOf current))) ∧
        Holds run.2 p current) := by
  refine ⟨fun expected hhash => ?_, fun target seen distinct hseen => ?_⟩
  · have hresult : (runExport t p document mode expected).1 =
        (merge current document mode).mapError .refused :=
      (exportTo_of_holds held writable document mode hhash).holds
    rw [hresult]
    refine ⟨fun merged => ⟨?_, fun h => ?_⟩, fun refusal => ?_⟩
    · rintro ⟨seen, hseen, rfl⟩
      rw [(preview_ok_iff.1 hseen).1]
      rfl
    · cases hmerge : merge current document mode with
      | error refusal => simp [hmerge, Except.mapError] at h
      | ok found =>
        obtain rfl : found = merged := by simpa [hmerge, Except.mapError] using h
        exact ⟨_, preview_of_merge hmerge, rfl⟩
    · rw [preview_error_iff]
      cases merge current document mode <;> simp [Except.mapError]
  · obtain ⟨hmerge, hexpected, hnew⟩ := preview_ok_iff.1 hseen
    by_cases hcurrent : current = target
    · subst hcurrent
      have hresult : (runExport t p document mode (some seen.expectedHash)).1 =
          (merge current document mode).mapError .refused :=
        (exportTo_of_holds held writable document mode (by simp [hexpected])).holds
      rw [hmerge] at hresult
      have hrun : ExportRun p t (runExport t p document mode (some seen.expectedHash)).1
          (runExport t p document mode (some seen.expectedHash)).2 :=
        (exportTo_ends t p document mode (some seen.expectedHash)).holds
      rw [hresult] at hrun
      exact Or.inl ⟨rfl, hresult, _, holds_of_exported held hmerge hrun, hnew.symm⟩
    · have hhash : seen.expectedHash ≠ hashOf current := by
        rw [hexpected]
        exact fun h => hcurrent (distinct h.symm)
      have hrun := (exportTo_of_modified held document mode hhash).holds
      have hafter : (runExport t p document mode (some seen.expectedHash)).2 = t := hrun.2
      have hheld : Holds (runExport t p document mode (some seen.expectedHash)).2 p current := by
        rw [hafter]
        exact held
      exact Or.inr ⟨hcurrent, hrun.1, hheld⟩

/-- A file that was edited after its preview is refused and keeps the edit. -/
theorem preview_foresees_export_edited :
    let t := applyAll (.empty ["home"]) [.write ⟨"device.yaml"⟩ "x: 2\n".toList]
    let p : Path := ⟨"device.yaml"⟩
    Holds t p "x: 2\n".toList ∧ Writable t p ∧
    hashOf "x: 2\n".toList ≠ hashOf "x: 1\n".toList ∧
    ∃ seen, preview "x: 1\n".toList "a: 1\n".toList .createOrUpdate = .ok seen ∧
      let run := runExport t p "a: 1\n".toList .createOrUpdate (some seen.expectedHash)
      run.1 = .error (.refused (.modified seen.expectedHash (hashOf "x: 2\n".toList))) ∧
      Holds run.2 p "x: 2\n".toList := by
  intro t p
  have held : Holds t p "x: 2\n".toList := Or.inl (by decide +kernel)
  have writable : Writable t p := by
    have hparents : p.parents = [] := by decide +kernel
    refine ⟨t, by rw [hparents]; rfl,
      ⟨["home", ".device.yaml.tmp"], ?_, by decide +kernel, by decide +kernel⟩,
      ⟨["home", "device.yaml"], ?_, by decide +kernel, by decide +kernel⟩⟩
    · exact ⟨["home"], ".device.yaml.tmp", by decide +kernel, by decide, rfl⟩
    · exact ⟨["home"], "device.yaml", by decide +kernel, by decide, rfl⟩
  have distinct : hashOf "x: 2\n".toList ≠ hashOf "x: 1\n".toList := by decide +kernel
  have hmerge : merge "x: 1\n".toList "a: 1\n".toList .createOrUpdate =
      .ok ⟨"x: 1\n\n".toList ++ fresh "a: 1".toList, .appended, true⟩ := by decide +kernel
  have hseen := preview_of_merge hmerge
  refine ⟨held, writable, distinct, _, hseen, ?_⟩
  rcases (preview_foresees_export held writable _ _).2 _ _ (fun h => absurd h distinct) hseen with
    ⟨hsame, -⟩ | ⟨-, hresult, hafter⟩
  · exact absurd hsame (by decide)
  · exact ⟨hresult, hafter⟩

end TouchPanel.Region
