import TouchPanel.Proofs.Region.Frame

/-!
# Merging again

After a successful merge the target has a region, and every later merge fills the same
frame. So the last document of a sequence of merges decides the text, as if it had been
merged into the original target at once.
-/

namespace TouchPanel.Region

open Text

theorem merge_fill (f : Frame) {body d : Text} (freeBody : MarkerFree body) (free : MarkerFree d)
    (m : Mode) : merge (f.fill body) d m =
      .ok ⟨f.fill (bodyOf d), .replaced, f.fill (bodyOf d) != f.fill body⟩ :=
  merge_layout (f.layout freeBody) free m

/-- The text of a target after merging some documents into it, one after the other. -/
def mergeAll (t : Text) : List (Text × Mode) → Except Refusal Text
  | [] => .ok t
  | (d, m) :: steps =>
    match merge t d m with
    | .error refusal => .error refusal
    | .ok merged => mergeAll merged.text steps

theorem markerFree_of_mergeAll {t t' : Text} {steps : List (Text × Mode)}
    (h : mergeAll t steps = .ok t') : ∀ s ∈ steps, MarkerFree s.1 := by
  induction steps generalizing t with
  | nil => simp
  | cons s steps ih =>
    rw [mergeAll] at h
    split at h
    · simp at h
    · next merged hmerge => exact List.forall_mem_cons.2 ⟨markerFree_of_merge hmerge, ih h⟩

/-- The document of the last step, or `d` if there is none. -/
def lastDocument (d : Text) (steps : List (Text × Mode)) : Text := (steps.map (·.1)).getLastD d

theorem markerFree_lastDocument {d : Text} (free : MarkerFree d) {steps : List (Text × Mode)}
    (h : ∀ s ∈ steps, MarkerFree s.1) : MarkerFree (lastDocument d steps) := by
  have hmem : lastDocument d steps ∈ d :: steps.map (·.1) := List.getLastD_mem_cons
  rw [List.mem_cons, List.mem_map] at hmem
  rcases hmem with heq | ⟨s, hs, heq⟩
  · rwa [heq]
  · rw [← heq]
    exact h s hs

/-- Merging into a filled frame leaves the frame filled with the last document. -/
theorem mergeAll_fill (f : Frame) {d : Text} (free : MarkerFree d) {steps : List (Text × Mode)}
    (h : ∀ s ∈ steps, MarkerFree s.1) :
    mergeAll (f.fill (bodyOf d)) steps = .ok (f.fill (bodyOf (lastDocument d steps))) := by
  induction steps generalizing d with
  | nil => rfl
  | cons s steps ih =>
    obtain ⟨hs, hsteps⟩ := List.forall_mem_cons.1 h
    have hmerge := merge_fill f (markerFree_bodyOf free) hs s.2
    have hlast : lastDocument d (s :: steps) = lastDocument s.1 steps := List.getLastD_cons
    rw [hlast, ← ih hs hsteps, mergeAll, hmerge]

/-- A second merge overwrites the first one, and a sequence of merges leaves what its last
document alone makes of the original target. -/
theorem merge_overwrites {t d₁ d₂ : Text} {m₁ : Mode} (m₂ : Mode) {first : Merged}
    (free₂ : MarkerFree d₂) (h : merge t d₁ m₁ = .ok first) :
    (∃ second alone, merge first.text d₂ m₂ = .ok second ∧ merge t d₂ m₁ = .ok alone ∧
      second.outcome = .replaced ∧ second.text = alone.text ∧
      (second.changed = false ↔ bodyOf d₁ = bodyOf d₂)) ∧
    ∀ steps : List (Text × Mode),
      ((∃ t', mergeAll first.text steps = .ok t') ↔ ∀ s ∈ steps, MarkerFree s.1) ∧
      ∀ t', mergeAll first.text steps = .ok t' →
        (∃ alone, merge t (lastDocument d₁ steps) m₁ = .ok alone ∧ alone.text = t') ∧
          ∀ m, merge t' (lastDocument d₁ steps) m = .ok ⟨t', .replaced, false⟩ := by
  have free₁ := markerFree_of_merge h
  obtain ⟨f, outcome, hf⟩ := exists_frame h
  obtain rfl := Except.ok.inj (h.symm.trans (hf d₁ free₁))
  refine ⟨⟨_, _, merge_fill f (markerFree_bodyOf free₁) free₂ m₂, hf d₂ free₂, rfl, rfl, ?_⟩,
    fun steps => ⟨⟨?_, ?_⟩, ?_⟩⟩
  · rw [bne_eq_false_iff_eq, f.fill_inj]
    exact eq_comm
  · rintro ⟨t', ht'⟩
    exact markerFree_of_mergeAll ht'
  · exact fun hsteps => ⟨_, mergeAll_fill f free₁ hsteps⟩
  · intro t' ht'
    have hsteps := markerFree_of_mergeAll ht'
    have hlast := markerFree_lastDocument free₁ hsteps
    obtain rfl := Except.ok.inj (ht'.symm.trans (mergeAll_fill f free₁ hsteps))
    refine ⟨⟨_, hf _ hlast, rfl⟩, fun m => ?_⟩
    rw [merge_fill f (markerFree_bodyOf hlast) hlast]
    simp

/-- A second document takes the place of the first one below a line of the user. -/
theorem merge_overwrites_appended :
    MarkerFree "y: 2\r\n".toList ∧
    ∃ first, merge "a: 1\n".toList "x: 1\n".toList .createOrUpdate = .ok first ∧
      first.outcome = .appended ∧
      ∃ second alone, merge first.text "y: 2\r\n".toList .updateOnly = .ok second ∧
        merge "a: 1\n".toList "y: 2\r\n".toList .createOrUpdate = .ok alone ∧
        second.outcome = .replaced ∧ second.text = alone.text ∧ second.changed = true := by
  have free : MarkerFree "y: 2\r\n".toList := by decide
  have hfirst : merge "a: 1\n".toList "x: 1\n".toList .createOrUpdate =
      .ok ⟨"a: 1\n\n".toList ++ beginMarker ++ "\nx: 1\n".toList ++ endMarker ++ ['\n'],
        .appended, true⟩ := by decide +kernel
  obtain ⟨second, alone, hsecond, halone, houtcome, htext, hchanged⟩ :=
    (merge_overwrites .updateOnly free hfirst).1
  refine ⟨free, _, hfirst, rfl, second, alone, hsecond, halone, houtcome, htext, ?_⟩
  have hbody : bodyOf "x: 1\n".toList ≠ bodyOf "y: 2\r\n".toList := by decide
  simpa using mt hchanged.1 hbody

end TouchPanel.Region
