import TouchPanel.Fragments
import TouchPanel.Proofs.Recipe.Tail

/-!
# Filling two insertion points

Two markers can be replaced in any order as long as neither stands in what takes the place of
the other. Each line that is put in is split off its line ending once more by the second
replacement, so the lines agree but for carriage returns at their ends.
-/

namespace TouchPanel.Recipe

open Text

/-! ## Lines -/

/-- The lines with the first that satisfies `p` replaced and later ones removed. -/
def replaceLines? (p : Text → Bool) (block : Text → List Text) : List Text → Option (List Text)
  | [] => none
  | l :: r =>
    if p l then some (block l ++ r.filter (!p ·)) else (replaceLines? p block r).map (l :: ·)

theorem substituteLines?_eq_replaceLines? (marker : Text) (payload ls : List Text) :
    substituteLines? marker payload ls =
      replaceLines? (isMarkerLine marker) (fun m => payload.map (indentLike m)) ls := by
  induction ls with
  | nil => rfl
  | cons l r ih => rw [substituteLines?, replaceLines?, ih]

variable {p q : Text → Bool} {block block' : Text → List Text} {l : Text} {r : List Text}

theorem replaceLines?_cons_of_pos (h : p l = true) :
    replaceLines? p block (l :: r) = some (block l ++ r.filter (!p ·)) := if_pos h

theorem replaceLines?_cons_of_neg (h : p l = false) :
    replaceLines? p block (l :: r) = (replaceLines? p block r).map (l :: ·) :=
  if_neg (by simp [h])

theorem isSome_replaceLines? (ls : List Text) :
    (replaceLines? p block ls).isSome = ls.any p := by
  induction ls with
  | nil => rfl
  | cons l r ih =>
    rw [replaceLines?, List.any_cons]
    split
    · next hl => rw [hl]; rfl
    · next hl => rw [Option.isSome_map, ih, Bool.eq_false_iff.2 hl, Bool.false_or]

/-- A line that is not replaced stays. -/
theorem mem_of_replaceLines? {ls out : List Text} (h : replaceLines? p block ls = some out)
    (hmem : l ∈ ls) (hl : p l = false) : l ∈ out := by
  induction ls generalizing out with
  | nil => cases h
  | cons x r ih =>
    cases hx : p x with
    | true =>
      rw [replaceLines?_cons_of_pos hx] at h
      obtain rfl := Option.some.inj h
      rcases List.mem_cons.1 hmem with rfl | hmem
      · rw [hl] at hx
        cases hx
      · exact List.mem_append_right _ (List.mem_filter.2 ⟨hmem, by simp [hl]⟩)
    | false =>
      rw [replaceLines?_cons_of_neg hx] at h
      obtain ⟨rest, hrest, rfl⟩ := Option.map_eq_some_iff.1 h
      rcases List.mem_cons.1 hmem with rfl | hmem
      · exact List.mem_cons_self
      · exact List.mem_cons_of_mem _ (ih hrest hmem)

theorem replaceLines?_append {a : List Text} (ha : ∀ x ∈ a, p x = false) (b : List Text) :
    replaceLines? p block (a ++ b) = (replaceLines? p block b).map (a ++ ·) := by
  induction a with
  | nil => simp
  | cons x a ih =>
    obtain ⟨hx, ha⟩ := List.forall_mem_cons.1 ha
    rw [List.cons_append, replaceLines?_cons_of_neg hx, ih ha, Option.map_map]
    rfl

/-- Lines that are removed make no difference to another replacement. -/
theorem replaceLines?_filter (hpq : ∀ x, q x = true → p x = false)
    (hblock : ∀ m, ∀ x ∈ block m, p x = false) (ls : List Text) :
    replaceLines? q block (ls.filter (!p ·)) =
      (replaceLines? q block ls).map (·.filter (!p ·)) := by
  induction ls with
  | nil => rfl
  | cons l r ih =>
    cases hq : q l with
    | true =>
      have hkept : (block l).filter (!p ·) = block l :=
        List.filter_eq_self.2 fun x hx => by simp [hblock l x hx]
      have hcomm : (r.filter (!p ·)).filter (!q ·) = (r.filter (!q ·)).filter (!p ·) :=
        List.filter_comm ..
      rw [List.filter_cons_of_pos (by simp [hpq l hq]), replaceLines?_cons_of_pos hq,
        replaceLines?_cons_of_pos hq, Option.map_some, List.filter_append, hkept, hcomm]
    | false =>
      rw [replaceLines?_cons_of_neg hq, Option.map_map]
      cases hp : p l with
      | true =>
        rw [List.filter_cons_of_neg (by simp [hp]), ih]
        exact Option.map_congr fun out _ => (List.filter_cons_of_neg (by simp [hp])).symm
      | false =>
        rw [List.filter_cons_of_pos (by simp [hp]), replaceLines?_cons_of_neg hq, ih,
          Option.map_map]
        exact Option.map_congr fun out _ => (List.filter_cons_of_pos (by simp [hp])).symm

theorem apart_symm (hpq : ∀ x, p x = true → q x = false) : ∀ x, q x = true → p x = false := by
  intro x hq
  rw [← Bool.not_eq_true]
  intro hp
  rw [hpq x hp] at hq
  cases hq

/-- Where the first of all lines to be replaced comes first, the other replacement does not see
what takes its place. -/
theorem replaceLines?_comm_cons (hpq : ∀ x, p x = true → q x = false)
    (hblock : ∀ m, ∀ x ∈ block m, q x = false) (hblock' : ∀ m, ∀ x ∈ block' m, p x = false)
    (hl : p l = true) (r : List Text) :
    (replaceLines? p block (l :: r)).bind (replaceLines? q block') =
      (replaceLines? q block' (l :: r)).bind (replaceLines? p block) := by
  rw [replaceLines?_cons_of_pos hl, replaceLines?_cons_of_neg (hpq l hl), Option.bind_some,
    replaceLines?_append (hblock l), replaceLines?_filter (apart_symm hpq) hblock']
  cases replaceLines? q block' r with
  | none => rfl
  | some out => exact (replaceLines?_cons_of_pos hl).symm

/-- Two replacements can be made in any order if what they put in is left alone by the other. -/
theorem replaceLines?_comm (hpq : ∀ x, p x = true → q x = false)
    (hblock : ∀ m, ∀ x ∈ block m, q x = false) (hblock' : ∀ m, ∀ x ∈ block' m, p x = false)
    (ls : List Text) :
    (replaceLines? p block ls).bind (replaceLines? q block') =
      (replaceLines? q block' ls).bind (replaceLines? p block) := by
  induction ls with
  | nil => rfl
  | cons l r ih =>
    cases hp : p l with
    | true => exact replaceLines?_comm_cons hpq hblock hblock' hp r
    | false =>
      cases hq : q l with
      | true => exact (replaceLines?_comm_cons (apart_symm hpq) hblock' hblock hq r).symm
      | false =>
        -- the line stays in front of both
        have hstep : ∀ {p q : Text → Bool} {block block' : Text → List Text}, p l = false →
            q l = false → (replaceLines? p block (l :: r)).bind (replaceLines? q block') =
              ((replaceLines? p block r).bind (replaceLines? q block')).map (l :: ·) := by
          intro p q block block' hp hq
          rw [replaceLines?_cons_of_neg hp]
          cases replaceLines? p block r with
          | none => rfl
          | some out => exact replaceLines?_cons_of_neg hq
        rw [hstep hp hq, hstep hq hp, ih]

/-- A replacement in lines that are changed where it does not look. -/
theorem map_replaceLines? {g : Text → Text} (hg : ∀ x, p (g x) = p x)
    (hblock : ∀ m, p m = true → block (g m) = block m) (ls : List Text) :
    (replaceLines? p block ls).map (·.map g) =
      replaceLines? p (fun m => (block m).map g) (ls.map g) := by
  induction ls with
  | nil => rfl
  | cons l r ih =>
    rw [List.map_cons]
    cases hp : p l with
    | true =>
      have hfilter : (r.filter (!p ·)).map g = (r.map g).filter (!p ·) := by
        rw [List.filter_map]
        exact congrArg (List.map g) (List.filter_congr fun x _ => by simp [hg])
      rw [replaceLines?_cons_of_pos hp, replaceLines?_cons_of_pos ((hg l).trans hp),
        Option.map_some, List.map_append, hfilter, hblock l hp]
    | false =>
      rw [replaceLines?_cons_of_neg hp, replaceLines?_cons_of_neg ((hg l).trans hp), ← ih,
        Option.map_map, Option.map_map]
      rfl

/-! ## Texts -/

/-- The lines of a payload, which take the place of an insertion point. -/
def payloadLines (payload : Text) : List Text := lines (dropEndWhile (· == '\n') payload)

/-- The lines that are put in at the insertion point `m`. -/
def insertedLines (payload m : Text) : List Text := (payloadLines payload).map (indentLike m)

/-- A line as it is read once a newline has been put behind it. -/
def reread (l : Text) : Text := chomp (l ++ ['\n'])

variable {marker marker' payload payload' t m : Text} {ls : List Text}

theorem isMarkerLine_reread (marker l : Text) :
    isMarkerLine marker (reread l) = isMarkerLine marker l := by
  rw [← isMarkerLine_bare, reread, bare_chomp, isMarkerLine_bare]

theorem newline_not_mem_reread {l : Text} (h : '\n' ∉ l) : '\n' ∉ reread l := by
  obtain ⟨b, -, hl⟩ := eq_chomp_append l
  intro hmem
  rw [hl] at h
  exact h (List.mem_append_left b hmem)

theorem isMarkerLine_indentLike (marker m l : Text) :
    isMarkerLine marker (indentLike m l) = isMarkerLine marker l := by
  unfold indentLike
  split
  · next hl => rw [List.isEmpty_iff.1 hl]
  · have hstart : trimStart (leadingBlanks m ++ l) = trimStart l :=
      List.dropWhile_append_of_pos (List.all_eq_true.1 List.all_takeWhile)
    rw [isMarkerLine, isMarkerLine, trim, trim, hstart]

theorem isMarkerLine_insertedLines (h : ∀ l ∈ payloadLines payload, isMarkerLine marker l = false)
    (m : Text) : ∀ x ∈ insertedLines payload m, isMarkerLine marker x = false := by
  intro x hx
  obtain ⟨l, hl, rfl⟩ := List.mem_map.1 hx
  rw [isMarkerLine_indentLike]
  exact h l hl

theorem insertedLines_bare (hmarker : marker ≠ []) (hm : isMarkerLine marker m = true) :
    insertedLines payload (bare m) = insertedLines payload m :=
  List.map_congr_left fun l _ => indentLike_bare hmarker hm l

theorem insertedLines_reread (hmarker : marker ≠ []) (hm : isMarkerLine marker m = true) :
    insertedLines payload (reread m) = insertedLines payload m := by
  have hm' : isMarkerLine marker (reread m) = true := (isMarkerLine_reread marker m).trans hm
  rw [← insertedLines_bare hmarker hm', reread, bare_chomp, insertedLines_bare hmarker hm]

theorem reread_indentLike {l : Text} (h : bare l = l) (m : Text) :
    reread (indentLike m l) = indentLike m l := by
  refine chomp_newline_of_bare ?_
  unfold indentLike
  split
  · rfl
  · next hne =>
    have hl : l ≠ [] := by simpa using hne
    refine List.rdropWhile_eq_self_iff.2 fun hall hlast => ?_
    rw [List.getLast_append_of_ne_nil hall hl] at hlast
    exact List.rdropWhile_eq_self_iff.1 h hl hlast

theorem replaceMarker?_eq (marker payload t : Text) :
    replaceMarker? marker payload t =
      (replaceLines? (isMarkerLine marker) (insertedLines payload) (lines t)).map unlines := by
  rw [replaceMarker?, substituteLines?_eq_replaceLines?]
  rfl

theorem newline_not_mem_replaceLines? {out : List Text}
    (h : replaceLines? (isMarkerLine marker) (insertedLines payload) ls = some out)
    (hls : ∀ l ∈ ls, '\n' ∉ l) : ∀ l ∈ out, '\n' ∉ l := by
  have h' : substituteLines? marker (payloadLines payload) ls = some out := by
    rw [substituteLines?_eq_replaceLines?]
    exact h
  exact newline_not_mem_substituteLines? hls (fun l => newline_not_mem_of_mem_lines) h'

/-- Two replacements by the lines of the text. -/
theorem bind_replaceMarker? (marker payload marker' payload' t : Text) :
    (replaceMarker? marker payload t).bind (replaceMarker? marker' payload') =
      ((replaceLines? (isMarkerLine marker) (insertedLines payload) (lines t)).bind fun out =>
        replaceLines? (isMarkerLine marker') (insertedLines payload') (out.map reread)).map
          unlines := by
  rw [replaceMarker?_eq]
  cases hout : replaceLines? (isMarkerLine marker) (insertedLines payload) (lines t) with
  | none => rfl
  | some out =>
    have hfree := newline_not_mem_replaceLines? hout fun l => newline_not_mem_of_mem_lines
    rw [Option.map_some, Option.bind_some, Option.bind_some, replaceMarker?_eq, lines_unlines hfree]
    rfl

/-- The lines after two replacements, without carriage returns at their ends. -/
theorem bareLines_bind_replaceMarker? (hmarker : marker ≠ []) (hmarker' : marker' ≠ [])
    (payload payload' t : Text) :
    ((replaceMarker? marker payload t).bind (replaceMarker? marker' payload')).map bareLines =
      (replaceLines? (isMarkerLine marker) (fun m => (insertedLines payload m).map bare)
        (bareLines t)).bind
          (replaceLines? (isMarkerLine marker') fun m => (insertedLines payload' m).map bare) := by
  have hbare : ∀ {marker payload : Text} {ls : List Text}, marker ≠ [] →
      (replaceLines? (isMarkerLine marker) (insertedLines payload) ls).map (·.map bare) =
        replaceLines? (isMarkerLine marker) (fun m => (insertedLines payload m).map bare)
          (ls.map bare) := fun h =>
    map_replaceLines? (isMarkerLine_bare _) (fun m hm => insertedLines_bare h hm) _
  rw [bind_replaceMarker?, bareLines, ← hbare hmarker]
  cases hout : replaceLines? (isMarkerLine marker) (insertedLines payload) (lines t) with
  | none => rfl
  | some out =>
    have hreread : (out.map reread).map bare = out.map bare := by
      rw [List.map_map]
      exact List.map_congr_left fun l _ => bare_chomp l
    rw [Option.bind_some, Option.map_some, Option.bind_some, ← hreread, ← hbare hmarker',
      Option.map_map]
    refine Option.map_congr fun last hlast => map_bare_lines_unlines ?_
    refine newline_not_mem_replaceLines? hlast fun l hl => ?_
    obtain ⟨x, hx, rfl⟩ := List.mem_map.1 hl
    exact newline_not_mem_reread
      (newline_not_mem_replaceLines? hout (fun l => newline_not_mem_of_mem_lines) x hx)

/-- The text after two replacements that put in no line with a carriage return at its end. -/
theorem bind_replaceMarker?_of_bare (hmarker : marker ≠ [])
    (hbare : ∀ l ∈ payloadLines payload, bare l = l) (marker' payload' t : Text) :
    (replaceMarker? marker payload t).bind (replaceMarker? marker' payload') =
      ((replaceLines? (isMarkerLine marker) (insertedLines payload) ((lines t).map reread)).bind
        (replaceLines? (isMarkerLine marker') (insertedLines payload'))).map unlines := by
  have hreread : (fun m => (insertedLines payload m).map reread) = insertedLines payload := by
    funext m
    rw [insertedLines, List.map_map]
    exact List.map_congr_left fun l hl => reread_indentLike (hbare l hl) m
  have hmap : (replaceLines? (isMarkerLine marker) (insertedLines payload) (lines t)).map
      (·.map reread) =
        replaceLines? (isMarkerLine marker) (insertedLines payload) ((lines t).map reread) := by
    conv_rhs => rw [← hreread]
    exact map_replaceLines? (isMarkerLine_reread marker)
      (fun m hm => insertedLines_reread hmarker hm) (lines t)
  rw [bind_replaceMarker?, ← hmap, Option.bind_map]
  rfl

variable (hne : marker ≠ marker') (hmarker : marker ≠ []) (hmarker' : marker' ≠ [])
  (h : ∀ l ∈ payloadLines payload, isMarkerLine marker' l = false)
  (h' : ∀ l ∈ payloadLines payload', isMarkerLine marker l = false)

include hne in
theorem isMarkerLine_apart (l : Text) (hl : isMarkerLine marker l = true) :
    isMarkerLine marker' l = false := by
  rw [← Bool.not_eq_true]
  intro hl'
  exact hne ((beq_iff_eq.1 hl).symm.trans (beq_iff_eq.1 hl'))

include hne in
/-- Both replacements are made in a text that has both markers. -/
theorem isSome_bind_replaceMarker? (hline : ∃ l ∈ lines t, isMarkerLine marker l = true)
    (hline' : ∃ l ∈ lines t, isMarkerLine marker' l = true) (payload payload' : Text) :
    ((replaceMarker? marker payload t).bind (replaceMarker? marker' payload')).isSome = true := by
  obtain ⟨l', hmem', hl'⟩ := hline'
  rw [bind_replaceMarker?, Option.isSome_map]
  cases hout : replaceLines? (isMarkerLine marker) (insertedLines payload) (lines t) with
  | none =>
    have hany : (lines t).any (isMarkerLine marker) = true := List.any_eq_true.2 hline
    rw [← isSome_replaceLines?, hout] at hany
    cases hany
  | some out =>
    have hkept : l' ∈ out :=
      mem_of_replaceLines? hout hmem' (isMarkerLine_apart (Ne.symm hne) l' hl')
    rw [Option.bind_some, isSome_replaceLines?, List.any_eq_true]
    exact ⟨reread l', List.mem_map_of_mem hkept, (isMarkerLine_reread marker' l').trans hl'⟩

include hne hmarker hmarker' h h'

/-- The order of two replacements does not matter for the lines. -/
theorem bareLines_replaceMarker?_comm (t : Text) :
    ((replaceMarker? marker payload t).bind (replaceMarker? marker' payload')).map bareLines =
      ((replaceMarker? marker' payload' t).bind (replaceMarker? marker payload)).map
        bareLines := by
  have hblock : ∀ {marker payload : Text},
      (∀ l ∈ payloadLines payload, isMarkerLine marker l = false) →
        ∀ m, ∀ x ∈ (insertedLines payload m).map bare, isMarkerLine marker x = false := by
    intro marker payload h m x hx
    obtain ⟨l, hl, rfl⟩ := List.mem_map.1 hx
    rw [isMarkerLine_bare]
    exact isMarkerLine_insertedLines h m l hl
  rw [bareLines_bind_replaceMarker? hmarker hmarker',
    bareLines_bind_replaceMarker? hmarker' hmarker]
  exact replaceLines?_comm (isMarkerLine_apart hne) (hblock h) (hblock h') _

/-- The order of two replacements does not matter if they put in no line with a carriage return
at its end. -/
theorem replaceMarker?_comm (hbare : ∀ l ∈ payloadLines payload, bare l = l)
    (hbare' : ∀ l ∈ payloadLines payload', bare l = l) (t : Text) :
    (replaceMarker? marker payload t).bind (replaceMarker? marker' payload') =
      (replaceMarker? marker' payload' t).bind (replaceMarker? marker payload) := by
  rw [bind_replaceMarker?_of_bare hmarker hbare, bind_replaceMarker?_of_bare hmarker' hbare']
  exact congrArg (Option.map unlines) (replaceLines?_comm (isMarkerLine_apart hne)
    (isMarkerLine_insertedLines h) (isMarkerLine_insertedLines h') _)

end TouchPanel.Recipe
