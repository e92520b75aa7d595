import Mathlib.Order.Bounds.Basic
import TouchPanel.Diagnostic

/-!
# Taking in requests

Links and action bindings are taken in alike, one by one. A request gets an entry in front of
those before it, which reports the latest of them that is for the same thing, or it is refused
with a finding. So every request has one entry or one refusal, and an entry reports the latest
one before it that it replaces or contradicts.
-/

namespace TouchPanel

/-- How requests are taken in: what an entry and a refusal are, and how the findings tell them
from the reports about two entries. -/
structure Intake (ρ ε : Type) where
  /-- The request at an index has an entry. -/
  Enters : ρ → Nat → ε → Prop
  /-- The request at an index is refused with a finding. -/
  Refuses : ρ → Nat → Diagnostic → Prop
  index : ε → Nat
  /-- Whether a second entry is for the same thing as the first. -/
  alike : ε → ε → Bool
  /-- What the entry of a request reports about the entry at an index before it. -/
  report : ρ → ε → Nat → Diagnostic
  /-- Whether a finding refuses the request at an index. -/
  refuses : Nat → Diagnostic → Bool
  /-- The earlier and the later request of a report. -/
  reported? : Diagnostic → Option (Nat × Nat)
  index_eq {r : ρ} {i : Nat} {e : ε} : Enters r i e → index e = i
  refuses_iff {r : ρ} {i j : Nat} {d : Diagnostic} : Refuses r i d → (refuses j d = true ↔ i = j)
  reported?_eq_none {r : ρ} {i : Nat} {d : Diagnostic} : Refuses r i d → reported? d = none
  refuses_report (r : ρ) (e : ε) (first i : Nat) : refuses i (report r e first) = false
  reported?_report (r : ρ) (e : ε) (first : Nat) :
    reported? (report r e first) = some (first, index e)

/-- Of entries with descending indices the first one of a kind is the latest one. -/
theorem find?_eq_some_iff_of_descending {ε : Type} {index : ε → Nat} {p : ε → Bool} {es : List ε}
    {e : ε} (hdescending : es.Pairwise fun e f => index f < index e) :
    es.find? p = some e ↔
      e ∈ es ∧ p e = true ∧ IsGreatest {i | ∃ f ∈ es, p f = true ∧ index f = i} (index e) := by
  -- what comes before the entry found is not of the kind, what comes after it is earlier
  have hfound : ∀ {f : ε}, es.find? p = some f → f ∈ es ∧ p f = true ∧
      ∀ g ∈ es, p g = true → g = f ∨ index g < index f := by
    intro f hfind
    obtain ⟨hf, before, after, rfl, hbefore⟩ := List.find?_eq_some_iff_append.1 hfind
    refine ⟨List.mem_append_right _ List.mem_cons_self, hf, fun g hg hp => ?_⟩
    rcases List.mem_append.1 hg with hg | hg
    · simpa [hp] using hbefore g hg
    · rcases List.mem_cons.1 hg with rfl | hg
      · exact Or.inl rfl
      · have hafter := (List.pairwise_append.1 hdescending).2.1
        exact Or.inr ((List.pairwise_cons.1 hafter).1 g hg)
  constructor
  · intro hfind
    obtain ⟨he, hp, hlatest⟩ := hfound hfind
    refine ⟨he, hp, ⟨e, he, hp, rfl⟩, ?_⟩
    rintro i ⟨g, hg, hpg, rfl⟩
    rcases hlatest g hg hpg with rfl | hlt
    · exact Nat.le_refl _
    · exact Nat.le_of_lt hlt
  · rintro ⟨he, hp, hgreatest⟩
    obtain ⟨f, hfind⟩ := Option.isSome_iff_exists.1 (List.find?_isSome.2 ⟨e, he, hp⟩)
    obtain ⟨hf, hpf, hlatest⟩ := hfound hfind
    rcases hlatest e he hp with rfl | hlt
    · exact hfind
    · exact absurd (hgreatest.2 ⟨f, hf, hpf, rfl⟩) (Nat.not_le.2 hlt)

namespace Intake

variable {ρ ε : Type} {I : Intake ρ ε} {rs : List ρ} {es : List ε} {found : List Diagnostic}

/-- A finding that neither refuses a request nor reports two entries. -/
structure IsRemark (I : Intake ρ ε) (d : Diagnostic) : Prop where
  refuses (i : Nat) : I.refuses i d = false
  reported : I.reported? d = none

/-- What an entry reports about the latest one before it that is for the same thing. -/
def conflicts (I : Intake ρ ε) (r : ρ) (e : ε) (es : List ε) : List Diagnostic :=
  ((es.find? (I.alike e)).map fun f => I.report r e (I.index f)).toList

/-- The entries and the findings that requests leave when they are taken in one after the
other. -/
inductive Leaves (I : Intake ρ ε) : List ρ → List ε → List Diagnostic → Prop
  | nothing : Leaves I [] [] []
  | entered {rs : List ρ} {es : List ε} {found notes : List Diagnostic} {r : ρ} {e : ε}
      (before : Leaves I rs es found) (remarks : ∀ d ∈ notes, I.IsRemark d)
      (enters : I.Enters r rs.length e) :
      Leaves I (rs ++ [r]) (e :: es) (found ++ notes ++ I.conflicts r e es)
  | refused {rs : List ρ} {es : List ε} {found notes : List Diagnostic} {r : ρ} {d : Diagnostic}
      (before : Leaves I rs es found) (remarks : ∀ d ∈ notes, I.IsRemark d)
      (refuses : I.Refuses r rs.length d) :
      Leaves I (rs ++ [r]) es (found ++ (notes ++ [d]))

theorem refuses_conflicts {r : ρ} {e : ε} {es : List ε} {d : Diagnostic} {i : Nat}
    (hd : d ∈ I.conflicts r e es) : I.refuses i d = false := by
  obtain ⟨f, -, rfl⟩ := Option.map_eq_some_iff.1 (Option.mem_toList.1 hd)
  exact I.refuses_report r e _ i

theorem filter_refuses_remarks {notes : List Diagnostic} {i : Nat}
    (hnotes : ∀ d ∈ notes, I.IsRemark d) : notes.filter (I.refuses i) = [] :=
  List.filter_eq_nil_iff.2 fun d hd hi => by
    rw [(hnotes d hd).refuses i] at hi
    cases hi

theorem filter_refuses_conflicts {r : ρ} {e : ε} {es : List ε} {i : Nat} :
    (I.conflicts r e es).filter (I.refuses i) = [] :=
  List.filter_eq_nil_iff.2 fun d hd hi => by
    rw [refuses_conflicts hd] at hi
    cases hi

theorem filterMap_reported?_remarks {notes : List Diagnostic}
    (hnotes : ∀ d ∈ notes, I.IsRemark d) : notes.filterMap I.reported? = [] :=
  List.filterMap_eq_nil_iff.2 fun d hd => (hnotes d hd).reported

namespace Leaves

/-! ## Entries and refusals -/

theorem index_lt (h : I.Leaves rs es found) : ∀ e ∈ es, I.index e < rs.length := by
  induction h with
  | nothing => simp
  | @entered rs es found notes r e _ _ enters ih =>
    rw [List.length_append, List.length_singleton]
    refine List.forall_mem_cons.2 ⟨?_, fun f hf => (ih f hf).trans (Nat.lt_succ_self _)⟩
    rw [I.index_eq enters]
    exact Nat.lt_succ_self _
  | refused _ _ _ ih =>
    rw [List.length_append, List.length_singleton]
    exact fun f hf => (ih f hf).trans (Nat.lt_succ_self _)

/-- Later entries come first. -/
theorem descending (h : I.Leaves rs es found) : es.Pairwise fun e f => I.index f < I.index e := by
  induction h with
  | nothing => exact List.Pairwise.nil
  | entered before _ enters ih =>
    refine List.pairwise_cons.2 ⟨fun f hf => ?_, ih⟩
    rw [I.index_eq enters]
    exact before.index_lt f hf
  | refused _ _ _ ih => exact ih

/-- No finding names a request that has not been taken in. -/
theorem lt_of_refuses (h : I.Leaves rs es found) {d : Diagnostic} {i : Nat} (hd : d ∈ found)
    (hi : I.refuses i d = true) : i < rs.length := by
  have hremark : ∀ {notes : List Diagnostic}, (∀ d ∈ notes, I.IsRemark d) → d ∉ notes := by
    intro notes hnotes hmem
    rw [(hnotes d hmem).refuses i] at hi
    cases hi
  induction h with
  | nothing => cases hd
  | entered _ remarks _ ih =>
    rw [List.length_append, List.length_singleton]
    rcases List.mem_append.1 hd with hd | hd
    · rcases List.mem_append.1 hd with hd | hd
      · exact (ih hd).trans (Nat.lt_succ_self _)
      · exact absurd hd (hremark remarks)
    · rw [refuses_conflicts hd] at hi
      cases hi
  | refused _ remarks refuses ih =>
    rw [List.length_append, List.length_singleton]
    rcases List.mem_append.1 hd with hd | hd
    · exact (ih hd).trans (Nat.lt_succ_self _)
    · rcases List.mem_append.1 hd with hd | hd
      · exact absurd hd (hremark remarks)
      · obtain rfl := List.mem_singleton.1 hd
        exact (I.refuses_iff refuses).1 hi ▸ Nat.lt_succ_self _

/-- A request has one entry and is not refused, or it has none and is refused once. -/
theorem accounts (h : I.Leaves rs es found) {r : ρ} {i : Nat} (hr : rs[i]? = some r) :
    (∃ e, I.Enters r i e ∧ es.filter (fun e => I.index e = i) = [e] ∧
      found.filter (I.refuses i) = []) ∨
    (∃ d, I.Refuses r i d ∧ es.filter (fun e => I.index e = i) = [] ∧
      found.filter (I.refuses i) = [d]) := by
  have hfree : ∀ {rs : List ρ} {es : List ε} {found : List Diagnostic}, I.Leaves rs es found →
      es.filter (fun e => I.index e = rs.length) = [] ∧
      found.filter (I.refuses rs.length) = [] := fun h =>
    ⟨List.filter_eq_nil_iff.2 fun e he hi => (h.index_lt e he).ne (of_decide_eq_true hi),
      List.filter_eq_nil_iff.2 fun d hd hi => Nat.lt_irrefl _ (h.lt_of_refuses hd hi)⟩
  -- a request before the last one keeps its account, the last one gets its own
  induction h with
  | nothing => cases hr
  | @entered rs es found notes last e before remarks enters ih =>
    rcases Nat.lt_trichotomy i rs.length with hi | rfl | hi
    · rw [List.getElem?_append_left hi] at hr
      have hne : I.index e ≠ i := by
        rw [I.index_eq enters]
        exact Nat.ne_of_gt hi
      simpa [List.filter_append, hne, filter_refuses_remarks remarks,
        filter_refuses_conflicts] using ih hr
    · obtain rfl : last = r := by simpa using hr
      obtain ⟨hentries, hfindings⟩ := hfree before
      refine Or.inl ⟨e, enters, ?_, ?_⟩
      · simpa [I.index_eq enters] using hentries
      · simp [List.filter_append, hfindings, filter_refuses_remarks remarks,
          filter_refuses_conflicts]
    · rw [List.getElem?_eq_none (by simpa using Nat.succ_le_of_lt hi)] at hr
      cases hr
  | @refused rs es found notes last d before remarks refuses ih =>
    rcases Nat.lt_trichotomy i rs.length with hi | rfl | hi
    · rw [List.getElem?_append_left hi] at hr
      have hskip : I.refuses i d = false := by
        rw [Bool.eq_false_iff, Ne, I.refuses_iff refuses]
        exact Nat.ne_of_gt hi
      simpa [List.filter_append, hskip, filter_refuses_remarks remarks] using ih hr
    · obtain rfl : last = r := by simpa using hr
      obtain ⟨hentries, hfindings⟩ := hfree before
      refine Or.inr ⟨d, refuses, hentries, ?_⟩
      simp [List.filter_append, hfindings, filter_refuses_remarks remarks,
        I.refuses_iff refuses]
    · rw [List.getElem?_eq_none (by simpa using Nat.succ_le_of_lt hi)] at hr
      cases hr

theorem exists_enters (h : I.Leaves rs es found) :
    ∀ e ∈ es, ∃ r, rs[I.index e]? = some r ∧ I.Enters r (I.index e) e := by
  intro e he
  have hr := List.getElem?_eq_getElem (h.index_lt e he)
  have hmem : e ∈ es.filter (fun f => I.index f = I.index e) :=
    List.mem_filter.2 ⟨he, decide_eq_true rfl⟩
  rcases h.accounts hr with ⟨f, hf, hfilter, -⟩ | ⟨d, -, hfilter, -⟩
  · rw [hfilter] at hmem
    obtain rfl := List.mem_singleton.1 hmem
    exact ⟨_, hr, hf⟩
  · rw [hfilter] at hmem
    cases hmem

end Leaves

/-! ## Reports about two entries -/

/-- The entries before another one that are for the same thing. -/
def earlier (I : Intake ρ ε) (es : List ε) (e : ε) : Set Nat :=
  {i | i < I.index e ∧ ∃ f ∈ es, I.alike e f = true ∧ I.index f = i}

/-- A later entry changes nothing for those up to it. -/
theorem earlier_cons {e f : ε} (hle : I.index e ≤ I.index f) :
    I.earlier (f :: es) e = I.earlier es e := by
  ext i
  constructor
  · rintro ⟨hlt, g, hg, halike, rfl⟩
    rcases List.mem_cons.1 hg with rfl | hg
    · exact absurd hlt (Nat.not_lt.2 hle)
    · exact ⟨hlt, g, hg, halike, rfl⟩
  · rintro ⟨hlt, g, hg, hrest⟩
    exact ⟨hlt, g, List.mem_cons_of_mem _ hg, hrest⟩

/-- The entry that a new one reports is the latest one for the same thing. -/
theorem map_index_find?_eq_some_iff {e : ε} {first : Nat}
    (hdescending : es.Pairwise fun e f => I.index f < I.index e)
    (hlt : ∀ f ∈ es, I.index f < I.index e) :
    (es.find? (I.alike e)).map I.index = some first ↔ IsGreatest (I.earlier es e) first := by
  have hset : I.earlier es e = {i | ∃ f ∈ es, I.alike e f = true ∧ I.index f = i} := by
    ext i
    refine ⟨And.right, fun hi => ⟨?_, hi⟩⟩
    obtain ⟨f, hf, -, rfl⟩ := hi
    exact hlt f hf
  rw [hset, Option.map_eq_some_iff]
  constructor
  · rintro ⟨f, hf, rfl⟩
    exact ((find?_eq_some_iff_of_descending hdescending).1 hf).2.2
  · intro hfirst
    obtain ⟨f, hf, halike, rfl⟩ := hfirst.1
    exact ⟨f, (find?_eq_some_iff_of_descending hdescending).2 ⟨hf, halike, hfirst⟩, rfl⟩

theorem mem_conflicts_iff {r : ρ} {e : ε} {d : Diagnostic}
    (hdescending : es.Pairwise fun e f => I.index f < I.index e)
    (hlt : ∀ f ∈ es, I.index f < I.index e) :
    d ∈ I.conflicts r e es ↔
      ∃ first, IsGreatest (I.earlier (e :: es) e) first ∧ d = I.report r e first := by
  rw [conflicts, Option.mem_toList, Option.map_eq_some_iff, earlier_cons (Nat.le_refl _)]
  constructor
  · rintro ⟨f, hf, rfl⟩
    exact ⟨I.index f, (map_index_find?_eq_some_iff hdescending hlt).1 (by rw [hf]; rfl), rfl⟩
  · rintro ⟨first, hfirst, rfl⟩
    obtain ⟨f, hf, rfl⟩ :=
      Option.map_eq_some_iff.1 ((map_index_find?_eq_some_iff hdescending hlt).2 hfirst)
    exact ⟨f, hf, rfl⟩

namespace Leaves

/-- The reports are those of the entries about the latest one before them for the same
thing. -/
theorem report_mem_iff (h : I.Leaves rs es found) {d : Diagnostic}
    (hd : (I.reported? d).isSome = true) :
    d ∈ found ↔ ∃ r, ∃ e ∈ es, rs[I.index e]? = some r ∧
      ∃ first, IsGreatest (I.earlier es e) first ∧ d = I.report r e first := by
  have hremark : ∀ {notes : List Diagnostic}, (∀ d ∈ notes, I.IsRemark d) → d ∉ notes := by
    intro notes hnotes hmem
    rw [(hnotes d hmem).reported] at hd
    cases hd
  induction h with
  | nothing => simp
  | @entered rs es found notes last e before remarks enters ih =>
    have hindex : I.index e = rs.length := I.index_eq enters
    have hlt : ∀ f ∈ es, I.index f < I.index e := by
      rw [hindex]
      exact before.index_lt
    simp only [List.mem_append, hremark remarks, or_false, List.mem_cons, ih,
      mem_conflicts_iff before.descending hlt]
    constructor
    · rintro (⟨r, f, hf, hr, first, hfirst, rfl⟩ | ⟨first, hfirst, rfl⟩)
      · refine ⟨r, f, Or.inr hf, ?_, first, ?_, rfl⟩
        · rw [List.getElem?_append_left (before.index_lt f hf)]
          exact hr
        · rwa [earlier_cons (Nat.le_of_lt (hlt f hf))]
      · exact ⟨last, e, Or.inl rfl, by simp [hindex], first, hfirst, rfl⟩
    · rintro ⟨r, f, rfl | hf, hr, first, hfirst, rfl⟩
      · obtain rfl : last = r := by simpa [hindex] using hr
        exact Or.inr ⟨first, hfirst, rfl⟩
      · rw [List.getElem?_append_left (before.index_lt f hf)] at hr
        rw [earlier_cons (Nat.le_of_lt (hlt f hf))] at hfirst
        exact Or.inl ⟨r, f, hf, hr, first, hfirst, rfl⟩
  | @refused rs es found notes last e before remarks refuses ih =>
    have hne : d ≠ e := by
      rintro rfl
      rw [I.reported?_eq_none refuses] at hd
      cases hd
    simp only [List.mem_append, List.mem_singleton, hremark remarks, hne, or_false, ih]
    constructor
    · rintro ⟨r, f, hf, hr, hrest⟩
      exact ⟨r, f, hf, (List.getElem?_append_left (before.index_lt f hf)).trans hr, hrest⟩
    · rintro ⟨r, f, hf, hr, hrest⟩
      exact ⟨r, f, hf, (List.getElem?_append_left (before.index_lt f hf)).symm.trans hr, hrest⟩

theorem reported_lt (h : I.Leaves rs es found) {c : Nat × Nat}
    (hc : c ∈ found.filterMap I.reported?) : c.2 < rs.length := by
  obtain ⟨d, hd, hreported⟩ := List.mem_filterMap.1 hc
  obtain ⟨r, e, he, -, first, -, rfl⟩ :=
    (h.report_mem_iff (Option.isSome_iff_exists.2 ⟨c, hreported⟩)).1 hd
  rw [I.reported?_report] at hreported
  obtain rfl := Option.some.inj hreported
  exact h.index_lt e he

/-- An entry makes one report at most. -/
theorem reported_ascending (h : I.Leaves rs es found) :
    (found.filterMap I.reported?).Pairwise fun c d => c.2 < d.2 := by
  induction h with
  | nothing => exact List.Pairwise.nil
  | @entered rs es found notes r e before remarks enters ih =>
    rw [List.filterMap_append, List.filterMap_append, filterMap_reported?_remarks remarks,
      List.append_nil]
    have hsecond : ∀ d ∈ (I.conflicts r e es).filterMap I.reported?, d.2 = rs.length := by
      intro d hd
      obtain ⟨report, hreport, hreported⟩ := List.mem_filterMap.1 hd
      obtain ⟨f, -, rfl⟩ := Option.map_eq_some_iff.1 (Option.mem_toList.1 hreport)
      rw [I.reported?_report] at hreported
      obtain rfl := Option.some.inj hreported
      exact I.index_eq enters
    refine List.pairwise_append.2 ⟨ih, ?_, fun c hc d hd => ?_⟩
    · unfold conflicts
      cases es.find? (I.alike e) with
      | none => exact List.Pairwise.nil
      | some f => simp [I.reported?_report]
    · rw [hsecond d hd]
      exact before.reported_lt hc
  | refused _ remarks refuses ih =>
    simpa [List.filterMap_append, filterMap_reported?_remarks remarks,
      I.reported?_eq_none refuses] using ih

end Leaves

end Intake

end TouchPanel
