import Mathlib.Data.List.Induction
import TouchPanel.Proofs.Identifier
import TouchPanel.Proofs.Ingress.Resolution
import TouchPanel.Proofs.Intake

/-!
# Accounting for links

Every link is attached once or refused with one finding. The updates of a value are those
it had before, followed by those of its links in the order of the links. Of two links that
drive the same action of a widget the later one reports the latest before it.
-/

namespace TouchPanel

/-- A finding that says why the link at index `i` has no effect. -/
def Diagnostic.refuses (i : Nat) : Diagnostic → Bool
  | .invalidEntityReference _ context => context = s!"link #{i}"
  | .danglingLinkTarget j _ | .unknownLinkAction j _ | .unsupportedLinkAction j _ _ _
  | .unbackedLink j _ | .emptyPredicate j | .missingPredicate j _ => j = i
  | _ => false

/-- The two links that a finding says are in conflict. -/
def Diagnostic.conflict? : Diagnostic → Option (Nat × Nat)
  | .conflictingLinks first second _ _ => some (first, second)
  | _ => none

/-- The text that names a link names no other link. -/
theorem linkContext_inj {i j : Nat} (h : s!"link #{i}" = s!"link #{j}") : i = j := by
  apply repr_inj
  simpa [toString] using h

theorem Link.Refused.refuses_iff {link : Link} {i j : Nat} {index : WidgetIndex}
    {ds : Declarations} {d : Diagnostic} (h : link.Refused i index ds d) :
    d.refuses j = true ↔ i = j := by
  cases h with
  | invalidEntity _ =>
    simp only [Diagnostic.refuses, decide_eq_true_eq]
    constructor
    · intro heq
      exact linkContext_inj heq
    · rintro rfl
      rfl
  | danglingTarget _ _ => simp [Diagnostic.refuses]
  | unknownAction _ _ _ => simp [Diagnostic.refuses]
  | unsupported _ _ => simp [Diagnostic.refuses]
  | unbacked _ _ _ => simp [Diagnostic.refuses]
  | emptyPredicate _ _ _ _ => simp [Diagnostic.refuses]
  | missingPredicate _ _ _ _ => simp [Diagnostic.refuses]

theorem Link.Refused.conflict?_eq_none {link : Link} {i : Nat} {index : WidgetIndex}
    {ds : Declarations} {d : Diagnostic} (h : link.Refused i index ds d) : d.conflict? = none := by
  cases h <;> rfl

namespace LinkRun

variable {index : WidgetIndex} {ds : Declarations}

/-! ## One link -/

theorem contains_attach (ds : Declarations) (key : SourceKey) (update : Node) :
    (ds.attach key update).contains = ds.contains := by
  funext k
  rw [Bool.eq_iff_iff, Table.contains_iff, Table.contains_iff, Declarations.attach,
    Table.keys_modify]

theorem ofLinks_concat (links : List Link) (link : Link) :
    ofLinks (links ++ [link]) index ds =
      add index (ofLinks links index ds) (link, links.length) := by
  rw [ofLinks, List.zipIdx_append, List.foldl_append]
  simp [ofLinks]

/-- Attaching links declares nothing. -/
theorem contains_ofLinks (links : List Link) :
    (ofLinks links index ds).declarations.contains = ds.contains := by
  refine List.foldlRecOn (motive := fun run : LinkRun => run.declarations.contains = ds.contains)
    links.zipIdx (add index) rfl ?_
  rintro run hrun ⟨link, i⟩ -
  unfold add
  dsimp only
  split
  · exact hrun
  · exact (contains_attach _ _ _).trans hrun

/-- What one more link does to a run: it reports a refusal, or it attaches its update. -/
theorem ofLinks_concat_cases (links : List Link) (link : Link) (index : WidgetIndex)
    (ds : Declarations) :
    let run := ofLinks links index ds
    (∃ d, link.Refused links.length index ds d ∧
      ofLinks (links ++ [link]) index ds = { run with diagnostics := run.diagnostics ++ [d] }) ∨
    (∃ a target, link.Attaches links.length index ds target a ∧
      ofLinks (links ++ [link]) index ds =
        { declarations := run.declarations.attach a.key (Lock.guarded a.lock [a.update])
          attached := (a, links.length) :: run.attached
          diagnostics := run.diagnostics ++ ((driver? run.attached a).map fun first =>
            Diagnostic.conflictingLinks first links.length link.target.widgetId a.action.tag).toList }) := by
  intro run
  rw [ofLinks_concat]
  unfold add
  dsimp only
  rw [contains_ofLinks]
  rcases link.resolve_cases links.length index ds with ⟨d, hd, href⟩ | ⟨a, target, ha, hatt⟩
  · rw [hd]
    exact Or.inl ⟨d, href, rfl⟩
  · rw [ha]
    exact Or.inr ⟨a, target, hatt, rfl⟩

/-! ## Which links are attached -/

/-- Links are entered with their indices, and one that drives what an earlier one drives is in
conflict with it. -/
def intake (index : WidgetIndex) (ds : Declarations) : Intake Link (Attachment × Nat) where
  Enters link i e := (∃ target, link.Attaches i index ds target e.1) ∧ e.2 = i
  Refuses link i d := link.Refused i index ds d
  index e := e.2
  alike e f := f.1.widgetId = e.1.widgetId && f.1.action = e.1.action
  report link e first := .conflictingLinks first e.2 link.target.widgetId e.1.action.tag
  refuses := Diagnostic.refuses
  reported? := Diagnostic.conflict?
  index_eq h := h.2
  refuses_iff h := h.refuses_iff
  reported?_eq_none h := h.conflict?_eq_none
  refuses_report _ _ _ _ := rfl
  reported?_report _ _ _ := rfl

theorem leaves_ofLinks (links : List Link) :
    (intake index ds).Leaves links (ofLinks links index ds).attached
      (ofLinks links index ds).diagnostics := by
  induction links using List.reverseRecOn with
  | nil => exact .nothing
  | append_singleton links link ih =>
    rcases ofLinks_concat_cases links link index ds with ⟨d, hd, hrun⟩ | ⟨a, target, ha, hrun⟩
    · rw [hrun]
      exact ih.refused (List.forall_mem_nil _) hd
    · have hentered := ih.entered (e := (a, links.length)) (List.forall_mem_nil _)
        ⟨⟨target, ha⟩, rfl⟩
      rw [List.append_nil] at hentered
      rw [hrun, driver?, Option.map_map]
      exact hentered

/-- What became of the link at index `i`: it is attached once and not refused, or it is
refused once and not attached. -/
def Accounts (run : LinkRun) (index : WidgetIndex) (ds : Declarations) (link : Link) (i : Nat) :
    Prop :=
  (∃ a target, link.Attaches i index ds target a ∧
    run.attached.filter (fun e => e.2 = i) = [(a, i)] ∧
    run.diagnostics.filter (·.refuses i) = []) ∨
  (∃ d, link.Refused i index ds d ∧
    run.attached.filter (fun e => e.2 = i) = [] ∧
    run.diagnostics.filter (·.refuses i) = [d])

theorem accounts_ofLinks (links : List Link) {link : Link} {i : Nat}
    (hlink : links[i]? = some link) : Accounts (ofLinks links index ds) index ds link i := by
  rcases (leaves_ofLinks links).accounts hlink with ⟨⟨a, j⟩, ⟨⟨target, ha⟩, hj⟩, hrest⟩ | hrefused
  · obtain rfl : j = i := hj
    exact Or.inl ⟨a, target, ha, hrest⟩
  · exact Or.inr hrefused

theorem exists_attaches (links : List Link) {a : Attachment} {i : Nat}
    (ha : (a, i) ∈ (ofLinks links index ds).attached) :
    ∃ link target, links[i]? = some link ∧ link.Attaches i index ds target a := by
  obtain ⟨link, hlink, ⟨target, hattaches⟩, -⟩ := (leaves_ofLinks links).exists_enters (a, i) ha
  exact ⟨link, target, hlink, hattaches⟩

/-! ## What the links add to a value -/

/-- The updates that the attached links add to a value, each behind its lock, in the order
of the links. -/
def updates (run : LinkRun) (key : SourceKey) : List Node :=
  (run.attached.reverse.filter fun e => e.1.key = key).map fun e =>
    Lock.guarded e.1.lock [e.1.update]

theorem declarations_ofLinks (links : List Link) (key : SourceKey) :
    (ofLinks links index ds).declarations.get? key =
      (ds.get? key).map (· ++ (ofLinks links index ds).updates key) := by
  induction links using List.reverseRecOn with
  | nil => simp [ofLinks, updates]
  | append_singleton links link ih =>
    rcases ofLinks_concat_cases links link index ds with ⟨d, -, hrun⟩ | ⟨a, target, -, hrun⟩
    · rw [hrun]
      exact ih
    · rw [hrun]
      unfold Declarations.attach
      by_cases hkey : key = a.key
      · subst hkey
        rw [Table.get?_modify_self, ih, Option.map_map]
        congr 1
        funext previous
        simp [updates, List.filter_append]
      · rw [Table.get?_modify_of_ne _ hkey, ih]
        simp [updates, List.filter_append, Ne.symm hkey]

/-! ## Conflicts -/

/-- The attached links before the link at index `i` that drive the same action of the same
widget. -/
def drivers (attached : List (Attachment × Nat)) (a : Attachment) (i : Nat) : Set Nat :=
  {j | j < i ∧ ∃ b, (b, j) ∈ attached ∧ b.widgetId = a.widgetId ∧ b.action = a.action}

theorem earlier_eq_drivers (attached : List (Attachment × Nat)) (a : Attachment) (i : Nat) :
    (intake index ds).earlier attached (a, i) = drivers attached a i := by
  ext j
  constructor
  · rintro ⟨hlt, ⟨b, j⟩, hb, hsame, rfl⟩
    exact ⟨hlt, b, hb, by simpa [intake] using hsame⟩
  · rintro ⟨hlt, b, hb, hsame⟩
    exact ⟨hlt, (b, j), hb, by simpa [intake] using hsame, rfl⟩

theorem conflict_mem_iff (links : List Link) {first second : Nat} {widget action : String} :
    Diagnostic.conflictingLinks first second widget action ∈ (ofLinks links index ds).diagnostics ↔
      ∃ link a, links[second]? = some link ∧ (a, second) ∈ (ofLinks links index ds).attached ∧
        link.target.widgetId = widget ∧ a.action.tag = action ∧
        IsGreatest (drivers (ofLinks links index ds).attached a second) first := by
  rw [(leaves_ofLinks links).report_mem_iff rfl]
  constructor
  · rintro ⟨link, ⟨a, i⟩, ha, hlink, j, hj, heq⟩
    rw [earlier_eq_drivers] at hj
    cases heq
    exact ⟨link, a, hlink, ha, rfl, rfl, hj⟩
  · rintro ⟨link, a, hlink, ha, rfl, rfl, hfirst⟩
    refine ⟨link, (a, second), ha, hlink, first, ?_, rfl⟩
    rw [earlier_eq_drivers]
    exact hfirst

/-! ## All links -/

/-- Every link is attached once or reported once. A value keeps its updates and gets those
of its attached links, in the order of the links and each behind the lock of entity and
widget. A link is reported to be in conflict with the latest one before it that drives the
same action of the same widget. -/
theorem links_accounted (links : List Link) (index : WidgetIndex) (ds : Declarations) :
    let run := ofLinks links index ds
    (∀ i link, links[i]? = some link → Accounts run index ds link i) ∧
    (∀ e ∈ run.attached, e.2 < links.length) ∧
    run.attached.reverse.Pairwise (fun e f => e.2 < f.2) ∧
    (∀ key, run.declarations.get? key = (ds.get? key).map (· ++ run.updates key)) ∧
    (∀ first second widget action,
      Diagnostic.conflictingLinks first second widget action ∈ run.diagnostics ↔
        ∃ link a, links[second]? = some link ∧ (a, second) ∈ run.attached ∧
          link.target.widgetId = widget ∧ a.action.tag = action ∧
          IsGreatest (drivers run.attached a second) first) ∧
    (run.diagnostics.filterMap (·.conflict?)).Pairwise fun c d => c.2 < d.2 :=
  ⟨fun _ _ => accounts_ofLinks links, (leaves_ofLinks links).index_lt,
    List.pairwise_reverse.2 (leaves_ofLinks links).descending, declarations_ofLinks links,
    fun _ _ _ _ => conflict_mem_iff links, (leaves_ofLinks links).reported_ascending⟩

end LinkRun

end TouchPanel
