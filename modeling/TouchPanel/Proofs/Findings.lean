import TouchPanel.Proofs.Fragments
import TouchPanel.Proofs.Widget.Emission

/-!
# Findings about a project

Compiling a project reports problems of the project. A script is reported by the scripts
alone, and a section of the recipe by the assembly alone, so what these report is all there is.
-/

namespace TouchPanel

inductive Scope where
  | design
  | script
  | recipe
  deriving DecidableEq

namespace Diagnostic

/-- What a finding is about. -/
def scope : Diagnostic → Scope
  | .invalidScript .. => .script
  | .missingPagesMarker | .unmergeableSection _ => .recipe
  | _ => .design

/-- The section of the recipe that a finding is about. -/
def section? : Diagnostic → Option String
  | .unmergeableSection name => some name
  | _ => none

end Diagnostic

/-- Findings none of which is about a section of the recipe. -/
def SectionFree (found : List Diagnostic) : Prop := ∀ d ∈ found, d.section? = none

namespace SectionFree

variable {a b : List Diagnostic} {d : Diagnostic}

theorem nil : SectionFree [] := fun _ h => nomatch h

theorem append (ha : SectionFree a) (hb : SectionFree b) : SectionFree (a ++ b) :=
  List.forall_mem_append.2 ⟨ha, hb⟩

theorem single (hd : d.section? = none) : SectionFree [d] := List.forall_mem_cons.2 ⟨hd, nil⟩

theorem count_eq_zero (h : SectionFree a) (name : String) :
    a.count (.unmergeableSection name) = 0 := by
  rw [List.count_eq_zero]
  intro hmem
  cases h _ hmem

end SectionFree

/-- Findings about the design alone. -/
def OfDesign (found : List Diagnostic) : Prop := ∀ d ∈ found, d.scope = .design

namespace OfDesign

variable {a b : List Diagnostic} {d : Diagnostic}

theorem nil : OfDesign [] := fun _ h => nomatch h

theorem append (ha : OfDesign a) (hb : OfDesign b) : OfDesign (a ++ b) :=
  List.forall_mem_append.2 ⟨ha, hb⟩

theorem single (hd : d.scope = .design) : OfDesign [d] := List.forall_mem_cons.2 ⟨hd, nil⟩

theorem option_map {α : Type} {f : α → Diagnostic} (h : ∀ x, (f x).scope = .design)
    (o : Option α) : OfDesign (o.map f).toList := by
  cases o with
  | none => exact nil
  | some x => exact single (h x)

/-- Nothing is left of them among findings about scripts. -/
theorem filter_scope (h : OfDesign a) : a.filter (·.scope = .script) = [] := by
  rw [List.filter_eq_nil_iff]
  intro d hd
  simp [h d hd]

end OfDesign

/-! ## Widgets and pages -/

theorem WidgetIndex.ofDesign_pageFindings (policy : Identifier.Policy) (seen : List String)
    (pages : List Page) : OfDesign (pageFindings policy seen pages) := by
  induction pages generalizing seen with
  | nil => exact .nil
  | cons page r ih =>
    refine .append ?_ (ih _)
    split
    · exact .single rfl
    · exact .nil

theorem WidgetIndex.ofDesign_widgetFindings (pageIds outIds ids : List String)
    (index : WidgetIndex) : OfDesign (widgetFindings pageIds outIds ids index) := by
  induction index generalizing outIds ids with
  | nil => exact .nil
  | cons w r ih =>
    rw [widgetFindings]
    refine .append ?_ ?_
    · split
      · exact .single rfl
      · exact .nil
    · split
      · exact .append (.single rfl) (ih _ _)
      · refine .append ?_ (ih _ _)
        split
        · exact .single rfl
        · exact .nil

theorem WidgetTree.ofDesign_findings (page : Page) (index : WidgetIndex) :
    OfDesign (findings page index) := by
  refine .append (fun d hd => ?_) fun d hd => ?_
  · obtain ⟨w, -, hw⟩ := List.mem_filterMap.1 hd
    unfold parentFinding? at hw
    split at hw
    · cases hw
    · split_ifs at hw
      · cases hw
        rfl
      · cases hw
        rfl
  · obtain ⟨e, -, he⟩ := List.mem_filterMap.1 hd
    dsimp only at he
    split_ifs at he
    cases he
    rfl

theorem Widget.ofDesign_styleFindings (w : Widget) (c : PageContext) :
    OfDesign (w.styleFindings c) := by
  unfold styleFindings
  split
  · exact .nil
  · exact List.forall_mem_map.2 fun _ _ => rfl

theorem Project.ofDesign_pageFindings (p : Project) (index : WidgetIndex) (c : PageContext) :
    OfDesign (p.pageFindings index c) := by
  intro d hd
  obtain ⟨page, -, hd⟩ := List.mem_flatMap.1 hd
  refine OfDesign.append (WidgetTree.ofDesign_findings page index) ?_ d hd
  exact WidgetTree.forall_mem_collectAll (fun w => Widget.ofDesign_styleFindings w c) _

/-! ## Handlers -/

theorem ActionBinding.ofDesign_resolve (b : ActionBinding) (i : Nat) (index : WidgetIndex)
    (options : Options) : OfDesign (b.resolve i index options).1 := by
  have hcall : ∀ call : ServiceCall, OfDesign (call.findings i) := by
    intro call
    unfold ServiceCall.findings
    split
    · split
      · exact .nil
      · exact .single rfl
    · exact .nil
  unfold resolve
  split
  · exact .single rfl
  · dsimp only
    split
    · exact .single rfl
    · split
      · exact .option_map (fun _ => rfl) _
      · exact .append (.option_map (fun _ => rfl) _) (hcall _)
      · exact .append (.option_map (fun _ => rfl) _) (.single rfl)

theorem Handlers.ofDesign_diagnostics (bindings : List ActionBinding) (index : WidgetIndex)
    (options : Options) : OfDesign (ofBindings bindings index options).diagnostics := by
  refine List.foldlRecOn (motive := fun hs : Handlers => OfDesign hs.diagnostics)
    bindings.zipIdx (add index options) .nil ?_
  rintro hs hfound ⟨b, i⟩ -
  have hnotes := b.ofDesign_resolve i index options
  unfold add
  dsimp only
  split
  · exact .append hfound hnotes
  · exact .append (.append hfound hnotes) (.option_map (fun _ => rfl) _)

/-! ## Inbound data -/

theorem Declarations.ofDesign_declare (ds : Declarations) (key : SourceKey) :
    OfDesign (ds.declare key).2 := by
  unfold declare
  split
  · exact .nil
  · split
    · exact .single rfl
    · exact .nil

theorem Declarations.ofDesign_ofBindings (bindings : List Source) :
    OfDesign (ofBindings bindings).2 := by
  refine List.foldlRecOn
    (motive := fun s : Declarations × List Diagnostic => OfDesign s.2)
    bindings.zipIdx addBinding .nil ?_
  rintro ⟨ds, found⟩ hfound ⟨source, i⟩ -
  unfold addBinding
  dsimp only
  split
  · exact .append hfound (ofDesign_declare ds _)
  · exact .append hfound (.single rfl)

theorem Link.Refused.scope_eq_design {link : Link} {i : Nat} {index : WidgetIndex}
    {ds : Declarations} {d : Diagnostic} (h : link.Refused i index ds d) : d.scope = .design := by
  cases h <;> rfl

theorem LinkRun.ofDesign_diagnostics (links : List Link) (index : WidgetIndex)
    (ds : Declarations) : OfDesign (ofLinks links index ds).diagnostics := by
  induction links using List.reverseRecOn with
  | nil => exact .nil
  | append_singleton links link ih =>
    rcases ofLinks_concat_cases links link index ds with ⟨d, hd, hrun⟩ | ⟨a, target, -, hrun⟩
    · rw [hrun]
      exact .append ih (.single hd.scope_eq_design)
    · rw [hrun]
      exact .append ih (.option_map (fun _ => rfl) _)

namespace Fragments

variable (p : Project) (registry : Registry) (options : Options)

/-- What is reported before the scripts is about the design. -/
theorem exists_findings : ∃ found, OfDesign found ∧ (ofProject p registry options).2 =
    found ++ (scriptsOf p registry options).diagnostics := by
  rw [ofProject_eq]
  refine ⟨_, ?_, rfl⟩
  refine .append (.append (.append (.append (.append ?_ ?_) ?_) ?_) ?_) ?_
  · exact WidgetIndex.ofDesign_pageFindings _ _ _
  · exact WidgetIndex.ofDesign_widgetFindings _ _ _ _
  · exact Handlers.ofDesign_diagnostics _ _ _
  · exact Project.ofDesign_pageFindings p _ _
  · exact Declarations.ofDesign_ofBindings p.bindings
  · exact LinkRun.ofDesign_diagnostics p.links _ _

end Fragments

end TouchPanel
