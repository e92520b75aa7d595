import Mathlib.Data.List.Induction
import TouchPanel.Proofs.Findings
import TouchPanel.Proofs.Ingress.Declaration
import TouchPanel.Proofs.Output.Code

/-!
# Accounting for setpoint scripts

Every script is written or reported once. Scripts that are written have different ids, and
each of them reads one declared value: its own, unless another one owns the id of its value,
which is reported.
-/

namespace TouchPanel

/-! ## What a script reads -/

/-- The name between the parentheses of an expression that returns a value. -/
def Node.readId? : Node → Option String
  | .lambda code => (Text.after? "return id(".toList code.toList).map fun rest =>
      String.ofList (rest.takeWhile (· != ')'))
  | _ => none

/-- Some expression of the tree reads the value with the id. -/
def Node.ReadsId (node : Node) (id : String) : Prop :=
  ∃ u : Node, Within u node ∧ u.readId? = some id

namespace SetpointScript

open Node

theorem readId?_lambda {k : SourceKey} {code : String} {rest : Text}
    (h : code.toList = "return id(".toList ++ (k.id.toList ++ ')' :: rest)) :
    (Node.lambda code).readId? = some k.id := by
  have hname : ∀ c ∈ k.id.toList, (c != ')') = true := by
    intro c hc
    have hplain := k.isPlain_id c hc
    rw [bne_iff_ne]
    rintro rfl
    cases hplain
  unfold readId?
  dsimp only
  rw [h, Text.after?_eq_some_iff.2 rfl, Option.map_some, List.takeWhile_append_of_pos hname,
    List.takeWhile_cons_of_neg (by decide), List.append_nil, String.ofList_toList]

/-- The node of a script, with the expression that reads the target temperature. -/
theorem exists_node (s : SetpointScript) :
    ∃ code, (Node.lambda code).readId? = some s.sensor.id ∧ s.node = .map [("id", .ident s.outId),
      ("then", .list [.single "homeassistant.action" (.map [
        ("action", .ident "climate.set_temperature"),
        ("data", .map [("entity_id", .str (trimmed s.entityId)),
          ("temperature", .lambda code)])])])] := by
  refine ⟨_, ?_, rfl⟩
  apply readId?_lambda
  simp only [toString, String.toList_append, List.append_assoc]
  rfl

/-- A script reads the target temperature of its entity and nothing else. -/
theorem readsId_node_iff (s : SetpointScript) {id : String} :
    s.node.ReadsId id ↔ id = s.sensor.id := by
  obtain ⟨code, hread, hnode⟩ := s.exists_node
  rw [hnode]
  let OnlySensor (u : Node) : Prop := ∀ id, u.readId? = some id → id = s.sensor.id
  constructor
  · have honly : Everywhere OnlySensor (.lambda code) := by
      refine .of_isLeaf rfl fun id hid => ?_
      rw [hread] at hid
      exact (Option.some.inj hid).symm
    have hquiet : ∀ u : Node, u.isLeaf = true → u.readId? = none → Everywhere OnlySensor u :=
      fun u hleaf hnone => .of_isLeaf hleaf fun id hid => absurd (hnone.symm.trans hid) nofun
    rintro ⟨u, hu, hid⟩
    refine Everywhere.map (P := OnlySensor) nofun ?_ u hu id hid
    simp only [List.forall_mem_cons, List.not_mem_nil, false_imp_iff, implies_true, and_true]
    refine ⟨hquiet _ rfl rfl, .list nofun ?_⟩
    simp only [List.forall_mem_cons, List.not_mem_nil, false_imp_iff, implies_true, and_true]
    refine .single nofun (.map nofun ?_)
    simp only [List.forall_mem_cons, List.not_mem_nil, false_imp_iff, implies_true, and_true]
    refine ⟨hquiet _ rfl rfl, .map nofun ?_⟩
    simp only [List.forall_mem_cons, List.not_mem_nil, false_imp_iff, implies_true, and_true]
    exact ⟨hquiet _ rfl rfl, honly⟩
  · rintro rfl
    refine ⟨.lambda code, ?_, hread⟩
    apply Within.map (List.mem_cons_of_mem _ List.mem_cons_self)
    apply Within.list List.mem_cons_self
    apply Within.map List.mem_cons_self
    apply Within.map (List.mem_cons_of_mem _ List.mem_cons_self)
    exact Within.map (List.mem_cons_of_mem _ List.mem_cons_self) .refl

end SetpointScript

/-! ## All scripts -/

namespace ScriptRun

variable {ds : Declarations}

theorem ofScripts_concat (scripts : List SetpointScript) (s : SetpointScript)
    (ds : Declarations) : ofScripts (scripts ++ [s]) ds = add (ofScripts scripts ds) s := by
  rw [ofScripts, List.foldl_append, List.foldl_cons, List.foldl_nil, ofScripts]

/-- What one more script does to a run: it is reported, or it is written and its value is
declared. -/
theorem add_cases (run : ScriptRun) (s : SetpointScript) :
    (∃ reason, s.fault? (run.scripts.map (·.outId)) = some reason ∧
      run.add s = { run with diagnostics := run.diagnostics ++ [.invalidScript s.id reason] }) ∨
    (s.fault? (run.scripts.map (·.outId)) = none ∧
      run.add s = ⟨(run.declarations.declare s.sensor).1, run.scripts ++ [s],
        run.diagnostics ++ (run.declarations.declare s.sensor).2⟩) := by
  unfold add
  cases hfault : s.fault? (run.scripts.map (·.outId)) with
  | some reason => exact Or.inl ⟨reason, rfl, rfl⟩
  | none => exact Or.inr ⟨rfl, rfl⟩

theorem nodup_outIds (scripts : List SetpointScript) (ds : Declarations) :
    ((ofScripts scripts ds).scripts.map (·.outId)).Nodup := by
  induction scripts using List.reverseRecOn with
  | nil => exact List.nodup_nil
  | append_singleton scripts s ih =>
    rw [ofScripts_concat]
    rcases add_cases (ofScripts scripts ds) s with ⟨reason, -, hadd⟩ | ⟨hfault, hadd⟩
    · rw [hadd]
      exact ih
    · rw [hadd, List.map_append, List.map_singleton, ← List.concat_eq_append]
      exact ih.concat (SetpointScript.fault?_eq_none_iff.1 hfault).2.2.2

/-- What became of each script: it is written, or it is reported once with a reason. -/
structure Accounts (run : ScriptRun) (scripts : List SetpointScript)
    (fates : List (SetpointScript × Option String)) : Prop where
  all : fates.map (·.1) = scripts
  written : run.scripts = (fates.filter (·.2.isNone)).map (·.1)
  reported : run.diagnostics.filter (·.scope = .script) =
    fates.filterMap fun e => e.2.map (.invalidScript e.1.id)

theorem exists_accounts (scripts : List SetpointScript) (ds : Declarations) :
    ∃ fates, (ofScripts scripts ds).Accounts scripts fates := by
  induction scripts using List.reverseRecOn with
  | nil => exact ⟨[], rfl, rfl, rfl⟩
  | append_singleton scripts s ih =>
    obtain ⟨fates, hall, hwritten, hreported⟩ := ih
    rw [ofScripts_concat]
    rcases add_cases (ofScripts scripts ds) s with ⟨reason, -, hadd⟩ | ⟨-, hadd⟩
    · refine ⟨fates ++ [(s, some reason)], by simp [hall], ?_, ?_⟩
      · simp [hadd, hwritten]
      · have hscope : (Diagnostic.invalidScript s.id reason).scope = .script := rfl
        simp [hadd, hreported, hscope]
    · refine ⟨fates ++ [(s, none)], by simp [hall], ?_, ?_⟩
      · simp [hadd, hwritten]
      · have hdeclare := (Declarations.ofDesign_declare (ofScripts scripts ds).declarations
          s.sensor).filter_scope
        simp [hadd, hreported, hdeclare]

/-- The id of a script's value is declared, and where another value has it, this is reported. -/
structure Backs (run : ScriptRun) (s : SetpointScript) (owner : SourceKey) : Prop where
  declared : owner ∈ run.declarations.keys
  same_id : owner.id = s.sensor.id
  own : owner = s.sensor ∨
    .derivedIdCollision s.sensor.id owner.describe s.sensor.describe ∈ run.diagnostics

theorem exists_backs_add {run : ScriptRun} {s : SetpointScript} {owner : SourceKey}
    (h : run.Backs s owner) (other : SetpointScript) : (run.add other).Backs s owner := by
  rcases add_cases run other with ⟨reason, -, hadd⟩ | ⟨-, hadd⟩
  · rw [hadd]
    exact ⟨h.declared, h.same_id, h.own.imp_right (List.mem_append_left _)⟩
  · rw [hadd]
    exact ⟨Declarations.mem_keys_declare_of_mem h.declared _, h.same_id,
      h.own.imp_right (List.mem_append_left _)⟩

/-- Every script that is written reads a declared value. -/
theorem exists_backs (scripts : List SetpointScript) (ds : Declarations) :
    ∀ s ∈ (ofScripts scripts ds).scripts, ∃ owner, (ofScripts scripts ds).Backs s owner := by
  induction scripts using List.reverseRecOn with
  | nil => exact fun _ h => nomatch h
  | append_singleton scripts last ih =>
    intro s hs
    rw [ofScripts_concat] at hs ⊢
    have hold : s ∈ (ofScripts scripts ds).scripts →
        ∃ owner, ((ofScripts scripts ds).add last).Backs s owner := by
      intro hmem
      obtain ⟨owner, howner⟩ := ih s hmem
      exact ⟨owner, exists_backs_add howner last⟩
    rcases add_cases (ofScripts scripts ds) last with ⟨reason, -, hadd⟩ | ⟨-, hadd⟩
    · rw [hadd] at hs
      exact hold hs
    · rw [hadd] at hs
      rcases List.mem_append.1 hs with hmem | hmem
      · exact hold hmem
      · obtain rfl := List.mem_singleton.1 hmem
        rw [hadd]
        rcases Declarations.mem_keys_declare (ofScripts scripts ds).declarations s.sensor with
          hkey | ⟨owner, howner, -, hid, hfound⟩
        · exact ⟨s.sensor, hkey, rfl, Or.inl rfl⟩
        · exact ⟨owner, Declarations.mem_keys_declare_of_mem howner _, hid,
            Or.inr (List.mem_append_right _ hfound)⟩

end ScriptRun

end TouchPanel
