import TouchPanel.Proofs.Ingress.Declaration
import TouchPanel.Proofs.Ingress.Link
import TouchPanel.Proofs.Lock.Code

/-!
# Updates in the inbound sections

Inbound sections have the updates of attached links and the code that guards them, and all
else in them is inert. So whatever holds of inert nodes, of guards and of updates holds
everywhere in the sections.
-/

namespace TouchPanel

open Node

/-! ## Inert nodes -/

namespace Node

theorem single_inj {key key' : String} {node node' : Node}
    (h : Node.single key node = .single key' node') : key = key' ∧ node = node' := by
  cases h
  exact ⟨rfl, rfl⟩

/-- An update of a widget, by whatever action. -/
def IsUpdate (u content : Node) : Prop :=
  ∃ (action : LinkAction) (kind : WidgetKind), u = .single (action.update kind) content

/-- A node that is neither a text written as it is nor an update. -/
def IsInert (u : Node) : Prop := (∀ code, u ≠ .raw code) ∧ ∀ content, ¬ u.IsUpdate content

theorem isInert_of_isQuoted {u : Node} (h : u.isQuoted = true) : u.IsInert := by
  refine ⟨fun code heq => ?_, fun content hupdate => ?_⟩
  · rw [heq] at h
    cases h
  · obtain ⟨action, kind, rfl⟩ := hupdate
    cases h

theorem isInert_list (items : List Node) : IsInert (.list items) := by
  refine ⟨nofun, fun content hupdate => ?_⟩
  obtain ⟨action, kind, heq⟩ := hupdate
  cases heq

/-- A mapping with two entries is no update. -/
theorem isInert_map (e e' : String × Node) (r : Mapping) : IsInert (.map (e :: e' :: r)) := by
  refine ⟨nofun, fun content hupdate => ?_⟩
  obtain ⟨action, kind, heq⟩ := hupdate
  cases heq

theorem isInert_single {key : String} (hkey : key ∈ ["then", "if", "lambda", "checked"])
    (node : Node) : IsInert (.single key node) := by
  have hnever : ∀ (action : LinkAction) (kind : WidgetKind),
      action.update kind ∉ ["then", "if", "lambda", "checked"] := by
    intro action kind
    cases action <;> cases kind <;> decide
  refine ⟨nofun, fun content hupdate => ?_⟩
  obtain ⟨action, kind, heq⟩ := hupdate
  exact hnever action kind ((single_inj heq).1 ▸ hkey)

theorem Everywhere.of_isQuoted {Q : Node → Prop} (hQ : ∀ u, IsInert u → Q u) {u : Node}
    (h : u.isQuoted = true) : Everywhere Q u := by
  refine .of_isLeaf ?_ (hQ u (isInert_of_isQuoted h))
  cases u <;> first | rfl | cases h

end Node

/-! ## Parts of a section -/

variable {Q : Node → Prop} (hQ : ∀ u, IsInert u → Q u)

include hQ

namespace LinkUpdate

theorem everywhere_formatted (format argument : String) :
    Everywhere Q (formatted format argument) := by
  refine .map (hQ _ (isInert_map _ _ _)) ?_
  simp only [List.forall_mem_cons, List.not_mem_nil, false_imp_iff, implies_true, and_true]
  refine ⟨.of_isQuoted hQ rfl, .list (hQ _ (isInert_list _)) ?_⟩
  simpa using Everywhere.of_isQuoted hQ rfl

theorem everywhere_text (source : DataKind) (t : LinkTarget) : Everywhere Q (text source t) := by
  unfold text
  split
  · exact everywhere_formatted hQ _ _
  · exact everywhere_formatted hQ _ _
  · exact .of_isQuoted hQ rfl
  · exact .of_isQuoted hQ rfl
  · exact everywhere_formatted hQ _ _
  · exact everywhere_formatted hQ _ _
  · exact .of_isQuoted hQ rfl

theorem Carries.everywhere {link : Link} {action : LinkAction} {i : Nat} {e : String × Node}
    (h : Carries link i action e) : Everywhere Q e.2 := by
  cases h with
  | checked => exact .single (hQ _ (isInert_single (by decide) _)) (.of_isQuoted hQ rfl)
  | labelText => exact everywhere_text hQ _ _
  | value | selectedIndex | hidden => exact .of_isQuoted hQ rfl

theorem everywhere_node {link : Link} {action : LinkAction} {target : IndexedWidget} {i : Nat}
    {update : Node} (h : node link action target i = .ok update)
    (hupdate : ∀ kind e, Q (.single (action.update kind) (.map [("id", .ident target.outId), e]))) :
    Everywhere Q update := by
  rcases node_cases h with ⟨text, -, rfl⟩ | ⟨-, kind, e, hcarries, rfl⟩
  · exact .of_isQuoted hQ rfl
  · refine .single (hupdate kind e) (.map (hQ _ (isInert_map _ _ _)) ?_)
    simp only [List.forall_mem_cons, List.not_mem_nil, false_imp_iff, implies_true, and_true]
    exact ⟨.of_isQuoted hQ rfl, hcarries.everywhere hQ⟩

end LinkUpdate

theorem Lock.everywhere_guarded {lock : String} {update : Node}
    (hguard : Q (.raw (guardCode lock))) (h : Everywhere Q update) :
    Everywhere Q (guarded lock [update]) := by
  refine .single (hQ _ (isInert_single (by decide) _)) (.map (hQ _ (isInert_map _ _ _)) ?_)
  simp only [List.forall_mem_cons, List.not_mem_nil, false_imp_iff, implies_true, and_true]
  refine ⟨.single (hQ _ (isInert_single (by decide) _)) (.of_isLeaf rfl hguard), ?_⟩
  exact .list (hQ _ (isInert_list _)) (by simpa using h)

theorem Declarations.everywhere_entry {key : SourceKey} {updates : List Node}
    (h : ∀ u ∈ updates, Everywhere Q u) : Everywhere Q (entry key updates) := by
  refine .map (hQ _ (isInert_map _ _ _)) fun f hf => ?_
  cases field_of_mem key updates rfl f hf with
  | platform | id | entityId | attrWord | attrText | initial => exact .of_isQuoted hQ rfl
  | trigger =>
    exact .single (hQ _ (isInert_single (by decide) _)) (.list (hQ _ (isInert_list _)) h)

omit hQ

/-! ## The updates of declared values -/

namespace Declarations

/-- The entry of a value lists the updates that run when it changes. -/
theorem mem_entry {key : SourceKey} {updates : List Node} (hne : updates ≠ []) :
    ∃ entries, entry key updates = .map entries ∧
      (key.trigger, .single "then" (.list updates)) ∈ entries := by
  refine ⟨_, rfl, List.mem_append_right _ ?_⟩
  rw [if_neg (by simpa using hne)]
  exact List.mem_cons_self

theorem updates_ofBindings (bindings : List Source) :
    ∀ e ∈ (ofBindings bindings).1.entries, e.2 = [] := by
  refine ofBindings_induction (motive := fun ds => ∀ e ∈ ds.entries, e.2 = [])
    (by simp [Table.empty]) bindings ?_
  intro ds source _ hds _ e he
  exact (mem_declare he).elim (hds e) id

end Declarations

theorem ScriptRun.mem_ofScripts (scripts : List SetpointScript) {ds : Declarations} :
    ∀ e ∈ (ofScripts scripts ds).declarations.entries, e ∈ ds.entries ∨ e.2 = [] := by
  refine ofScripts_induction
    (motive := fun ds' => ∀ e ∈ ds'.entries, e ∈ ds.entries ∨ e.2 = [])
    (fun _ => Or.inl) ?_ scripts
  intro ds' s hds' _ e he
  exact (Declarations.mem_declare he).elim (hds' e) Or.inr

theorem ScriptRun.mem_ofScripts_of_mem (scripts : List SetpointScript) {ds : Declarations}
    {e : SourceKey × List Node} (h : e ∈ ds.entries) :
    e ∈ (ofScripts scripts ds).declarations.entries :=
  ofScripts_induction (motive := fun ds' => e ∈ ds'.entries) h
    (fun _ s he _ => Declarations.mem_declare_of_mem he s.sensor) scripts

namespace Fragments

variable (p : Project) (registry : Registry) (options : Options)

/-- Every update that a section lists is one that a link has attached. -/
theorem exists_attached {e : SourceKey × List Node} {u : Node}
    (he : e ∈ (scriptsOf p registry options).declarations.entries) (hu : u ∈ e.2) :
    ∃ link i target a, p.links[i]? = some link ∧ (a, i) ∈ (linksOf p registry options).attached ∧
      link.Attaches i (indexOf p registry options) (Declarations.ofBindings p.bindings).1 target a ∧
        u = Lock.guarded a.lock [a.update] := by
  rcases ScriptRun.mem_ofScripts p.scripts e he with hlinks | hnil
  · have hget := Table.get?_eq_some_iff.2 hlinks
    rw [linksOf, LinkRun.declarations_ofLinks] at hget
    obtain ⟨previous, hprevious, heq⟩ := Option.map_eq_some_iff.1 hget
    have hnil : previous = [] :=
      Declarations.updates_ofBindings p.bindings _ (Table.get?_eq_some_iff.1 hprevious)
    rw [← heq, hnil, List.nil_append] at hu
    obtain ⟨⟨a, i⟩, ha, rfl⟩ := List.mem_map.1 hu
    have hattached := List.mem_reverse.1 (List.mem_of_mem_filter ha)
    obtain ⟨link, target, hlink, hattaches⟩ := LinkRun.exists_attaches p.links hattached
    exact ⟨link, i, target, a, hlink, hattached, hattaches, rfl⟩
  · rw [hnil] at hu
    cases hu

/-- The update of every attached link is listed behind its lock in some section. -/
theorem exists_listed {a : Attachment} {i : Nat}
    (ha : (a, i) ∈ (linksOf p registry options).attached) :
    ∃ s ∈ (ofProject p registry options).1.sensors, ∃ node ∈ s.2,
      Within (Lock.guarded a.lock [a.update]) node := by
  obtain ⟨link, target, -, hattaches⟩ := LinkRun.exists_attaches p.links ha
  have hkey : a.key ∈ (Declarations.ofBindings p.bindings).1.keys :=
    hattaches.key ▸ hattaches.fits.declared
  obtain ⟨⟨key, previous⟩, hprevious, rfl⟩ := List.mem_map.1 hkey
  have hget : (linksOf p registry options).declarations.get? a.key =
      some (previous ++ (linksOf p registry options).updates a.key) := by
    rw [linksOf, LinkRun.declarations_ofLinks, Table.get?_eq_some_iff.2 hprevious]
    rfl
  have hupdate : Lock.guarded a.lock [a.update] ∈
      previous ++ (linksOf p registry options).updates a.key := by
    refine List.mem_append_right _ (List.mem_map.2 ⟨(a, i), ?_, rfl⟩)
    exact List.mem_filter.2 ⟨List.mem_reverse.2 ha, decide_eq_true rfl⟩
  have hentry := ScriptRun.mem_ofScripts_of_mem p.scripts (Table.get?_eq_some_iff.1 hget)
  obtain ⟨s, hs, hmem⟩ := Declarations.exists_entry hentry
  rw [ofProject_eq]
  refine ⟨s, hs, _, hmem, ?_⟩
  obtain ⟨entries, heq, hthen⟩ := Declarations.mem_entry (List.ne_nil_of_mem hupdate)
  dsimp only
  rw [heq]
  apply Within.map hthen
  apply Within.map List.mem_cons_self
  exact .list hupdate .refl

variable {p registry options}

/-- What holds of inert nodes, of the guards of attached links and of their updates holds
everywhere in the inbound sections. -/
theorem everywhere_sensors (hQ : ∀ u, IsInert u → Q u)
    (hguard : ∀ lock ∈ (linksOf p registry options).locks, Q (.raw (Lock.guardCode lock)))
    (hupdate : ∀ (link : Link) (i : Nat) (target : IndexedWidget) (a : Attachment),
      link.Attaches i (indexOf p registry options) (Declarations.ofBindings p.bindings).1 target a →
        ∀ kind e, Q (.single (a.action.update kind) (.map [("id", .ident target.outId), e]))) :
    ∀ s ∈ (ofProject p registry options).1.sensors, ∀ node ∈ s.2, Everywhere Q node := by
  rw [ofProject_eq]
  intro s hs node hnode
  obtain ⟨e, he, rfl⟩ := Declarations.exists_of_mem_sections hs hnode
  refine Declarations.everywhere_entry hQ fun u hu => ?_
  obtain ⟨link, i, target, a, -, ha, hattaches, rfl⟩ := exists_attached p registry options he hu
  refine Lock.everywhere_guarded hQ (hguard _ (List.mem_map_of_mem ha)) ?_
  exact LinkUpdate.everywhere_node hQ hattaches.update (hupdate link i target a hattaches)

end Fragments

end TouchPanel
