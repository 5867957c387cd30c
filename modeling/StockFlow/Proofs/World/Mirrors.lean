import StockFlow.Proofs.Execution.Histories
import StockFlow.Proofs.World.Noninterference

/-!
# Mirrored models

Two models of one system may own their nodes in different orders.  One mirrors the
other if a bijection of their nodes keeps all that a node shows, names and values
included.  What is done to both of them alike keeps them mirrored: flows that are
added, formulas that are set, and a lock.  The same rules are obeyed by both, so both
can be locked or none, and from then on they have the same values after every round.

Main definitions:

- {lit}`World.ObeysRules`: the rules of validation, each said by itself.
- {lit}`World.Mirrors`: a bijection that keeps all that the nodes of a model show.

Main results:

- Theorem {lit}`World.mirrors_of_new`: models of the same new nodes.
- Theorem {lit}`World.Mirrors.connect`: a flow that is added to both.
- Theorem {lit}`World.Mirrors.obeysRules`: the same rules are obeyed.
- Theorem {lit}`World.Mirrors.lock`: both are locked.
- Theorem {lit}`World.Mirrors.valueOf_computeTimes`: both have the same values after every round.
-/

namespace StockFlow

namespace Node

@[simp] theorem name?_unlinked (node : Node) : node.unlinked.name? = node.name? := by
  cases node <;> rfl

@[simp] theorem current?_unlinked (node : Node) : node.unlinked.current? = node.current? := by
  cases node <;> rfl

@[simp] theorem name?_setFormula (f : Option (Formula NodeId)) (node : Node) :
    (node.setFormula f).name? = node.name? := by
  cases node <;> rfl

@[simp] theorem current?_setFormula (f : Option (Formula NodeId)) (node : Node) :
    (node.setFormula f).current? = node.current? := by
  cases node <;> rfl

/-- A node with its formula left out. -/
def unformed (node : Node) : Node := node.setFormula none

/-- A node without its formula does not show which one it had. -/
@[simp] theorem unformed_setFormula (f : Option (Formula NodeId)) (node : Node) :
    (node.setFormula f).unformed = node.unformed := by
  cases node <;> rfl

end Node

namespace World

variable {w w' v v' : World} {m m' : ModelId} {φ : NodeId → NodeId} {n k r e : NodeId}

/-! ## Worlds that differ in formulas -/

/-- Current values are the same in worlds that differ in flows alone. -/
theorem SameUpToFlows.current? (h : SameUpToFlows w v) (n : NodeId) :
    v.current? n = w.current? n :=
  h.bind_eq Node.current? Node.current?_unlinked n

/-- Names are the same in worlds that differ in flows alone. -/
theorem SameUpToFlows.nameOf (h : SameUpToFlows w v) (n : NodeId) : v.nameOf n = w.nameOf n := by
  rw [World.nameOf, World.nameOf, h.bind_eq Node.name? Node.name?_unlinked n]

/-- Whether two worlds differ in nothing but formulas. -/
abbrev SameUpToFormulas (w v : World) : Prop := SameUnder Node.unformed w v

/-- Setting a formula changes formulas only. -/
theorem sameUpToFormulas_setFormula (w : World) (n : NodeId) (f : Option (Formula NodeId)) :
    SameUpToFormulas w (w.updateNode n (Node.setFormula f)) :=
  sameUnder_updateNode (Node.unformed_setFormula f) w n

namespace SameUpToFormulas

/-- Kinds are the same in worlds that differ in formulas alone. -/
theorem kind (h : SameUpToFormulas w v) (n : NodeId) : v.kind? n = w.kind? n :=
  h.map_eq Node.kind (Node.kind_setFormula none) n

/-- Current values are the same in worlds that differ in formulas alone. -/
theorem current? (h : SameUpToFormulas w v) (n : NodeId) : v.current? n = w.current? n :=
  h.bind_eq Node.current? (Node.current?_setFormula none) n

/-- Names are the same in worlds that differ in formulas alone. -/
theorem nameOf (h : SameUpToFormulas w v) (n : NodeId) : v.nameOf n = w.nameOf n := by
  rw [World.nameOf, World.nameOf, h.bind_eq Node.name? (Node.name?_setFormula none) n]

/-- Endpoints are the same in worlds that differ in formulas alone. -/
theorem endpoint (h : SameUpToFormulas w v) (side : Side) (n : NodeId) :
    v.endpoint? side n = w.endpoint? side n :=
  h.bind_eq (Node.endpoint? side) (Node.endpoint?_setFormula none side) n

/-- The rates at a node are the same in worlds that differ in formulas alone. -/
theorem rates (h : SameUpToFormulas w v) (side : Side) (n : NodeId) :
    v.ratesAt side n = w.ratesAt side n := by
  rw [ratesAt, ratesAt, listedAt, listedAt,
    h.map_eq (Node.listed side) (Node.listed_setFormula none side)]

end SameUpToFormulas

/-! ## The rules one by one -/

/-- Whether a model obeys every rule of validation. -/
structure ObeysRules (w : World) (content : Model) : Prop where
  level : content.levels ≠ []
  ends : ∀ r ∈ content.rates, ∀ side, w.endpoint? side r ≠ none
  formula : ∀ n ∈ content.formulaOwners, w.formula? n ≠ none
  acyclic : ¬ w.HasCircle content.auxiliaries
  used : ∀ kind, kind ≠ .level → kind ≠ .rate → ∀ n ∈ content.members kind,
    w.Influences content.levels n

/-- No rule is broken exactly if all are obeyed. -/
theorem brokenRules_eq_nil_iff {content : Model} :
    w.brokenRules content = [] ↔ w.ObeysRules content := by
  rw [brokenRules]
  simp only [List.append_eq_nil_iff, List.map_eq_nil_iff, List.filter_eq_nil_iff,
    ite_eq_right_iff, List.cons_ne_nil, decide_eq_true_eq, not_not, not_or]
  constructor
  · rintro ⟨⟨⟨⟨hlevel, hends⟩, hformula⟩, hacyclic⟩, hused⟩
    refine ⟨hlevel, fun r hr side => ?_, hformula, hacyclic, fun kind hlevel hrate n hn => ?_⟩
    · cases side with
      | source => exact (hends r hr).1
      | sink => exact (hends r hr).2
    · refine hused n ?_
      cases kind with
      | level => exact (hlevel rfl).elim
      | rate => exact (hrate rfl).elim
      | constant => exact List.mem_append_left _ (List.mem_append_left _ hn)
      | auxiliary => exact List.mem_append_left _ (List.mem_append_right _ hn)
      | sourceSink => exact List.mem_append_right _ hn
  · intro h
    refine ⟨⟨⟨⟨h.level, fun r hr => ⟨h.ends r hr .source, h.ends r hr .sink⟩⟩, h.formula⟩,
      h.acyclic⟩, fun n hn => ?_⟩
    rcases List.mem_append.1 hn with hn | hn
    · rcases List.mem_append.1 hn with hn | hn
      · exact h.used .constant (by decide) (by decide) n hn
      · exact h.used .auxiliary (by decide) (by decide) n hn
    · exact h.used .sourceSink (by decide) (by decide) n hn

/-! ## Mirrored models -/

/-- Whether a bijection between the nodes of models keeps all that they show. -/
structure Mirrors (φ : NodeId → NodeId) (w : World) (m : ModelId) (w' : World) (m' : ModelId) :
    Prop extends Corresponds φ w m w' m' where
  current : ∀ n ∈ (w.model m).nodes, w'.current? (φ n) = w.current? n
  name : ∀ n ∈ (w.model m).nodes, w'.nameOf (φ n) = w.nameOf n

/-- Models of the same new nodes mirror each other. -/
theorem mirrors_of_new
    (hbijective : Set.BijOn φ {n | n ∈ (w.model m).nodes} {n | n ∈ (w'.model m').nodes})
    (hnode : ∀ n ∈ (w.model m).nodes, ∃ node : Node, node.New ∧ w.node? n = some node ∧
      w'.node? (φ n) = some node) : Mirrors φ w m w' m' := by
  have hsame : ∀ n ∈ (w.model m).nodes, w'.node? (φ n) = w.node? n := by
    intro n hn
    rcases hnode n hn with ⟨node, _, hw, hw'⟩
    rw [hw, hw']
  refine ⟨⟨⟨hbijective, fun n hn => ?_, fun c hc => ?_, fun side r hr => ?_, fun side l hl => ?_⟩,
    fun n hn => ?_⟩, fun n hn => ?_, fun n hn => ?_⟩
  · rw [kind?, kind?, hsame n hn]
  · rw [World.current?, World.current?, hsame c (Model.mem_nodes_of_mem_members .constant hc)]
  · rcases hnode r (Model.mem_nodes_of_mem_members .rate hr) with ⟨node, hnew, hw, hw'⟩
    rw [endpoint?, endpoint?, hw, hw', Option.bind_some, hnew.endpoint, Option.map_none]
  · rcases hnode l (Model.mem_nodes_of_mem_members .level hl) with ⟨node, hnew, hw, hw'⟩
    rw [ratesAt, ratesAt, listedAt, listedAt, hw, hw', Option.map_some, hnew.listed]
    rfl
  · rcases hnode n (Model.mem_nodes_of_mem_formulaOwners hn) with ⟨node, hnew, hw, hw'⟩
    rw [formula?, formula?, hw, hw', Option.bind_some, hnew.formula, Option.map_none]
  · rw [World.current?, World.current?, hsame n hn]
  · rw [World.nameOf, World.nameOf, hsame n hn]

/-- Connecting a rate that has no endpoint at a side adds it to the list of one endpoint. -/
theorem FlowsMatch.ratesAt_connect_free (h : w.FlowsMatch) (he : w.isEndpoint e = true)
    {side : Side} (hfree : w.endpoint? side r = none) (s : Side) (x : NodeId) :
    (w.connect side r e).ratesAt s x =
      if s = side ∧ x = e then w.ratesAt s x ++ [r] else w.ratesAt s x := by
  have hnot : ∀ x, r ∉ w.ratesAt side x := fun x => h.not_mem_rates (by simp [hfree])
  rw [h.ratesAt_connect he]
  by_cases hs : s = side
  · subst hs
    by_cases hx : x = e
    · simp [hx, insertNode, hnot]
    · simp [hx, List.erase_of_not_mem (hnot x)]
  · simp [hs]

/-- A lock keeps all nodes, and the lists of the model. -/
theorem kept_of_lock (hlock : (Action.lock m).run w = .ok () v) :
    (∀ n, v.node? n = w.node? n) ∧
      ∀ kind, (v.model m).members kind = (w.model m).members kind := by
  cases (Action.commits_lock m).of_ok hlock with
  | lock hc hvalid horder =>
      refine ⟨fun n => node?_updateModel .., fun kind => ?_⟩
      rw [model_updateModel hc, if_pos rfl]
      cases kind <;> rfl

/-- A model that was just locked stands as it was locked. -/
theorem standsAsLocked_of_lock (h : w.Reachable) (hlock : (Action.lock m).run w = .ok () v) :
    v.StandsAsLocked m :=
  ⟨w, v, [], h, hlock, rfl, fun _ _ => rfl⟩

namespace Mirrors

variable (h : Mirrors φ w m w' m')

include h

/-- Nodes are the same exactly if their mirror images are. -/
theorem eq_iff (hn : n ∈ (w.model m).nodes) (hk : k ∈ (w.model m).nodes) : φ n = φ k ↔ n = k :=
  ⟨fun heq => h.bijective.injOn hn hk heq, congrArg φ⟩

/-- The members of a kind in the mirror are those of the model, in some order. -/
theorem perm_members (hw : w.MembersMatch) (hw' : w'.MembersMatch) (kind : NodeKind) :
    ((w'.model m').members kind).Perm (((w.model m).members kind).map φ) := by
  have hnodup : (((w.model m).members kind).map φ).Nodup := by
    refine (hw.nodup m kind).map_on fun n hn k hk => ?_
    exact (h.eq_iff (Model.mem_nodes_of_mem_members kind hn)
      (Model.mem_nodes_of_mem_members kind hk)).1
  rw [List.perm_ext_iff_of_nodup (hw'.nodup m' kind) hnodup]
  intro n'
  rw [List.mem_map]
  constructor
  · exact h.exists_of_mem_members hw hw' kind
  · rintro ⟨n, hn, rfl⟩
    exact h.mem_members hw hw' kind hn

/-! ## What keeps models mirrored -/

/-- Worlds in which the same nodes are owned and show the same. -/
theorem congr (hnode : ∀ n, v.node? n = w.node? n) (hnode' : ∀ n, v'.node? n = w'.node? n)
    (hmembers : ∀ kind, (v.model m).members kind = (w.model m).members kind)
    (hmembers' : ∀ kind, (v'.model m').members kind = (w'.model m').members kind) :
    Mirrors φ v m v' m' := by
  have hmem : ∀ n, n ∈ (v.model m).nodes ↔ n ∈ (w.model m).nodes := by
    simp [Model.mem_nodes, hmembers]
  have hmem' : ∀ n, n ∈ (v'.model m').nodes ↔ n ∈ (w'.model m').nodes := by
    simp [Model.mem_nodes, hmembers']
  have hlevels := hmembers .level
  have hrates := hmembers .rate
  have hconstants := hmembers .constant
  have hauxiliaries := hmembers .auxiliary
  simp only [Model.members] at hlevels hrates hconstants hauxiliaries
  refine ⟨⟨⟨?_, ?_, ?_, ?_, ?_⟩, ?_⟩, ?_, ?_⟩
  · simp only [hmem, hmem']
    exact h.bijective
  · simp only [hmem, kind?, hnode, hnode']
    exact h.kind
  · simp only [hconstants, current?, hnode, hnode']
    exact h.constant
  · simp only [hrates, endpoint?, hnode, hnode']
    exact h.endpoint
  · simp only [hlevels, ratesAt, listedAt, hnode, hnode']
    exact h.rates
  · simp only [Model.formulaOwners, hrates, hauxiliaries, formula?, hnode, hnode']
    exact h.formula
  · simp only [hmem, current?, hnode, hnode']
    exact h.current
  · simp only [hmem, nameOf, hnode, hnode']
    exact h.name

/-- A flow that is added to both models, between the same nodes. -/
theorem connect (hw : w.WellFormed) (hw' : w'.WellFormed) {side : Side}
    (hr : r ∈ (w.model m).rates) (he : e ∈ (w.model m).nodes) (hend : w.isEndpoint e = true)
    (hfree : w.endpoint? side r = none) :
    Mirrors φ (w.connect side r e) m (w'.connect side (φ r) (φ e)) m' := by
  have hv := sameUpToFlows_connect w side r e
  have hv' := sameUpToFlows_connect w' side (φ r) (φ e)
  have hrnode := Model.mem_nodes_of_mem_members .rate hr
  have hrkind := hw.members.kind m .rate r hr
  have hrkind' : w'.kind? (φ r) = some .rate := (h.kind r hrnode).trans hrkind
  have hend' : w'.isEndpoint (φ e) = true := by
    rw [World.isEndpoint, h.kind e he]
    exact hend
  have hfree' : w'.endpoint? side (φ r) = none := by
    rw [h.endpoint side r hr, hfree, Option.map_none]
  refine ⟨⟨⟨?_, ?_, ?_, ?_, ?_⟩, ?_⟩, ?_, ?_⟩
  · rw [hv.model, hv'.model]
    exact h.bijective
  · simp only [hv.model, hv.kind, hv'.kind]
    exact h.kind
  · simp only [hv.model, hv.current?, hv'.current?]
    exact h.constant
  · intro s x hx
    rw [hv.model] at hx
    rw [FlowsMatch.endpoint?_connect hrkind, FlowsMatch.endpoint?_connect hrkind']
    simp only [h.eq_iff (Model.mem_nodes_of_mem_members .rate hx) hrnode]
    split
    · rfl
    · exact h.endpoint s x hx
  · -- the rate was listed nowhere at its side, so only the list of the endpoint grows
    intro s l hl
    rw [hv.model] at hl
    rw [hw.flows.ratesAt_connect_free hend hfree, hw'.flows.ratesAt_connect_free hend' hfree']
    simp only [h.eq_iff (Model.mem_nodes_of_mem_members .level hl) he]
    split
    · rw [h.rates s l hl, List.map_append, List.map_singleton]
    · exact h.rates s l hl
  · simp only [hv.model, hv.formula, hv'.formula]
    exact h.formula
  · simp only [hv.model, hv.current?, hv'.current?]
    exact h.current
  · simp only [hv.model, hv.nameOf, hv'.nameOf]
    exact h.name

/-- Formulas of both models that mirror each other. -/
theorem of_formula (hv : SameUpToFormulas w v) (hv' : SameUpToFormulas w' v')
    (hformula : ∀ n ∈ (w.model m).formulaOwners,
      v'.formula? (φ n) = (v.formula? n).map (Formula.map φ)) : Mirrors φ v m v' m' where
  bijective := by
    rw [hv.model, hv'.model]
    exact h.bijective
  kind := by
    simp only [hv.model, hv.kind, hv'.kind]
    exact h.kind
  constant := by
    simp only [hv.model, hv.current?, hv'.current?]
    exact h.constant
  endpoint := by
    simp only [hv.model, hv.endpoint, hv'.endpoint]
    exact h.endpoint
  rates := by
    simp only [hv.model, hv.rates, hv'.rates]
    exact h.rates
  formula := by
    rw [hv.model]
    exact hformula
  current := by
    simp only [hv.model, hv.current?, hv'.current?]
    exact h.current
  name := by
    simp only [hv.model, hv.nameOf, hv'.nameOf]
    exact h.name

/-! ## Rules of mirrored models -/

section

variable (hw : w.WellFormed) (hw' : w'.WellFormed) (hclosed : w.OwnershipClosed m)

include hw hw' hclosed

/-- Reads in the mirror are those of the model. -/
theorem exists_of_read (hn : n ∈ (w.model m).nodes) {f' : Formula NodeId}
    (hf' : w'.formula? (φ n) = some f') {k' : NodeId} (hk' : k' ∈ f'.leaves) :
    ∃ f k, w.formula? n = some f ∧ k ∈ f.leaves ∧ k ∈ (w.model m).nodes ∧ φ k = k' := by
  have howner : n ∈ (w.model m).formulaOwners := by
    have hmem := hw'.members.mem_formulaOwners (h.bijective.mapsTo hn) hf'
    rw [Model.formulaOwners, List.mem_append] at hmem ⊢
    exact hmem.imp (h.mem_members_iff hw.members hw'.members hn .rate).1
      (h.mem_members_iff hw.members hw'.members hn .auxiliary).1
  rw [h.formula n howner, Option.map_eq_some_iff] at hf'
  obtain ⟨f, hf, rfl⟩ := hf'
  rw [Formula.leaves_map, List.mem_map] at hk'
  obtain ⟨k, hk, rfl⟩ := hk'
  exact ⟨f, k, hf, hk, hclosed.leaf n howner f hf k hk, rfl⟩

/-- Chains of reads in the mirror are those of the model. -/
theorem exists_of_chain (hn : n ∈ (w.model m).auxiliaries) {k' : NodeId}
    (hchain : Relation.TransGen (fun n k => k ∈ (w'.model m').auxiliaries ∧
      ∃ f, w'.formula? n = some f ∧ k ∈ f.leaves) (φ n) k') :
    ∃ k ∈ (w.model m).auxiliaries, φ k = k' ∧
      Relation.TransGen (fun n k => k ∈ (w.model m).auxiliaries ∧
        ∃ f, w.formula? n = some f ∧ k ∈ f.leaves) n k := by
  have hstep : ∀ a ∈ (w.model m).auxiliaries, ∀ b', (b' ∈ (w'.model m').auxiliaries ∧
      ∃ f, w'.formula? (φ a) = some f ∧ b' ∈ f.leaves) →
      ∃ b ∈ (w.model m).auxiliaries, φ b = b' ∧ ∃ f, w.formula? a = some f ∧ b ∈ f.leaves := by
    rintro a ha b' ⟨hb', f', hf', hleaf⟩
    obtain ⟨f, b, hf, hb, hnode, rfl⟩ := h.exists_of_read hw hw' hclosed
      (Model.mem_nodes_of_mem_members .auxiliary ha) hf' hleaf
    have hmem := (h.mem_members_iff hw.members hw'.members hnode .auxiliary).1 hb'
    exact ⟨b, hmem, rfl, f, hf, hb⟩
  induction hchain with
  | single hread =>
      obtain ⟨b, hb, rfl, hleaf⟩ := hstep n hn _ hread
      exact ⟨b, hb, rfl, .single ⟨hb, hleaf⟩⟩
  | tail _ hread ih =>
      obtain ⟨a, ha, rfl, hpath⟩ := ih
      obtain ⟨b, hb, rfl, hleaf⟩ := hstep a ha _ hread
      exact ⟨b, hb, rfl, hpath.tail ⟨hb, hleaf⟩⟩

/-- Where no circle is, none is in the mirror image. -/
theorem not_hasCircle (hacyclic : ¬ w.HasCircle (w.model m).auxiliaries) :
    ¬ w'.HasCircle (w'.model m').auxiliaries := by
  rintro ⟨a', ha', hcircle⟩
  obtain ⟨a, ha, rfl⟩ := h.exists_of_mem_members hw.members hw'.members .auxiliary ha'
  obtain ⟨b, hb, heq, hpath⟩ := h.exists_of_chain hw hw' hclosed ha hcircle
  obtain rfl : b = a := (h.eq_iff (Model.mem_nodes_of_mem_members .auxiliary hb)
    (Model.mem_nodes_of_mem_members .auxiliary ha)).1 heq
  exact hacyclic ⟨b, hb, hpath⟩

/-- What influences the levels of the model influences those of the mirror. -/
theorem influences (hn : w.Influences (w.model m).levels n) :
    w'.Influences (w'.model m').levels (φ n) := by
  induction hn with
  | flow side hl hr =>
      rename_i l r
      have hl' := h.mem_members hw.members hw'.members .level hl
      refine .flow side hl' ?_
      rw [h.rates side l hl]
      exact List.mem_map_of_mem hr
  | read hn hf hk ih =>
      rename_i n k f
      have howner := hw.members.mem_formulaOwners (hn.mem_nodes hw hclosed) hf
      refine .read ih (f := f.map φ) ?_ ?_
      · rw [h.formula n howner, hf, Option.map_some]
      · rw [Formula.leaves_map]
        exact List.mem_map_of_mem hk
  | boundary side hr he hkind ih =>
      rename_i r e
      have hrate := hw.members.mem_members (hr.mem_nodes hw hclosed) (kind?_of_endpoint? he)
      refine .boundary side ih ?_ ?_
      · rw [h.endpoint side r hrate, he, Option.map_some]
      · rw [h.kind e (hclosed.endpoint r hrate side e he), hkind]

/-- The mirror of a model obeys the rules that the model obeys. -/
theorem obeysRules (hrules : w.ObeysRules (w.model m)) : w'.ObeysRules (w'.model m') where
  level := by
    obtain ⟨l, hl⟩ := List.exists_mem_of_ne_nil _ hrules.level
    exact List.ne_nil_of_mem (h.mem_members hw.members hw'.members .level hl)
  ends r' hr' side := by
    obtain ⟨r, hr, rfl⟩ := h.exists_of_mem_members hw.members hw'.members .rate hr'
    rw [h.endpoint side r hr, Ne, Option.map_eq_none_iff]
    exact hrules.ends r hr side
  formula n' hn' := by
    have howner : ∃ n ∈ (w.model m).formulaOwners, φ n = n' := by
      rcases List.mem_append.1 hn' with hn' | hn'
      · obtain ⟨n, hn, heq⟩ := h.exists_of_mem_members hw.members hw'.members .rate hn'
        exact ⟨n, List.mem_append_left _ hn, heq⟩
      · obtain ⟨n, hn, heq⟩ := h.exists_of_mem_members hw.members hw'.members .auxiliary hn'
        exact ⟨n, List.mem_append_right _ hn, heq⟩
    obtain ⟨n, hn, rfl⟩ := howner
    rw [h.formula n hn, Ne, Option.map_eq_none_iff]
    exact hrules.formula n hn
  acyclic := h.not_hasCircle hw hw' hclosed hrules.acyclic
  used kind hlevel hrate n' hn' := by
    obtain ⟨n, hn, rfl⟩ := h.exists_of_mem_members hw.members hw'.members kind hn'
    exact h.influences hw hw' hclosed (hrules.used kind hlevel hrate n hn)

end

/-! ## Locks -/

/-- Locks of both models keep them mirrored. -/
theorem lock (hlock : (Action.lock m).run w = .ok () v)
    (hlock' : (Action.lock m').run w' = .ok () v') : Mirrors φ v m v' m' :=
  h.congr (kept_of_lock hlock).1 (kept_of_lock hlock').1 (kept_of_lock hlock).2
    (kept_of_lock hlock').2

/-! ## Rounds -/

/-- Models that are mirrored when they are locked have the same values after every round. -/
theorem valueOf_computeTimes (hstands : w.StandsAsLocked m) (hstands' : w'.StandsAsLocked m')
    (hclosed : w.OwnershipClosed m) (i : Nat) (hn : n ∈ (w.model m).nodes) :
    (w'.computeTimes m' i).valueOf (φ n) = (w.computeTimes m i).valueOf n := by
  have hvalue : ∀ n ∈ (w.model m).nodes, w'.valueOf (φ n) = w.valueOf n :=
    fun n hn => (current?_eq_iff (h.kind n hn)).1 (h.current n hn)
  cases i with
  | zero => exact hvalue n hn
  | succ i =>
      have hstart : InStep φ m m' 0 w w' :=
        ⟨hstands, hstands', hclosed, h.toCorresponds, fun n hn _ => hvalue n hn,
          fun _ n hn => hvalue n hn⟩
      have hcount : (List.replicate (i + 1) m).count m = (List.replicate (i + 1) m').count m' := by
        rw [List.count_replicate_self, List.count_replicate_self]
      refine (hstart.afterRounds hcount).agree_all ?_ n ?_
      · rw [List.count_replicate_self]
        exact Nat.succ_pos i
      · rw [(sameUpToValues_afterRounds w _).model]
        exact hn

end Mirrors

end World
end StockFlow
