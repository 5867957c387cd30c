import StockFlow.Proofs.Formula.Mapping
import StockFlow.Proofs.World.Effects

/-!
# Well-formed worlds

Three facts hold in every world that a session leads to, whatever its operations
were handed.  Both halves of every flow match; the lists of the models are without
repeats, hold nodes of their kind only, and share no node; and formulas read nothing
but nodes that can be read.

Main definitions:

- {lit}`World.MembersMatch`: the lists of the models agree with the nodes.
- {lit}`World.WellFormed`: the three facts together.

Main results:

- Theorems {lit}`World.Effect.kind?_eq` and {lit}`World.Effect.formula?_cases`: what becomes of
  nodes.
- Theorem {lit}`World.WellFormed.step`: every step keeps worlds well-formed.
- Theorem {lit}`World.Reachable.wellFormed`: every world that can be reached is well-formed.
-/

namespace StockFlow

namespace Node

@[simp] theorem kind_setFormula (f : Option (Formula NodeId)) (node : Node) :
    (node.setFormula f).kind = node.kind := by
  cases node <;> rfl

@[simp] theorem endpoint?_setFormula (f : Option (Formula NodeId)) (side : Side) (node : Node) :
    (node.setFormula f).endpoint? side = node.endpoint? side := by
  cases node <;> rfl

@[simp] theorem listed_setFormula (f : Option (Formula NodeId)) (side : Side) (node : Node) :
    (node.setFormula f).listed side = node.listed side := by
  cases node <;> rfl

theorem formula?_setFormula {node : Node} {kind : NodeKind} (hkind : node.kind = kind)
    (hformula : kind.hasFormula = true) (f : Option (Formula NodeId)) :
    (node.setFormula f).formula? = f := by
  subst hkind
  cases node with
  | rate r => rfl
  | auxiliary a => rfl
  | level l => simp [kind, NodeKind.hasFormula] at hformula
  | constant c => simp [kind, NodeKind.hasFormula] at hformula
  | sourceSink flows => simp [kind, NodeKind.hasFormula] at hformula

end Node

/-- A new node has neither formula nor flows. -/
structure Node.New (node : Node) : Prop where
  formula : node.formula? = none
  endpoint : ∀ side, node.endpoint? side = none
  listed : ∀ side, node.listed side = []

/-- A node is created without flows and without a formula. -/
theorem Operation.Creates.new {op : Operation} {m : ModelId} {node : Node}
    (hop : op.Creates m node) : node.New := by
  cases hop with
  | level hname hvalue => exact ⟨rfl, fun _ => rfl, fun side => by cases side <;> rfl⟩
  | rate hname => exact ⟨rfl, fun side => by cases side <;> rfl, fun _ => rfl⟩
  | constant hname hvalue => exact ⟨rfl, fun _ => rfl, fun _ => rfl⟩
  | auxiliary hname => exact ⟨rfl, fun _ => rfl, fun _ => rfl⟩
  | sourceSink => exact ⟨rfl, fun _ => rfl, fun side => by cases side <;> rfl⟩

namespace World

variable {w w' : World}

/-! ## Models after updates -/

/-- Only a model that exists can be changed. -/
theorem model_updateModel {m : ModelId} (hc : w.isChangeable m = true) (f : Model → Model)
    (k : ModelId) : (w.updateModel m f).model k = if k = m then f (w.model m) else w.model k := by
  rw [model, model?_updateModel]
  by_cases hk : k = m
  · subst k
    rw [if_pos rfl, if_pos rfl, model]
    cases hmodel : w.model? m with
    | none => simp [isChangeable, model, hmodel] at hc
    | some content => rfl
  · rw [if_neg (Ne.symm hk), if_neg hk, model]

/-- A new model has its content, and all others keep theirs. -/
theorem model_addModel (w : World) (content : Model) (k : ModelId) :
    (w.addModel content).model k = if k = w.nextModel then content else w.model k := by
  rw [model, model?_addModel]
  by_cases hk : k = w.nextModel
  · rw [if_pos hk, if_pos hk]
    rfl
  · rw [if_neg hk, if_neg hk, model]

/-- A new node is there, and all others are as before. -/
theorem node?_withNew (w : World) (m : ModelId) (node : Node) (n : NodeId) :
    (w.withNew m node).node? n = if n = w.nextNode then some node else w.node? n :=
  node?_addNode w node n

/-- A new node is at the end of its kind in its model, and in no other model. -/
theorem model_withNew {m : ModelId} (hc : w.isChangeable m = true) (node : Node) (k : ModelId) :
    (w.withNew m node).model k =
      if k = m then (w.model m).mapMembers node.kind (· ++ [w.nextNode]) else w.model k :=
  model_updateModel (w := w.addNode node) hc _ k

/-! ## What operations keep of nodes -/

theorem formula?_setFormula {n : NodeId} {kind : NodeKind} (hn : w.kind? n = some kind)
    (hkind : kind.hasFormula = true) (f : Option (Formula NodeId)) :
    (w.updateNode n (Node.setFormula f)).formula? n = f := by
  rw [kind?] at hn
  rw [formula?, node?_updateNode_self]
  cases hnode : w.node? n with
  | none => simp [hnode] at hn
  | some node =>
      have hsame : node.kind = kind := by simpa [hnode] using hn
      rw [Option.map_some, Option.bind_some, Node.formula?_setFormula hsame hkind]

/-- No operation changes the kind of a node. -/
theorem Effect.kind?_eq {op : Operation} {outcome : Outcome} (h : w.Effect op outcome w')
    {n : NodeId} {kind : NodeKind} (hn : w.kind? n = some kind) : w'.kind? n = some kind := by
  cases h with
  | newModel name => exact hn
  | create hop hc =>
      have hne : n ≠ w.nextNode := by
        rintro rfl
        simp [kind?] at hn
      rw [kind?, node?_withNew, if_neg hne]
      exact hn
  | renameModel hc hname => exact hn
  | rename hc hk hkind hname =>
      rw [(sameLinks_updateNode w _ (Node.sameLinks_rename _)).kind, hn]
  | setStart hc hk hx => rw [(sameLinks_updateNode w _ (Node.sameLinks_setStart _)).kind, hn]
  | setValue hc hk hx => rw [(sameLinks_updateNode w _ (Node.sameLinks_setValue _)).kind, hn]
  | setFormula hc hk hf =>
      rw [kind?, map_updateNode Node.kind (Node.kind_setFormula _)]
      exact hn
  | addFlow hc ha hb hfree => rw [(sameUpToFlows_connect ..).kind, hn]
  | keepFlow hc ha hb hold => exact hn
  | removeFlow hc ha hb hflow => rw [(sameUpToFlows_disconnect ..).kind, hn]
  | keepUnconnected hc ha hb hflow => exact hn
  | removeNode hc hk hkind hunread =>
      rw [← (sameUpToFlows_isolate w _).kind] at hn
      exact hn
  | validate hvalid => exact hn
  | lock hc hvalid horder => exact hn

/-- The formula of a node stays as it is, or is the one that is set. -/
theorem Effect.formula?_cases {op : Operation} {outcome : Outcome} (h : w.Effect op outcome w')
    (n : NodeId) : w'.formula? n = w.formula? n ∨
      ∃ m a b, op = .setFormula m a b ∧ w.isChangeable m = true ∧ a.node? = some n ∧
        Action.formulaOf w b = .ok (w'.formula? n) := by
  cases h with
  | newModel name => exact Or.inl rfl
  | create hcreates hc =>
      refine Or.inl ?_
      rw [formula?, node?_withNew]
      split
      · rename_i hn
        rw [hn, formula?, node?_nextNode, Option.bind_some, hcreates.new.formula]
        rfl
      · rfl
  | renameModel hc hname => exact Or.inl rfl
  | rename hc hk hkind hname =>
      exact Or.inl ((sameLinks_updateNode w _ (Node.sameLinks_rename _)).formula n)
  | setStart hc hk hx =>
      exact Or.inl ((sameLinks_updateNode w _ (Node.sameLinks_setStart _)).formula n)
  | setValue hc hk hx =>
      exact Or.inl ((sameLinks_updateNode w _ (Node.sameLinks_setValue _)).formula n)
  | setFormula hc hk hf =>
      rename_i m a b k f
      by_cases hn : k = n
      · subst hn
        rcases Action.node?_of_fill hk with ⟨ha, kind, hkind, hrole⟩
        refine Or.inr ⟨m, a, b, rfl, hc, ha, ?_⟩
        rw [formula?_setFormula hkind hrole, hf]
      · rw [formula?, node?_updateNode_of_ne w hn, formula?]
        exact Or.inl rfl
  | addFlow hc ha hb hfree => exact Or.inl ((sameUpToFlows_connect ..).formula n)
  | keepFlow hc ha hb hold => exact Or.inl rfl
  | removeFlow hc ha hb hflow => exact Or.inl ((sameUpToFlows_disconnect ..).formula n)
  | keepUnconnected hc ha hb hflow => exact Or.inl rfl
  | removeNode hc hk hkind hunread => exact Or.inl ((sameUpToFlows_isolate w _).formula n)
  | validate hvalid => exact Or.inl rfl
  | lock hc hvalid horder => exact Or.inl rfl

/-! ## Formulas read nodes that can be read -/

/-- What passes the check of leaves is a leaf. -/
theorem isLeaf_of_leaf {e : Entity} {member : String} {n : NodeId}
    (h : e.leaf w member = .ok n) : w.isLeaf n = true := by
  unfold Entity.leaf at h
  split at h
  · split at h
    · rename_i hleaf
      rwa [Except.ok.inj h] at hleaf
    · simp at h
  · simp at h

/-- All leaves of a formula that passes its check are leaves. -/
theorem isLeaf_of_formula {member : String} {a : Argument} {f : Formula NodeId}
    (h : a.formula w member = .ok f) : ∀ n ∈ f.leaves, w.isLeaf n = true := by
  intro n hn
  rcases Formula.exists_of_mem_leaves_mapExcept h hn with ⟨e, _, he⟩
  exact isLeaf_of_leaf he

/-- All leaves of a formula that an operation sets are leaves. -/
theorem isLeaf_of_formulaOf {a : Argument} {f : Formula NodeId}
    (h : Action.formulaOf w a = .ok (some f)) : ∀ n ∈ f.leaves, w.isLeaf n = true := by
  unfold Action.formulaOf at h
  split at h
  · simp at h
  · split at h
    · rename_i n hleaf
      obtain rfl := Option.some.inj (Except.ok.inj h)
      intro k hk
      rw [Formula.leaves_leaf, List.mem_singleton] at hk
      exact hk ▸ isLeaf_of_leaf hleaf
    · simp at h
  · rename_i op l r
    cases hformula : Argument.formula w "clone" (.apply op l r) with
    | error e => simp [hformula, Except.map] at h
    | ok f' =>
        rw [hformula] at h
        obtain rfl := Option.some.inj (Except.ok.inj h)
        exact isLeaf_of_formula hformula

/-- Whether formulas read nothing but nodes that can be read. -/
def LeavesMatch (w : World) : Prop :=
  ∀ n f, w.formula? n = some f → ∀ k ∈ f.leaves, w.isLeaf k = true

/-- What may be a leaf stays so after any operation. -/
theorem Effect.isLeaf {op : Operation} {outcome : Outcome} (h : w.Effect op outcome w')
    {n : NodeId} (hn : w.isLeaf n = true) : w'.isLeaf n = true := by
  rw [World.isLeaf] at hn ⊢
  cases hkind : w.kind? n with
  | none => simp [hkind] at hn
  | some kind =>
      rw [h.kind?_eq hkind]
      rwa [hkind] at hn

/-- Formulas have leaves only, after any operation. -/
theorem Effect.leavesMatch {op : Operation} {outcome : Outcome} (h : w.Effect op outcome w')
    (hleaves : w.LeavesMatch) : w'.LeavesMatch := by
  intro n f hf k hk
  refine h.isLeaf ?_
  rcases h.formula?_cases n with hsame | ⟨m, a, b, _, _, _, hset⟩
  · rw [hsame] at hf
    exact hleaves n f hf k hk
  · rw [hf] at hset
    exact isLeaf_of_formulaOf hset k hk

/-! ## Lists of models -/

/-- Whether the lists of the models are in order of creation, of one kind each, and disjoint. -/
structure MembersMatch (w : World) : Prop where
  kind : ∀ m kind n, n ∈ (w.model m).members kind → w.kind? n = some kind
  increasing : ∀ m kind, ((w.model m).members kind).Pairwise fun a b => a.index < b.index
  owner : ∀ m m' kind n, n ∈ (w.model m).members kind → n ∈ (w.model m').members kind → m = m'

/-- A node that is there has a number below that of the next one. -/
theorem index_lt_of_kind? {n : NodeId} {kind : NodeKind} (h : w.kind? n = some kind) :
    n.index < w.nodes.size := by
  rw [kind?, node?] at h
  by_cases hn : n.index < w.nodes.size
  · exact hn
  · simp [Array.getElem?_eq_none (Nat.le_of_not_lt hn)] at h

namespace MembersMatch

/-- A model has no node twice. -/
theorem nodup (h : w.MembersMatch) (m : ModelId) (kind : NodeKind) :
    ((w.model m).members kind).Nodup := by
  refine (h.increasing m kind).imp ?_
  rintro a b hlt rfl
  exact Nat.lt_irrefl _ hlt

/-- Lists that only lose nodes still match. -/
theorem of_sublist (h : w.MembersMatch)
    (hkind : ∀ n kind, w.kind? n = some kind → w'.kind? n = some kind)
    (hsub : ∀ m kind, ((w'.model m).members kind).Sublist ((w.model m).members kind)) :
    w'.MembersMatch where
  kind m kind n hn := hkind n kind (h.kind m kind n ((hsub m kind).subset hn))
  increasing m kind := (h.increasing m kind).sublist (hsub m kind)
  owner m m' kind n hn hn' :=
    h.owner m m' kind n ((hsub m kind).subset hn) ((hsub m' kind).subset hn')

/-- The next node is in no model. -/
theorem nextNode_not_mem (h : w.MembersMatch) (m : ModelId) (kind : NodeKind) :
    w.nextNode ∉ (w.model m).members kind := by
  intro hn
  have hkind := h.kind m kind _ hn
  simp [kind?] at hkind

/-- A new node is a member of its kind in its model. -/
theorem members_withNew {m : ModelId} (hc : w.isChangeable m = true) (node : Node) (k : ModelId)
    (kind : NodeKind) : ((w.withNew m node).model k).members kind =
      if k = m ∧ kind = node.kind then (w.model m).members kind ++ [w.nextNode]
      else (w.model k).members kind := by
  rw [model_withNew hc]
  by_cases hk : k = m
  · subst k
    rw [if_pos rfl]
    by_cases hkind : kind = node.kind
    · rw [if_pos ⟨rfl, hkind⟩, hkind, Model.members_mapMembers]
    · rw [if_neg (by simp [hkind]), Model.members_mapMembers_of_ne hkind]
  · rw [if_neg hk, if_neg (by simp [hk])]

/-- A new node goes to the list of its kind of one model. -/
theorem withNew (h : w.MembersMatch) {m : ModelId} (hc : w.isChangeable m = true) (node : Node) :
    (w.withNew m node).MembersMatch where
  kind k kind n hn := by
    rw [members_withNew hc] at hn
    rw [kind?, node?_withNew]
    split at hn
    · rename_i hk
      rcases hk with ⟨rfl, rfl⟩
      rw [List.mem_append, List.mem_singleton] at hn
      rcases hn with hn | hn
      · rw [if_neg fun heq => h.nextNode_not_mem k _ (heq ▸ hn)]
        exact h.kind k _ n hn
      · rw [if_pos hn]
        rfl
    · rw [if_neg fun heq => h.nextNode_not_mem k _ (heq ▸ hn)]
      exact h.kind k _ n hn
  increasing k kind := by
    rw [members_withNew hc]
    split
    · rw [List.pairwise_append]
      refine ⟨h.increasing m kind, List.pairwise_singleton _ _, ?_⟩
      intro a ha b hb
      rw [List.mem_singleton] at hb
      rw [hb]
      exact index_lt_of_kind? (h.kind m kind a ha)
    · exact h.increasing k kind
  owner k k' kind n hn hn' := by
    rw [members_withNew hc] at hn hn'
    by_cases hnew : n = w.nextNode
    · subst n
      have hnot := h.nextNode_not_mem
      split at hn
      · split at hn'
        · rename_i hk hk'
          rw [hk.1, hk'.1]
        · exact (hnot _ _ hn').elim
      · exact (hnot _ _ hn).elim
    · refine h.owner k k' kind n ?_ ?_
      · split at hn
        · rename_i hk
          simpa [hnew, hk.1] using hn
        · exact hn
      · split at hn'
        · rename_i hk
          simpa [hnew, hk.1] using hn'
        · exact hn'

/-- Nodes of another kind are not in a list of a model. -/
theorem not_mem (h : w.MembersMatch) (kind' : NodeKind) {n : NodeId}
    {kind : NodeKind} (hn : w.kind? n = some kind) (hne : kind ≠ kind') :
    n ∉ (w.model m).members kind' := by
  intro hmem
  have hn' := h.kind m kind' n hmem
  rw [hn] at hn'
  exact hne (Option.some.inj hn')

/-- No model lists a node twice. -/
theorem nodup_nodes (h : w.MembersMatch) (m : ModelId) : (w.model m).nodes.Nodup := by
  have hnodes : (w.model m).nodes = NodeKind.all.flatMap (w.model m).members := by
    simp [Model.nodes, NodeKind.all, Model.members]
  rw [hnodes, List.Nodup, List.pairwise_flatMap]
  refine ⟨fun kind _ => h.nodup m kind, ?_⟩
  have hkinds : NodeKind.all.Nodup := by decide
  refine hkinds.imp fun {kind kind'} hne a ha b hb => ?_
  rintro rfl
  exact h.not_mem kind' (h.kind m kind a ha) hne hb

/-- A node belongs to at most one model. -/
theorem owner_unique (h : w.MembersMatch) {m m' : ModelId} {n : NodeId}
    (hn : n ∈ (w.model m).nodes) (hn' : n ∈ (w.model m').nodes) : m = m' := by
  rcases Model.mem_nodes.1 hn with ⟨kind, hkind⟩
  rcases Model.mem_nodes.1 hn' with ⟨kind', hkind'⟩
  have hsame : kind' = kind := by
    have hn := h.kind m kind n hkind
    rw [h.kind m' kind' n hkind'] at hn
    exact Option.some.inj hn
  subst hsame
  exact h.owner m m' kind' n hkind hkind'

end MembersMatch

/-- An update that only takes members away does so in one model. -/
theorem members_sublist_of_update {k : ModelId} {f : Model → Model} {kind : NodeKind}
    (hc : w.isChangeable k = true)
    (hf : ∀ content : Model, ((f content).members kind).Sublist (content.members kind))
    (m : ModelId) :
    (((w.updateModel k f).model m).members kind).Sublist ((w.model m).members kind) := by
  rw [model_updateModel hc]
  split
  · rename_i hm
    subst hm
    exact hf _
  · exact List.Sublist.refl _

/-- A node is created, or the lists have lost nodes at most. -/
theorem Effect.members_cases {op : Operation} {outcome : Outcome} (h : w.Effect op outcome w') :
    (∃ m node, op.Creates m node ∧ w.isChangeable m = true ∧ w' = w.withNew m node) ∨
      ∀ m kind, ((w'.model m).members kind).Sublist ((w.model m).members kind) := by
  cases h with
  | newModel name =>
      refine Or.inr fun m kind => ?_
      rw [model_addModel]
      split
      · cases kind <;> exact List.nil_sublist _
      · exact List.Sublist.refl _
  | create hcreates hc => exact Or.inl ⟨_, _, hcreates, hc, rfl⟩
  | renameModel hc hname =>
      refine Or.inr fun m kind => members_sublist_of_update hc (fun content => ?_) m
      cases kind <;> exact List.Sublist.refl _
  | addFlow hc ha hb hfree =>
      refine Or.inr fun m kind => ?_
      simp [(sameUpToFlows_connect ..).model]
  | removeFlow hc ha hb hflow =>
      refine Or.inr fun m kind => ?_
      simp [(sameUpToFlows_disconnect ..).model]
  | removeNode hc hk hkind hunread =>
      rename_i k a n kind'
      have hsame := sameUpToFlows_isolate w n
      have hc' : (w.isolate n).isChangeable k = true := by rwa [isChangeable, hsame.model]
      refine Or.inr fun m kind => ?_
      rw [← hsame.model]
      refine members_sublist_of_update hc' (fun content => ?_) m
      by_cases hkinds : kind = kind'
      · subst hkinds
        rw [Model.members_mapMembers]
        exact List.erase_sublist
      · simp [Model.members_mapMembers_of_ne hkinds]
  | lock hc hvalid horder =>
      refine Or.inr fun m kind => members_sublist_of_update hc (fun content => ?_) m
      cases kind <;> exact List.Sublist.refl _
  | _ => exact Or.inr fun _ _ => List.Sublist.refl _

/-- Members are nodes of their kind, after any operation. -/
theorem Effect.membersMatch {op : Operation} {outcome : Outcome} (h : w.Effect op outcome w')
    (hmembers : w.MembersMatch) : w'.MembersMatch := by
  rcases h.members_cases with ⟨m, node, _, hc, rfl⟩ | hsub
  · exact hmembers.withNew hc node
  · exact hmembers.of_sublist (fun _ _ => h.kind?_eq) hsub

/-! ## Flows -/

/-- Along a path that passed its checks lie a rate and an endpoint. -/
theorem ends_of_path {path : FlowPath} {start finish : Argument} {a b : NodeId}
    (ha : Action.fill w path.startRole start = .ok a)
    (hb : Action.fill w path.finishRole finish = .ok b) :
    w.kind? (path.rateOf a b) = some .rate ∧ w.isEndpoint (path.endpointOf a b) = true := by
  rcases Action.node?_of_fill ha with ⟨_, kind, hkind, haccepts⟩
  rcases Action.node?_of_fill hb with ⟨_, kind', hkind', haccepts'⟩
  rw [isEndpoint]
  cases path with
  | levelToRate =>
      obtain rfl : kind = .level := eq_of_beq haccepts
      obtain rfl : kind' = .rate := eq_of_beq haccepts'
      exact ⟨hkind', by rw [FlowPath.endpointOf, FlowPath.side, hkind]; rfl⟩
  | rateToLevel =>
      obtain rfl : kind = .rate := eq_of_beq haccepts
      obtain rfl : kind' = .level := eq_of_beq haccepts'
      exact ⟨hkind, by rw [FlowPath.endpointOf, FlowPath.side, hkind']; rfl⟩
  | sourceSinkToRate =>
      obtain rfl : kind = .sourceSink := eq_of_beq haccepts
      obtain rfl : kind' = .rate := eq_of_beq haccepts'
      exact ⟨hkind', by rw [FlowPath.endpointOf, FlowPath.side, hkind]; rfl⟩
  | rateToSourceSink =>
      obtain rfl : kind = .rate := eq_of_beq haccepts
      obtain rfl : kind' = .sourceSink := eq_of_beq haccepts'
      exact ⟨hkind, by rw [FlowPath.endpointOf, FlowPath.side, hkind']; rfl⟩

/-- A new node has no flows to match. -/
theorem flowsMatch_withNew (h : w.FlowsMatch) (m : ModelId) {node : Node} (hnew : node.New) :
    (w.withNew m node).FlowsMatch := by
  refine h.of_eq (fun side n => ?_) (fun side n => ?_)
  · rw [endpoint?, endpoint?, node?_withNew]
    split
    · rename_i hn
      rw [hn, node?_nextNode, Option.bind_some, hnew.endpoint]
      rfl
    · rfl
  · rw [listedAt, listedAt, node?_withNew]
    split
    · rename_i hn
      rw [hn, node?_nextNode, Option.map_some, hnew.listed]
      rfl
    · rfl

/-- Both halves of all flows match after any operation. -/
theorem Effect.flowsMatch {op : Operation} {outcome : Outcome} (h : w.Effect op outcome w')
    (hflows : w.FlowsMatch) : w'.FlowsMatch := by
  cases h with
  | newModel name => exact hflows.of_eq (fun _ _ => rfl) (fun _ _ => rfl)
  | create hcreates hc => exact flowsMatch_withNew hflows _ hcreates.new
  | renameModel hc hname => exact hflows.of_eq (fun _ _ => rfl) (fun _ _ => rfl)
  | rename hc hk hkind hname =>
      exact (sameLinks_updateNode w _ (Node.sameLinks_rename _)).flowsMatch hflows
  | setStart hc hk hx =>
      exact (sameLinks_updateNode w _ (Node.sameLinks_setStart _)).flowsMatch hflows
  | setValue hc hk hx =>
      exact (sameLinks_updateNode w _ (Node.sameLinks_setValue _)).flowsMatch hflows
  | setFormula hc hk hf =>
      refine hflows.of_eq (fun side n => ?_) (fun side n => ?_)
      · exact bind_updateNode (Node.endpoint? side) (Node.endpoint?_setFormula _ side) w _ n
      · rw [listedAt, map_updateNode (Node.listed side) (Node.listed_setFormula _ side), listedAt]
  | addFlow hc ha hb hfree =>
      rcases ends_of_path ha hb with ⟨hrate, hendpoint⟩
      exact hflows.connect hrate hendpoint _
  | keepFlow hc ha hb hold => exact hflows
  | removeFlow hc ha hb hflow => exact hflows.disconnect _ _
  | keepUnconnected hc ha hb hflow => exact hflows
  | removeNode hc hk hkind hunread =>
      exact (hflows.isolate _).of_eq (fun _ _ => rfl) (fun _ _ => rfl)
  | validate hvalid => exact hflows
  | lock hc hvalid horder => exact hflows.of_eq (fun _ _ => rfl) (fun _ _ => rfl)

/-! ## Well-formed worlds -/

/-- Whether flows, lists and formulas fit the nodes that there are. -/
structure WellFormed (w : World) : Prop where
  flows : w.FlowsMatch
  members : w.MembersMatch
  leaves : w.LeavesMatch

/-- The empty world is well formed. -/
theorem wellFormed_empty : ({} : World).WellFormed where
  flows := by
    have hlisted : ∀ side n, ({} : World).listedAt side n = [] := by
      intro side n
      simp [listedAt, node?]
    refine ⟨fun side e => ?_, fun side e => ?_, fun side r e => ?_⟩
    · rw [ratesAt, hlisted]
      rfl
    · rw [ratesAt, hlisted]
      exact List.nodup_nil
    · rw [ratesAt, hlisted]
      simp [endpoint?, node?]
  members := by
    have hmembers : ∀ m kind, (({} : World).model m).members kind = [] := by
      intro m kind
      cases kind <;> simp [model, model?, Model.members]
    refine ⟨fun m kind n hn => ?_, fun m kind => ?_, fun m m' kind n hn _ => ?_⟩
    · simp [hmembers] at hn
    · simp [hmembers]
    · simp [hmembers] at hn
  leaves n f hf := by simp [formula?, node?] at hf

/-- Whether a world is well formed is up to its links. -/
theorem SameLinks.wellFormed (h : SameLinks w w') (hw : w.WellFormed) : w'.WellFormed where
  flows := h.flowsMatch hw.flows
  members := by
    refine hw.members.of_sublist (fun n kind hn => by rwa [h.kind]) fun m kind => ?_
    simp [h.model]
  leaves n f hf k hk := by
    rw [h.formula] at hf
    rw [h.isLeaf]
    exact hw.leaves n f hf k hk

/-- A well-formed world stays so after any operation. -/
theorem Effect.wellFormed {op : Operation} {outcome : Outcome} (h : w.Effect op outcome w')
    (hw : w.WellFormed) : w'.WellFormed :=
  ⟨h.flowsMatch hw.flows, h.membersMatch hw.members, h.leavesMatch hw.leaves⟩

/-- Every step keeps worlds well-formed. -/
theorem WellFormed.step (h : w.WellFormed) (op : Operation) : (w.step op).WellFormed := by
  rcases step_cases h.flows op with hsame | ⟨outcome, heffect⟩ | ⟨m, _, hvalues⟩
  · rwa [hsame]
  · exact heffect.wellFormed h
  · exact hvalues.sameLinks.wellFormed h

/-- A well-formed world stays so after any session. -/
theorem WellFormed.run (h : w.WellFormed) (ops : List Operation) : (w.run ops).WellFormed := by
  induction ops generalizing w with
  | nil => exact h
  | cons op rest ih => exact ih (h.step op)

/-- What effects of operations and changes of current values preserve holds after any session. -/
theorem WellFormed.run_induction {P : World → Prop} (hw : w.WellFormed)
    (heffect : ∀ w op outcome w', w.WellFormed → w.Effect op outcome w' → P w → P w')
    (hvalues : ∀ w w', SameUpToValues w w' → P w → P w') (ops : List Operation) (h : P w) :
    P (w.run ops) := by
  induction ops generalizing w with
  | nil => exact h
  | cons op rest ih =>
      refine ih (hw.step op) ?_
      rcases step_cases hw.flows op with hsame | ⟨outcome, hdone⟩ | ⟨m, _, hcomputed⟩
      · rwa [hsame]
      · exact heffect w op outcome _ hw hdone h
      · exact hvalues w _ hcomputed h

/-- Every world that a session leads to is well-formed. -/
theorem Reachable.wellFormed (h : w.Reachable) : w.WellFormed := by
  rcases h with ⟨ops, rfl⟩
  exact wellFormed_empty.run ops

/-- One more operation leads to a world that sessions reach. -/
theorem Reachable.step (h : w.Reachable) (op : Operation) : (w.step op).Reachable := by
  rcases h with ⟨ops, rfl⟩
  exact ⟨ops ++ [op], (run_append {} ops [op]).symm⟩

end World
end StockFlow
