import Mathlib.Data.Fintype.Basic
import StockFlow.Proofs.Validation.Exactness
import StockFlow.Proofs.World.Rounds

/-!
# Ownership

Formulas and flows may lead from a node of one model to nodes that the model does
not own.  In a session that hands every operation nodes of its own model only, no
model ever refers beyond itself: whatever is set or connected is owned, and a node
is only removed when no formula reads it any more and all its flows are gone.
Hence searches through a model never meet anything that it does not own.

Main definitions:

- {lit}`World.OwnershipClosed`: formulas and flows of a model lead to its own nodes only.
- {lit}`World.RefersTo`: the references that one node makes to another.

Main results:

- Theorem {lit}`World.ownershipClosed_iff`: closure in terms of references.
- Theorem {lit}`World.Effect.ownershipClosed`: what operations do keeps models closed.
- Theorem {lit}`World.ReachableWithin.ownershipClosed`: every model is closed.
- Theorem {lit}`World.ReachableWithin.closed_and_safe`: reports, validation and rounds never fail
  for want of a node or a formula.
-/

namespace StockFlow
namespace World

variable {w w' : World} {m : ModelId} {n k : NodeId}

theorem eq_node_of_node? {e : Entity} (h : e.node? = some n) : e = .node n := by
  cases e with
  | node k => rw [Option.some.inj h]
  | _ => simp [Entity.node?] at h

/-- Whether the formulas and flows of a model lead to its own nodes only. -/
structure OwnershipClosed (w : World) (m : ModelId) : Prop where
  leaf : ∀ n ∈ (w.model m).formulaOwners, ∀ f, w.formula? n = some f →
    ∀ k ∈ f.leaves, k ∈ (w.model m).nodes
  endpoint : ∀ r ∈ (w.model m).rates, ∀ side e, w.endpoint? side r = some e →
    e ∈ (w.model m).nodes
  listed : ∀ e ∈ (w.model m).levels ++ (w.model m).sourceSinks, ∀ side, ∀ k ∈ w.listedAt side e,
    ∃ r ∈ (w.model m).rates, k = .node r

instance : Fintype Side where
  elems := {.source, .sink}
  complete side := by cases side <;> simp

instance (w : World) (m : ModelId) : Decidable (w.OwnershipClosed m) :=
  decidable_of_iff
    ((∀ n ∈ (w.model m).formulaOwners, ∀ f ∈ w.formula? n, ∀ k ∈ f.leaves,
        k ∈ (w.model m).nodes) ∧
      (∀ r ∈ (w.model m).rates, ∀ side, ∀ e ∈ w.endpoint? side r, e ∈ (w.model m).nodes) ∧
      ∀ e ∈ (w.model m).levels ++ (w.model m).sourceSinks, ∀ side, ∀ k ∈ w.listedAt side e,
        ∃ r ∈ (w.model m).rates, k.node? = some r)
    (by
      constructor
      · rintro ⟨hleaf, hend, hlisted⟩
        refine ⟨hleaf, hend, fun e he side k hk => ?_⟩
        rcases hlisted e he side k hk with ⟨r, hr, hnode⟩
        exact ⟨r, hr, eq_node_of_node? hnode⟩
      · intro h
        refine ⟨h.leaf, h.endpoint, fun e he side k hk => ?_⟩
        rcases h.listed e he side k hk with ⟨r, hr, rfl⟩
        exact ⟨r, hr, rfl⟩)

/-- Whether a node reads another one in its formula, or shares a flow with it. -/
def RefersTo (w : World) (n k : NodeId) : Prop :=
  (∃ f, w.formula? n = some f ∧ k ∈ f.leaves) ∨
    ∃ side, w.endpoint? side n = some k ∨ w.endpoint? side k = some n

/-- What a node refers to is up to the links. -/
theorem SameLinks.refersTo_iff (h : SameLinks w w') : w'.RefersTo n k ↔ w.RefersTo n k := by
  simp only [RefersTo, h.formula, h.endpoint]

/-! ## Closure and references -/

/-- A node of a model is a member of its kind. -/
theorem MembersMatch.mem_members (h : w.MembersMatch) (hn : n ∈ (w.model m).nodes)
    {kind : NodeKind} (hkind : w.kind? n = some kind) : n ∈ (w.model m).members kind := by
  rcases Model.mem_nodes.1 hn with ⟨kind', hmem⟩
  have hkind' := h.kind m kind' n hmem
  rw [hkind] at hkind'
  rwa [Option.some.inj hkind']

/-- A node of a model with a formula is an owner of formulas. -/
theorem MembersMatch.mem_formulaOwners (h : w.MembersMatch) (hn : n ∈ (w.model m).nodes)
    {f : Formula NodeId} (hf : w.formula? n = some f) : n ∈ (w.model m).formulaOwners := by
  rcases kind?_of_formula? hf with ⟨kind, hkind, hformula⟩
  have hmem := h.mem_members hn hkind
  rw [Model.formulaOwners, List.mem_append]
  cases kind with
  | rate => exact Or.inl hmem
  | auxiliary => exact Or.inr hmem
  | _ => simp [NodeKind.hasFormula] at hformula

/-- A node of a model that is an endpoint is a level or a boundary. -/
theorem MembersMatch.mem_endpoints (h : w.MembersMatch) (hn : n ∈ (w.model m).nodes)
    (hend : w.isEndpoint n = true) : n ∈ (w.model m).levels ++ (w.model m).sourceSinks := by
  rcases Model.mem_nodes.1 hn with ⟨kind, hmem⟩
  rw [isEndpoint, h.kind m kind n hmem] at hend
  rw [List.mem_append]
  cases kind with
  | level => exact Or.inl hmem
  | sourceSink => exact Or.inr hmem
  | _ => simp [NodeKind.isEndpoint] at hend

/-- A model is closed if and only if its nodes refer to its nodes only. -/
theorem ownershipClosed_iff (hw : w.WellFormed) :
    w.OwnershipClosed m ↔
      ∀ n ∈ (w.model m).nodes, ∀ k, w.RefersTo n k → k ∈ (w.model m).nodes := by
  constructor
  · rintro h n hn k (⟨f, hf, hk⟩ | ⟨side, he | he⟩)
    · exact h.leaf n (hw.members.mem_formulaOwners hn hf) f hf k hk
    · have hrate := hw.members.mem_members hn (kind?_of_endpoint? he)
      exact h.endpoint n hrate side k he
    · have hend := hw.members.mem_endpoints hn (hw.flows.isEndpoint he)
      have hlisted := hw.flows.mem_listedAt_iff.2 ⟨k, rfl, he⟩
      rcases h.listed n hend side _ hlisted with ⟨r, hr, heq⟩
      rw [Entity.node.inj heq]
      exact Model.mem_nodes_of_mem_members .rate hr
  · intro h
    refine ⟨fun n hn f hf k hk => ?_, fun r hr side e he => ?_, fun e he side k hk => ?_⟩
    · exact h n (Model.mem_nodes_of_mem_formulaOwners hn) k (Or.inl ⟨f, hf, hk⟩)
    · exact h r (Model.mem_nodes_of_mem_members .rate hr) e (Or.inr ⟨side, Or.inl he⟩)
    · have he' : e ∈ (w.model m).nodes := by
        rcases List.mem_append.1 he with he | he
        · exact Model.mem_nodes_of_mem_members .level he
        · exact Model.mem_nodes_of_mem_members .sourceSink he
      rcases hw.flows.mem_listedAt_iff.1 hk with ⟨r, rfl, hflow⟩
      have hr' := h e he' r (Or.inr ⟨side, Or.inr hflow⟩)
      exact ⟨r, hw.members.mem_members hr' (kind?_of_endpoint? hflow), rfl⟩

/-! ## Nodes without flows -/

/-- A flow that is left after one was taken away was there before, and is another one. -/
theorem endpoint?_of_disconnect {side s : Side} {r x e : NodeId}
    (he : (w.disconnect side r).endpoint? s x = some e) :
    w.endpoint? s x = some e ∧ (s = side → x ≠ r) := by
  rw [FlowsMatch.endpoint?_disconnect] at he
  split at he
  · simp at he
  · rename_i hother
    exact ⟨he, fun hs hx => hother ⟨hs, hx⟩⟩

/-- Of a node that all flows were taken from no flow is left, and no flow is new. -/
theorem FlowsMatch.endpoint?_of_isolate (h : w.FlowsMatch) {side : Side} {r e : NodeId}
    (hflow : (w.isolate n).endpoint? side r = some e) :
    w.endpoint? side r = some e ∧ r ≠ n ∧ e ≠ n := by
  rw [h.endpoint?_isolate] at hflow
  split at hflow
  · simp at hflow
  · rename_i hkept
    rw [not_or] at hkept
    refine ⟨hflow, hkept.1, ?_⟩
    rintro rfl
    exact hkept.2 hflow

/-! ## What operations refer to -/

theorem eq_node_of_leaf {e : Entity} {member : String} (h : e.leaf w member = .ok n) :
    e = .node n := by
  unfold Entity.leaf at h
  split at h
  · split at h
    · rw [Except.ok.inj h]
    · simp at h
  · simp at h

/-- A formula that is set reads only nodes that were handed over. -/
theorem mem_nodes_of_formulaOf {a : Argument} {f : Formula NodeId}
    (h : Action.formulaOf w a = .ok (some f)) (hk : k ∈ f.leaves) : k ∈ a.nodes := by
  unfold Action.formulaOf at h
  split at h
  · simp at h
  · split at h
    · rename_i e x hx
      obtain rfl := Option.some.inj (Except.ok.inj h)
      rw [Formula.leaves_leaf, List.mem_singleton] at hk
      rw [eq_node_of_leaf hx, hk]
      exact List.mem_singleton_self x
    · simp at h
  · rename_i op l r
    cases hformula : Argument.formula w "clone" (.apply op l r) with
    | error e => simp [hformula, Except.map] at h
    | ok f' =>
        rw [hformula] at h
        obtain rfl := Option.some.inj (Except.ok.inj h)
        rcases Formula.exists_of_mem_leaves_mapExcept hformula hk with ⟨e, he, hleaf⟩
        rw [eq_node_of_leaf hleaf] at he
        exact List.mem_filterMap.2 ⟨.node k, he, rfl⟩

/-- A flow stays as it is, or is added between nodes that were handed over. -/
theorem Effect.endpoint?_cases {op : Operation} {outcome : Outcome} (h : w.Effect op outcome w')
    (hw : w.FlowsMatch) {side : Side} {r e : NodeId} (he : w'.endpoint? side r = some e) :
    w.endpoint? side r = some e ∨
      (∃ a ∈ op.arguments, r ∈ a.nodes) ∧ ∃ a ∈ op.arguments, e ∈ a.nodes := by
  cases h with
  | create hcreates hc =>
      rw [endpoint?, node?_withNew] at he
      split at he
      · rw [Option.bind_some, hcreates.new.endpoint] at he
        simp at he
      · exact Or.inl he
  | rename hc hk hkind hname =>
      rw [(sameLinks_updateNode w _ (Node.sameLinks_rename _)).endpoint] at he
      exact Or.inl he
  | setStart hc hk hx =>
      rw [(sameLinks_updateNode w _ (Node.sameLinks_setStart _)).endpoint] at he
      exact Or.inl he
  | setValue hc hk hx =>
      rw [(sameLinks_updateNode w _ (Node.sameLinks_setValue _)).endpoint] at he
      exact Or.inl he
  | setFormula hc hk hf =>
      rw [endpoint?, bind_updateNode (Node.endpoint? side) (Node.endpoint?_setFormula _ side)] at he
      exact Or.inl he
  | addFlow hc ha hb hfree =>
      rename_i path start finish a b
      rw [FlowsMatch.endpoint?_connect (ends_of_path ha hb).1] at he
      split at he
      · rename_i hr
        have hstart : ∃ x ∈ [start, finish], a ∈ x.nodes :=
          ⟨start, by simp, mem_nodes_of_node? (Action.node?_of_fill ha).1⟩
        have hfinish : ∃ x ∈ [start, finish], b ∈ x.nodes :=
          ⟨finish, by simp, mem_nodes_of_node? (Action.node?_of_fill hb).1⟩
        obtain rfl := Option.some.inj he
        rw [hr.2, FlowPath.rateOf, FlowPath.endpointOf]
        cases path.side with
        | source => exact Or.inr ⟨hfinish, hstart⟩
        | sink => exact Or.inr ⟨hstart, hfinish⟩
      · exact Or.inl he
  | removeFlow hc ha hb hflow => exact Or.inl (endpoint?_of_disconnect he).1
  | removeNode hc hk hkind hunread => exact Or.inl (hw.endpoint?_of_isolate he).1
  | _ => exact Or.inl he

/-- A reference stays as it is, or is made between nodes that were handed over. -/
theorem Effect.refersTo_cases {op : Operation} {outcome : Outcome} (h : w.Effect op outcome w')
    (hw : w.FlowsMatch) (href : w'.RefersTo n k) :
    w.RefersTo n k ∨ (∃ a ∈ op.arguments, n ∈ a.nodes) ∧ ∃ a ∈ op.arguments, k ∈ a.nodes := by
  rcases href with ⟨f, hf, hk⟩ | ⟨side, he | he⟩
  · rcases h.formula?_cases n with hsame | ⟨_, a, b, rfl, _, ha, hset⟩
    · exact Or.inl (Or.inl ⟨f, hsame ▸ hf, hk⟩)
    · rw [hf] at hset
      refine Or.inr ⟨⟨a, List.mem_cons_self, mem_nodes_of_node? ha⟩, b, ?_, ?_⟩
      · simp [Operation.arguments]
      · exact mem_nodes_of_formulaOf hset hk
  · exact (h.endpoint?_cases hw he).imp (fun he => Or.inr ⟨side, Or.inl he⟩) id
  · exact (h.endpoint?_cases hw he).imp (fun he => Or.inr ⟨side, Or.inr he⟩) And.symm

/-! ## What models own -/

/-- With one more member, a model has one more node. -/
theorem mem_nodes_append {content : Model} (kind : NodeKind) (x : NodeId) :
    n ∈ (content.mapMembers kind (· ++ [x])).nodes ↔ n ∈ content.nodes ∨ n = x := by
  cases kind <;> simp [Model.nodes, Model.mapMembers] <;> tauto

/-- Taking a member away leaves all other nodes. -/
theorem mem_nodes_erase_of_ne {content : Model} (kind : NodeKind) {x : NodeId} (hne : n ≠ x) :
    n ∈ (content.mapMembers kind (List.erase · x)).nodes ↔ n ∈ content.nodes := by
  cases kind <;> simp [Model.nodes, Model.mapMembers, List.mem_erase_of_ne hne]

/-- Taking a member away takes the node away. -/
theorem MembersMatch.not_mem_nodes_erase (h : w.MembersMatch) {kind : NodeKind}
    (hkind : w.kind? n = some kind) :
    n ∉ ((w.model m).mapMembers kind (List.erase · n)).nodes := by
  intro hn
  rcases Model.mem_nodes.1 hn with ⟨kind', hmem⟩
  by_cases hsame : kind' = kind
  · subst hsame
    rw [Model.members_mapMembers, (h.nodup m kind').mem_erase_iff] at hmem
    exact hmem.1 rfl
  · rw [Model.members_mapMembers_of_ne hsame] at hmem
    exact h.not_mem kind' hkind (Ne.symm hsame) hmem

/-- Where no formula is found to read a node, it is no leaf of any. -/
theorem not_mem_leaves_of_firstReader? {owners : List NodeId}
    (h : Action.firstReader? w owners k = none) (hn : n ∈ owners) (hne : n ≠ k)
    {f : Formula NodeId} (hf : w.formula? n = some f) : k ∉ f.leaves := by
  intro hk
  rw [Action.firstReader?, List.find?_eq_none] at h
  have hread := h n hn
  rw [formulaReads_eq hf] at hread
  simp [hne, hk] at hread

/-- Nothing in a model refers to a node that has left it. -/
theorem Effect.owned_or_unreferred {op : Operation} {outcome : Outcome}
    (h : w.Effect op outcome w') (hw : w.WellFormed) (hk : k ∈ (w.model m).nodes) :
    k ∈ (w'.model m).nodes ∨ ∀ n ∈ (w'.model m).nodes, ¬ w'.RefersTo n k := by
  cases h with
  | newModel name =>
      rw [model_addModel]
      split
      · exact Or.inr nofun
      · exact Or.inl hk
  | create hcreates hc =>
      rw [model_withNew hc]
      split
      · rename_i hm
        exact Or.inl ((mem_nodes_append _ _).2 (Or.inl (hm ▸ hk)))
      · exact Or.inl hk
  | renameModel hc hname =>
      rw [model_updateModel hc]
      split
      · rename_i hm
        exact Or.inl (hm ▸ hk)
      · exact Or.inl hk
  | addFlow hc ha hb hfree => exact Or.inl (by rwa [(sameUpToFlows_connect ..).model])
  | removeFlow hc ha hb hflow => exact Or.inl (by rwa [(sameUpToFlows_disconnect ..).model])
  | lock hc hvalid horder =>
      rw [model_updateModel hc]
      split
      · rename_i hm
        exact Or.inl (hm ▸ hk)
      · exact Or.inl hk
  | removeNode hc hx hkind hunread =>
      rename_i m' a x kind
      have hsame := sameUpToFlows_isolate w x
      have hc' : (w.isolate x).isChangeable m' = true := by rwa [isChangeable, hsame.model]
      rw [model_updateModel hc', hsame.model, hsame.model]
      split
      · rename_i hm
        subst hm
        by_cases hne : k = x
        · -- the node that is removed: no formula reads it, and all its flows are gone
          refine Or.inr fun n hn => ?_
          subst hne
          have hne : n ≠ k := fun heq => hw.members.not_mem_nodes_erase hkind (heq ▸ hn)
          have hold := (mem_nodes_erase_of_ne kind hne).1 hn
          rintro (⟨f, hf, hleaf⟩ | ⟨side, he | he⟩)
          · have hf' : w.formula? n = some f := (hsame.formula n).symm.trans hf
            have howner := hw.members.mem_formulaOwners hold hf'
            exact not_mem_leaves_of_firstReader? hunread howner hne hf' hleaf
          · exact (hw.flows.endpoint?_of_isolate he).2.2 rfl
          · exact (hw.flows.endpoint?_of_isolate he).2.1 rfl
        · exact Or.inl ((mem_nodes_erase_of_ne kind hne).2 hk)
      · exact Or.inl hk
  | _ => exact Or.inl hk

/-- A node of a model was there before, or nothing is known to it yet. -/
theorem Effect.mem_nodes_cases {op : Operation} {outcome : Outcome} (h : w.Effect op outcome w')
    (hn : n ∈ (w'.model m).nodes) : n ∈ (w.model m).nodes ∨ n = w.nextNode := by
  rcases Model.mem_nodes.1 hn with ⟨kind, hmem⟩
  rcases h.members_cases with ⟨m', node, _, hc, rfl⟩ | hsub
  · rw [MembersMatch.members_withNew hc] at hmem
    split at hmem
    · rename_i hm
      rw [List.mem_append, List.mem_singleton] at hmem
      refine hmem.imp_left fun hmem => ?_
      rw [hm.1]
      exact Model.mem_nodes_of_mem_members kind hmem
    · exact Or.inl (Model.mem_nodes_of_mem_members kind hmem)
  · exact Or.inl (Model.mem_nodes_of_mem_members kind ((hsub m kind).subset hmem))

/-- Nothing refers to the identity that the next node will have, and it refers to nothing. -/
theorem WellFormed.not_refersTo_nextNode (hw : w.WellFormed) : ¬ w.RefersTo w.nextNode k := by
  rintro (⟨f, hf, _⟩ | ⟨side, he | he⟩)
  · simp [formula?] at hf
  · simp [endpoint?] at he
  · have hend := hw.flows.isEndpoint he
    simp [isEndpoint, kind?] at hend

/-! ## Sessions that stay within models -/

/-- Operations that are given nodes are on a model. -/
theorem exists_model_of_mem_arguments {op : Operation} {a : Argument} (h : a ∈ op.arguments) :
    ∃ m, op.model? = some m := by
  cases op with
  | newModel name => simp [Operation.arguments] at h
  | _ => exact ⟨_, rfl⟩

/-- What is handed over in such a session belongs to one and the same model. -/
theorem StaysWithin.mem_nodes {op : Operation} (hop : w.StaysWithin op)
    {a b : Argument} (ha : a ∈ op.arguments) (hn : n ∈ a.nodes) (hb : b ∈ op.arguments)
    (hk : k ∈ b.nodes) :
    ∃ m, n ∈ (w.model m).nodes ∧ k ∈ (w.model m).nodes := by
  rcases exists_model_of_mem_arguments ha with ⟨m, hm⟩
  exact ⟨m, hop m hm a ha n hn, hop m hm b hb k hk⟩

/-- What operations do in sessions that stay within models keeps models closed. -/
theorem Effect.ownershipClosed {op : Operation} {outcome : Outcome} (h : w.Effect op outcome w')
    (hw : w.WellFormed) (hop : w.StaysWithin op) (hclosed : w.OwnershipClosed m) :
    w'.OwnershipClosed m := by
  rw [ownershipClosed_iff hw] at hclosed
  rw [ownershipClosed_iff (h.wellFormed hw)]
  intro n hn k href
  have hold : k ∈ (w.model m).nodes := by
    rcases h.refersTo_cases hw.flows href with hsame | ⟨⟨a, ha, hna⟩, b, hb, hkb⟩
    · rcases h.mem_nodes_cases hn with hn | rfl
      · exact hclosed n hn k hsame
      · exact (hw.not_refersTo_nextNode hsame).elim
    · rcases hop.mem_nodes ha hna hb hkb with ⟨m', hn', hk'⟩
      rcases h.mem_nodes_cases hn with hn | rfl
      · rwa [hw.members.owner_unique hn hn']
      · rcases Model.mem_nodes.1 hn' with ⟨kind, hmem⟩
        exact (hw.members.nextNode_not_mem m' kind hmem).elim
  rcases h.owned_or_unreferred hw hold with hk | hunreferred
  · exact hk
  · exact (hunreferred n hn href).elim

/-- Whether a model owns what it refers to is up to the links. -/
theorem SameLinks.ownershipClosed (h : SameLinks w w') (hw : w.WellFormed)
    (hclosed : w.OwnershipClosed m) : w'.OwnershipClosed m := by
  rw [ownershipClosed_iff hw] at hclosed
  rw [ownershipClosed_iff (h.wellFormed hw), h.model]
  exact fun n hn k href => hclosed n hn k (h.refersTo_iff.1 href)

/-- Every model is closed, as long as sessions stay within models. -/
theorem ReachableWithin.ownershipClosed (h : w.ReachableWithin) (m : ModelId) :
    w.OwnershipClosed m := by
  induction h with
  | start => exact ⟨by simp [model, model?, Model.formulaOwners], by simp [model, model?],
      by simp [model, model?]⟩
  | step hreach hop ih =>
      have hw := hreach.reachable.wellFormed
      rcases step_cases hw.flows _ with hsame | ⟨outcome, heffect⟩ | ⟨k, _, hvalues⟩
      · rw [hsame]
        exact ih
      · exact heffect.ownershipClosed hw hop ih
      · exact hvalues.sameLinks.ownershipClosed hw ih

/-! ## Nothing breaks down -/

/-- The auxiliaries of a closed model read no auxiliaries but each other. -/
theorem OwnershipClosed.readsWithin (h : w.OwnershipClosed m) (hw : w.MembersMatch) :
    w.ReadsWithin (w.model m).auxiliaries := by
  intro n hn k hk
  rw [mem_auxiliaryReads, mem_formulaReads] at hk
  rcases hk with ⟨⟨f, hf, hleaf⟩, hkind⟩
  exact hw.mem_members (h.leaf n (List.mem_append_right _ hn) f hf k hleaf) hkind

/-- The flows of a closed model's levels are rates of the model. -/
theorem OwnershipClosed.mem_rates (h : w.OwnershipClosed m) (hw : w.FlowsMatch) {side : Side}
    {l r : NodeId} (hl : l ∈ (w.model m).levels) (hr : r ∈ w.ratesAt side l) :
    r ∈ (w.model m).rates := by
  have hlisted := hw.mem_listedAt_iff.2 ⟨r, rfl, (hw.endpoint_iff side r l).2 hr⟩
  rcases h.listed l (List.mem_append_left _ hl) side _ hlisted with ⟨r', hr', heq⟩
  rwa [Entity.node.inj heq]

/-- Validation of a model leaves no trace, and fails with a violation of a rule if at all. -/
def ValidatesSafely (w : World) (m : ModelId) : Prop :=
  (Action.validate m).run w = .ok () w ∨
    ∃ v, (Action.validate m).run w = .error (.invalid v) w ∧
      FaultKind.invalidModel.word ∈ (Fault.invalid v).kind.wider

/--
In a session that stays within models, formulas and flows of a model lead to its own
nodes only.  A report on it never fails, its validation fails with a violation of a
rule if at all, and once it is locked no round of it fails.
-/
theorem ReachableWithin.closed_and_safe (h : w.ReachableWithin) (m : ModelId) :
    w.OwnershipClosed m ∧ (∃ report, w.report (w.model m) = .ok report) ∧ w.ValidatesSafely m ∧
      (w.isChangeable m = false → ∃ w', (Action.computeRound m).run w = .ok () w') := by
  have hclosed := h.ownershipClosed m
  have hw := h.reachable.wellFormed
  have hviolations := violations_eq_brokenRules hw (hclosed.readsWithin hw.members)
  refine ⟨hclosed, ⟨_, by rw [report, hviolations]; rfl⟩, ?_, fun hlocked => ?_⟩
  · have hvalidate := Action.run_validate w m
    rw [firstProblem?_eq hviolations] at hvalidate
    cases hhead : (w.brokenRules (w.model m)).head? with
    | none =>
        rw [hhead] at hvalidate
        exact Or.inl hvalidate
    | some v =>
        rw [hhead] at hvalidate
        exact Or.inr ⟨v, hvalidate, by cases v <;> exact List.mem_cons_self⟩
  · rcases (h.steppable hlocked).run_computeRound hw hlocked with ⟨_, _, w', hrun, _⟩
    exact ⟨w', hrun⟩

/-- A tank that loses an auxiliary and a rate again, and is then locked. -/
def dismantledSession : List Operation :=
  let m : ModelId := ⟨0⟩
  let leaf (index : Nat) : Argument := .node ⟨index⟩
  [.newModel (.text "Tank"), .createLevel m (.text "Water") (.integer 8), .createSourceSink m,
    .createConstant m (.text "Share") (.integer 2), .createAuxiliary m (.text "Gap"),
    .createRate m (.text "Fill"), .createRate m (.text "Drain"),
    .setFormula m (leaf 3) (.apply .subtract (leaf 0) (leaf 2)), .setFormula m (leaf 4) (leaf 3),
    .addFlow m .sourceSinkToRate (leaf 1) (leaf 4), .addFlow m .rateToLevel (leaf 4) (leaf 0),
    .addFlow m .levelToRate (leaf 0) (leaf 5), .addFlow m .rateToSourceSink (leaf 5) (leaf 1),
    .removeNode m (leaf 3), .setFormula m (leaf 4) (leaf 2), .removeNode m (leaf 3),
    .removeNode m (leaf 5), .removeNode m .absent, .lock m]

/-- A model that was built and dismantled in part is closed, and validates and runs safely. -/
theorem closed_and_safe_dismantled :
    (World.run {} dismantledSession).OwnershipClosed ⟨0⟩ ∧
      (∃ report, (World.run {} dismantledSession).report
        ((World.run {} dismantledSession).model ⟨0⟩) = .ok report) ∧
      (World.run {} dismantledSession).ValidatesSafely ⟨0⟩ ∧
      ∃ w', (Action.computeRound ⟨0⟩).run (World.run {} dismantledSession) = .ok () w' := by
  rcases ReachableWithin.closed_and_safe
    (ReachableWithin.start.run (by decide +kernel : AllStayWithin {} dismantledSession)) ⟨0⟩ with
    ⟨hclosed, hreport, hvalidates, hround⟩
  exact ⟨hclosed, hreport, hvalidates, hround (by decide +kernel)⟩

end World
end StockFlow
