import Mathlib.Data.List.Find
import StockFlow.Proofs.Formula.Renaming
import StockFlow.Proofs.Service.Elements
import StockFlow.Proofs.World.Mirrors

/-!
# Reordered elements

The elements of a drawn model have no order of their own, but they are built in the order
of a list, and in this order the nodes are numbered.  Two models under construction whose
elements came in different orders mirror each other all the same, and so they do after
each further step: the connections are the same, ids lead to the same elements, and the
formula texts are read alike.

Main definitions:

- {lit}`ModelData.Reorders`: data that differs in the order of its elements only.
- {lit}`Built.Mirrors`: two models under construction that mirror each other.

Main results:

- Theorem {lit}`Built.Begun.exists_mirrors`: the same elements, added in different orders.
- Theorem {lit}`Built.Mirrors.addConnection`: one more connection on both sides.
- Theorem {lit}`Built.Mirrors.addFormulas`: all formulas on both sides.
- Theorem {lit}`ModelData.Reorders.build`: both data make models, or none does.
-/

namespace StockFlow

/-- Whether data differs from other data in the order of its elements only. -/
structure ModelData.Reorders (data data' : ModelData) : Prop where
  name : data'.name = data.name
  elements : data'.elements.Perm data.elements
  connections : data'.connections = data.connections
  parameters : data'.parameters = data.parameters

theorem ModelData.Reorders.symm {data data' : ModelData} (h : data.Reorders data') :
    data'.Reorders data where
  name := h.name.symm
  elements := h.elements.symm
  connections := h.connections.symm
  parameters := h.parameters.symm

/-- A built element with its node renamed. -/
def BuiltElement.rename (φ : NodeId → NodeId) (x : BuiltElement) : BuiltElement :=
  { x with node := φ x.node }

/-- The rate of a path between renamed nodes. -/
theorem FlowPath.rateOf_map (path : FlowPath) (φ : NodeId → NodeId) (a b : NodeId) :
    path.rateOf (φ a) (φ b) = φ (path.rateOf a b) := by
  cases path <;> rfl

/-- Renaming nodes does not change which of two is the endpoint. -/
theorem FlowPath.endpointOf_map (path : FlowPath) (φ : NodeId → NodeId) (a b : NodeId) :
    path.endpointOf (φ a) (φ b) = φ (path.endpointOf a b) := by
  cases path <;> rfl

namespace Built

variable {data data' : ModelData} {φ : NodeId → NodeId} {b b' v v' : Built}

/-! ## Mirrored models under construction -/

/--
Whether two models under construction mirror each other: the built elements are the same
but for their order and their nodes.
-/
structure Mirrors (data data' : ModelData) (φ : NodeId → NodeId) (b b' : Built) : Prop where
  sound : Sound data b
  sound' : Sound data' b'
  listed : b.elements.map (·.element) = data.elements
  laid : b.Laid
  world : World.Mirrors φ b.world b.model b'.world b'.model
  elements : b'.elements.Perm (b.elements.map (BuiltElement.rename φ))

namespace Mirrors

variable (h : Mirrors data data' φ b b')

include h

/-- Every element has its renamed one in the other build. -/
theorem mem_elements {x : BuiltElement} (hx : x ∈ b.elements) : x.rename φ ∈ b'.elements :=
  h.elements.mem_iff.2 (List.mem_map_of_mem hx)

/-- Every element of the other build is a renamed one. -/
theorem exists_of_mem_elements {x' : BuiltElement} (hx' : x' ∈ b'.elements) :
    ∃ x ∈ b.elements, x.rename φ = x' :=
  List.mem_map.1 (h.elements.mem_iff.1 hx')

theorem nodup_ids : (b'.elements.map (·.element.id)).Nodup := by
  have hperm := h.elements.map (·.element.id)
  rw [List.map_map] at hperm
  exact hperm.nodup_iff.2 h.laid.ids

/-- The other build has a node of its own for each element. -/
theorem nodup_nodes : (b'.elements.map (·.node)).Nodup := by
  have hperm := h.elements.map (·.node)
  have hnodes : (b.elements.map (BuiltElement.rename φ)).map (·.node) =
      (b.elements.map (·.node)).map φ := by
    rw [List.map_map, List.map_map]
    rfl
  rw [hperm.nodup_iff, hnodes]
  refine h.laid.nodes.map_on fun n hn k hk => ?_
  rcases List.mem_map.1 hn with ⟨x, hx, rfl⟩
  rcases List.mem_map.1 hk with ⟨y, hy, rfl⟩
  exact (h.world.eq_iff (h.sound.mem_nodes hx) (h.sound.mem_nodes hy)).1

/-- What is looked for by an id, and found, is the same but for its node. -/
theorem find?_eq {p : BuiltElement → Bool} {id : Int}
    (hid : ∀ x, p x = true → x.element.id = id) (hrename : ∀ x, p (x.rename φ) = p x) :
    b'.elements.find? p = (b.elements.find? p).map (BuiltElement.rename φ) := by
  have hunique : {x ∈ b'.elements | p x}.Subsingleton := by
    rintro x ⟨hx, hpx⟩ y ⟨hy, hpy⟩
    exact List.inj_on_of_nodup_map h.nodup_ids hx hy ((hid x hpx).trans (hid y hpy).symm)
  have hp : p ∘ BuiltElement.rename φ = p := funext hrename
  rw [List.find?_eq_find?_of_perm h.elements hunique, List.find?_map, hp]

/-- Ids lead to elements that mirror each other. -/
theorem find?_id (id : Int) : b'.find? id = (b.find? id).map (BuiltElement.rename φ) :=
  h.find?_eq (fun _ hx => eq_of_beq hx) fun _ => rfl

/-- References in formula texts stand for nodes that mirror each other. -/
theorem table_eq : b'.table = b.table.rename φ := by
  funext kind id
  have hid : ∀ e : BuiltElement, (e.kind == kind.nodeKind && e.element.id == (id : Int)) = true →
      e.element.id = id := fun e he => eq_of_beq (Bool.and_eq_true_iff.1 he).2
  rw [table, h.find?_eq hid fun _ => rfl, Formula.Table.rename, table, Option.map_map,
    Option.map_map]
  rfl

end Mirrors

/-! ## Elements in different orders -/

/-- The node of the element with the id of a node's element. -/
def counterpart (b b' : Built) (n : NodeId) : NodeId :=
  (((b.elementId? n).bind b'.find?).map (·.node)).getD n

/-- Built elements of the same element differ in their nodes only, and these correspond. -/
theorem Laid.rename_counterpart (h : b.Laid) (h' : b'.Laid) {x x' : BuiltElement}
    (hx : x ∈ b.elements) (hx' : x' ∈ b'.elements) (heq : x.element = x'.element) :
    x.rename (counterpart b b') = x' := by
  have hkind : x.kind = x'.kind := by
    have htype := h.type x hx
    rw [heq, h'.type x' hx'] at htype
    exact (Option.some.inj htype).symm
  have hid : b.elementId? x.node = some x'.element.id := by
    rw [h.elementId?_eq hx, heq]
  have hnode : counterpart b b' x.node = x'.node := by
    rw [counterpart, hid, Option.bind_some, find?, find?_of_nodup h'.ids hx']
    rfl
  rw [BuiltElement.rename, hnode, heq, hkind]

/-- The same elements in another order were built as the same, but for their nodes. -/
theorem Laid.perm_counterpart (h : b.Laid) (h' : b'.Laid)
    (hperm : (b'.elements.map (·.element)).Perm (b.elements.map (·.element))) :
    b'.elements.Perm (b.elements.map (BuiltElement.rename (counterpart b b'))) := by
  have hids : ((b.elements.map (BuiltElement.rename (counterpart b b'))).map
      (·.element.id)).Nodup := by
    rw [List.map_map]
    exact h.ids
  rw [List.perm_ext_iff_of_nodup (.of_map _ h'.ids) (.of_map _ hids)]
  intro x'
  rw [List.mem_map]
  constructor
  · intro hx'
    rcases List.mem_map.1 (hperm.mem_iff.1 (List.mem_map_of_mem hx')) with ⟨x, hx, heq⟩
    exact ⟨x, hx, h.rename_counterpart h' hx hx' heq⟩
  · rintro ⟨x, hx, rfl⟩
    rcases List.mem_map.1 (hperm.mem_iff.2 (List.mem_map_of_mem hx)) with ⟨x', hx', heq⟩
    rwa [h.rename_counterpart h' hx hx' heq.symm]

/-- Renaming that leads from built elements to others is a bijection of the nodes. -/
theorem Laid.bijOn (h : b.Laid) (h' : b'.Laid)
    (helements : b'.elements.Perm (b.elements.map (BuiltElement.rename φ))) :
    Set.BijOn φ {n | n ∈ (b.world.model b.model).nodes}
      {n | n ∈ (b'.world.model b'.model).nodes} := by
  have hmem : ∀ x ∈ b.elements, x.rename φ ∈ b'.elements :=
    fun x hx => helements.mem_iff.2 (List.mem_map_of_mem hx)
  refine ⟨fun n hn => ?_, fun n hn k hk heq => ?_, fun n' hn' => ?_⟩
  · rcases h.mem_nodes_iff.1 hn with ⟨x, hx, rfl⟩
    exact h'.mem_nodes_iff.2 ⟨_, hmem x hx, rfl⟩
  · rcases h.mem_nodes_iff.1 hn with ⟨x, hx, rfl⟩
    rcases h.mem_nodes_iff.1 hk with ⟨y, hy, rfl⟩
    have hsame := List.inj_on_of_nodup_map h'.nodes (hmem x hx) (hmem y hy) heq
    have hid : x.element.id = y.element.id := congrArg (·.element.id) hsame
    rw [List.inj_on_of_nodup_map h.ids hx hy hid]
  · rcases h'.mem_nodes_iff.1 hn' with ⟨x', hx', rfl⟩
    rcases List.mem_map.1 (helements.mem_iff.1 hx') with ⟨x, hx, rfl⟩
    exact ⟨x.node, h.mem_nodes_iff.2 ⟨x, hx, rfl⟩, rfl⟩

/-- Models of the same elements mirror each other, in whatever order these were added. -/
theorem Begun.exists_mirrors (h : Begun data b) (h' : Begun data' b')
    (hlisted : b.elements.map (·.element) = data.elements)
    (hperm : (b'.elements.map (·.element)).Perm (b.elements.map (·.element))) :
    ∃ φ, Mirrors data data' φ b b' := by
  have helements := h.toLaid.perm_counterpart h'.toLaid hperm
  refine ⟨counterpart b b', h.toSound, h'.toSound, hlisted, h.toLaid,
    World.mirrors_of_new (h.toLaid.bijOn h'.toLaid helements) fun n hn => ?_, helements⟩
  rcases h.mem_nodes_iff.1 hn with ⟨x, hx, rfl⟩
  rcases h.fresh x hx with ⟨node, hnode, hworld⟩
  -- the element decides on the node, so its counterpart became the same one
  rcases h'.fresh _ (helements.mem_iff.2 (List.mem_map_of_mem hx)) with ⟨node', hnode', hworld'⟩
  have hsame : x.element.node? = some node' := hnode'
  rw [hnode] at hsame
  obtain rfl := Option.some.inj hsame
  exact ⟨node, ElementData.new_of_node? hnode, hworld, hworld'⟩

/-! ## Connections -/

/-- Steps that two related models take together are taken together for all items. -/
theorem exists_addAll_of_step {α : Type} {add : Built → α → Except BuildFailure Built}
    {r : Built → Built → Prop}
    (hstep : ∀ b b' a v, r b b' → add b a = .ok v → ∃ v', add b' a = .ok v' ∧ r v v')
    {items : List α} (h : r b b') (hadd : addAll add b items = .ok v) :
    ∃ v', addAll add b' items = .ok v' ∧ r v v' := by
  induction items generalizing b b' with
  | nil =>
      cases hadd
      exact ⟨b', rfl, h⟩
  | cons a rest ih =>
      rcases addAll_cons_eq_ok_iff.1 hadd with ⟨next, ha, hadd⟩
      rcases hstep b b' a next h ha with ⟨next', ha', hnext⟩
      rcases ih hnext hadd with ⟨v', hadd', hv⟩
      exact ⟨v', addAll_cons_eq_ok_iff.2 ⟨next', ha', hadd'⟩, hv⟩

/-- What is under construction, with a flow between two elements. -/
def withFlow (b : Built) (path : FlowPath) (source target : BuiltElement) : Built :=
  { b with
    world := b.world.connect path.side (path.rateOf source.node target.node)
      (path.endpointOf source.node target.node) }

section

variable (connection : Int) {source target : BuiltElement} {path : FlowPath}

/-- A flow joins a rate of the model with an endpoint of it. -/
theorem Sound.ends_of_path (hb : b.Sound data) (hsource : source ∈ b.elements)
    (htarget : target ∈ b.elements) (hpath : path? source.kind target.kind = some path) :
    path.rateOf source.node target.node ∈ (b.world.model b.model).rates ∧
      path.endpointOf source.node target.node ∈ (b.world.model b.model).nodes ∧
      b.world.isEndpoint (path.endpointOf source.node target.node) = true := by
  rcases accepts_of_path? hpath with ⟨hstart, hfinish⟩
  rcases World.ends_of_path (Action.fill_node (hb.kind?_eq hsource) hstart)
    (Action.fill_node (hb.kind?_eq htarget) hfinish) with ⟨hrate, hend⟩
  have hnodes : path.rateOf source.node target.node ∈ (b.world.model b.model).nodes ∧
      path.endpointOf source.node target.node ∈ (b.world.model b.model).nodes := by
    have hstartNode := hb.mem_nodes hsource
    have hfinishNode := hb.mem_nodes htarget
    cases path with
    | levelToRate => exact ⟨hfinishNode, hstartNode⟩
    | rateToLevel => exact ⟨hstartNode, hfinishNode⟩
    | sourceSinkToRate => exact ⟨hfinishNode, hstartNode⟩
    | rateToSourceSink => exact ⟨hstartNode, hfinishNode⟩
  exact ⟨hb.reachable.reachable.wellFormed.members.mem_members hnodes.1 hrate, hnodes.2, hend⟩

/-- A flow is added where the rate has no endpoint, and one that is there already is kept. -/
theorem Sound.addFlow_eq_ok_iff (hb : b.Sound data) (hsource : source ∈ b.elements)
    (htarget : target ∈ b.elements) (hpath : path? source.kind target.kind = some path) :
    b.addFlow connection source target = .ok v ↔
      (b.world.endpoint? path.side (path.rateOf source.node target.node) = none ∧
          v = b.withFlow path source target) ∨
        b.world.endpoint? path.side (path.rateOf source.node target.node) =
          some (path.endpointOf source.node target.node) ∧ v = b := by
  rcases accepts_of_path? hpath with ⟨hstart, hfinish⟩
  have hrun := Action.run_addFlow_eq hb.changeable (Action.fill_node (hb.kind?_eq hsource) hstart)
    (Action.fill_node (hb.kind?_eq htarget) hfinish)
  rw [addFlow, hpath]
  cases hend : b.world.endpoint? path.side (path.rateOf source.node target.node) with
  | none =>
      rw [hend] at hrun
      simp only [perform, hrun, bind, Except.bind, if_true, pure, Except.pure]
      simp [withFlow, eq_comm]
  | some old =>
      rw [hend] at hrun
      simp only [perform, hrun, bind, Except.bind, pure, Except.pure]
      by_cases hold : old = path.endpointOf source.node target.node
      · subst hold
        simp only [decide_true, if_true, Except.ok.injEq, reduceCtorEq, false_and, true_and,
          false_or]
        exact eq_comm
      · simp [hold]

/-- A flow that is added keeps a build sound. -/
theorem Sound.of_addFlow (hb : b.Sound data) (hsource : source ∈ b.elements)
    (htarget : target ∈ b.elements) (hadd : b.addFlow connection source target = .ok v) :
    v.Sound data := by
  have hends : Ends (Sound data) (fun _ => False) (b.addFlow connection source target) :=
    ends_addFlow hb connection hsource htarget
  rwa [hadd] at hends

namespace Mirrors

/-- A flow that one side takes is taken by the other. -/
theorem addFlow (h : Mirrors data data' φ b b') (hsource : source ∈ b.elements)
    (htarget : target ∈ b.elements) (hadd : b.addFlow connection source target = .ok v) :
    ∃ v', b'.addFlow connection (source.rename φ) (target.rename φ) = .ok v' ∧
      Mirrors data data' φ v v' := by
  cases hpath : path? source.kind target.kind with
  | none =>
      rw [Built.addFlow, hpath] at hadd
      cases hadd
  | some path =>
      have hsource' := h.mem_elements hsource
      have htarget' := h.mem_elements htarget
      obtain ⟨hr, hnode, hend⟩ := h.sound.ends_of_path hsource htarget hpath
      have hends := h.world.endpoint path.side _ hr
      rw [← path.rateOf_map φ] at hends
      have hiff := fun v' =>
        h.sound'.addFlow_eq_ok_iff (v := v') connection hsource' htarget' hpath
      rcases (h.sound.addFlow_eq_ok_iff connection hsource htarget hpath).1 hadd with
        ⟨hfree, rfl⟩ | ⟨hold, rfl⟩
      · rw [hfree, Option.map_none] at hends
        have hadd' := (hiff _).2 (Or.inl ⟨hends, rfl⟩)
        refine ⟨_, hadd', h.sound.of_addFlow connection hsource htarget hadd,
          h.sound'.of_addFlow connection hsource' htarget' hadd', h.listed, ?_, ?_, h.elements⟩
        · have hsame := World.sameUpToFlows_connect b.world path.side
            (path.rateOf source.node target.node) (path.endpointOf source.node target.node)
          exact h.laid.of_same rfl (hsame.model b.model) hsame.nameOf
        · have hworld := h.world.connect h.sound.reachable.reachable.wellFormed
            h.sound'.reachable.reachable.wellFormed hr hnode hend hfree
          rwa [← path.rateOf_map φ, ← path.endpointOf_map φ] at hworld
      · rw [hold, Option.map_some, ← path.endpointOf_map φ] at hends
        exact ⟨b', (hiff b').2 (Or.inr ⟨hends, rfl⟩), h⟩

/-- A connection that one side takes is taken by the other. -/
theorem addConnection (h : Mirrors data data' φ b b') {c : ConnectionData}
    (hadd : b.addConnection c = .ok v) :
    ∃ v', b'.addConnection c = .ok v' ∧ Mirrors data data' φ v v' := by
  rw [Built.addConnection] at hadd
  rw [Built.addConnection]
  split at hadd
  · rename_i hdependency
    cases hadd
    exact ⟨b', by rw [if_pos hdependency], h⟩
  · rename_i hdependency
    rw [if_neg hdependency]
    split at hadd
    · cases hadd
    · rename_i hflow
      rw [if_neg hflow, h.find?_id, h.find?_id]
      split at hadd
      · cases hadd
      · cases hadd
      · rename_i source target hsource htarget
        rw [hsource, htarget]
        exact h.addFlow c.id (mem_of_find? hsource) (mem_of_find? htarget) hadd

/-- The connections that one side takes are taken by the other. -/
theorem addConnections (h : Mirrors data data' φ b b') {connections : List ConnectionData}
    (hadd : addAll Built.addConnection b connections = .ok v) :
    ∃ v', addAll Built.addConnection b' connections = .ok v' ∧ Mirrors data data' φ v v' :=
  exists_addAll_of_step (fun _ _ _ _ h hadd => h.addConnection hadd) h hadd

end Mirrors

end

/-! ## Formulas -/

/-- The formula that the text of an element writes; none if nothing is to be set. -/
def formulaFor (b : Built) (x : BuiltElement) : Except ReadError (Option (Formula NodeId)) :=
  if !x.kind.hasFormula || (x.element.formula.getD "").isEmpty then .ok none
  else (Formula.ofText b.table (x.element.formula.getD "")).map some

/-- The model that comes of setting a formula, or of leaving things as they are. -/
def withFormula? (b : Built) (x : BuiltElement) : Option (Formula NodeId) → Built
  | some f => b.withFormula x f
  | none => b

/-- The formula of an element is added if it can be read. -/
theorem Sound.addFormula_eq_ok_iff (hb : b.Sound data) {x : BuiltElement} (hx : x ∈ b.elements) :
    b.addFormula x = .ok v ↔ ∃ f, b.formulaFor x = .ok f ∧ v = b.withFormula? x f := by
  rw [addFormula, formulaFor]
  dsimp only
  split
  · simp [withFormula?, eq_comm]
  · rename_i hformula
    rw [Bool.or_eq_true, not_or, Bool.not_eq_true', Bool.not_eq_false] at hformula
    rcases Formula.settles_ofText (fun _ _ _ => hb.of_table) (x.element.formula.getD "") with
      ⟨f, hf, hleaves⟩ | ⟨error, herror, _⟩
    · rw [hf]
      simp only [(hb.setFormula hx hformula.1 hleaves).1]
      simp [Except.map, withFormula?, bind, Except.bind, pure, Except.pure, eq_comm]
    · rw [herror]
      simp only [Except.map, reduceCtorEq, false_and, exists_false, iff_false]
      split <;> simp

/-- Formulas are read alike as long as the elements are the same. -/
theorem formulaFor_congr (h : v.elements = b.elements) : v.formulaFor = b.formulaFor := by
  funext x
  rw [formulaFor, formulaFor, table_congr h]

/-- What becomes of a model where the formulas of some elements are set. -/
structure Formed (b : Built) (items : List BuiltElement) (v : Built) : Prop where
  elements : v.elements = b.elements
  model : v.model = b.model
  same : World.SameUpToFormulas b.world v.world
  set : ∀ x ∈ items, ∃ f, b.formulaFor x = .ok f ∧
    v.world.formula? x.node = f.or (b.world.formula? x.node)
  others : ∀ n ∉ items.map (·.node), v.world.formula? n = b.world.formula? n

theorem formed_nil (b : Built) : Formed b [] b :=
  ⟨rfl, rfl, World.SameUnder.refl _ _, fun _ hx => (List.not_mem_nil hx).elim, fun _ _ => rfl⟩

/-- Adding a formula gives one element its formula, and changes no other. -/
theorem Sound.formed_withFormula? (hb : b.Sound data) {x : BuiltElement} (hx : x ∈ b.elements)
    {f : Option (Formula NodeId)} (hf : b.formulaFor x = .ok f) :
    Formed b [x] (b.withFormula? x f) := by
  cases f with
  | none =>
      refine ⟨rfl, rfl, World.SameUnder.refl _ _, fun y hy => ⟨none, ?_, rfl⟩, fun _ _ => rfl⟩
      rw [List.mem_singleton.1 hy, hf]
  | some f =>
      have hkind : x.kind.hasFormula = true := by
        rw [formulaFor] at hf
        split at hf
        · cases hf
        · rename_i hformula
          rw [Bool.or_eq_true, not_or, Bool.not_eq_true', Bool.not_eq_false] at hformula
          exact hformula.1
      refine ⟨rfl, rfl, World.sameUpToFormulas_setFormula _ _ _, fun y hy => ⟨some f, ?_, ?_⟩,
        fun n hn => ?_⟩
      · rw [List.mem_singleton.1 hy, hf]
      · rw [List.mem_singleton.1 hy]
        exact World.formula?_setFormula (hb.kind?_eq hx) hkind (some f)
      · have hne : x.node ≠ n := fun heq => hn (List.mem_singleton.2 heq.symm)
        rw [withFormula?, withFormula, World.formula?, World.node?_updateNode_of_ne _ hne,
          World.formula?]

/-- What is set first is kept where other elements follow. -/
theorem Formed.cons {x : BuiltElement} {rest : List BuiltElement} (h : Formed b [x] v)
    {u : Built} (hrest : Formed v rest u) (hx : x.node ∉ rest.map (·.node)) :
    Formed b (x :: rest) u where
  elements := hrest.elements.trans h.elements
  model := hrest.model.trans h.model
  same := h.same.trans hrest.same
  set y hy := by
    rcases List.mem_cons.1 hy with rfl | hy
    · rw [hrest.others _ hx]
      exact h.set _ (List.mem_singleton_self _)
    · rcases hrest.set y hy with ⟨f, hf, hset⟩
      have hne : y.node ∉ [x].map (·.node) := by
        intro hmem
        have heq : y.node = x.node := by simpa using hmem
        exact hx (heq ▸ List.mem_map_of_mem hy)
      rw [formulaFor_congr h.elements] at hf
      rw [h.others _ hne] at hset
      exact ⟨f, hf, hset⟩
  others n hn := by
    rw [List.map_cons, List.mem_cons, not_or] at hn
    rw [hrest.others n hn.2, h.others n (by simpa using hn.1)]

section

variable {items : List BuiltElement} (hb : b.Sound data) (hitems : ∀ x ∈ items, x ∈ b.elements)

include hb hitems

/-- All formulas that are added belong to their elements, in whatever order. -/
theorem Sound.of_addFormulas (hnodup : (items.map (·.node)).Nodup)
    (hadd : addAll addFormula b items = .ok v) : v.Sound data ∧ Formed b items v := by
  induction items generalizing b with
  | nil =>
      cases hadd
      exact ⟨hb, formed_nil _⟩
  | cons x rest ih =>
      rcases addAll_cons_eq_ok_iff.1 hadd with ⟨next, hnext, hadd⟩
      have hx := hitems x List.mem_cons_self
      have hends := ends_addFormula ⟨hb, rfl⟩ hx
      rw [hnext] at hends
      rcases (hb.addFormula_eq_ok_iff hx).1 hnext with ⟨f, hf, rfl⟩
      have hformed := hb.formed_withFormula? hx hf
      rw [List.map_cons, List.nodup_cons] at hnodup
      have hrest := ih hends.1 (fun y hy => by
        rw [hformed.elements]
        exact hitems y (List.mem_cons_of_mem x hy)) hnodup.2 hadd
      exact ⟨hrest.1, hformed.cons hrest.2 hnodup.1⟩

/-- All formulas are added if each of them can be read. -/
theorem Sound.exists_addFormulas (hf : ∀ x ∈ items, ∃ f, b.formulaFor x = .ok f) :
    ∃ v, addAll addFormula b items = .ok v := by
  induction items generalizing b with
  | nil => exact ⟨b, rfl⟩
  | cons x rest ih =>
      have hx := hitems x List.mem_cons_self
      rcases hf x List.mem_cons_self with ⟨f, hfx⟩
      have hnext := (hb.addFormula_eq_ok_iff hx).2 ⟨f, hfx, rfl⟩
      have hends := ends_addFormula ⟨hb, rfl⟩ hx
      rw [hnext] at hends
      have hformed := hb.formed_withFormula? hx hfx
      rw [addAll_cons, hnext]
      refine ih hends.1 (fun y hy => ?_) fun y hy => ?_
      · rw [hformed.elements]
        exact hitems y (List.mem_cons_of_mem x hy)
      · rw [formulaFor_congr hformed.elements]
        exact hf y (List.mem_cons_of_mem x hy)

end

namespace Mirrors

/-- The formulas of elements that mirror each other mirror each other. -/
theorem formulaFor_rename (h : Mirrors data data' φ b b') (x : BuiltElement) :
    b'.formulaFor (x.rename φ) =
      (b.formulaFor x).map (Option.map (Formula.map φ)) := by
  rw [formulaFor, formulaFor, h.table_eq, Formula.ofText_map, BuiltElement.rename]
  dsimp only
  split
  · rfl
  · cases Formula.ofText b.table (x.element.formula.getD "") <;> rfl

/-- The formulas that one side takes are taken by the other. -/
theorem addFormulas (h : Mirrors data data' φ b b')
    (hadd : addAll addFormula b b.elements = .ok v) :
    ∃ v', addAll addFormula b' b'.elements = .ok v' ∧ Mirrors data data' φ v v' := by
  -- the sides go through their elements in different orders, so they are not in lockstep:
  -- on each side every formula is the one that its text writes, and texts are read alike
  obtain ⟨hv, hformed⟩ := h.sound.of_addFormulas (fun _ hx => hx) h.laid.nodes hadd
  have hread : ∀ x' ∈ b'.elements, ∃ f, b'.formulaFor x' = .ok f := by
    intro x' hx'
    rcases h.exists_of_mem_elements hx' with ⟨x, hx, rfl⟩
    rcases hformed.set x hx with ⟨f, hf, _⟩
    rw [h.formulaFor_rename, hf]
    exact ⟨_, rfl⟩
  rcases h.sound'.exists_addFormulas (fun _ hx => hx) hread with ⟨v', hadd'⟩
  obtain ⟨hv', hformed'⟩ := h.sound'.of_addFormulas (fun _ hx => hx) h.nodup_nodes hadd'
  obtain ⟨helements, hmodel, hsame, hset, _⟩ := hformed
  obtain ⟨helements', hmodel', hsame', hset', _⟩ := hformed'
  cases v with | mk w m elements =>
  cases v' with | mk w' m' elements' =>
  dsimp only at helements hmodel hsame hset helements' hmodel' hsame' hset'
  subst helements hmodel helements' hmodel'
  refine ⟨_, hadd', hv, hv', h.listed, ?_, ?_, h.elements⟩
  · exact h.laid.of_same rfl (hsame.model b.model) hsame.nameOf
  · refine h.world.of_formula hsame hsame' fun n hn => ?_
    rcases h.laid.mem_nodes_iff.1 (Model.mem_nodes_of_mem_formulaOwners hn) with ⟨x, hx, rfl⟩
    rcases hset x hx with ⟨f, hf, hformula⟩
    rcases hset' _ (h.mem_elements hx) with ⟨f', hf', hformula'⟩
    rw [h.formulaFor_rename, hf] at hf'
    cases hf'
    have hold := h.world.formula _ hn
    rw [BuiltElement.rename] at hformula'
    rw [hformula', hold, hformula]
    cases f <;> rfl

end Mirrors

end Built

/-! ## Whole models -/

/-- Where data makes a model, reordered data makes one that mirrors it. -/
theorem ModelData.Reorders.build {data data' : ModelData} (h : data.Reorders data') {v : Built}
    (hbuild : data.build = .ok v) :
    ∃ v' φ, data'.build = .ok v' ∧ Built.Mirrors data data' φ v v' := by
  simp only [ModelData.build, bind_eq_ok_iff] at hbuild
  rcases hbuild with ⟨b, hnodes, u, hflows, hformulas⟩
  have hstart := Built.begun_start data (nameValue data.name)
  have hstart' := Built.begun_start data' (nameValue data'.name)
  obtain ⟨hb, helements⟩ := hstart.of_addAll (fun _ he => he) hnodes
  rw [List.map_nil, List.nil_append] at helements
  have hnode : ∀ e ∈ data'.elements, ∃ node, e.node? = some node := by
    intro e he
    rw [h.elements.mem_iff, ← helements] at he
    rcases List.mem_map.1 he with ⟨x, hx, rfl⟩
    rcases hb.fresh x hx with ⟨node, hnode, _⟩
    exact ⟨node, hnode⟩
  have hids : (data'.elements.map (·.id)).Nodup := by
    rw [(h.elements.map (·.id)).nodup_iff, ← helements, List.map_map]
    exact hb.ids
  rcases hstart'.exists_addAll (fun _ he => he) hnode hids with ⟨b', hnodes'⟩
  obtain ⟨hb', helements'⟩ := hstart'.of_addAll (fun _ he => he) hnodes'
  rw [List.map_nil, List.nil_append] at helements'
  have hperm : (b'.elements.map (·.element)).Perm (b.elements.map (·.element)) := by
    rw [helements, helements']
    exact h.elements
  rcases hb.exists_mirrors hb' helements hperm with ⟨φ, hmirrors⟩
  rcases hmirrors.addConnections hflows with ⟨u', hflows', hmirrors'⟩
  rcases hmirrors'.addFormulas hformulas with ⟨v', hformulas', hlast⟩
  refine ⟨v', φ, ?_, hlast⟩
  simp only [ModelData.build, bind_eq_ok_iff, h.connections]
  exact ⟨b', hnodes', u', hflows', hformulas'⟩

end StockFlow
