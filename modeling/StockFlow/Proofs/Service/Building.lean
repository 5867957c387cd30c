import StockFlow.Proofs.Formula.Breakdowns
import StockFlow.Proofs.Service.Places
import StockFlow.Proofs.World.Ownership
import StockFlow.Service.Build

/-!
# Models under construction

A model is built from data by operations that are handed its own nodes only, so what
holds in sessions that stay within models holds of it.  None of the operations can
fail but for a value out of range, which is a refusal; a fault of another family
arises only where reading a formula breaks down.

Main definitions:

- {lit}`Built.newNode?`: the node that is made of an element.
- {lit}`Built.Sound`: what is under construction is a model of nodes for elements of the data.
- {lit}`Built.Ends`: building ends with a model, a refusal, or a fault that has its reason.
- {lit}`ModelData.Overtaxes`: the formula texts of the data for which reading breaks down.

Main results:

- Theorem {lit}`Built.run_creation`: creating the node of an element.
- Theorem {lit}`Built.ends_addAll`: what one step keeps and fails with, all of them do.
- Theorem {lit}`ModelData.ends_build`: how building a model ends.
- Theorem {lit}`ModelData.ofText_of_build`: which formula texts a model is built of.
-/

namespace StockFlow

/-! ## Operations whose arguments pass their checks -/

/-- Operations that create a node are given no node. -/
theorem Operation.Creates.arguments_eq {op : Operation} {m : ModelId} {node : Node}
    (h : op.Creates m node) : op.arguments = [] := by
  cases h <;> rfl

namespace Action

variable {w : World} {m : ModelId}

/-- A formula over nodes that formulas read is set as it is. -/
theorem formulaOf_ofFormula {f : Formula NodeId} (hf : ∀ n ∈ f.leaves, w.isLeaf n = true) :
    formulaOf w (.ofFormula f) = .ok (some f) := by
  have hleaf : ∀ n ∈ f.leaves, (Entity.node n).leaf w "clone" = .ok n := by
    intro n hn
    rw [Entity.leaf, if_pos (hf n hn)]
  cases f with
  | leaf n =>
      have hn := hleaf n (List.mem_singleton_self n)
      rw [Argument.ofFormula, Formula.map, formulaOf, hn]
      intro h
      cases h
  | apply op l r =>
      have hformula : Argument.formula w "clone" (Argument.ofFormula (.apply op l r)) =
          .ok (Formula.map id (.apply op l r)) := Formula.mapExcept_map hleaf
      rw [Formula.map_id] at hformula
      exact congrArg (Except.map some) hformula

/-- A formula whose owner and leaves pass their checks is set. -/
theorem run_setFormula {a b : Argument} {n : NodeId} {f : Option (Formula NodeId)}
    (hc : w.isChangeable m = true) (hn : fill w .formulaOwner a = .ok n)
    (hf : formulaOf w b = .ok f) :
    (setFormula m a b).run w = .ok () (w.updateNode n (Node.setFormula f)) := by
  rw [setFormula, run_requireChangeable_bind hc, run_require_bind hn, run_get_bind, hf]
  rfl

/-- A flow between nodes of the right kinds is added, or is kept as it is. -/
theorem run_addFlow {path : FlowPath} {start finish : Argument} {a b : NodeId}
    (hc : w.isChangeable m = true) (ha : fill w path.startRole start = .ok a)
    (hb : fill w path.finishRole finish = .ok b) :
    ∃ flag w', (addFlow m path start finish).run w = .ok flag w' ∧ ∀ k, w'.model k = w.model k := by
  rw [run_addFlow_eq hc ha hb]
  cases w.endpoint? path.side (path.rateOf a b) with
  | none => exact ⟨true, _, rfl, (World.sameUpToFlows_connect ..).model⟩
  | some old => exact ⟨_, w, rfl, fun _ => rfl⟩

end Action

namespace Built

variable {data : ModelData} {b : Built}

/-! ## Creating nodes -/

/-- Whether an action creates a node of a kind, as an operation of a session does. -/
def CreatesNode (w : World) (m : ModelId) (kind : NodeKind) (x : Action NodeId) : Prop :=
  ∃ op node, Operation.Creates op m node ∧ node.kind = kind ∧
    x.run w = .ok w.nextNode (w.withNew m node) ∧ w.step op = w.withNew m node

/-- An operation that creates a node by its effect does so when it runs. -/
theorem createsNode_of_run {w : World} {m : ModelId} {op : Operation} {node : Node}
    {x : Action NodeId} (hop : op.Creates m node) (hx : Action.perform op = Outcome.node <$> x)
    (hrun : x.run w = .ok w.nextNode (w.withNew m node)) : CreatesNode w m node.kind x := by
  have hperform : (Action.perform op).run w = .ok (.node w.nextNode) (w.withNew m node) := by
    rw [hx, Action.run_map, hrun]
  exact ⟨op, node, hop, rfl, hrun, World.step_of_ok hperform⟩

/-- The node of a kind that is made of an element, if its value lies within the bounds. -/
def newNode? (kind : NodeKind) (e : ElementData) (name : String) : Option Node :=
  match kind with
  | .level => (checkBounds (valueOf e)).toOption.map fun x =>
      .level { name, start := x, current := x }
  | .constant => (checkBounds (valueOf e)).toOption.map fun value => .constant { name, value }
  | .rate => some (.rate { name })
  | .auxiliary => some (.auxiliary { name })
  | .sourceSink => some (.sourceSink {})

/-- An element's node is created, unless its value is out of range. -/
theorem run_creation {w : World} {m : ModelId} (hc : w.isChangeable m = true) (kind : NodeKind)
    (e : ElementData) (name : String) :
    (creation m kind e name).run w =
      match newNode? kind e name with
      | some node => .ok w.nextNode (w.withNew m node)
      | none => .error (.outOfRange lowestValue highestValue) w := by
  cases kind with
  | level =>
      rw [creation, Action.createLevel, Action.run_requireChangeable_bind hc, newNode?, checkName,
        checkNumber, checkBounds]
      split <;> rfl
  | constant =>
      rw [creation, Action.createConstant, Action.run_requireChangeable_bind hc, newNode?,
        checkName, checkNumber, checkBounds]
      split <;> rfl
  | rate =>
      rw [creation, Action.createRate, Action.run_requireChangeable_bind hc]
      rfl
  | auxiliary =>
      rw [creation, Action.createAuxiliary, Action.run_requireChangeable_bind hc]
      rfl
  | sourceSink =>
      rw [creation, Action.createSourceSink, Action.run_requireChangeable_bind hc]
      rfl

/-- An element with the values of its kind is created by the operation for that kind. -/
theorem exists_creates {kind : NodeKind} {e : ElementData} {name : String} {node : Node}
    (m : ModelId) (h : newNode? kind e name = some node) :
    ∃ op, Operation.Creates op m node ∧
      Action.perform op = Outcome.node <$> creation m kind e name ∧ node.kind = kind := by
  have hname : checkName (.text name) = .ok name := rfl
  have hvalue : ∀ x, (checkBounds (valueOf e)).toOption = some x →
      checkNumber (.real (valueOf e)) = .ok x := by
    intro x hx
    rw [checkNumber]
    cases hbounds : checkBounds (valueOf e) with
    | ok y =>
        rw [hbounds] at hx
        rw [Option.some.inj hx]
    | error fault =>
        rw [hbounds] at hx
        cases hx
  cases kind with
  | level =>
      rcases Option.map_eq_some_iff.1 h with ⟨x, hx, rfl⟩
      exact ⟨_, .level hname (hvalue x hx), rfl, rfl⟩
  | constant =>
      rcases Option.map_eq_some_iff.1 h with ⟨x, hx, rfl⟩
      exact ⟨_, .constant hname (hvalue x hx), rfl, rfl⟩
  | rate =>
      cases h
      exact ⟨_, .rate hname, rfl, rfl⟩
  | auxiliary =>
      cases h
      exact ⟨_, .auxiliary hname, rfl, rfl⟩
  | sourceSink =>
      cases h
      exact ⟨_, .sourceSink, rfl, rfl⟩

/-- Creating an element succeeds, unless its value is out of range. -/
theorem creation_cases {w : World} {m : ModelId} (hc : w.isChangeable m = true) (kind : NodeKind)
    (e : ElementData) (name : String) :
    CreatesNode w m kind (creation m kind e name) ∨
      ∃ low high, (creation m kind e name).run w = .error (.outOfRange low high) w := by
  have hrun := run_creation hc kind e name
  cases hnode : newNode? kind e name with
  | none =>
      rw [hnode] at hrun
      exact Or.inr ⟨_, _, hrun⟩
  | some node =>
      rw [hnode] at hrun
      rcases exists_creates m hnode with ⟨op, hop, hperform, rfl⟩
      exact Or.inl (createsNode_of_run hop hperform hrun)

/-! ## What building keeps -/

/--
Whether what is under construction is a model that a session of its own led to, with a
node of the right kind for every element, which are elements of the data.
-/
structure Sound (data : ModelData) (b : Built) : Prop where
  reachable : b.world.ReachableWithin
  changeable : b.world.isChangeable b.model = true
  source : ∀ e ∈ b.elements, e.element ∈ data.elements
  member : ∀ e ∈ b.elements, e.node ∈ (b.world.model b.model).members e.kind

/-- Every element that was built has the node of its kind. -/
theorem Sound.kind?_eq (hb : b.Sound data) {e : BuiltElement} (he : e ∈ b.elements) :
    b.world.kind? e.node = some e.kind :=
  hb.reachable.reachable.wellFormed.members.kind b.model e.kind e.node (hb.member e he)

/-- Every element that was built has its node in the model. -/
theorem Sound.mem_nodes (hb : b.Sound data) {e : BuiltElement} (he : e ∈ b.elements) :
    e.node ∈ (b.world.model b.model).nodes :=
  Model.mem_nodes_of_mem_members e.kind (hb.member e he)

/-- References in formula texts stand for nodes of the model that formulas read. -/
theorem Sound.of_table (hb : b.Sound data) {kind : ReferenceKind} {id : Nat} {n : NodeId}
    (hn : b.table kind id = some n) :
    n ∈ (b.world.model b.model).nodes ∧ b.world.isLeaf n = true := by
  rw [table, Option.map_eq_some_iff] at hn
  rcases hn with ⟨e, hfind, rfl⟩
  have he := List.mem_of_find?_eq_some hfind
  have hkind := List.find?_some hfind
  rw [Bool.and_eq_true, beq_iff_eq] at hkind
  refine ⟨hb.mem_nodes he, ?_⟩
  rw [World.isLeaf, hb.kind?_eq he, hkind.1]
  cases kind <;> rfl

/-- One more node for an element of the data. -/
theorem Sound.withNew (hb : b.Sound data) {op : Operation} {node : Node} {e : ElementData}
    (he : e ∈ data.elements) (hop : op.Creates b.model node)
    (hstep : b.world.step op = b.world.withNew b.model node) :
    Sound data
      { b with
        world := b.world.withNew b.model node
        elements := b.elements ++ [{ element := e, kind := node.kind, node := b.world.nextNode }] }
    where
  reachable := by
    rw [← hstep]
    refine hb.reachable.step fun m _ a ha => ?_
    rw [hop.arguments_eq] at ha
    cases ha
  changeable := by
    rw [World.isChangeable, World.model_withNew hb.changeable, if_pos rfl,
      Model.changeable_mapMembers]
    exact hb.changeable
  source x hx := by
    rcases List.mem_append.1 hx with hx | hx
    · exact hb.source x hx
    · rw [List.mem_singleton.1 hx]
      exact he
  member x hx := by
    rw [World.MembersMatch.members_withNew hb.changeable]
    rcases List.mem_append.1 hx with hx | hx
    · split
      · exact List.mem_append_left _ (hb.member x hx)
      · exact hb.member x hx
    · rw [List.mem_singleton.1 hx, if_pos ⟨rfl, rfl⟩]
      exact List.mem_append_right _ (List.mem_singleton_self _)

/-- An operation that is handed nodes of the model and leaves the lists of nodes as they are. -/
theorem Sound.of_step (hb : b.Sound data) {op : Operation} {world : World}
    (hop : b.world.StaysWithin op) (hstep : b.world.step op = world)
    (hmodel : world.model b.model = b.world.model b.model) :
    Sound data { b with world } where
  reachable := by
    rw [← hstep]
    exact hb.reachable.step hop
  changeable := by
    rw [World.isChangeable, hmodel]
    exact hb.changeable
  source := hb.source
  member e he := by
    rw [hmodel]
    exact hb.member e he

/-! ## How building ends -/

/--
Whether building ends as expected: with a model that has a property, with a refusal, or
with a fault for which there is a reason.
-/
def Ends (good : Built → Prop) (reason : Fault → Prop) (x : Except BuildFailure Built) : Prop :=
  match x with
  | .ok b => good b
  | .error (.refused _) => True
  | .error (.failed fault) => reason fault

variable {good good' : Built → Prop} {reason : Fault → Prop}

/-- An end is good under a weaker condition as well. -/
theorem Ends.imp {x : Except BuildFailure Built} (h : Ends good reason x)
    (hgood : ∀ b, good b → good' b) : Ends good' reason x := by
  cases x with
  | ok b => exact hgood b h
  | error failure =>
      cases failure with
      | refused r => trivial
      | failed fault => exact h

/-- Two builds in turn come to a good end if each of them does. -/
theorem Ends.bind {x : Except BuildFailure Built} {f : Built → Except BuildFailure Built}
    (h : Ends good reason x) (hf : ∀ b, good b → Ends good' reason (f b)) :
    Ends good' reason (x.bind f) := by
  cases x with
  | ok b => exact hf b h
  | error failure =>
      cases failure with
      | refused r => trivial
      | failed fault => exact h

/-- What one step keeps and fails with, all of them do. -/
theorem ends_addAll {α : Type} {add : Built → α → Except BuildFailure Built} {items : List α}
    (hadd : ∀ b, good b → ∀ a ∈ items, Ends good reason (add b a)) (hb : good b) :
    Ends good reason (addAll add b items) := by
  induction items generalizing b with
  | nil => exact hb
  | cons a rest ih =>
      rw [addAll_cons]
      refine (hadd b hb a List.mem_cons_self).bind fun next hnext => ?_
      exact ih (fun b hb x hx => hadd b hb x (List.mem_cons_of_mem a hx)) hnext

/-- An element is added or refused. -/
theorem ends_addElement (hb : b.Sound data) {e : ElementData} (he : e ∈ data.elements) :
    Ends (Sound data) reason (b.addElement e) := by
  rw [addElement]
  split
  · trivial
  · split
    · trivial
    · rename_i kind _
      dsimp only
      split
      · trivial
      · rcases creation_cases hb.changeable kind e (e.name.getD "") with
          ⟨op, node, hop, rfl, hrun, hstep⟩ | ⟨low, high, hrun⟩
        · rw [hrun]
          exact hb.withNew he hop hstep
        · rw [hrun]
          trivial

/-- The ends of a path between two kinds of node may be nodes of these kinds. -/
theorem accepts_of_path? {source target : NodeKind} {path : FlowPath}
    (h : path? source target = some path) :
    path.startRole.accepts source = true ∧ path.finishRole.accepts target = true := by
  unfold path? at h
  split at h <;> cases h <;> exact ⟨rfl, rfl⟩

/-- A flow between elements that were built is added or refused. -/
theorem ends_addFlow (hb : b.Sound data) (connection : Int) {source target : BuiltElement}
    (hsource : source ∈ b.elements) (htarget : target ∈ b.elements) :
    Ends (Sound data) reason (b.addFlow connection source target) := by
  rw [addFlow]
  split
  · trivial
  · rename_i path hpath
    rcases accepts_of_path? hpath with ⟨hstart, hfinish⟩
    rcases Action.run_addFlow hb.changeable (Action.fill_node (hb.kind?_eq hsource) hstart)
      (Action.fill_node (hb.kind?_eq htarget) hfinish) with ⟨added, world, hrun, hmodel⟩
    have hstays : b.world.StaysWithin
        (.addFlow b.model path (.node source.node) (.node target.node)) := by
      intro m hm a ha n hn
      cases hm
      rcases List.mem_pair.1 ha with rfl | rfl
      · rw [List.mem_singleton.1 hn]
        exact hb.mem_nodes hsource
      · rw [List.mem_singleton.1 hn]
        exact hb.mem_nodes htarget
    have hperform : (Action.perform (.addFlow b.model path (.node source.node)
        (.node target.node))).run b.world = .ok (.flag added) world := by
      rw [Action.perform, Action.run_map, hrun]
    rw [perform, hrun]
    cases added with
    | true => exact hb.of_step hstays (World.step_of_ok hperform) (hmodel b.model)
    | false => trivial

/-- What is found by its identifier is an element. -/
theorem mem_of_find? {id : Int} {e : BuiltElement} (h : b.find? id = some e) : e ∈ b.elements :=
  List.mem_of_find?_eq_some h

/-- What is found by an identifier has it. -/
theorem id_of_find? {id : Int} {e : BuiltElement} (h : b.find? id = some e) : e.element.id = id :=
  beq_iff_eq.1 (List.find?_some (p := fun e : BuiltElement => e.element.id == id) h)

/-- A connection is added or refused. -/
theorem ends_addConnection (hb : b.Sound data) (c : ConnectionData) :
    Ends (Sound data) reason (b.addConnection c) := by
  rw [addConnection]
  split
  · exact hb
  · split
    · trivial
    · split
      · trivial
      · trivial
      · rename_i source target hsource htarget
        exact ends_addFlow hb c.id (mem_of_find? hsource) (mem_of_find? htarget)

end Built

/-! ## Formulas -/

/-- Whether reading a formula text of the data breaks down with a fault. -/
def ModelData.Overtaxes (data : ModelData) (fault : Fault) : Prop :=
  ∃ e ∈ data.elements, ∃ text error, e.formula = some text ∧ Formula.Overtaxes text error ∧
    fault = .refused error

namespace Built

variable {data : ModelData} {b : Built}

/-- What is under construction, with a formula for an element. -/
def withFormula (b : Built) (e : BuiltElement) (f : Formula NodeId) : Built :=
  { b with world := b.world.updateNode e.node (Node.setFormula (some f)) }

/-- A formula over nodes of the model is set without a fault. -/
theorem Sound.setFormula (hb : b.Sound data) {e : BuiltElement} (he : e ∈ b.elements)
    (hkind : e.kind.hasFormula = true) {f : Formula NodeId}
    (hf : ∀ n ∈ f.leaves, n ∈ (b.world.model b.model).nodes ∧ b.world.isLeaf n = true) :
    b.perform (Action.setFormula b.model (.node e.node) (.ofFormula f)) =
      .ok ((), b.withFormula e f) ∧ Sound data (b.withFormula e f) := by
  have hrun := Action.run_setFormula hb.changeable (Action.fill_node (hb.kind?_eq he) hkind)
    (Action.formulaOf_ofFormula fun n hn => (hf n hn).2)
  have hstays : b.world.StaysWithin (.setFormula b.model (.node e.node) (.ofFormula f)) := by
    intro m hm a ha n hn
    cases hm
    rcases List.mem_pair.1 ha with rfl | rfl
    · rw [List.mem_singleton.1 hn]
      exact hb.mem_nodes he
    · rw [Argument.nodes, Argument.ofFormula, Formula.leaves_map, nodesOf_map_node] at hn
      exact (hf n hn).1
  have hperform : (Action.perform (.setFormula b.model (.node e.node) (.ofFormula f))).run b.world =
      .ok .done (b.world.updateNode e.node (Node.setFormula (some f))) := by
    rw [Action.perform, Action.run_map, hrun]
  refine ⟨?_, ?_⟩
  · rw [perform, hrun]
    rfl
  · exact hb.of_step hstays (World.step_of_ok hperform) (World.model_updateNode ..)

/-- The formula of an element is set or refused, unless reading it breaks down. -/
theorem ends_addFormula {elements : List BuiltElement}
    (hb : b.Sound data ∧ b.elements = elements) {e : BuiltElement} (he : e ∈ elements) :
    Ends (fun b => b.Sound data ∧ b.elements = elements) data.Overtaxes (b.addFormula e) := by
  rcases hb with ⟨hb, rfl⟩
  rw [addFormula]
  dsimp only
  split
  · exact ⟨hb, rfl⟩
  · rename_i hformula
    rw [Bool.or_eq_true, not_or, Bool.not_eq_true', Bool.not_eq_false] at hformula
    have htext : e.element.formula = some (e.element.formula.getD "") := by
      cases h : e.element.formula with
      | none =>
          rw [h] at hformula
          exact (hformula.2 rfl).elim
      | some text => rfl
    rcases Formula.settles_ofText (fun _ _ _ => hb.of_table) (e.element.formula.getD "") with
      ⟨f, hf, hleaves⟩ | ⟨error, herror, hcause⟩
    · rcases hb.setFormula he hformula.1 hleaves with ⟨hperform, hsound⟩
      rw [hf]
      simp only [hperform]
      exact ⟨hsound, rfl⟩
    · rw [herror]
      dsimp only
      split
      · rename_i hbreak
        exact ⟨e.element, hb.source e he, _, error, htext, hcause hbreak, rfl⟩
      · trivial

end Built

/-! ## The whole model -/

/-- The beginning: a model without any nodes, in a world of its own. -/
theorem Built.sound_start (data : ModelData) (name : Value) :
    Built.Sound data
      { world := ({} : World).addModel { name }, model := ({} : World).nextModel } where
  reachable := by
    have hstays : ({} : World).StaysWithin (.newModel name) := nofun
    exact World.ReachableWithin.start.step hstays
  changeable := by
    rw [World.isChangeable, World.model_addModel, if_pos rfl]
  source _ he := (List.not_mem_nil he).elim
  member _ he := (List.not_mem_nil he).elim

/-- A model is built or refused, unless reading a formula text breaks down. -/
theorem ModelData.ends_build (data : ModelData) :
    Built.Ends (Built.Sound data) data.Overtaxes data.build := by
  have hnodes : Built.Ends (Built.Sound data) data.Overtaxes
      (Built.addAll Built.addElement _ data.elements) :=
    Built.ends_addAll (fun b hb e he => Built.ends_addElement hb he)
      (Built.sound_start data (nameValue data.name))
  have hflows : ∀ b : Built, b.Sound data → Built.Ends (Built.Sound data) data.Overtaxes
      (Built.addAll Built.addConnection b data.connections) :=
    fun b hb => Built.ends_addAll (fun b hb c _ => Built.ends_addConnection hb c) hb
  have hformulas : ∀ b : Built, b.Sound data → Built.Ends (Built.Sound data) data.Overtaxes
      (Built.addAll Built.addFormula b b.elements) := by
    intro b hb
    exact (Built.ends_addAll (fun b' hb' e he => Built.ends_addFormula hb' he)
      ⟨hb, rfl⟩).imp fun _ h => h.1
  exact hnodes.bind fun b hb => (hflows b hb).bind hformulas

/-! ## What models are built of -/

namespace Built

variable {b b' : Built} {α : Type} {add : Built → α → Except BuildFailure Built} {items : List α}

/-- All is added where the first item is, and all others after it. -/
theorem addAll_cons_eq_ok_iff {a : α} :
    addAll add b (a :: items) = .ok b' ↔
      ∃ next, add b a = .ok next ∧ addAll add next items = .ok b' :=
  bind_eq_ok_iff

/-- The same elements make the same table of references. -/
theorem table_congr (h : b'.elements = b.elements) : b'.table = b.table := by
  funext kind id
  rw [table, table, h]

end Built

end StockFlow
