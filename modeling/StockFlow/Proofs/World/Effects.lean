import StockFlow.Proofs.World.Commits

/-!
# Effects of operations

Where both halves of every flow match, each operation but a round fails without a
trace or has one of few effects.  An effect names everything that the operation
checked before, so that what an operation can do is looked up here and not in the
operation.  A round changes current values only, also if it fails.

Main definitions:

- {lit}`Operation.Creates`: the nodes that operations create.
- {lit}`World.Effect`: what operations that succeed do.

Main results:

- Theorem {lit}`Action.perform_commits`: every operation but a round has its effect, or none.
- Theorem {lit}`Action.onlyValues_computeRound`: a round changes current values only.
- Theorem {lit}`World.step_cases`: everything that one step of a session can do.
-/

namespace StockFlow

/-- The node that an operation creates, and in which model, if its arguments pass their checks. -/
inductive Operation.Creates : Operation → ModelId → Node → Prop
  | level {m : ModelId} {name value : Value} {s : String} {x : Float}
      (hname : checkName name = .ok s) (hvalue : checkNumber value = .ok x) :
      Creates (.createLevel m name value) m (.level { name := s, start := x, current := x })
  | rate {m : ModelId} {name : Value} {s : String} (hname : checkName name = .ok s) :
      Creates (.createRate m name) m (.rate { name := s })
  | constant {m : ModelId} {name value : Value} {s : String} {x : Float}
      (hname : checkName name = .ok s) (hvalue : checkNumber value = .ok x) :
      Creates (.createConstant m name value) m (.constant { name := s, value := x })
  | auxiliary {m : ModelId} {name : Value} {s : String} (hname : checkName name = .ok s) :
      Creates (.createAuxiliary m name) m (.auxiliary { name := s })
  | sourceSink {m : ModelId} : Creates (.createSourceSink m) m (.sourceSink {})

namespace World

/-- A world in which a model owns one more node. -/
def withNew (w : World) (m : ModelId) (node : Node) : World :=
  (w.addNode node).updateModel m (Model.mapMembers node.kind (· ++ [w.nextNode]))

/-- What an operation that succeeds gives back, and what it makes of the world. -/
inductive Effect (w : World) : Operation → Outcome → World → Prop
  | newModel (name : Value) : Effect w (.newModel name) (.model w.nextModel) (w.addModel { name })
  | create {op : Operation} {m : ModelId} {node : Node}
      (hop : op.Creates m node) (hc : w.isChangeable m = true) :
      Effect w op (.node w.nextNode) (w.withNew m node)
  | renameModel {m : ModelId} {name : Value} (hc : w.isChangeable m = true)
      (hname : name ≠ .absent) :
      Effect w (.setModelName m name) .done (w.updateModel m fun model => { model with name })
  | rename {m : ModelId} {a : Argument} {n : NodeId} {v : Value} {name : String}
      (hc : w.isChangeable m = true) (hn : a.node? = some n)
      (hkind : w.isKind .sourceSink n = false) (hname : checkName v = .ok name) :
      Effect w (.setNodeName m a v) .done (w.updateNode n (Node.rename name))
  | setStart {m : ModelId} {a : Argument} {n : NodeId} {v : Value} {x : Float}
      (hc : w.isChangeable m = true) (hn : Action.fill w .level a = .ok n)
      (hx : checkNumber v = .ok x) :
      Effect w (.setStartValue m a v) .done (w.updateNode n (Node.setStart x))
  | setValue {m : ModelId} {a : Argument} {n : NodeId} {v : Value} {x : Float}
      (hc : w.isChangeable m = true) (hn : Action.fill w .constant a = .ok n)
      (hx : checkNumber v = .ok x) :
      Effect w (.setConstantValue m a v) .done (w.updateNode n (Node.setValue x))
  | setFormula {m : ModelId} {a b : Argument} {n : NodeId} {f : Option (Formula NodeId)}
      (hc : w.isChangeable m = true) (hn : Action.fill w .formulaOwner a = .ok n)
      (hf : Action.formulaOf w b = .ok f) :
      Effect w (.setFormula m a b) .done (w.updateNode n (Node.setFormula f))
  | addFlow {m : ModelId} {path : FlowPath} {start finish : Argument} {a b : NodeId}
      (hc : w.isChangeable m = true) (ha : Action.fill w path.startRole start = .ok a)
      (hb : Action.fill w path.finishRole finish = .ok b)
      (hfree : w.endpoint? path.side (path.rateOf a b) = none) :
      Effect w (.addFlow m path start finish) (.flag true)
        (w.connect path.side (path.rateOf a b) (path.endpointOf a b))
  | keepFlow {m : ModelId} {path : FlowPath} {start finish : Argument} {a b old : NodeId}
      (hc : w.isChangeable m = true) (ha : Action.fill w path.startRole start = .ok a)
      (hb : Action.fill w path.finishRole finish = .ok b)
      (hold : w.endpoint? path.side (path.rateOf a b) = some old) :
      Effect w (.addFlow m path start finish) (.flag (old = path.endpointOf a b)) w
  | removeFlow {m : ModelId} {path : FlowPath} {start finish : Argument} {a b : NodeId}
      (hc : w.isChangeable m = true) (ha : Action.fill w path.startRole start = .ok a)
      (hb : Action.fill w path.finishRole finish = .ok b)
      (hflow : w.endpoint? path.side (path.rateOf a b) = some (path.endpointOf a b)) :
      Effect w (.removeFlow m path start finish) (.flag true)
        (w.disconnect path.side (path.rateOf a b))
  | keepUnconnected {m : ModelId} {path : FlowPath} {start finish : Argument} {a b : NodeId}
      (hc : w.isChangeable m = true) (ha : Action.fill w path.startRole start = .ok a)
      (hb : Action.fill w path.finishRole finish = .ok b)
      (hflow : w.endpoint? path.side (path.rateOf a b) ≠ some (path.endpointOf a b)) :
      Effect w (.removeFlow m path start finish) (.flag false) w
  | removeNode {m : ModelId} {a : Argument} {n : NodeId} {kind : NodeKind}
      (hc : w.isChangeable m = true) (hn : a.node? = some n) (hkind : w.kind? n = some kind)
      (hunread : Action.firstReader? w (w.model m).formulaOwners n = none) :
      Effect w (.removeNode m a) .done
        ((w.isolate n).updateModel m (Model.mapMembers kind (List.erase · n)))
  | validate {m : ModelId} (hvalid : w.firstProblem? (w.model m) = none) :
      Effect w (.validate m) .done w
  | lock {m : ModelId} {order : List NodeId} (hc : w.isChangeable m = true)
      (hvalid : w.firstProblem? (w.model m) = none)
      (horder : w.evaluationOrder (w.model m).auxiliaries = .ok order) :
      Effect w (.lock m) .done
        (w.updateModel m fun model => { model with order, changeable := false })

end World

namespace Action

variable {w : World}

/-! ## Creating and changing nodes -/

/-- Owning a new node cannot fail, and gives back the number of that node. -/
theorem run_own (w : World) (m : ModelId) (node : Node) :
    (own m node).run w = .ok w.nextNode (w.withNew m node) := rfl

/-- A node whose arguments passed their checks is created with all its effect. -/
theorem commits_own {op : Operation} {m : ModelId} {node : Node}
    (hop : op.Creates m node) (hc : w.isChangeable m = true) :
    Commits (own m node) w fun n w' => w.Effect op (.node n) w' :=
  commits_of_run (run_own w m node) (.create hop hc)

/-- The name of a level is checked before its start value. -/
theorem commits_createLevel (m : ModelId) (name value : Value) :
    Commits (createLevel m name value) w
      fun n w' => w.Effect (.createLevel m name value) (.node n) w' := by
  refine commits_requireChangeable fun hc => ?_
  refine commits_ofExcept fun s hname => commits_ofExcept fun x hvalue => ?_
  exact commits_own (.level hname hvalue) hc

/-- A rate has a name alone to be checked. -/
theorem commits_createRate (m : ModelId) (name : Value) :
    Commits (createRate m name) w fun n w' => w.Effect (.createRate m name) (.node n) w' := by
  refine commits_requireChangeable fun hc => commits_ofExcept fun s hname => ?_
  exact commits_own (.rate hname) hc

/-- The name of a constant is checked before its value. -/
theorem commits_createConstant (m : ModelId) (name value : Value) :
    Commits (createConstant m name value) w
      fun n w' => w.Effect (.createConstant m name value) (.node n) w' := by
  refine commits_requireChangeable fun hc => ?_
  refine commits_ofExcept fun s hname => commits_ofExcept fun x hvalue => ?_
  exact commits_own (.constant hname hvalue) hc

/-- An auxiliary has a name alone to be checked. -/
theorem commits_createAuxiliary (m : ModelId) (name : Value) :
    Commits (createAuxiliary m name) w
      fun n w' => w.Effect (.createAuxiliary m name) (.node n) w' := by
  refine commits_requireChangeable fun hc => commits_ofExcept fun s hname => ?_
  exact commits_own (.auxiliary hname) hc

theorem commits_createSourceSink (m : ModelId) :
    Commits (createSourceSink m) w fun n w' => w.Effect (.createSourceSink m) (.node n) w' :=
  commits_requireChangeable fun hc => commits_own .sourceSink hc

/-- Renaming refuses nodes without a name before it looks at the new name. -/
theorem commits_renameNode {m : ModelId} {a : Argument} {v : Value}
    (hc : w.isChangeable m = true) :
    Commits (renameNode a v) w fun _ w' => w.Effect (.setNodeName m a v) .done w' := by
  refine commits_get (commits_ofExcept fun n hn => ?_)
  have hnode := (node?_of_withMember hn).1
  refine commits_unless fun hkind => commits_ofExcept fun name hname => ?_
  exact commits_modify (.rename hc hnode hkind hname)

/-- Every name but none at all is a model's name. -/
theorem commits_setModelName (m : ModelId) (name : Value) :
    Commits (setModelName m name) w fun _ w' => w.Effect (.setModelName m name) .done w' := by
  refine commits_requireChangeable fun hc => ?_
  cases name with
  | absent => exact commits_throw _
  | _ => exact commits_modify (.renameModel hc nofun)

theorem commits_setNodeName (m : ModelId) (a : Argument) (name : Value) :
    Commits (setNodeName m a name) w fun _ w' => w.Effect (.setNodeName m a name) .done w' :=
  commits_requireChangeable fun hc => commits_unless fun _ => commits_renameNode hc

theorem commits_setStartValue (m : ModelId) (a : Argument) (value : Value) :
    Commits (setStartValue m a value) w
      fun _ w' => w.Effect (.setStartValue m a value) .done w' := by
  refine commits_requireChangeable fun hc => commits_require fun n hn => ?_
  exact commits_ofExcept fun x hx => commits_modify (.setStart hc hn hx)

theorem commits_setConstantValue (m : ModelId) (a : Argument) (value : Value) :
    Commits (setConstantValue m a value) w
      fun _ w' => w.Effect (.setConstantValue m a value) .done w' := by
  refine commits_requireChangeable fun hc => commits_require fun n hn => ?_
  exact commits_ofExcept fun x hx => commits_modify (.setValue hc hn hx)

/-- A formula is taken over if its leaves are nodes that formulas may read. -/
theorem commits_setFormula (m : ModelId) (a b : Argument) :
    Commits (setFormula m a b) w fun _ w' => w.Effect (.setFormula m a b) .done w' := by
  refine commits_requireChangeable fun hc => commits_require fun n hn => ?_
  refine commits_get (commits_ofExcept fun f hf => ?_)
  exact commits_modify (.setFormula hc hn hf)

/-! ## Flows -/

/-- An end of a rate is set once, and setting it again tells whether it is the same. -/
theorem commits_addEnd {m : ModelId} {path : FlowPath} {start finish : Argument} {a b : NodeId}
    (hc : w.isChangeable m = true) (ha : fill w path.startRole start = .ok a)
    (hb : fill w path.finishRole finish = .ok b) :
    Commits (addEnd path.side (path.rateOf a b) (path.endpointOf a b)) w
      fun flag w' => w.Effect (.addFlow m path start finish) (.flag flag) w' := by
  refine commits_get ?_
  split
  · rename_i hfree
    exact commits_of_run rfl (.addFlow hc ha hb hfree)
  · rename_i old hold
    exact commits_pure (.keepFlow hc ha hb hold)

/-- An end of a rate is taken away by the endpoint that it has, and by no other. -/
theorem commits_removeEnd {m : ModelId} {path : FlowPath} {start finish : Argument}
    {a b : NodeId} (h : w.FlowsMatch) (hc : w.isChangeable m = true)
    (ha : fill w path.startRole start = .ok a) (hb : fill w path.finishRole finish = .ok b) :
    Commits (removeEnd path.side (path.rateOf a b) (path.endpointOf a b)) w
      fun flag w' => w.Effect (.removeFlow m path start finish) (.flag flag) w' := by
  by_cases hflow : w.endpoint? path.side (path.rateOf a b) = some (path.endpointOf a b)
  · exact commits_of_run (run_removeEnd h hflow) (.removeFlow hc ha hb hflow)
  · exact commits_of_run (run_removeEnd_of_ne h hflow) (.keepUnconnected hc ha hb hflow)

/-- Behind the checks of a step along a path of a flow. -/
theorem commits_along {post : Bool → World → Prop} {m : ModelId} {path : FlowPath}
    {start finish : Argument} {change : NodeId → NodeId → Action Bool}
    (h : ∀ a b, w.isChangeable m = true → fill w path.startRole start = .ok a →
      fill w path.finishRole finish = .ok b → Commits (change a b) w post) :
    Commits (do
      requireChangeable m
      let a ← require path.startRole start
      let b ← require path.finishRole finish
      change a b) w post := by
  refine commits_requireChangeable fun hc => ?_
  refine commits_require fun a ha => commits_require fun b hb => ?_
  exact h a b hc ha hb

/-- A flow is added after the roles of both its nodes were checked in order. -/
theorem commits_addFlow (m : ModelId) (path : FlowPath) (start finish : Argument) :
    Commits (addFlow m path start finish) w
      fun flag w' => w.Effect (.addFlow m path start finish) (.flag flag) w' :=
  commits_along fun _ _ hc ha hb => commits_addEnd hc ha hb

/-- A flow is removed after the roles of both its nodes were checked in order. -/
theorem commits_removeFlow (h : w.FlowsMatch) (m : ModelId) (path : FlowPath)
    (start finish : Argument) :
    Commits (removeFlow m path start finish) w
      fun flag w' => w.Effect (.removeFlow m path start finish) (.flag flag) w' :=
  commits_along fun _ _ hc ha hb => commits_removeEnd h hc ha hb

/-! ## Removing nodes -/

/-- Removing a node that exists takes all its flows away, then its place in the model. -/
theorem run_removeKnown {m : ModelId} {n : NodeId} {kind : NodeKind} (h : w.FlowsMatch)
    (hkind : w.kind? n = some kind) :
    (removeKnown m n).run w =
      .ok () ((w.isolate n).updateModel m (Model.mapMembers kind (List.erase · n))) := by
  have hsever : ∀ kind, (do
      severEndpoint .sink n
      severEndpoint .source n
      disown m kind n : Action Unit).run w =
        .ok () (((w.sever .sink n).sever .source n).updateModel m
          (Model.mapMembers kind (List.erase · n))) := by
    intro kind
    rw [run_bind_ok (run_severEndpoint h .sink n),
      run_bind_ok (run_severEndpoint (h.sever .sink n) .source n)]
    rfl
  unfold removeKnown World.isolate
  rw [run_get_bind, hkind]
  cases kind with
  | rate =>
      simp only
      rw [run_bind_ok (run_severRate h .source n),
        run_bind_ok (run_severRate (h.disconnect .source n) .sink n)]
      rfl
  | level => exact hsever .level
  | sourceSink => exact hsever .sourceSink
  | constant => rfl
  | auxiliary => rfl

/-- A node is removed if its model's formulas do not read it, and all its flows go first. -/
theorem commits_removeNode {m : ModelId} {a : Argument} (h : w.FlowsMatch) :
    Commits (removeNode m a) w fun _ w' => w.Effect (.removeNode m a) .done w' := by
  refine commits_requireChangeable fun hc => commits_unless fun habsent => ?_
  refine commits_get (commits_ofExcept fun _ hcheck => ?_)
  split
  · rename_i n hn
    have hunread : firstReader? w (w.model m).formulaOwners n = none := by
      unfold checkUnread at hcheck
      rw [hn] at hcheck
      simp only at hcheck
      split at hcheck
      · simp at hcheck
      · assumption
    cases hkind : w.kind? n with
    | none =>
        refine Or.inl ⟨.unknownNodeType "object", ?_⟩
        unfold removeKnown
        rw [run_get_bind, hkind]
        rfl
    | some kind =>
        exact commits_of_run (run_removeKnown h hkind) (.removeNode hc hn hkind hunread)
  · exact commits_throw _

/-! ## Locking -/

/-- Validation changes nothing, and fails with the first problem of the model. -/
theorem run_validate (w : World) (m : ModelId) :
    (validate m).run w = match w.firstProblem? (w.model m) with
      | some e => .error e w
      | none => .ok () w := by
  unfold validate
  rw [run_get_bind]
  cases w.firstProblem? (w.model m) <;> rfl

/-- A valid model passes validation unchanged. -/
theorem commits_validate (m : ModelId) :
    Commits (validate m) w fun _ w' => w.Effect (.validate m) .done w' := by
  have hrun := run_validate w m
  cases hvalid : w.firstProblem? (w.model m) with
  | some e =>
      rw [hvalid] at hrun
      exact Or.inl ⟨e, hrun⟩
  | none =>
      rw [hvalid] at hrun
      exact commits_of_run hrun (.validate hvalid)

/-- Locking a model that can be changed fails only where validation or ordering does. -/
theorem run_lock {m : ModelId} (hc : w.isChangeable m = true) :
    (lock m).run w = match w.firstProblem? (w.model m) with
      | some e => .error e w
      | none => match w.evaluationOrder (w.model m).auxiliaries with
        | .error e => .error e w
        | .ok order =>
            .ok () (w.updateModel m fun model => { model with order, changeable := false }) := by
  have hchangeable := run_requireChangeable w m
  have hvalidate := run_validate w m
  rw [if_pos hc] at hchangeable
  unfold lock
  rw [run_bind_ok hchangeable]
  cases hvalid : w.firstProblem? (w.model m) with
  | some e =>
      rw [hvalid] at hvalidate
      exact run_bind_error hvalidate _
  | none =>
      rw [hvalid] at hvalidate
      rw [run_bind_ok hvalidate, run_get_bind]
      cases w.evaluationOrder (w.model m).auxiliaries <;> rfl

/-- A model is locked with the evaluation order that its auxiliaries have then. -/
theorem commits_lock (m : ModelId) :
    Commits (lock m) w fun _ w' => w.Effect (.lock m) .done w' := by
  by_cases hc : w.isChangeable m = true
  · have hrun := run_lock hc
    cases hvalid : w.firstProblem? (w.model m) with
    | some e =>
        rw [hvalid] at hrun
        exact Or.inl ⟨e, hrun⟩
    | none =>
        rw [hvalid] at hrun
        cases horder : w.evaluationOrder (w.model m).auxiliaries with
        | error e =>
            rw [horder] at hrun
            exact Or.inl ⟨e, hrun⟩
        | ok order =>
            rw [horder] at hrun
            exact commits_of_run hrun (.lock hc hvalid horder)
  · exact commits_requireChangeable fun hc' => (hc hc').elim

/-! ## All operations -/

/-- Every operation but a round fails without a trace or has its effect. -/
theorem perform_commits (h : w.FlowsMatch) {op : Operation} (hop : ∀ m, op ≠ .computeRound m) :
    Commits (perform op) w (w.Effect op) := by
  cases op with
  | newModel name => exact commits_of_run rfl (.newModel name)
  | createLevel m name value => exact (commits_createLevel m name value).map _ fun _ _ he => he
  | createRate m name => exact (commits_createRate m name).map _ fun _ _ he => he
  | createConstant m name value =>
      exact (commits_createConstant m name value).map _ fun _ _ he => he
  | createAuxiliary m name => exact (commits_createAuxiliary m name).map _ fun _ _ he => he
  | createSourceSink m => exact (commits_createSourceSink m).map _ fun _ _ he => he
  | setModelName m name => exact (commits_setModelName m name).map _ fun _ _ he => he
  | setNodeName m a name => exact (commits_setNodeName m a name).map _ fun _ _ he => he
  | setStartValue m a value => exact (commits_setStartValue m a value).map _ fun _ _ he => he
  | setConstantValue m a value =>
      exact (commits_setConstantValue m a value).map _ fun _ _ he => he
  | setFormula m a b => exact (commits_setFormula m a b).map _ fun _ _ he => he
  | addFlow m path start finish =>
      exact (commits_addFlow m path start finish).map _ fun _ _ he => he
  | removeFlow m path start finish =>
      exact (commits_removeFlow h m path start finish).map _ fun _ _ he => he
  | removeNode m a => exact (commits_removeNode h).map _ fun _ _ he => he
  | validate m => exact (commits_validate m).map _ fun _ _ he => he
  | lock m => exact (commits_lock m).map _ fun _ _ he => he
  | computeRound m => exact (hop m rfl).elim

/-! ## Rounds -/

/-- An action that changes current values only, also if it fails. -/
def OnlyValues {α : Type} (x : Action α) : Prop :=
  ∀ w, World.SameUpToValues w (x.worldAfter w)

/-- A run that succeeds leaves all but current values as they were. -/
theorem OnlyValues.of_run {α : Type} {x : Action α} (h : OnlyValues x) {a : α} {w w' : World}
    (hrun : x.run w = .ok a w') : World.SameUpToValues w w' := by
  have hvalues := h w
  rwa [worldAfter, hrun] at hvalues

/-- Two actions in turn change current values only if each of them does. -/
theorem onlyValues_bind {α β : Type} {x : Action α} {f : α → Action β} (hx : OnlyValues x)
    (hf : ∀ a, OnlyValues (f a)) : OnlyValues (x >>= f) := by
  intro w
  have hfirst := hx w
  unfold worldAfter at hfirst ⊢
  cases hrun : x.run w with
  | error e w₁ =>
      rw [run_bind_error hrun]
      rwa [hrun] at hfirst
  | ok a w₁ =>
      rw [run_bind_ok hrun]
      rw [hrun] at hfirst
      exact hfirst.trans (hf a w₁)

theorem onlyValues_pure {α : Type} (a : α) : OnlyValues (pure a) :=
  fun w => World.SameUnder.refl _ w

theorem onlyValues_throw {α : Type} (e : Fault) : OnlyValues (throw e : Action α) :=
  fun w => World.SameUnder.refl _ w

theorem onlyValues_get : OnlyValues (get : Action World) := fun w => World.SameUnder.refl _ w

theorem onlyValues_ofExcept {α : Type} (x : Except Fault α) : OnlyValues (ofExcept x) := by
  cases x with
  | ok a => exact onlyValues_pure a
  | error e => exact onlyValues_throw e

/-- The current value of one node is written. -/
theorem onlyValues_setCurrent (n : NodeId) (x : Float) :
    OnlyValues (modify fun w => w.updateNode n (Node.setCurrent x)) :=
  fun w => World.sameUpToValues_setCurrent w n x

/-- One auxiliary takes the value of its formula. -/
theorem onlyValues_advanceFormula (n : NodeId) : OnlyValues (advanceFormula n) :=
  onlyValues_bind onlyValues_get fun _ =>
    onlyValues_bind (onlyValues_ofExcept _) fun x => onlyValues_setCurrent n x

/-- One level takes what its flows make of its value. -/
theorem onlyValues_advanceLevel (n : NodeId) : OnlyValues (advanceLevel n) :=
  onlyValues_bind onlyValues_get fun _ =>
    onlyValues_bind (onlyValues_ofExcept _) fun x => onlyValues_setCurrent n x

theorem onlyValues_advanceAll (ns : List NodeId) : OnlyValues (advanceAll ns) := by
  induction ns with
  | nil => exact onlyValues_pure ()
  | cons n rest ih => exact onlyValues_bind (onlyValues_advanceFormula n) fun _ => ih

theorem onlyValues_advanceLevels (ns : List NodeId) : OnlyValues (advanceLevels ns) := by
  induction ns with
  | nil => exact onlyValues_pure ()
  | cons n rest ih => exact onlyValues_bind (onlyValues_advanceLevel n) fun _ => ih

/-- Many current values are written, one after the other. -/
theorem sameUpToValues_storeAll (w : World) (values : List (NodeId × Float)) :
    World.SameUpToValues w (storeAll w values) := by
  induction values generalizing w with
  | nil => exact World.SameUnder.refl _ w
  | cons entry rest ih => exact (World.sameUpToValues_setCurrent w entry.1 entry.2).trans (ih _)

/-- Rates store the values that their formulas had in one and the same world. -/
theorem onlyValues_store (rates levels : List NodeId) :
    OnlyValues (do
      let w ← get
      let values ← ofExcept (evaluateAll w rates)
      set (storeAll w values)
      advanceLevels levels) := by
  intro w
  unfold worldAfter
  rw [run_get_bind]
  cases evaluateAll w rates with
  | error e => exact World.SameUnder.refl _ w
  | ok values =>
      exact (sameUpToValues_storeAll w values).trans (onlyValues_advanceLevels levels _)

/-- A round changes current values only, also if it fails. -/
theorem onlyValues_computeRound (m : ModelId) : OnlyValues (computeRound m) := by
  intro w
  unfold worldAfter computeRound
  rw [run_get_bind]
  cases hc : w.isChangeable m with
  | true => exact World.SameUnder.refl _ w
  | false =>
      exact onlyValues_bind (onlyValues_advanceAll (w.model m).order)
        (fun _ => onlyValues_store (w.model m).rates (w.model m).levels) w

end Action

namespace World

variable {w : World}

/-- A step that succeeds ends in the world that its operation leaves. -/
theorem step_of_ok {op : Operation} {outcome : Outcome} {w' : World}
    (hrun : (Action.perform op).run w = .ok outcome w') : w.step op = w' := by
  rw [step, Action.worldAfter, hrun]

/-- A step that fails ends in the world that its operation had reached. -/
theorem step_of_error {op : Operation} {e : Fault} {w' : World}
    (hrun : (Action.perform op).run w = .error e w') : w.step op = w' := by
  rw [step, Action.worldAfter, hrun]

/-- A round as a step of a session changes current values only. -/
theorem step_computeRound (m : ModelId) : SameUpToValues w (w.step (.computeRound m)) :=
  Action.onlyValues_bind (Action.onlyValues_computeRound m) (fun _ => Action.onlyValues_pure _) w

/-- Everything that one step of a session can do. -/
theorem step_cases (h : w.FlowsMatch) (op : Operation) :
    w.step op = w ∨ (∃ outcome, w.Effect op outcome (w.step op)) ∨
      ∃ m, op = .computeRound m ∧ SameUpToValues w (w.step op) := by
  by_cases hop : ∃ m, op = .computeRound m
  · rcases hop with ⟨m, rfl⟩
    exact Or.inr (Or.inr ⟨m, rfl, step_computeRound m⟩)
  · rcases Action.perform_commits h fun m hm => hop ⟨m, hm⟩ with ⟨e, hrun⟩ | ⟨outcome, w', hrun, he⟩
    · exact Or.inl (step_of_error hrun)
    · rw [step_of_ok hrun]
      exact Or.inr (Or.inl ⟨outcome, he⟩)

end World
end StockFlow
