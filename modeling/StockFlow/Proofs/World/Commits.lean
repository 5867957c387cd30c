import StockFlow.Proofs.World.Flows

/-!
# Actions that leave no trace when they fail

Nearly all actions check everything first and write last.  Such an action either
fails and leaves the world as it is, or commits: it gives a result, and what it
made of the world has a property.  The rules below follow the shape of actions,
so that a whole operation is gone through check by check.

Main definitions:

- {lit}`Action.Commits`: an action fails without a trace or commits.

Main results:

- Theorems {lit}`Action.commits_requireChangeable`, {lit}`Action.commits_require` and
  {lit}`Action.commits_ofExcept`: what is known behind each check.
- Theorems {lit}`Action.run_severRate` and {lit}`Action.run_severEndpoint`: taking flows away
  never fails where both halves of every flow match.
-/

namespace StockFlow
namespace Action

variable {α β : Type} {w : World}

/-- Whether an action fails without a trace, or gives a result and a world with a property. -/
def Commits (x : Action α) (w : World) (post : α → World → Prop) : Prop :=
  (∃ e, x.run w = .error e w) ∨ ∃ a w', x.run w = .ok a w' ∧ post a w'

/-! ## Rules -/

/-- What is made of the result of an action leaves the world as the action does. -/
theorem run_map (f : α → β) (x : Action α) (w : World) :
    (f <$> x).run w = match x.run w with
      | .ok a w' => .ok (f a) w'
      | .error e w' => .error e w' := by
  rw [map_eq_pure_bind, EStateM.run_bind]
  cases x.run w <;> rfl

/-- After a step that succeeds, the rest runs in the world that it leaves. -/
theorem run_bind_ok {x : Action α} {a : α} {w' : World} (hrun : x.run w = .ok a w')
    (f : α → Action β) : (x >>= f).run w = (f a).run w' := by
  rw [EStateM.run_bind, hrun]

/-- After a step that fails, nothing else runs. -/
theorem run_bind_error {x : Action α} {e : Fault} {w' : World} (hrun : x.run w = .error e w')
    (f : α → Action β) : (x >>= f).run w = .error e w' := by
  rw [EStateM.run_bind, hrun]

theorem run_get_bind (f : World → Action β) (w : World) : (get >>= f).run w = (f w).run w := rfl

theorem run_ofExcept_bind (a : α) (f : α → Action β) (w : World) :
    (ofExcept (.ok a) >>= f).run w = (f a).run w := rfl

theorem commits_pure {post : α → World → Prop} {a : α} (h : post a w) :
    Commits (pure a) w post :=
  Or.inr ⟨a, w, rfl, h⟩

theorem commits_throw {post : α → World → Prop} (e : Fault) :
    Commits (throw e : Action α) w post :=
  Or.inl ⟨e, rfl⟩

theorem commits_modify {post : PUnit → World → Prop} {f : World → World} (h : post ⟨⟩ (f w)) :
    Commits (modify f) w post :=
  Or.inr ⟨⟨⟩, f w, rfl, h⟩

/-- A run that succeeds commits to what holds after it. -/
theorem commits_of_run {post : α → World → Prop} {x : Action α} {a : α} {w' : World}
    (hrun : x.run w = .ok a w') (h : post a w') : Commits x w post :=
  Or.inr ⟨a, w', hrun, h⟩

/-- What is made of the result keeps what an action commits to. -/
theorem Commits.map {x : Action α} {post : α → World → Prop} {post' : β → World → Prop}
    (h : Commits x w post) (f : α → β) (hpost : ∀ a w', post a w' → post' (f a) w') :
    Commits (f <$> x) w post' := by
  rcases h with ⟨e, hrun⟩ | ⟨a, w', hrun, ha⟩
  · exact Or.inl ⟨e, by rw [run_map, hrun]⟩
  · exact Or.inr ⟨f a, w', by rw [run_map, hrun], hpost a w' ha⟩

/-- An action that commits to something and succeeds has it. -/
theorem Commits.of_ok {x : Action α} {post : α → World → Prop} (h : Commits x w post) {a : α}
    {w' : World} (hrun : x.run w = .ok a w') : post a w' := by
  rcases h with ⟨e, herror⟩ | ⟨b, w₁, hok, hpost⟩
  · rw [herror] at hrun
    cases hrun
  · rw [hok] at hrun
    cases hrun
    exact hpost

/-- Reading the world. -/
theorem commits_get {post : β → World → Prop} {f : World → Action β}
    (h : Commits (f w) w post) : Commits (get >>= f) w post := h

/-- Behind a check that gives a value. -/
theorem commits_ofExcept {post : β → World → Prop} {x : Except Fault α} {f : α → Action β}
    (h : ∀ a, x = .ok a → Commits (f a) w post) : Commits (ofExcept x >>= f) w post := by
  cases x with
  | error e => exact Or.inl ⟨e, rfl⟩
  | ok a => exact h a rfl

/-- A locked model is refused, and nothing happens to it. -/
theorem run_requireChangeable (w : World) (m : ModelId) : (requireChangeable m).run w =
    if w.isChangeable m then .ok () w else .error .notChangeable w := by
  unfold requireChangeable
  rw [run_get_bind]
  split <;> rfl

/-- On a changeable model, what comes after the guard runs. -/
theorem run_requireChangeable_bind {m : ModelId} (hc : w.isChangeable m = true)
    (f : Unit → Action α) : (requireChangeable m >>= f).run w = (f ()).run w := by
  have hrun := run_requireChangeable w m
  rw [if_pos hc] at hrun
  exact run_bind_ok hrun f

/-- Behind the check for changeability. -/
theorem commits_requireChangeable {post : β → World → Prop} {m : ModelId} {f : Unit → Action β}
    (h : w.isChangeable m = true → Commits (f ()) w post) :
    Commits (requireChangeable m >>= f) w post := by
  have hrun := run_requireChangeable w m
  by_cases hc : w.isChangeable m = true
  · rw [if_pos hc] at hrun
    rw [Commits, run_bind_ok hrun]
    exact h hc
  · rw [if_neg hc] at hrun
    exact Or.inl ⟨.notChangeable, run_bind_error hrun f⟩

/-- Behind the check for a role. -/
theorem commits_require {post : β → World → Prop} {role : Role} {a : Argument}
    {f : NodeId → Action β} (h : ∀ n, fill w role a = .ok n → Commits (f n) w post) :
    Commits (require role a >>= f) w post := by
  have hrun : (require role a >>= f).run w = (ofExcept (fill w role a) >>= f).run w := rfl
  rw [Commits, hrun]
  exact commits_ofExcept h

/-- After an argument that fills its role, the rest runs with its node. -/
theorem run_require_bind {role : Role} {a : Argument} {n : NodeId}
    (hn : fill w role a = .ok n) (f : NodeId → Action α) :
    (require role a >>= f).run w = (f n).run w := by
  have hrun : (require role a).run w = (ofExcept (fill w role a)).run w := rfl
  rw [hn] at hrun
  exact run_bind_ok hrun f

/-- Behind a test that stops the action. -/
theorem commits_unless {post : β → World → Prop} {b : Bool} {e : Fault} {f : PUnit → Action β}
    (h : b = false → Commits (f ⟨⟩) w post) :
    Commits (if b = true then throw e >>= f else f ⟨⟩) w post := by
  cases b with
  | true => exact Or.inl ⟨e, rfl⟩
  | false => exact h rfl

/-! ## Arguments that passed their checks -/

/-- What fills a role is a node of a kind that the role accepts. -/
theorem node?_of_fill {role : Role} {a : Argument} {n : NodeId} (h : fill w role a = .ok n) :
    a.node? = some n ∧ ∃ kind, w.kind? n = some kind ∧ role.accepts kind = true := by
  unfold fill at h
  split at h
  · simp at h
  · split at h
    · rename_i k hk
      split at h
      · rename_i haccepts
        obtain rfl := Except.ok.inj h
        cases hkind : w.kind? k with
        | none => simp [hkind] at haccepts
        | some kind => exact ⟨hk, kind, rfl, by simpa [hkind] using haccepts⟩
      · simp at h
    · simp at h

/-- What has a member is a node of a kind that has it. -/
theorem node?_of_withMember {allowed : NodeKind → Bool} {member : String} {a : Argument}
    {n : NodeId} (h : withMember w allowed member a = .ok n) :
    a.node? = some n ∧ ∃ kind, w.kind? n = some kind ∧ allowed kind = true := by
  unfold withMember at h
  split at h
  · rename_i k hk
    split at h
    · rename_i hallowed
      obtain rfl := Except.ok.inj h
      cases hkind : w.kind? k with
      | none => simp [hkind] at hallowed
      | some kind => exact ⟨hk, kind, rfl, by simpa [hkind] using hallowed⟩
    · simp at h
  · simp at h

/-- A node of a kind that the role accepts fills it. -/
theorem fill_node {role : Role} {n : NodeId} {kind : NodeKind} (hkind : w.kind? n = some kind)
    (hrole : role.accepts kind = true) : fill w role (.node n) = .ok n := by
  simp [fill, Argument.isAbsent, Entity.isAbsent, Argument.node?, Entity.node?, hkind, hrole]

/-! ## Adding flows -/

/-- A flow between nodes of the right kinds is added, unless the rate has an endpoint there. -/
theorem run_addFlow_eq {m : ModelId} {path : FlowPath} {start finish : Argument} {a b : NodeId}
    (hc : w.isChangeable m = true) (ha : fill w path.startRole start = .ok a)
    (hb : fill w path.finishRole finish = .ok b) :
    (addFlow m path start finish).run w =
      match w.endpoint? path.side (path.rateOf a b) with
      | none => .ok true (w.connect path.side (path.rateOf a b) (path.endpointOf a b))
      | some old => .ok (old = path.endpointOf a b) w := by
  rw [addFlow, run_requireChangeable_bind hc, run_require_bind ha, run_require_bind hb, addEnd,
    run_get_bind]
  cases w.endpoint? path.side (path.rateOf a b) <;> rfl

/-! ## Taking flows away -/

/-- The end of a rate is cut on both sides. -/
theorem run_removeEnd {side : Side} {r e : NodeId} (h : w.FlowsMatch)
    (hflow : w.endpoint? side r = some e) :
    (removeEnd side r e).run w = .ok true (w.disconnect side r) := by
  have hlisted : r ∈ w.ratesAt side e := (h.endpoint_iff side r e).1 hflow
  unfold removeEnd
  rw [run_get_bind]
  simp only [hflow, hlisted, and_self, if_true]
  rfl

/-- Where both halves match, a flow that is not at the rate is not at the endpoint either. -/
theorem run_removeEnd_of_ne {side : Side} {r e : NodeId} (h : w.FlowsMatch)
    (hflow : w.endpoint? side r ≠ some e) : (removeEnd side r e).run w = .ok false w := by
  have hlisted : r ∉ w.ratesAt side e := h.not_mem_rates hflow
  unfold removeEnd
  rw [run_get_bind]
  simp only [hflow, hlisted, and_self, if_false, not_false_eq_true, if_true]
  rfl

/-- An update that changes no node leaves the world as it was. -/
theorem updateNode_eq_self {n : NodeId} {f : Node → Node}
    (h : ∀ node, w.node? n = some node → f node = node) : w.updateNode n f = w := by
  have hnodes : w.nodes.modify n.index f = w.nodes := by
    refine Array.ext_getElem? fun i => ?_
    rw [Array.getElem?_modify]
    split
    · rename_i hi
      subst i
      cases hnode : w.nodes[n.index]? with
      | none => rfl
      | some node => rw [Option.map_some, h node hnode]
    · rfl
  rw [World.updateNode, hnodes]

/-- Cutting a rate that has no endpoint does nothing. -/
theorem disconnect_eq_self {side : Side} {r : NodeId} (h : w.endpoint? side r = none) :
    w.disconnect side r = w := by
  unfold World.disconnect
  rw [h]
  refine updateNode_eq_self fun node hnode => ?_
  rw [World.endpoint?, hnode, Option.bind_some] at h
  cases node with
  | rate r => cases side <;> cases r <;> simp_all [Node.setEndpoint, Node.endpoint?,
      Rate.withEndpoint, Rate.endpoint]
  | level l => rfl
  | constant c => rfl
  | auxiliary a => rfl
  | sourceSink flows => rfl

/-- Cutting the flow of one rate in a removal is cutting it. -/
theorem run_severRate (h : w.FlowsMatch) (side : Side) (r : NodeId) :
    (severRate side r).run w = .ok () (w.disconnect side r) := by
  unfold severRate
  rw [run_get_bind]
  cases hflow : w.endpoint? side r with
  | none =>
      rw [disconnect_eq_self hflow]
      rfl
  | some e =>
      simp only
      rw [run_bind_ok (run_removeEnd h hflow)]
      rfl

/-- Cutting the flows of many rates in a removal cuts them one by one. -/
theorem run_severAll {side : Side} {e : NodeId} {rs : List NodeId} (h : w.FlowsMatch)
    (hnodup : rs.Nodup) (hflow : ∀ r ∈ rs, w.endpoint? side r = some e) :
    (severAll side e (rs.map .node)).run w =
      .ok () (rs.foldl (fun w r => w.disconnect side r) w) := by
  induction rs generalizing w with
  | nil => rfl
  | cons r rest ih =>
      rw [List.nodup_cons] at hnodup
      have hr := hflow r List.mem_cons_self
      have hmember : withMember w (· == .rate) side.endMember (.leaf (.node r)) = .ok r := by
        rw [withMember, Argument.node?, Entity.node?]
        simp [World.kind?_of_endpoint? hr]
      have hone : (severListed side e (.node r)).run w = .ok () (w.disconnect side r) := by
        unfold severListed
        rw [run_get_bind, hmember, run_ofExcept_bind, run_bind_ok (run_removeEnd h hr)]
        rfl
      have hrest : ∀ k ∈ rest, (w.disconnect side r).endpoint? side k = some e := by
        intro k hk
        have hne : k ≠ r := by
          rintro rfl
          exact hnodup.1 hk
        rw [World.FlowsMatch.endpoint?_disconnect, if_neg (by simp [hne])]
        exact hflow k (List.mem_cons_of_mem r hk)
      rw [List.map_cons, severAll, run_bind_ok hone]
      exact ih (h.disconnect side r) hnodup.2 hrest

/-- Cutting an endpoint off from its rates cuts all flows of one side. -/
theorem run_severEndpoint (h : w.FlowsMatch) (side : Side) (e : NodeId) :
    (severEndpoint side e).run w = .ok () (w.sever side e) := by
  unfold severEndpoint
  rw [run_get_bind, h.listed_eq]
  exact run_severAll h (h.nodup side e) fun r hr => (h.endpoint_iff side r e).2 hr

end Action
end StockFlow
