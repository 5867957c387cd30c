import StockFlow.Proofs.Service.Reordering

/-!
# Connections of models under construction

The connections of a drawn model are added one after the other.  At every point the flows
of the model are told by the connections so far: a rate has an endpoint where one of them
joins the two, and an endpoint lists its rates in the order in which the connections
mention them first.  A connection that gives a rate another endpoint is refused.

Main definitions:

- {lit}`ConnectionData.Joins`: which elements a connection joins, and at which side.
- {lit}`Built.Wired`: the flows of a model are those of given connections.
- {lit}`Built.Connected`: what holds of a model once connections were added.
- {lit}`ModelData.Conflicts`: data that gives a rate two endpoints at a side.

Main results:

- Theorem {lit}`Built.Connected.addConnection`: one more connection.
- Theorem {lit}`Built.Connected.of_addAll`: all connections.
- Theorem {lit}`Built.Connected.not_conflicts`: no two of them conflict.
-/

namespace StockFlow

namespace ConnectionData

/-- The end of a connection where the endpoint stands if the connection is at a side of a rate. -/
def endpointAt (side : Side) (c : ConnectionData) : Int :=
  match side with
  | .source => c.source
  | .sink => c.target

/-- The end of a connection where the rate stands if the connection is at a side of it. -/
def rateAt (side : Side) (c : ConnectionData) : Int :=
  match side with
  | .source => c.target
  | .sink => c.source

/-- On the other side of a connection, the endpoint is where the rate was. -/
theorem endpointAt_other (side : Side) (c : ConnectionData) :
    c.endpointAt side.other = c.rateAt side := by
  cases side <;> rfl

theorem rateAt_other (side : Side) (c : ConnectionData) :
    c.rateAt side.other = c.endpointAt side := by
  cases side <;> rfl

/--
Whether a connection is a flow that joins an endpoint and a rate at a side: it leads from
the source to the rate, and from the rate to the sink.
-/
def Joins (c : ConnectionData) (side : Side) (endpoint rate : Int) : Prop :=
  c.type = "flow" ∧ c.endpointAt side = endpoint ∧ c.rateAt side = rate

/-- The rate that a flow joins with an endpoint at a side. -/
def rateFor? (side : Side) (endpoint : Int) (c : ConnectionData) : Option Int :=
  if c.type = "flow" ∧ c.endpointAt side = endpoint then some (c.rateAt side) else none

/-- The rates of an endpoint are those that some connection joins it to. -/
theorem mem_filterMap_rateFor? {cs : List ConnectionData} {side : Side} {endpoint rate : Int} :
    rate ∈ cs.filterMap (rateFor? side endpoint) ↔ ∃ c ∈ cs, c.Joins side endpoint rate := by
  simp only [List.mem_filterMap, rateFor?, Joins, Option.ite_none_right_eq_some,
    Option.some.injEq, and_assoc]

end ConnectionData

/-- One more connection joins what it joins, besides the others. -/
theorem ConnectionData.exists_joins_append {cs : List ConnectionData} {c : ConnectionData}
    {side : Side} {endpoint rate : Int} :
    (∃ c' ∈ cs ++ [c], c'.Joins side endpoint rate) ↔
      (∃ c' ∈ cs, c'.Joins side endpoint rate) ∨ c.Joins side endpoint rate := by
  simp only [List.mem_append, List.mem_singleton, or_and_right, exists_or, exists_eq_left]

/-- One more entry at the end of a list without its repeats. -/
theorem eraseDups_append_singleton {α : Type} [BEq α] [LawfulBEq α] (as : List α) (a : α) :
    (as ++ [a]).eraseDups = if a ∈ as then as.eraseDups else as.eraseDups ++ [a] := by
  rw [List.eraseDups_append]
  split
  · rename_i ha
    simp [List.removeAll, ha]
  · rename_i ha
    simp [List.removeAll, ha, List.eraseDups_cons]

namespace Built

variable {data : ModelData} {b b₀ v : Built} {c : ConnectionData} {cs : List ConnectionData}
  {side : Side} {x r : BuiltElement}

/-! ## One connection -/

/-- Whether a connection is a flow between an endpoint and a rate among the elements. -/
structure Draws (b : Built) (c : ConnectionData) (side : Side) (x r : BuiltElement) : Prop where
  joins : c.Joins side x.element.id r.element.id
  endpoint : x ∈ b.elements
  rate : r ∈ b.elements
  isEndpoint : x.kind.isEndpoint = true
  isRate : r.kind = .rate

/-- What is under construction, with a rate connected to an endpoint. -/
def withEnd (b : Built) (side : Side) (x r : BuiltElement) : Built :=
  { b with world := b.world.connect side r.node x.node }

/-- One of the two kinds of a path is a rate, the other one that of an endpoint at a side. -/
theorem kinds_of_path? {source target : NodeKind} {path : FlowPath}
    (h : path? source target = some path) :
    (path.side = .source ∧ source.isEndpoint = true ∧ target = .rate) ∨
      (path.side = .sink ∧ source = .rate ∧ target.isEndpoint = true) := by
  unfold path? at h
  split at h <;> cases h
  · exact Or.inl ⟨rfl, rfl, rfl⟩
  · exact Or.inr ⟨rfl, rfl, rfl⟩
  · exact Or.inl ⟨rfl, rfl, rfl⟩
  · exact Or.inr ⟨rfl, rfl, rfl⟩

/--
A connection that is accepted shows a dependency only, or it is a flow that the rate has
already or takes at a side that is free.
-/
theorem Sound.addConnection_cases (hb : b.Sound data) (hadd : b.addConnection c = .ok v) :
    (c.type ≠ "flow" ∧ v = b) ∨ ∃ side x r, b.Draws c side x r ∧
      ((b.world.endpoint? side r.node = none ∧ v = b.withEnd side x r) ∨
        (b.world.endpoint? side r.node = some x.node ∧ v = b)) := by
  rw [addConnection] at hadd
  split at hadd
  · rename_i hdependency
    cases hadd
    rw [beq_iff_eq] at hdependency
    exact Or.inl ⟨by rw [hdependency]; decide, rfl⟩
  · split at hadd
    · cases hadd
    · rename_i hflow
      have htype : c.type = "flow" := by simpa using hflow
      split at hadd
      · cases hadd
      · cases hadd
      · rename_i s t hs ht
        have hsource := mem_of_find? hs
        have htarget := mem_of_find? ht
        cases hpath : path? s.kind t.kind with
        | none =>
            rw [addFlow, hpath] at hadd
            cases hadd
        | some path =>
            have hcases := (hb.addFlow_eq_ok_iff c.id hsource htarget hpath).1 hadd
            rw [withFlow, FlowPath.rateOf, FlowPath.endpointOf] at hcases
            refine Or.inr ?_
            rcases kinds_of_path? hpath with ⟨hside, hend, hrate⟩ | ⟨hside, hrate, hend⟩
            · rw [hside] at hcases
              exact ⟨.source, s, t, ⟨⟨htype, (id_of_find? hs).symm, (id_of_find? ht).symm⟩,
                hsource, htarget, hend, hrate⟩, hcases⟩
            · rw [hside] at hcases
              exact ⟨.sink, t, s, ⟨⟨htype, (id_of_find? ht).symm, (id_of_find? hs).symm⟩,
                htarget, hsource, hend, hrate⟩, hcases⟩

namespace Draws

variable (h : b.Draws c side x r) (hl : b.Laid)

include h hl

/-- At the other side, the endpoint would have to be the rate and the rate the endpoint. -/
theorem not_endpointAt {s : Side} (hs : s ≠ side) {y : BuiltElement} (hy : y ∈ b.elements)
    (hend : y.kind.isEndpoint = true) : c.endpointAt s ≠ y.element.id := by
  intro hid
  have hrate : r.element.id = y.element.id := by
    rw [← h.joins.2.2, ← hid, ← ConnectionData.endpointAt_other, Side.eq_other_of_ne hs]
  rw [← List.inj_on_of_nodup_map hl.ids h.rate hy hrate, h.isRate] at hend
  cases hend

/-- The connection joins its endpoint with its rate at its side, and no others. -/
theorem eq_of_joins {s : Side} {a : Int} {q : BuiltElement} (hq : q ∈ b.elements)
    (hrate : q.kind = .rate) (hjoins : c.Joins s a q.element.id) :
    s = side ∧ a = x.element.id ∧ q = r := by
  rcases hjoins with ⟨_, hend, hother⟩
  by_cases hs : s = side
  · subst hs
    refine ⟨rfl, hend.symm.trans h.joins.2.1, List.inj_on_of_nodup_map hl.ids hq h.rate ?_⟩
    exact hother.symm.trans h.joins.2.2
  · have hid : q.element.id = x.element.id := by
      rw [← hother, Side.eq_other_of_ne hs, ConnectionData.rateAt_other, h.joins.2.1]
    have hkind := h.isEndpoint
    rw [← List.inj_on_of_nodup_map hl.ids hq h.endpoint hid, hrate] at hkind
    cases hkind

/-- It mentions a rate for its endpoint at its side, and none for others. -/
theorem rateFor?_eq {s : Side} {y : BuiltElement} (hy : y ∈ b.elements)
    (hend : y.kind.isEndpoint = true) :
    c.rateFor? s y.element.id =
      if s = side ∧ y.node = x.node then some r.element.id else none := by
  rw [ConnectionData.rateFor?]
  split
  · rename_i hid
    by_cases hs : s = side
    · subst hs
      have hyx := List.inj_on_of_nodup_map hl.ids hy h.endpoint (hid.2.symm.trans h.joins.2.1)
      rw [if_pos ⟨rfl, congrArg _ hyx⟩, h.joins.2.2]
    · exact (h.not_endpointAt hl hs hy hend hid.2).elim
  · rename_i hid
    rw [if_neg]
    rintro ⟨rfl, hnode⟩
    rw [List.inj_on_of_nodup_map hl.nodes hy h.endpoint hnode] at hid
    exact hid ⟨h.joins.1, h.joins.2.1⟩

end Draws

/-! ## Flows of connections -/

/--
Whether the flows of the model are those of given connections, and lists follow the order
in which these mention the rates first.
-/
structure Wired (b : Built) (cs : List ConnectionData) : Prop where
  drawn : ∀ c ∈ cs, c.type = "flow" → ∃ side x r, b.Draws c side x r
  endpoint : ∀ side, ∀ r ∈ b.elements, r.kind = .rate → ∀ n,
    b.world.endpoint? side r.node = some n ↔
      ∃ x ∈ b.elements, x.node = n ∧ ∃ c ∈ cs, c.Joins side x.element.id r.element.id
  rates : ∀ side, ∀ x ∈ b.elements, x.kind.isEndpoint = true →
    (b.world.ratesAt side x.node).map b.elementId? =
      (cs.filterMap (·.rateFor? side x.element.id)).eraseDups.map some

/-- Before any connection, no rate has an endpoint. -/
theorem Begun.wired (h : Begun data b) : b.Wired [] where
  drawn c hc := (List.not_mem_nil hc).elim
  endpoint side r hr _ n := by
    rcases h.fresh r hr with ⟨node, hnode, hworld⟩
    rw [World.endpoint?, hworld, Option.bind_some, (ElementData.new_of_node? hnode).endpoint]
    simp
  rates side x hx _ := by
    rcases h.fresh x hx with ⟨node, hnode, hworld⟩
    rw [World.ratesAt, World.listedAt, hworld, Option.map_some, Option.getD_some,
      (ElementData.new_of_node? hnode).listed]
    rfl

/-- A rate whose endpoint is an element is joined with it. -/
theorem Wired.endpoint_iff (hw : b.Wired cs) (hl : b.Laid) (hx : x ∈ b.elements)
    (hr : r ∈ b.elements) (hrate : r.kind = .rate) :
    b.world.endpoint? side r.node = some x.node ↔
      ∃ c ∈ cs, c.Joins side x.element.id r.element.id := by
  rw [hw.endpoint side r hr hrate]
  constructor
  · rintro ⟨y, hy, hnode, hjoins⟩
    rwa [List.inj_on_of_nodup_map hl.nodes hy hx hnode] at hjoins
  · rintro hjoins
    exact ⟨x, hx, rfl, hjoins⟩

/-- A connection that joins nothing changes no flows. -/
theorem Wired.keep (hw : b.Wired cs) (hc : c.type ≠ "flow") : b.Wired (cs ++ [c]) where
  drawn c' hc' htype := by
    rcases List.mem_append.1 hc' with hc' | hc'
    · exact hw.drawn c' hc' htype
    · rw [List.mem_singleton.1 hc'] at htype
      exact (hc htype).elim
  endpoint side r hr hrate n := by
    have hjoins : ∀ a q, ¬c.Joins side a q := fun _ _ h => hc h.1
    rw [hw.endpoint side r hr hrate n]
    simp only [ConnectionData.exists_joins_append, hjoins, or_false]
  rates side x hx hend := by
    have hnone : c.rateFor? side x.element.id = none := if_neg fun h => hc h.1
    simp [hw.rates side x hx hend, hnone]

section

variable (h : b.Draws c side x r) (hl : b.Laid) (hw : b.Wired cs)

include h hl hw

/-- With one more connection, a rate has the endpoints it had, and the new one. -/
theorem Wired.endpoint_append_iff {s : Side} {q : BuiltElement} (hq : q ∈ b.elements)
    (hrate : q.kind = .rate) (n : NodeId) :
    (∃ y ∈ b.elements, y.node = n ∧ ∃ c' ∈ cs ++ [c], c'.Joins s y.element.id q.element.id) ↔
      b.world.endpoint? s q.node = some n ∨ s = side ∧ q = r ∧ x.node = n := by
  simp only [ConnectionData.exists_joins_append, and_or_left, exists_or,
    hw.endpoint s q hq hrate n]
  refine or_congr_right ⟨?_, ?_⟩
  · rintro ⟨y, hy, rfl, hjoins⟩
    obtain ⟨rfl, hid, rfl⟩ := h.eq_of_joins hl hq hrate hjoins
    exact ⟨rfl, rfl, congrArg _ (List.inj_on_of_nodup_map hl.ids h.endpoint hy hid.symm)⟩
  · rintro ⟨rfl, rfl, rfl⟩
    exact ⟨x, h.endpoint, rfl, h.joins⟩

omit hw in
/-- With one more connection, one endpoint gets one more rate at the end. -/
theorem Draws.filterMap_append {s : Side} {y : BuiltElement} (hy : y ∈ b.elements)
    (hend : y.kind.isEndpoint = true) :
    (cs ++ [c]).filterMap (·.rateFor? s y.element.id) =
      cs.filterMap (·.rateFor? s y.element.id) ++
        if s = side ∧ y.node = x.node then [r.element.id] else [] := by
  rw [List.filterMap_append, List.filterMap_cons, h.rateFor?_eq hl hy hend]
  split <;> rename_i heq <;> split at heq <;> cases heq <;> simp [*]

/-- Whether a rate was mentioned for an endpoint already shows at the rate. -/
theorem Wired.mem_mentioned_iff :
    r.element.id ∈ cs.filterMap (·.rateFor? side x.element.id) ↔
      b.world.endpoint? side r.node = some x.node := by
  rw [ConnectionData.mem_filterMap_rateFor?, hw.endpoint_iff hl h.endpoint h.rate h.isRate]

omit hl in
theorem Wired.drawn_append : ∀ c' ∈ cs ++ [c], c'.type = "flow" → ∃ side x r,
    b.Draws c' side x r := by
  intro c' hc' htype
  rcases List.mem_append.1 hc' with hc' | hc'
  · exact hw.drawn c' hc' htype
  · rw [List.mem_singleton.1 hc']
    exact ⟨side, x, r, h⟩

/-- A flow that is there already changes nothing. -/
theorem Wired.again (hold : b.world.endpoint? side r.node = some x.node) :
    b.Wired (cs ++ [c]) where
  drawn := hw.drawn_append h
  endpoint s q hq hrate n := by
    rw [hw.endpoint_append_iff h hl hq hrate, iff_self_or]
    rintro ⟨rfl, rfl, rfl⟩
    exact hold
  rates s y hy hend := by
    rw [hw.rates s y hy hend, h.filterMap_append hl hy hend]
    split
    · rename_i hside
      obtain ⟨rfl, hnode⟩ := hside
      obtain rfl := List.inj_on_of_nodup_map hl.nodes hy h.endpoint hnode
      rw [eraseDups_append_singleton, if_pos ((hw.mem_mentioned_iff h hl).2 hold)]
    · rw [List.append_nil]

/-- A flow at a free side adds the rate to the list of the endpoint. -/
theorem Wired.withEnd (hb : b.Sound data) (hfree : b.world.endpoint? side r.node = none) :
    (b.withEnd side x r).Wired (cs ++ [c]) where
  drawn c' hc' htype := by
    rcases hw.drawn_append h c' hc' htype with ⟨s, y, q, hdraws⟩
    exact ⟨s, y, q, hdraws.joins, hdraws.endpoint, hdraws.rate, hdraws.isEndpoint,
      hdraws.isRate⟩
  endpoint s q hq hrate n := by
    have hkind : b.world.kind? r.node = some .rate := by
      rw [hb.kind?_eq h.rate, h.isRate]
    refine Iff.trans ?_ (hw.endpoint_append_iff h hl hq hrate n).symm
    rw [Built.withEnd, World.FlowsMatch.endpoint?_connect hkind]
    split
    · rename_i hside
      obtain ⟨rfl, hnode⟩ := hside
      obtain rfl := List.inj_on_of_nodup_map hl.nodes hq h.rate hnode
      simp [hfree]
    · rename_i hside
      refine (or_iff_left ?_).symm
      rintro ⟨rfl, rfl, _⟩
      exact hside ⟨rfl, rfl⟩
  rates s y hy hend := by
    have hflows := hb.reachable.reachable.wellFormed.flows
    have hworld : b.world.isEndpoint x.node = true := by
      rw [World.isEndpoint, hb.kind?_eq h.endpoint]
      exact h.isEndpoint
    have hids : (b.withEnd side x r).elementId? = b.elementId? := rfl
    rw [h.filterMap_append hl hy hend, hids, Built.withEnd,
      hflows.ratesAt_connect_free hworld hfree]
    split
    · rename_i hside
      obtain ⟨rfl, hnode⟩ := hside
      obtain rfl := List.inj_on_of_nodup_map hl.nodes hy h.endpoint hnode
      have hnew := mt (hw.mem_mentioned_iff h hl).1 (by simp [hfree])
      rw [eraseDups_append_singleton, if_neg hnew, List.map_append, List.map_append,
        hw.rates _ _ hy hend, List.map_singleton, List.map_singleton, hl.elementId?_eq h.rate]
    · rw [List.append_nil]
      exact hw.rates s y hy hend

end

/-! ## All connections -/

/-- What holds of a model to which given connections were added. -/
structure Connected (data : ModelData) (b₀ : Built) (cs : List ConnectionData) (b : Built) :
    Prop where
  sound : Sound data b
  laid : b.Laid
  wired : b.Wired cs
  elements : b.elements = b₀.elements
  model : b.model = b₀.model
  same : World.SameUpToFlows b₀.world b.world

theorem Begun.connected (h : Begun data b) : Connected data b [] b :=
  ⟨h.toSound, h.toLaid, h.wired, rfl, rfl, World.SameUnder.refl _ _⟩

namespace Connected

/-- One more connection. -/
theorem addConnection (h : Connected data b₀ cs b) (hadd : b.addConnection c = .ok v) :
    Connected data b₀ (cs ++ [c]) v := by
  have hsound : v.Sound data := by
    have hends : Ends (Sound data) (fun _ => False) (b.addConnection c) :=
      ends_addConnection h.sound c
    rwa [hadd] at hends
  rcases h.sound.addConnection_cases hadd with
    ⟨hc, rfl⟩ | ⟨side, x, r, hdraws, ⟨hfree, rfl⟩ | ⟨hold, rfl⟩⟩
  · exact ⟨h.sound, h.laid, h.wired.keep hc, h.elements, h.model, h.same⟩
  · have hsame := World.sameUpToFlows_connect b.world side r.node x.node
    exact ⟨hsound, h.laid.of_same rfl (hsame.model b.model) hsame.nameOf,
      h.wired.withEnd hdraws h.laid h.sound hfree, h.elements, h.model, h.same.trans hsame⟩
  · exact ⟨h.sound, h.laid, h.wired.again hdraws h.laid hold, h.elements, h.model, h.same⟩

/-- All connections, in their order. -/
theorem of_addAll {rest : List ConnectionData} (h : Connected data b₀ cs b)
    (hadd : addAll Built.addConnection b rest = .ok v) : Connected data b₀ (cs ++ rest) v := by
  induction rest generalizing b cs with
  | nil =>
      cases hadd
      rwa [List.append_nil]
  | cons c rest ih =>
      rcases addAll_cons_eq_ok_iff.1 hadd with ⟨next, hc, hadd⟩
      have hrest := ih (h.addConnection hc) hadd
      rwa [List.append_assoc, List.singleton_append] at hrest

/-- What a connection joins with a rate has an element. -/
theorem exists_endpoint (h : Connected data b₀ cs b) (hr : r ∈ b.elements) (hrate : r.kind = .rate)
    (hc : c ∈ cs) {a : Int} (hjoins : c.Joins side a r.element.id) :
    ∃ x ∈ b.elements, x.element.id = a ∧ b.world.endpoint? side r.node = some x.node := by
  rcases h.wired.drawn c hc hjoins.1 with ⟨s, x, q, hdraws⟩
  obtain ⟨rfl, rfl, rfl⟩ := hdraws.eq_of_joins h.laid hr hrate hjoins
  exact ⟨x, hdraws.endpoint, rfl,
    (h.wired.endpoint_iff h.laid hdraws.endpoint hr hrate).2 ⟨c, hc, hjoins⟩⟩

end Connected

/-! ## Conflicts -/

/-- Where there is no reason for a fault, what fails is a refusal. -/
theorem Ends.exists_refusal {good : Built → Prop} {failure : BuildFailure}
    (h : Ends good (fun _ => False) (.error failure)) : ∃ refusal, failure = .refused refusal := by
  cases failure with
  | refused refusal => exact ⟨refusal, rfl⟩
  | failed fault => exact h.elim

end Built

/-- Whether flows give a rate two different endpoints at a side. -/
def ModelData.Conflicts (data : ModelData) : Prop :=
  ∃ side, ∃ e ∈ data.elements, e.type = "rate" ∧
    ∃ c ∈ data.connections, ∃ c' ∈ data.connections, ∃ a a', a ≠ a' ∧
      c.Joins side a e.id ∧ c'.Joins side a' e.id

/-- A rate that was connected has one endpoint at a side. -/
theorem Built.Connected.not_conflicts {data : ModelData} {b₀ b : Built}
    (h : Connected data b₀ data.connections b)
    (helements : b.elements.map (·.element) = data.elements) : ¬data.Conflicts := by
  rintro ⟨side, e, he, htype, c, hc, c', hc', a, a', hne, hjoins, hjoins'⟩
  rw [← helements] at he
  rcases List.mem_map.1 he with ⟨r, hr, rfl⟩
  have hrate : r.kind = .rate := by
    have hkind := h.laid.type r hr
    rw [htype] at hkind
    exact (Option.some.inj hkind).symm
  rcases h.exists_endpoint hr hrate hc hjoins with ⟨x, hx, rfl, hend⟩
  rcases h.exists_endpoint hr hrate hc' hjoins' with ⟨y, hy, rfl, hend'⟩
  rw [hend] at hend'
  rw [List.inj_on_of_nodup_map h.laid.nodes hx hy (Option.some.inj hend')] at hne
  exact hne rfl

/-- Data that gives a rate two endpoints at a side is refused. -/
theorem ModelData.exists_refusal_of_conflicts {data : ModelData} (h : data.Conflicts) :
    ∃ refusal, data.build = .error (.refused refusal) := by
  have hstart := Built.begun_start data (nameValue data.name)
  have hends : Built.Ends (Built.Sound data) (fun _ => False)
      (Built.addAll Built.addElement _ data.elements) :=
    Built.ends_addAll (fun b hb e he => Built.ends_addElement hb he) hstart.toSound
  cases hnodes : Built.addAll Built.addElement _ data.elements with
  | error failure =>
      rw [hnodes] at hends
      rcases hends.exists_refusal with ⟨refusal, rfl⟩
      exact ⟨refusal, by rw [build, hnodes]; rfl⟩
  | ok b =>
      obtain ⟨hb, helements⟩ := hstart.of_addAll (fun _ he => he) hnodes
      have hends' : Built.Ends (Built.Sound data) (fun _ => False)
          (Built.addAll Built.addConnection b data.connections) :=
        Built.ends_addAll (fun b hb c _ => Built.ends_addConnection hb c) hb.toSound
      cases hflows : Built.addAll Built.addConnection b data.connections with
      | error failure =>
          rw [hflows] at hends'
          rcases hends'.exists_refusal with ⟨refusal, rfl⟩
          refine ⟨refusal, ?_⟩
          simp only [build, hnodes, bind, Except.bind, hflows]
      | ok v =>
          have hv := hb.connected.of_addAll hflows
          rw [List.nil_append] at hv
          refine (hv.not_conflicts ?_ h).elim
          rw [hv.elements, helements]
          rfl

end StockFlow
