import StockFlow.Proofs.World.Views

/-!
# Both halves of a flow

A flow is stored at its rate and at its endpoint.  Both halves match if every
endpoint lists, without repeats, exactly the rates that have it at that side.
Connecting and disconnecting rates keep matching halves together; in a world
where they match, both have simple descriptions in terms of the two views.

Main definitions:

- {lit}`World.FlowsMatch`: both halves of every flow match.
- {lit}`World.sever`, {lit}`World.isolate`: taking all flows of a node away.

Main results:

- Theorems {lit}`World.FlowsMatch.connect` and {lit}`World.FlowsMatch.disconnect`: matching
  halves stay together.
- Theorem {lit}`World.FlowsMatch.isolate`: taking all flows of a node away keeps them too.
-/

namespace StockFlow

namespace Node

/-- A change to one list of an endpoint leaves its other list alone. -/
theorem listed_mapListed {node : Node} (hkind : node.kind.isEndpoint = true) (side s : Side)
    (f : List Entity → List Entity) :
    (node.mapListed side f).listed s =
      if s = side then f (node.listed side) else node.listed s := by
  cases node with
  | level l => cases side <;> cases s <;> rfl
  | sourceSink flows => cases side <;> cases s <;> rfl
  | rate r => simp [kind, NodeKind.isEndpoint] at hkind
  | constant c => simp [kind, NodeKind.isEndpoint] at hkind
  | auxiliary a => simp [kind, NodeKind.isEndpoint] at hkind

/-- Rates alone have an endpoint. -/
theorem endpoint?_eq_none {node : Node} (hkind : node.kind ≠ .rate) (side : Side) :
    node.endpoint? side = none := by
  cases node with
  | rate r => exact (hkind rfl).elim
  | level l => rfl
  | constant c => rfl
  | auxiliary a => rfl
  | sourceSink flows => rfl

/-- A change to one endpoint of a rate leaves the other endpoint alone. -/
theorem endpoint?_setEndpoint {node : Node} {e : Option NodeId}
    (hkind : e ≠ none → node.kind = .rate) (side s : Side) :
    (node.setEndpoint side e).endpoint? s = if s = side then e else node.endpoint? s := by
  by_cases hrate : node.kind = .rate
  · cases node with
    | rate r => cases side <;> cases s <;> rfl
    | level l => simp [kind] at hrate
    | constant c => simp [kind] at hrate
    | auxiliary a => simp [kind] at hrate
    | sourceSink flows => simp [kind] at hrate
  · have hnone : e = none := by
      cases e with
      | none => rfl
      | some e => exact (hrate (hkind nofun)).elim
    have hsame : (node.setEndpoint side e).kind ≠ .rate := by
      cases node <;> exact hrate
    rw [endpoint?_eq_none hsame, endpoint?_eq_none hrate, hnone]
    simp

/-- A node that is no endpoint lists no rates. -/
theorem listed_eq_nil {node : Node} (hkind : node.kind.isEndpoint = false) (side : Side) :
    node.listed side = [] := by
  cases node with
  | level l => simp [kind, NodeKind.isEndpoint] at hkind
  | sourceSink flows => simp [kind, NodeKind.isEndpoint] at hkind
  | rate r => rfl
  | constant c => rfl
  | auxiliary a => rfl

end Node

namespace World

variable {w : World} {side : Side}

/-- Whether flows can start and end at a node. -/
def isEndpoint (w : World) (n : NodeId) : Bool := ((w.kind? n).map NodeKind.isEndpoint).getD false

/-- A node that lists a rate is an endpoint. -/
theorem isEndpoint_of_listed {e : NodeId} {k : Entity} (h : k ∈ w.listedAt side e) :
    w.isEndpoint e = true := by
  rw [listedAt] at h
  rw [isEndpoint, kind?]
  cases hnode : w.node? e with
  | none => simp [hnode] at h
  | some node =>
      cases hkind : node.kind.isEndpoint with
      | true => simp [hkind]
      | false => simp [hnode, Node.listed_eq_nil hkind] at h

/-- A node that has an endpoint is a rate. -/
theorem kind?_of_endpoint? {r e : NodeId} (h : w.endpoint? side r = some e) :
    w.kind? r = some .rate := by
  rw [endpoint?] at h
  rw [kind?]
  cases hnode : w.node? r with
  | none => simp [hnode] at h
  | some node =>
      by_cases hkind : node.kind = .rate
      · simp [hkind]
      · simp [hnode, Node.endpoint?_eq_none hkind] at h

/-! ## The two halves apart -/

/-- Attaching inserts one key into one list of one endpoint. -/
theorem listedAt_attach {e : NodeId} (he : w.isEndpoint e = true) (k : Entity) (s : Side)
    (x : NodeId) : (w.attach side e k).listedAt s x =
      if s = side ∧ x = e then insertKey k (w.listedAt side e) else w.listedAt s x := by
  rw [attach, listedAt, listedAt, listedAt, node?_updateNode]
  rw [isEndpoint, kind?] at he
  by_cases hx : e = x
  · subst x
    cases hnode : w.node? e with
    | none => simp [hnode] at he
    | some node =>
        have hkind : node.kind.isEndpoint = true := by simpa [hnode] using he
        simp [Node.listed_mapListed hkind]
  · simp [hx, Ne.symm hx]

/-- Detaching erases one key from one list of one endpoint. -/
theorem listedAt_detach (e : NodeId) (k : Entity) (s : Side) (x : NodeId) :
    (w.detach side e k).listedAt s x =
      if s = side ∧ x = e then eraseKey k (w.listedAt side e) else w.listedAt s x := by
  rw [detach, listedAt, listedAt, listedAt, node?_updateNode]
  by_cases hx : e = x
  · subst x
    cases hnode : w.node? e with
    | none => simp [eraseKey]
    | some node =>
        cases hkind : node.kind.isEndpoint with
        | true => simp [Node.listed_mapListed hkind]
        | false =>
            have hsame : (node.mapListed side (eraseKey k)).kind.isEndpoint = false := by
              rw [← hkind]
              cases node <;> rfl
            simp [Node.listed_eq_nil hkind, Node.listed_eq_nil hsame, eraseKey]
  · simp [hx, Ne.symm hx]

/-- Noting an endpoint changes one endpoint of one rate. -/
theorem endpoint?_noteEndpoint {r : NodeId} {e : Option NodeId}
    (hr : e ≠ none → w.kind? r = some .rate) (s : Side) (x : NodeId) :
    (w.noteEndpoint side r e).endpoint? s x =
      if s = side ∧ x = r then e else w.endpoint? s x := by
  rw [noteEndpoint, endpoint?, endpoint?, node?_updateNode]
  rw [kind?] at hr
  by_cases hx : r = x
  · subst x
    cases hnode : w.node? r with
    | none =>
        have hnone : e = none := by simpa [hnode] using hr
        simp [hnone]
    | some node =>
        have hkind : e ≠ none → node.kind = .rate := by simpa [hnode] using hr
        simp [Node.endpoint?_setEndpoint hkind]
  · simp [hx, Ne.symm hx]

/-- The lists of endpoints are no part of what rates note. -/
theorem endpoint?_mapListed (w : World) (side s : Side) (e x : NodeId)
    (f : List Entity → List Entity) :
    (w.updateNode e (Node.mapListed side f)).endpoint? s x = w.endpoint? s x := by
  refine bind_updateNode (Node.endpoint? s) (fun node => ?_) w e x
  cases node <;> rfl

/-- What rates note is no part of the lists of endpoints. -/
theorem listedAt_noteEndpoint (w : World) (side s : Side) (r x : NodeId) (e : Option NodeId) :
    (w.noteEndpoint side r e).listedAt s x = w.listedAt s x := by
  have hkeep : ∀ node, (Node.setEndpoint side e node).listed s = node.listed s := by
    intro node
    cases node <;> rfl
  rw [noteEndpoint, listedAt, map_updateNode (Node.listed s) hkeep, listedAt]

/-! ## Matching halves -/

/-- Every endpoint lists, without repeats, exactly the rates that have it at that side. -/
structure FlowsMatch (w : World) : Prop where
  listed_eq : ∀ side e, w.listedAt side e = (w.ratesAt side e).map .node
  nodup : ∀ side e, (w.ratesAt side e).Nodup
  endpoint_iff : ∀ side r e, w.endpoint? side r = some e ↔ r ∈ w.ratesAt side e

/-- Halves that match do so in every world that shows the same halves. -/
theorem FlowsMatch.of_eq {w' : World} (h : w.FlowsMatch)
    (hendpoint : ∀ side n, w'.endpoint? side n = w.endpoint? side n)
    (hlisted : ∀ side n, w'.listedAt side n = w.listedAt side n) : w'.FlowsMatch where
  listed_eq side e := by rw [ratesAt, hlisted, h.listed_eq, nodesOf_map_node]
  nodup side e := by
    rw [ratesAt, hlisted]
    exact h.nodup side e
  endpoint_iff side r e := by rw [ratesAt, hlisted, hendpoint, h.endpoint_iff, ratesAt]

/-- What an endpoint lists at a side are rates that have it at that side. -/
theorem FlowsMatch.mem_listedAt_iff (h : w.FlowsMatch) {side : Side} {e : NodeId} {k : Entity} :
    k ∈ w.listedAt side e ↔ ∃ r, k = .node r ∧ w.endpoint? side r = some e := by
  rw [h.listed_eq, List.mem_map]
  constructor
  · rintro ⟨r, hr, rfl⟩
    exact ⟨r, rfl, (h.endpoint_iff side r e).2 hr⟩
  · rintro ⟨r, rfl, hr⟩
    exact ⟨r, (h.endpoint_iff side r e).1 hr, rfl⟩

/-- Both halves of the flows match by the links of the nodes alone. -/
theorem SameLinks.flowsMatch {w' : World} (h : SameLinks w w') (hflows : w.FlowsMatch) :
    w'.FlowsMatch :=
  hflows.of_eq h.endpoint h.listed

theorem sameUpToFlows_attach (w : World) (side : Side) (e : NodeId) (k : Entity) :
    SameUpToFlows w (w.attach side e k) :=
  sameUnder_updateNode (Node.unlinked_mapListed side (insertKey k)) w e

theorem sameUpToFlows_detach (w : World) (side : Side) (e : NodeId) (k : Entity) :
    SameUpToFlows w (w.detach side e k) :=
  sameUnder_updateNode (Node.unlinked_mapListed side (eraseKey k)) w e

theorem sameUpToFlows_noteEndpoint (w : World) (side : Side) (r : NodeId) (e : Option NodeId) :
    SameUpToFlows w (w.noteEndpoint side r e) :=
  sameUnder_updateNode (Node.unlinked_setEndpoint side e) w r

/-- Cutting a flow changes flows only. -/
theorem sameUpToFlows_disconnect (w : World) (side : Side) (r : NodeId) :
    SameUpToFlows w (w.disconnect side r) := by
  unfold disconnect
  split
  · exact (sameUpToFlows_detach ..).trans (sameUpToFlows_noteEndpoint ..)
  · exact sameUpToFlows_noteEndpoint ..

/-- Detaching a rate from its former endpoint changes flows only. -/
theorem sameUpToFlows_detachFromOther (w : World) (side : Side) (r e : NodeId) :
    SameUpToFlows w (w.detachFromOther side r e) := by
  unfold detachFromOther
  split
  · split
    · exact SameUnder.refl ..
    · exact sameUpToFlows_detach ..
  · exact SameUnder.refl ..

/-- Making a flow changes flows only. -/
theorem sameUpToFlows_connect (w : World) (side : Side) (r e : NodeId) :
    SameUpToFlows w (w.connect side r e) :=
  ((sameUpToFlows_detachFromOther ..).trans (sameUpToFlows_attach ..)).trans
    (sameUpToFlows_noteEndpoint ..)

/-- No change of flows alone makes an endpoint of a node, or of an endpoint another node. -/
theorem SameUpToFlows.isEndpoint {w' : World} (h : SameUpToFlows w w') (n : NodeId) :
    w'.isEndpoint n = w.isEndpoint n := by
  rw [World.isEndpoint, World.isEndpoint, h.kind]

theorem eraseKey_of_not_mem {n : NodeId} {keys : List Entity} (h : n ∉ nodesOf keys) :
    eraseKey (.node n) keys = keys := by
  rw [eraseKey, List.eraseP_of_forall_not]
  intro k hk hequal
  exact h (mem_nodesOf.2 (List.any_eq_true.2 ⟨k, hk, hequal⟩))

theorem eraseKey_map_node (n : NodeId) (ns : List NodeId) :
    eraseKey (.node n) (ns.map .node) = (ns.erase n).map .node := by
  rw [eraseKey, List.eraseP_map, List.erase_eq_eraseP]
  rfl

theorem insertKey_map_node (n : NodeId) (ns : List NodeId) :
    insertKey (.node n) (ns.map .node) = (insertNode n ns).map .node := by
  have hany : (ns.map Entity.node).any (Entity.node n == ·) = true ↔ n ∈ ns := by
    rw [← mem_nodesOf, nodesOf_map_node]
  unfold insertKey insertNode
  by_cases h : n ∈ ns
  · rw [if_pos (hany.2 h), if_pos h]
  · rw [if_neg (fun hn => h (hany.1 hn)), if_neg h, List.map_append]
    rfl

namespace FlowsMatch

/-- What a rate notes as its endpoint is one. -/
theorem isEndpoint (h : w.FlowsMatch) {r e : NodeId} (hflow : w.endpoint? side r = some e) :
    w.isEndpoint e = true := by
  have hlisted : Entity.node r ∈ w.listedAt side e := by
    rw [h.listed_eq]
    exact List.mem_map_of_mem ((h.endpoint_iff side r e).1 hflow)
  exact isEndpoint_of_listed hlisted

/-- A rate is listed nowhere but at its endpoint. -/
theorem not_mem_rates (h : w.FlowsMatch) {r e : NodeId} (hne : w.endpoint? side r ≠ some e) :
    r ∉ w.ratesAt side e := by
  intro hr
  exact hne ((h.endpoint_iff side r e).2 hr)

/-! ## Disconnecting -/

/-- A cut flow is gone from the rate, and every other endpoint is as before. -/
theorem endpoint?_disconnect (w : World) (side : Side) (r : NodeId) (s : Side) (x : NodeId) :
    (w.disconnect side r).endpoint? s x =
      if s = side ∧ x = r then none else w.endpoint? s x := by
  unfold disconnect
  split
  · rw [endpoint?_noteEndpoint (by simp), detach, endpoint?_mapListed]
  · exact endpoint?_noteEndpoint (by simp) s x

/-- Nothing is taken from the list of an endpoint that the rate does not have. -/
theorem eraseKey_listedAt (h : w.FlowsMatch) {r x : NodeId} (hne : w.endpoint? side r ≠ some x) :
    eraseKey (.node r) (w.listedAt side x) = w.listedAt side x :=
  eraseKey_of_not_mem (h.not_mem_rates hne)

/-- Taken from the list of its endpoint, a rate is taken from every list of the side. -/
theorem listedAt_detach_endpoint (h : w.FlowsMatch) {r old : NodeId}
    (hold : w.endpoint? side r = some old) (s : Side) (x : NodeId) :
    (w.detach side old (.node r)).listedAt s x =
      if s = side then eraseKey (.node r) (w.listedAt s x) else w.listedAt s x := by
  rw [listedAt_detach]
  by_cases hs : s = side
  · subst s
    by_cases hx : x = old
    · simp [hx]
    · have hne : w.endpoint? side r ≠ some x := by
        rw [hold]
        exact fun heq => hx (Option.some.inj heq).symm
      rw [if_neg (by simp [hx]), if_pos rfl, h.eraseKey_listedAt hne]
  · rw [if_neg (by simp [hs]), if_neg hs]

/-- A cut flow is gone from the list that had it, and no other list had it. -/
theorem listedAt_disconnect (h : w.FlowsMatch) (side : Side) (r : NodeId) (s : Side)
    (x : NodeId) : (w.disconnect side r).listedAt s x =
      if s = side then eraseKey (.node r) (w.listedAt s x) else w.listedAt s x := by
  unfold disconnect
  split
  · rename_i old hold
    rw [listedAt_noteEndpoint, h.listedAt_detach_endpoint hold]
  · rename_i hnone
    rw [listedAt_noteEndpoint]
    split
    · rename_i hs
      subst s
      rw [h.eraseKey_listedAt (by simp [hnone])]
    · rfl

/-- A cut flow is gone from the rates of its endpoint. -/
theorem ratesAt_disconnect (h : w.FlowsMatch) (side : Side) (r : NodeId) (s : Side) (x : NodeId) :
    (w.disconnect side r).ratesAt s x =
      if s = side then (w.ratesAt s x).erase r else w.ratesAt s x := by
  rw [ratesAt, listedAt_disconnect h]
  split
  · rw [nodesOf_eraseKey, ratesAt]
  · rfl

/-- Disconnecting a rate keeps matching halves together. -/
theorem disconnect (h : w.FlowsMatch) (side : Side) (r : NodeId) :
    (w.disconnect side r).FlowsMatch where
  listed_eq s x := by
    rw [listedAt_disconnect h, ratesAt_disconnect h, h.listed_eq]
    split
    · rw [eraseKey_map_node]
    · rfl
  nodup s x := by
    rw [ratesAt_disconnect h]
    split
    · exact (h.nodup s x).erase r
    · exact h.nodup s x
  endpoint_iff s k x := by
    rw [endpoint?_disconnect, ratesAt_disconnect h]
    by_cases hs : s = side
    · subst s
      rw [if_pos rfl, (h.nodup side x).mem_erase_iff]
      by_cases hk : k = r
      · simp [hk]
      · rw [if_neg (by simp [hk]), h.endpoint_iff]
        simp [hk]
    · rw [if_neg (by simp [hs]), if_neg hs, h.endpoint_iff]

/-! ## Connecting -/

/-- Detaching a rate from its former endpoint leaves to the rate what it notes. -/
theorem endpoint?_detachFromOther (w : World) (side : Side) (r e : NodeId) (s : Side)
    (x : NodeId) : (w.detachFromOther side r e).endpoint? s x = w.endpoint? s x := by
  unfold detachFromOther
  split
  · split
    · rfl
    · rw [detach, endpoint?_mapListed]
  · rfl

/-- A rate leaves every list on the side but the one of the endpoint it is about to get. -/
theorem listedAt_detachFromOther (h : w.FlowsMatch) (side : Side) (r e : NodeId) (s : Side)
    (x : NodeId) : (w.detachFromOther side r e).listedAt s x =
      if s = side ∧ x ≠ e then eraseKey (.node r) (w.listedAt s x) else w.listedAt s x := by
  unfold detachFromOther
  split
  · rename_i old hold
    by_cases hold' : old = e
    · subst e
      rw [if_pos rfl]
      split
      · rename_i hs
        rcases hs with ⟨rfl, hx⟩
        rw [h.eraseKey_listedAt]
        rw [hold]
        exact fun heq => hx (Option.some.inj heq).symm
      · rfl
    · rw [if_neg hold', h.listedAt_detach_endpoint hold]
      by_cases hx : x = e
      · subst x
        have hne : w.endpoint? side r ≠ some e := by
          rw [hold]
          exact fun heq => hold' (Option.some.inj heq)
        by_cases hs : s = side
        · subst s
          simp [h.eraseKey_listedAt hne]
        · simp [hs]
      · simp [hx]
  · rename_i hnone
    split
    · rename_i hs
      rcases hs with ⟨rfl, _⟩
      rw [h.eraseKey_listedAt (by simp [hnone])]
    · rfl

/-- A flow that is made gives its rate this endpoint on this side. -/
theorem endpoint?_connect {r : NodeId} (hr : w.kind? r = some .rate) (side : Side) (e : NodeId)
    (s : Side) (x : NodeId) : (w.connect side r e).endpoint? s x =
      if s = side ∧ x = r then some e else w.endpoint? s x := by
  have hkind : ((w.detachFromOther side r e).attach side e (.node r)).kind? r = some .rate := by
    rw [(sameUpToFlows_attach ..).kind, (sameUpToFlows_detachFromOther ..).kind, hr]
  rw [connect, endpoint?_noteEndpoint fun _ => hkind, attach, endpoint?_mapListed,
    endpoint?_detachFromOther]

/-- Connecting a rate lists it at its new endpoint only. -/
theorem listedAt_connect (h : w.FlowsMatch) {e : NodeId} (he : w.isEndpoint e = true)
    (side : Side) (r : NodeId) (s : Side) (x : NodeId) :
    (w.connect side r e).listedAt s x =
      if s = side then
        if x = e then insertKey (.node r) (w.listedAt s x) else eraseKey (.node r) (w.listedAt s x)
      else w.listedAt s x := by
  have he' : (w.detachFromOther side r e).isEndpoint e = true := by
    rw [(sameUpToFlows_detachFromOther ..).isEndpoint, he]
  rw [connect, listedAt_noteEndpoint, listedAt_attach he', listedAt_detachFromOther h,
    listedAt_detachFromOther h]
  by_cases hs : s = side
  · subst s
    by_cases hx : x = e
    · subst x
      simp
    · simp [hx]
  · simp [hs]

/-- A flow that is made lists the rate at its new endpoint and at no other on this side. -/
theorem ratesAt_connect (h : w.FlowsMatch) {e : NodeId} (he : w.isEndpoint e = true)
    (side : Side) (r : NodeId) (s : Side) (x : NodeId) :
    (w.connect side r e).ratesAt s x =
      if s = side then
        if x = e then insertNode r (w.ratesAt s x) else (w.ratesAt s x).erase r
      else w.ratesAt s x := by
  rw [ratesAt, listedAt_connect h he]
  split
  · split
    · rw [nodesOf_insertKey, ratesAt]
    · rw [nodesOf_eraseKey, ratesAt]
  · rfl

/-- Connecting a rate keeps matching halves together. -/
theorem connect (h : w.FlowsMatch) {r e : NodeId} (hr : w.kind? r = some .rate)
    (he : w.isEndpoint e = true) (side : Side) : (w.connect side r e).FlowsMatch where
  listed_eq s x := by
    rw [listedAt_connect h he, ratesAt_connect h he, h.listed_eq]
    split
    · split
      · rw [insertKey_map_node]
      · rw [eraseKey_map_node]
    · rfl
  nodup s x := by
    rw [ratesAt_connect h he]
    split
    · split
      · exact nodup_insertNode (h.nodup s x)
      · exact (h.nodup s x).erase r
    · exact h.nodup s x
  endpoint_iff s k x := by
    rw [endpoint?_connect hr, ratesAt_connect h he]
    by_cases hs : s = side
    · subst s
      rw [if_pos rfl]
      by_cases hk : k = r
      · subst k
        by_cases hx : x = e
        · simp [hx]
        · rw [if_pos ⟨rfl, rfl⟩, if_neg hx, (h.nodup side x).mem_erase_iff]
          simp [Ne.symm hx]
      · rw [if_neg (by simp [hk]), h.endpoint_iff]
        by_cases hx : x = e
        · simp [hx, hk]
        · rw [if_neg hx, (h.nodup side x).mem_erase_iff]
          simp [hk]
    · rw [if_neg (by simp [hs]), if_neg hs, h.endpoint_iff]

end FlowsMatch

/-! ## Nodes without flows -/

/-- Takes away all flows of an endpoint at a side. -/
def sever (w : World) (side : Side) (e : NodeId) : World :=
  (w.ratesAt side e).foldl (fun w r => w.disconnect side r) w

/-- Takes away all flows of a node: both ends of a rate, both lists of an endpoint. -/
def isolate (w : World) (n : NodeId) : World :=
  match w.kind? n with
  | some .rate => (w.disconnect .source n).disconnect .sink n
  | some .level => (w.sever .sink n).sever .source n
  | some .sourceSink => (w.sever .sink n).sever .source n
  | _ => w

theorem sameUpToFlows_disconnectAll (w : World) (side : Side) (rs : List NodeId) :
    SameUpToFlows w (rs.foldl (fun w r => w.disconnect side r) w) := by
  induction rs generalizing w with
  | nil => exact SameUnder.refl ..
  | cons r rest ih => exact (sameUpToFlows_disconnect w side r).trans (ih _)

/-- Cutting all flows of a node changes flows only. -/
theorem sameUpToFlows_isolate (w : World) (n : NodeId) : SameUpToFlows w (w.isolate n) := by
  have hsever : SameUpToFlows w ((w.sever .sink n).sever .source n) :=
    (sameUpToFlows_disconnectAll w .sink _).trans (sameUpToFlows_disconnectAll _ .source _)
  unfold isolate
  split
  · exact (sameUpToFlows_disconnect w .source n).trans (sameUpToFlows_disconnect _ .sink n)
  · exact hsever
  · exact hsever
  · exact SameUnder.refl ..

/-- Cutting the flows of many rates takes this endpoint from each of them. -/
theorem endpoint?_disconnectAll (w : World) (side s : Side) (rs : List NodeId) (x : NodeId) :
    (rs.foldl (fun w r => w.disconnect side r) w).endpoint? s x =
      if s = side ∧ x ∈ rs then none else w.endpoint? s x := by
  induction rs generalizing w with
  | nil => simp
  | cons r rest ih =>
      rw [List.foldl_cons, ih, FlowsMatch.endpoint?_disconnect]
      by_cases hs : s = side
      · by_cases hx : x = r
        · simp [hs, hx]
        · simp [hs, hx]
      · simp [hs]

namespace FlowsMatch

/-- Cutting the flows of many rates keeps the halves of all flows matched. -/
theorem disconnectAll (h : w.FlowsMatch) (side : Side) (rs : List NodeId) :
    (rs.foldl (fun w r => w.disconnect side r) w).FlowsMatch := by
  induction rs generalizing w with
  | nil => exact h
  | cons r rest ih => exact ih (h.disconnect side r)

/-- Cutting all flows of one side of a node keeps the halves of all flows matched. -/
theorem sever (h : w.FlowsMatch) (side : Side) (e : NodeId) : (w.sever side e).FlowsMatch :=
  h.disconnectAll side _

/-- Taking all flows of a node away keeps matching halves together. -/
theorem isolate (h : w.FlowsMatch) (n : NodeId) : (w.isolate n).FlowsMatch := by
  unfold World.isolate
  split
  · exact (h.disconnect .source n).disconnect .sink n
  · exact (h.sever .sink n).sever .source n
  · exact (h.sever .sink n).sever .source n
  · exact h

/-- Cutting the flows of many rates takes them from all lists on the side. -/
theorem ratesAt_disconnectAll (h : w.FlowsMatch) (side s : Side) (rs : List NodeId) (x : NodeId) :
    (rs.foldl (fun w r => w.disconnect side r) w).ratesAt s x =
      if s = side then (w.ratesAt s x).filter (· ∉ rs) else w.ratesAt s x := by
  induction rs generalizing w with
  | nil =>
      have hall : (w.ratesAt s x).filter (· ∉ []) = w.ratesAt s x := List.filter_eq_self.2 (by simp)
      rw [hall, ite_self, List.foldl_nil]
  | cons r rest ih =>
      rw [List.foldl_cons, ih (h.disconnect side r), ratesAt_disconnect h]
      by_cases hs : s = side
      · rw [if_pos hs, if_pos hs, if_pos hs, (h.nodup s x).erase_eq_filter, List.filter_filter]
        refine List.filter_congr fun k _ => ?_
        by_cases hk : k = r <;> simp [hk]
      · rw [if_neg hs, if_neg hs, if_neg hs]

theorem ratesAt_of_not_isEndpoint {n : NodeId} (hn : w.isEndpoint n = false) (side : Side) :
    w.ratesAt side n = [] := by
  rw [ratesAt]
  cases hlisted : w.listedAt side n with
  | nil => rfl
  | cons k keys =>
      have hend := isEndpoint_of_listed (hlisted ▸ List.mem_cons_self : k ∈ w.listedAt side n)
      rw [hn] at hend
      cases hend

/-- The rates that had the node on this side have no endpoint there any more. -/
theorem endpoint?_sever (h : w.FlowsMatch) (side s : Side) (n x : NodeId) :
    (w.sever side n).endpoint? s x =
      if s = side ∧ w.endpoint? s x = some n then none else w.endpoint? s x := by
  rw [World.sever, endpoint?_disconnectAll]
  by_cases hs : s = side
  · simp only [hs, true_and, h.endpoint_iff]
  · simp [hs]

/-- The node has no rates left on this side, and all other lists are as before. -/
theorem ratesAt_sever (h : w.FlowsMatch) (side s : Side) (n x : NodeId) :
    (w.sever side n).ratesAt s x = if s = side ∧ x = n then [] else w.ratesAt s x := by
  rw [World.sever, ratesAt_disconnectAll h]
  by_cases hs : s = side
  · subst hs
    by_cases hx : x = n
    · simp [hx]
    · rw [if_pos rfl, if_neg (by simp [hx]), List.filter_eq_self]
      intro k hk
      rw [← h.endpoint_iff] at hk
      simp [← h.endpoint_iff, hk, hx]
  · simp [hs]

/-- A node that is no rate of the world has no endpoint. -/
theorem endpoint?_of_kind?_ne {n : NodeId} (hn : w.kind? n ≠ some .rate) (side : Side) :
    w.endpoint? side n = none := by
  cases hend : w.endpoint? side n with
  | none => rfl
  | some e => exact (hn (kind?_of_endpoint? hend)).elim

/-- After all flows of a node were taken away, the node has no ends and is no end. -/
theorem endpoint?_isolate (h : w.FlowsMatch) (n : NodeId) (side : Side) (r : NodeId) :
    (w.isolate n).endpoint? side r =
      if r = n ∨ w.endpoint? side r = some n then none else w.endpoint? side r := by
  -- a rate is no endpoint, an endpoint is no rate, and other nodes are neither
  have hno_rate : w.kind? n ≠ some .rate →
      (if r = n ∨ w.endpoint? side r = some n then none else w.endpoint? side r) =
        if w.endpoint? side r = some n then none else w.endpoint? side r := by
    intro hn
    by_cases hr : r = n
    · simp [hr, endpoint?_of_kind?_ne hn]
    · simp [hr]
  have hno_end : w.isEndpoint n = false → w.endpoint? side r ≠ some n := by
    intro hn hflow
    simp [h.isEndpoint hflow] at hn
  have hsever : ((w.sever .sink n).sever .source n).endpoint? side r =
      if w.endpoint? side r = some n then none else w.endpoint? side r := by
    rw [(h.sever .sink n).endpoint?_sever, h.endpoint?_sever]
    cases side <;> simp
  rw [World.isEndpoint] at hno_end
  unfold World.isolate
  cases hkind : w.kind? n with
  | none =>
      rw [hkind] at hno_rate hno_end
      rw [hno_rate nofun, if_neg (hno_end rfl)]
  | some kind =>
      rw [hkind] at hno_rate hno_end
      cases kind with
      | rate =>
          have hother := hno_end rfl
          simp only [endpoint?_disconnect, hother, or_false]
          cases side <;> simp
      | level => exact hsever.trans (hno_rate nofun).symm
      | sourceSink => exact hsever.trans (hno_rate nofun).symm
      | constant => simp only [hno_rate nofun, if_neg (hno_end rfl)]
      | auxiliary => simp only [hno_rate nofun, if_neg (hno_end rfl)]

/-- After all flows of a node were taken away, no list has it, and its own lists are empty. -/
theorem ratesAt_isolate (h : w.FlowsMatch) (n : NodeId) (side : Side) (x : NodeId) :
    (w.isolate n).ratesAt side x = if x = n then [] else (w.ratesAt side x).erase n := by
  have hno_rate : w.kind? n ≠ some .rate → (w.ratesAt side x).erase n = w.ratesAt side x := by
    intro hn
    refine List.erase_of_not_mem (h.not_mem_rates ?_)
    simp [endpoint?_of_kind?_ne hn]
  have hno_end : w.isEndpoint n = false → w.ratesAt side n = [] := fun hn =>
    ratesAt_of_not_isEndpoint hn side
  have hsever : ((w.sever .sink n).sever .source n).ratesAt side x =
      if x = n then [] else w.ratesAt side x := by
    rw [(h.sever .sink n).ratesAt_sever, h.ratesAt_sever]
    cases side <;> simp
  have hkeep : w.isEndpoint n = false → w.ratesAt side x = if x = n then [] else w.ratesAt side x := by
    intro hn
    split
    · rename_i hx
      rw [hx, hno_end hn]
    · rfl
  rw [World.isEndpoint] at hno_end hkeep
  unfold World.isolate
  cases hkind : w.kind? n with
  | none =>
      rw [hkind] at hno_rate hkeep
      rw [hno_rate nofun]
      exact hkeep rfl
  | some kind =>
      rw [hkind] at hno_rate hno_end hkeep
      cases kind with
      | rate =>
          have hdisconnect : ((w.disconnect .source n).disconnect .sink n).ratesAt side x =
              (w.ratesAt side x).erase n := by
            rw [ratesAt_disconnect (h.disconnect .source n), ratesAt_disconnect h]
            cases side <;> rfl
          rw [hdisconnect]
          by_cases hx : x = n
          · rw [if_pos hx, hx, hno_end rfl, List.erase_nil]
          · rw [if_neg hx]
      | level => simpa only [hno_rate nofun] using hsever
      | sourceSink => simpa only [hno_rate nofun] using hsever
      | constant => simpa only [hno_rate nofun] using hkeep rfl
      | auxiliary => simpa only [hno_rate nofun] using hkeep rfl

end FlowsMatch

end World
end StockFlow
