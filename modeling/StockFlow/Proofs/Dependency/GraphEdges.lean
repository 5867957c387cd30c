import StockFlow.Dependency.Graph
import StockFlow.Proofs.World.Integrity

/-!
# What a dependency graph shows

The graph of a model is grown in three passes: its nodes, the edges from formula leaves,
and the edges along flows.  Passes meet where a level is leaf and end of one rate, and
where a formula or a flow leads to a node that the model does not own.  Nodes and edges
are written into their lists in the same way, so one account of writing entries, whatever
stood there before, describes each pass; the three together give the whole graph.

Main definitions:

- {lit}`DependencyGraph.write`, {lit}`DependencyGraph.writeAll`: entries written over old ones.
- {lit}`World.FormulaLeads`, {lit}`World.FlowLeads`: what leads from one node to another.
- {lit}`World.Depicts`: a graph that shows a model.

Main results:

- Theorem {lit}`DependencyGraph.mem_writeAll`: what is in a list after entries were written.
- Theorem {lit}`World.mem_edges_dependencyGraph`: the edges of the graph of a model.
- Theorem {lit}`World.Reachable.depicts_dependencyGraph`: the graph of a model shows it.
-/

namespace StockFlow
namespace DependencyGraph

/-! ## Writing entries -/

section
variable {κ α : Type} [DecidableEq κ] {entries : List (κ × α)} {k : κ} {a : α} {entry : κ × α}

/-- Writes an entry over every old one of its key, or behind all entries. -/
def write (entries : List (κ × α)) (k : κ) (a : α) : List (κ × α) :=
  if k ∈ entries.map Prod.fst then entries.map fun e => if e.1 = k then (k, a) else e
  else entries ++ [(k, a)]

/-- Writes entries one after another. -/
def writeAll (entries new : List (κ × α)) : List (κ × α) :=
  new.foldl (fun entries e => write entries e.1 e.2) entries

/-- The written entry is there, and the entries of other keys as before. -/
theorem mem_write :
    entry ∈ write entries k a ↔ entry = (k, a) ∨ (entry.1 ≠ k ∧ entry ∈ entries) := by
  rw [write]
  split <;> rename_i hk <;> rw [List.mem_map] at hk
  · obtain ⟨old, hold, hkey⟩ := hk
    rw [List.mem_map]
    constructor
    · rintro ⟨e, he, rfl⟩
      split
      · exact Or.inl rfl
      · exact Or.inr ⟨‹_›, he⟩
    · rintro (rfl | ⟨hne, hentry⟩)
      · exact ⟨old, hold, if_pos hkey⟩
      · exact ⟨entry, hentry, if_neg hne⟩
  · rw [List.mem_append, List.mem_singleton, or_comm]
    refine or_congr_right ⟨fun hentry => ⟨?_, hentry⟩, And.right⟩
    rintro rfl
    exact hk ⟨entry, hentry, rfl⟩

/-- A write adds its key at the end, unless it is there. -/
theorem keys_write :
    (write entries k a).map Prod.fst =
      if k ∈ entries.map Prod.fst then entries.map Prod.fst else entries.map Prod.fst ++ [k] := by
  rw [write]
  split
  · rw [List.map_map]
    refine List.map_congr_left fun e _ => ?_
    rw [Function.comp_apply]
    split
    · exact Eq.symm ‹_›
    · rfl
  · rw [List.map_append]
    rfl

omit [DecidableEq κ] in
theorem nodup_append_key (h : (entries.map Prod.fst).Nodup) (hk : k ∉ entries.map Prod.fst) :
    (entries.map Prod.fst ++ [k]).Nodup := by
  refine List.nodup_append.2 ⟨h, List.pairwise_singleton _ k, ?_⟩
  rintro x hx y hy rfl
  exact hk (List.mem_singleton.1 hy ▸ hx)

/-- A write keeps the keys of a map apart. -/
theorem nodup_keys_write (h : (entries.map Prod.fst).Nodup) :
    ((write entries k a).map Prod.fst).Nodup := by
  rw [keys_write]
  split
  · exact h
  · exact nodup_append_key h ‹_›

/-- A key stands for what was written last; here no key is written with two values. -/
theorem mem_writeAll {new : List (κ × α)}
    (hnew : ∀ e ∈ new, ∀ e' ∈ new, e.1 = e'.1 → e = e') :
    entry ∈ writeAll entries new ↔
      entry ∈ new ∨ (entry.1 ∉ new.map Prod.fst ∧ entry ∈ entries) := by
  induction new generalizing entries with
  | nil => simp [writeAll]
  | cons e new ih =>
      have hrest : entry ∈ writeAll entries (e :: new) ↔
          entry ∈ new ∨ (entry.1 ∉ new.map Prod.fst ∧ entry ∈ write entries e.1 e.2) :=
        ih fun x hx y hy => hnew x (List.mem_cons_of_mem e hx) y (List.mem_cons_of_mem e hy)
      rw [hrest, mem_write, List.mem_cons, List.map_cons, List.mem_cons, not_or]
      constructor
      · rintro (hentry | ⟨hkey, rfl | ⟨hne, hentry⟩⟩)
        · exact Or.inl (Or.inr hentry)
        · exact Or.inl (Or.inl rfl)
        · exact Or.inr ⟨⟨hne, hkey⟩, hentry⟩
      · rintro ((rfl | hentry) | ⟨⟨hne, hkey⟩, hentry⟩)
        · by_cases hkey : entry.1 ∈ new.map Prod.fst
          · obtain ⟨later, hlater, heq⟩ := List.mem_map.1 hkey
            have hsame : later = entry :=
              hnew later (List.mem_cons_of_mem _ hlater) entry List.mem_cons_self heq
            exact Or.inl (hsame ▸ hlater)
          · exact Or.inr ⟨hkey, Or.inl rfl⟩
        · exact Or.inl hentry
        · exact Or.inr ⟨hkey, Or.inr ⟨hne, hentry⟩⟩

/-- Any number of writes keeps the keys of a map apart. -/
theorem nodup_keys_writeAll {new : List (κ × α)} (h : (entries.map Prod.fst).Nodup) :
    ((writeAll entries new).map Prod.fst).Nodup := by
  induction new generalizing entries with
  | nil => exact h
  | cons e new ih => exact ih (nodup_keys_write h)

end

/-! ## Growing a graph -/

variable {g : DependencyGraph}

/-- A graph has the nodes that are keys of its entries. -/
theorem hasNode_iff {n : NodeId} : g.hasNode n = true ↔ n ∈ g.nodes.map Prod.fst := by
  simp [hasNode]

/-- A graph has the edges that are keys of its entries. -/
theorem hasEdge_iff {x y : NodeId} : g.hasEdge x y = true ↔ (x, y) ∈ g.edges.map Prod.fst := by
  simp [hasEdge]

/-- Adding a node writes its kind and its label, whatever stood there. -/
theorem addNode_eq (g : DependencyGraph) (n : NodeId) (kind : NodeKind) (label : String) :
    g.addNode n kind label = { g with nodes := write g.nodes n (some (kind, label)) } := by
  simp only [addNode, hasNode_iff, write]
  split <;> rfl

@[simp] theorem edges_touchNode (g : DependencyGraph) (n : NodeId) :
    (g.touchNode n).edges = g.edges := by
  rw [touchNode]
  split <;> rfl

/-- Adding an edge writes its kind, whatever stood there. -/
theorem edges_addEdge (g : DependencyGraph) (x y : NodeId) (kind : EdgeKind) :
    (g.addEdge x y kind).edges = write g.edges (x, y) kind := by
  simp only [addEdge, hasEdge_iff, write, edges_touchNode]
  by_cases h : (x, y) ∈ g.edges.map Prod.fst
  · rw [if_pos h, if_pos h]
  · rw [if_neg h, if_neg h]

/-- Adding an edge adds its ends if they are missing, and changes no node. -/
theorem nodes_addEdge (g : DependencyGraph) (x y : NodeId) (kind : EdgeKind) :
    (g.addEdge x y kind).nodes = ((g.touchNode x).touchNode y).nodes := by
  rw [addEdge]
  split <;> rfl

/-- Whether entries without kind and label were added for the keys in a set that were missing. -/
structure Touched (ends : NodeId → Prop) (old new : List (NodeId × Option (NodeKind × String))) :
    Prop where
  mem : ∀ entry, entry ∈ new ↔
    entry ∈ old ∨ (entry.1 ∉ old.map Prod.fst ∧ entry.2 = none ∧ ends entry.1)
  nodup : (old.map Prod.fst).Nodup → (new.map Prod.fst).Nodup

/-- Touching nodes adds them as keys. -/
theorem Touched.mem_keys {ends : NodeId → Prop}
    {old new : List (NodeId × Option (NodeKind × String))} (h : Touched ends old new) (k : NodeId) :
    k ∈ new.map Prod.fst ↔ k ∈ old.map Prod.fst ∨ ends k := by
  constructor
  · intro hk
    obtain ⟨entry, hentry, rfl⟩ := List.mem_map.1 hk
    rcases (h.mem entry).1 hentry with hold | ⟨_, _, hends⟩
    · exact Or.inl (List.mem_map_of_mem hold)
    · exact Or.inr hends
  · intro hk
    by_cases hold : k ∈ old.map Prod.fst
    · obtain ⟨entry, hentry, rfl⟩ := List.mem_map.1 hold
      exact List.mem_map_of_mem ((h.mem entry).2 (Or.inl hentry))
    · have hnew : (k, none) ∈ new := (h.mem _).2 (Or.inr ⟨hold, rfl, hk.resolve_left hold⟩)
      exact List.mem_map_of_mem hnew

/-- What is touched in turn is touched together. -/
theorem Touched.trans {ends ends' : NodeId → Prop}
    {old mid new : List (NodeId × Option (NodeKind × String))} (h : Touched ends old mid)
    (h' : Touched ends' mid new) : Touched (fun k => ends k ∨ ends' k) old new where
  mem entry := by
    rw [h'.mem, h.mem, h.mem_keys]
    by_cases hends : ends entry.1 <;> simp [hends]
  nodup hold := h'.nodup (h.nodup hold)

/-- Touching one node adds it without kind and label, or does nothing. -/
theorem touched_touchNode (g : DependencyGraph) (n : NodeId) :
    Touched (· = n) g.nodes (g.touchNode n).nodes := by
  rw [touchNode]
  split <;> rename_i hn <;> rw [hasNode_iff] at hn
  · refine ⟨fun entry => ⟨Or.inl, fun h => h.elim id ?_⟩, id⟩
    rintro ⟨hkey, _, rfl⟩
    exact absurd hn hkey
  · refine ⟨fun entry => ?_, fun hold => ?_⟩
    · rw [List.mem_append, List.mem_singleton]
      refine or_congr_right ⟨?_, fun ⟨_, hnone, hkey⟩ => Prod.ext hkey hnone⟩
      rintro rfl
      exact ⟨hn, rfl, rfl⟩
    · rw [List.map_append]
      exact nodup_append_key hold hn

/-- An edge touches its two ends. -/
theorem touched_addEdge (g : DependencyGraph) (x y : NodeId) (kind : EdgeKind) :
    Touched (fun k => k = x ∨ k = y) g.nodes (g.addEdge x y kind).nodes := by
  rw [nodes_addEdge]
  exact (g.touched_touchNode x).trans ((g.touchNode x).touched_touchNode y)

/-! ## Passes -/

/-- Adding nodes in turn is writing all their entries. -/
theorem addNodes_eq (g : DependencyGraph) (new : List (NodeId × NodeKind × String)) :
    new.foldl (fun g e => g.addNode e.1 e.2.1 e.2.2) g =
      { g with nodes := writeAll g.nodes (new.map fun e => (e.1, some (e.2.1, e.2.2))) } := by
  induction new generalizing g with
  | nil => rfl
  | cons e new ih => rw [List.foldl_cons, ih, addNode_eq]; rfl

/-- Adds edges of one kind. -/
def addEdges (g : DependencyGraph) (pairs : List (NodeId × NodeId)) (kind : EdgeKind) :
    DependencyGraph :=
  pairs.foldl (fun g e => g.addEdge e.1 e.2 kind) g

/-- Adding edges of one kind in turn is writing all their entries. -/
theorem edges_addEdges (g : DependencyGraph) (pairs : List (NodeId × NodeId)) (kind : EdgeKind) :
    (g.addEdges pairs kind).edges = writeAll g.edges (pairs.map (·, kind)) := by
  induction pairs generalizing g with
  | nil => rfl
  | cons e pairs ih =>
      have hrest : (g.addEdges (e :: pairs) kind).edges =
          writeAll (g.addEdge e.1 e.2 kind).edges (pairs.map (·, kind)) := ih _
      rw [hrest, edges_addEdge]
      rfl

/-- A pass gives its pairs its kind and leaves the other edges alone. -/
theorem mem_edges_addEdges {pairs : List (NodeId × NodeId)} {kind : EdgeKind}
    {edge : (NodeId × NodeId) × EdgeKind} :
    edge ∈ (g.addEdges pairs kind).edges ↔
      (edge.1 ∈ pairs ∧ edge.2 = kind) ∨ (edge.1 ∉ pairs ∧ edge ∈ g.edges) := by
  have hkeys : (pairs.map (·, kind)).map Prod.fst = pairs := by
    rw [List.map_map]
    exact List.map_id pairs
  have hone : ∀ e ∈ pairs.map (·, kind), ∀ e' ∈ pairs.map (·, kind), e.1 = e'.1 → e = e' := by
    simp only [List.mem_map]
    rintro _ ⟨p, _, rfl⟩ _ ⟨q, _, rfl⟩ (rfl : p = q)
    rfl
  have hmem : edge ∈ pairs.map (·, kind) ↔ edge.1 ∈ pairs ∧ edge.2 = kind := by
    rw [List.mem_map]
    constructor
    · rintro ⟨p, hp, rfl⟩
      exact ⟨hp, rfl⟩
    · rintro ⟨hp, rfl⟩
      exact ⟨edge.1, hp, rfl⟩
  rw [edges_addEdges, mem_writeAll hone, hkeys, hmem]

/-- A pass adds the ends of its edges that are missing. -/
theorem touched_addEdges (g : DependencyGraph) (pairs : List (NodeId × NodeId)) (kind : EdgeKind) :
    Touched (fun k => ∃ pair ∈ pairs, k = pair.1 ∨ k = pair.2) g.nodes
      (g.addEdges pairs kind).nodes := by
  induction pairs generalizing g with
  | nil => exact ⟨fun entry => by simp [addEdges], id⟩
  | cons e pairs ih =>
      have hstep := (g.touched_addEdge e.1 e.2 kind).trans (ih (g.addEdge e.1 e.2 kind))
      simp only [List.mem_cons, exists_eq_or_imp]
      exact hstep

end DependencyGraph

/-! ## The graph of a model -/

namespace World

variable {w : World} {m : Model} {n x y : NodeId}

/-- Whether a node of a model has a formula with a leaf. -/
def FormulaLeads (w : World) (m : Model) (x y : NodeId) : Prop :=
  y ∈ m.formulaOwners ∧ ∃ f, w.formula? y = some f ∧ x ∈ f.leaves

/-- Whether a flow leads from its source to a rate of a model, or from the rate to its sink. -/
def FlowLeads (w : World) (m : Model) (x y : NodeId) : Prop :=
  (y ∈ m.rates ∧ w.endpoint? .source y = some x) ∨ (x ∈ m.rates ∧ w.endpoint? .sink x = some y)

/--
A graph that shows a model: its edges are what leads from node to node, one for a pair, and
those along flows are marked; the nodes of the model stand in it once, with kind and label,
and whatever else stands in it is an end of an edge and has neither.
-/
structure Depicts (w : World) (m : Model) (g : DependencyGraph) : Prop where
  edge : ∀ x y, (x, y) ∈ g.edges.map Prod.fst ↔ w.FormulaLeads m x y ∨ w.FlowLeads m x y
  single : (g.edges.map Prod.fst).Nodup
  flow : ∀ x y kind, ((x, y), kind) ∈ g.edges → (kind = .flow ↔ w.FlowLeads m x y)
  once : (g.nodes.map Prod.fst).Nodup
  owned : ∀ n ∈ m.nodes, ∃ kind, w.kind? n = some kind ∧
    (n, some (kind, if kind = .sourceSink then "source/sink" else w.nameOf n)) ∈ g.nodes
  foreign : ∀ n entry, (n, entry) ∈ g.nodes → n ∉ m.nodes →
    entry = none ∧ ∃ edge ∈ g.edges.map Prod.fst, n = edge.1 ∨ n = edge.2
  ends : ∀ x y, (x, y) ∈ g.edges.map Prod.fst →
    x ∈ g.nodes.map Prod.fst ∧ y ∈ g.nodes.map Prod.fst

/-- Formula edges lead from what is read to the formula's owner. -/
theorem mem_formulaEdges : (x, y) ∈ w.formulaEdges m ↔ w.FormulaLeads m x y := by
  rw [formulaEdges, List.mem_flatMap, FormulaLeads]
  constructor
  · rintro ⟨owner, howner, hpair⟩
    obtain ⟨leaf, hleaf, heq⟩ := List.mem_map.1 hpair
    obtain ⟨rfl, rfl⟩ := Prod.mk.inj heq
    exact ⟨howner, mem_formulaReads.1 hleaf⟩
  · rintro ⟨howner, hleaf⟩
    exact ⟨y, howner, List.mem_map.2 ⟨x, mem_formulaReads.2 hleaf, rfl⟩⟩

/-- Flow edges lead from a source to its rate, and from a rate to its sink. -/
theorem mem_flowEdges : (x, y) ∈ w.flowEdges m ↔ w.FlowLeads m x y := by
  rw [flowEdges, List.mem_flatMap, FlowLeads]
  constructor
  · rintro ⟨rate, hrate, hpair⟩
    rcases List.mem_append.1 hpair with hsource | hsink
    · obtain ⟨e, he, heq⟩ := List.mem_map.1 hsource
      obtain ⟨rfl, rfl⟩ := Prod.mk.inj heq
      exact Or.inl ⟨hrate, Option.mem_toList.1 he⟩
    · obtain ⟨e, he, heq⟩ := List.mem_map.1 hsink
      obtain ⟨rfl, rfl⟩ := Prod.mk.inj heq
      exact Or.inr ⟨hrate, Option.mem_toList.1 he⟩
  · rintro (⟨hrate, hsource⟩ | ⟨hrate, hsink⟩)
    · exact ⟨y, hrate, List.mem_append_left _
        (List.mem_map.2 ⟨x, Option.mem_toList.2 hsource, rfl⟩)⟩
    · exact ⟨x, hrate, List.mem_append_right _
        (List.mem_map.2 ⟨y, Option.mem_toList.2 hsink, rfl⟩)⟩

/-- The graph of a model before any edge. -/
def nodeGraph (w : World) (m : Model) : DependencyGraph :=
  (w.graphNodes m).foldl (fun g entry => g.addNode entry.1 entry.2.1 entry.2.2) {}

/-- The graph is that of the nodes, then formula edges, then flow edges. -/
theorem dependencyGraph_eq (w : World) (m : Model) :
    w.dependencyGraph m =
      ((w.nodeGraph m).addEdges (w.formulaEdges m) .formula).addEdges (w.flowEdges m) .flow := rfl

/-- A flow takes the place of a formula edge. -/
theorem mem_edges_dependencyGraph {kind : EdgeKind} :
    ((x, y), kind) ∈ (w.dependencyGraph m).edges ↔
      (w.FlowLeads m x y ∧ kind = .flow) ∨
        (¬ w.FlowLeads m x y ∧ w.FormulaLeads m x y ∧ kind = .formula) := by
  have hnone : (w.nodeGraph m).edges = [] := by
    rw [nodeGraph, DependencyGraph.addNodes_eq]
  rw [dependencyGraph_eq, DependencyGraph.mem_edges_addEdges, DependencyGraph.mem_edges_addEdges,
    hnone, mem_formulaEdges, mem_flowEdges]
  simp only [List.not_mem_nil, and_false, or_false]

/-- An edge is there exactly for a read or for a flow. -/
theorem mem_edge_keys_dependencyGraph :
    (x, y) ∈ (w.dependencyGraph m).edges.map Prod.fst ↔
      w.FormulaLeads m x y ∨ w.FlowLeads m x y := by
  rw [List.mem_map]
  constructor
  · rintro ⟨⟨_, kind⟩, hedge, rfl⟩
    rcases mem_edges_dependencyGraph.1 hedge with ⟨hflow, _⟩ | ⟨_, hformula, _⟩
    · exact Or.inr hflow
    · exact Or.inl hformula
  · intro hleads
    by_cases hflow : w.FlowLeads m x y
    · exact ⟨((x, y), .flow), mem_edges_dependencyGraph.2 (Or.inl ⟨hflow, rfl⟩), rfl⟩
    · have hformula := hleads.resolve_right hflow
      exact ⟨((x, y), .formula), mem_edges_dependencyGraph.2 (Or.inr ⟨hflow, hformula, rfl⟩), rfl⟩

/-- Each node of a model comes with its kind and its label. -/
theorem mem_graphNodes {kind : NodeKind} {label : String} :
    (n, kind, label) ∈ w.graphNodes m ↔ n ∈ m.members kind ∧ label = w.graphLabel n := by
  rw [graphNodes, List.mem_flatMap]
  constructor
  · rintro ⟨k, _, hentry⟩
    obtain ⟨member, hmember, heq⟩ := List.mem_map.1 hentry
    obtain ⟨rfl, hrest⟩ := Prod.mk.inj heq
    obtain ⟨rfl, rfl⟩ := Prod.mk.inj hrest
    exact ⟨hmember, rfl⟩
  · rintro ⟨hmember, rfl⟩
    exact ⟨kind, by cases kind <;> decide, List.mem_map.2 ⟨n, hmember, rfl⟩⟩

/-- Before any edge, the graph of a model has the nodes of the model, each as what it is. -/
theorem MembersMatch.mem_nodes_nodeGraph (hw : w.MembersMatch) {k : ModelId}
    {entry : Option (NodeKind × String)} :
    (n, entry) ∈ (w.nodeGraph (w.model k)).nodes ↔
      ∃ kind, n ∈ (w.model k).members kind ∧ entry = some (kind, w.graphLabel n) := by
  have hmem : ∀ e, e ∈ (w.graphNodes (w.model k)).map (fun e => (e.1, some (e.2.1, e.2.2))) ↔
      ∃ kind, e.1 ∈ (w.model k).members kind ∧ e.2 = some (kind, w.graphLabel e.1) := by
    intro e
    rw [List.mem_map]
    constructor
    · rintro ⟨⟨n, kind, label⟩, hentry, rfl⟩
      obtain ⟨hmember, rfl⟩ := mem_graphNodes.1 hentry
      exact ⟨kind, hmember, rfl⟩
    · rintro ⟨kind, hmember, heq⟩
      exact ⟨(e.1, kind, w.graphLabel e.1), mem_graphNodes.2 ⟨hmember, rfl⟩, Prod.ext rfl heq.symm⟩
  rw [nodeGraph, DependencyGraph.addNodes_eq, DependencyGraph.mem_writeAll, hmem]
  · simp only [List.not_mem_nil, and_false, or_false]
  · intro e he e' he' hkey
    obtain ⟨kind, hkind, hentry⟩ := (hmem e).1 he
    obtain ⟨kind', hkind', hentry'⟩ := (hmem e').1 he'
    -- a node that is listed under two kinds would be of both
    have hsame : some kind = some kind' := by
      rw [← hw.kind k kind e.1 hkind, hkey, hw.kind k kind' e'.1 hkind']
    obtain rfl := Option.some.inj hsame
    exact Prod.ext hkey (by rw [hentry, hentry', hkey])

/-- The nodes with kind and label are the nodes of the model. -/
theorem MembersMatch.mem_keys_nodeGraph (hw : w.MembersMatch) {k : ModelId} :
    n ∈ (w.nodeGraph (w.model k)).nodes.map Prod.fst ↔ n ∈ (w.model k).nodes := by
  rw [Model.mem_nodes, List.mem_map]
  constructor
  · rintro ⟨⟨n, entry⟩, hentry, rfl⟩
    obtain ⟨kind, hmember, _⟩ := hw.mem_nodes_nodeGraph.1 hentry
    exact ⟨kind, hmember⟩
  · rintro ⟨kind, hmember⟩
    exact ⟨(n, some (kind, w.graphLabel n)), hw.mem_nodes_nodeGraph.2 ⟨kind, hmember, rfl⟩, rfl⟩

/-- The edges of a graph add those of their ends that the model does not own. -/
theorem touched_dependencyGraph (w : World) (m : Model) :
    DependencyGraph.Touched
      (fun n => ∃ edge ∈ (w.dependencyGraph m).edges.map Prod.fst, n = edge.1 ∨ n = edge.2)
      (w.nodeGraph m).nodes (w.dependencyGraph m).nodes := by
  have hedges : ∀ edge, edge ∈ (w.dependencyGraph m).edges.map Prod.fst ↔
      edge ∈ w.formulaEdges m ∨ edge ∈ w.flowEdges m := by
    rintro ⟨x, y⟩
    rw [mem_edge_keys_dependencyGraph, mem_formulaEdges, mem_flowEdges]
  simp only [hedges, or_and_right, exists_or]
  exact (DependencyGraph.touched_addEdges (w.nodeGraph m) (w.formulaEdges m) .formula).trans
    (DependencyGraph.touched_addEdges _ (w.flowEdges m) .flow)

theorem nodup_keys_nodeGraph (w : World) (m : Model) :
    ((w.nodeGraph m).nodes.map Prod.fst).Nodup := by
  rw [nodeGraph, DependencyGraph.addNodes_eq]
  exact DependencyGraph.nodup_keys_writeAll List.nodup_nil

/-- There is one edge for each pair of nodes. -/
theorem nodup_edge_keys_dependencyGraph (w : World) (m : Model) :
    ((w.dependencyGraph m).edges.map Prod.fst).Nodup := by
  have hnone : (w.nodeGraph m).edges = [] := by
    rw [nodeGraph, DependencyGraph.addNodes_eq]
  rw [dependencyGraph_eq, DependencyGraph.edges_addEdges, DependencyGraph.edges_addEdges, hnone]
  exact DependencyGraph.nodup_keys_writeAll (DependencyGraph.nodup_keys_writeAll List.nodup_nil)

/--
In every state that operations lead to, the graph of a model shows the model, also where a
leaf is source of the same rate, where a rate reads itself, and where a formula or a flow
leads to a node that was removed or belongs to another model.
-/
theorem Reachable.depicts_dependencyGraph (h : w.Reachable) (m : ModelId) :
    w.Depicts (w.model m) (w.dependencyGraph (w.model m)) := by
  have hw := h.wellFormed.members
  have htouched := w.touched_dependencyGraph (w.model m)
  refine
    { edge := fun x y => mem_edge_keys_dependencyGraph
      single := w.nodup_edge_keys_dependencyGraph _
      flow := fun x y kind hedge => ?flow
      once := htouched.nodup (w.nodup_keys_nodeGraph _)
      owned := fun n hn => ?owned
      foreign := fun n entry hentry hn => ?foreign
      ends := fun x y hedge => ?ends }
  case flow =>
    rcases mem_edges_dependencyGraph.1 hedge with ⟨hflow, rfl⟩ | ⟨hflow, _, rfl⟩
    · exact iff_of_true rfl hflow
    · exact iff_of_false (nomatch ·) hflow
  case owned =>
    obtain ⟨kind, hmember⟩ := Model.mem_nodes.1 hn
    have hkind := hw.kind m kind n hmember
    have hlabel : w.graphLabel n = if kind = .sourceSink then "source/sink" else w.nameOf n := by
      simp only [graphLabel, isKind, hkind, beq_iff_eq, Option.some.injEq]
    refine ⟨kind, hkind, (htouched.mem _).2 (Or.inl ?_)⟩
    exact hw.mem_nodes_nodeGraph.2 ⟨kind, hmember, by rw [hlabel]⟩
  case foreign =>
    rcases (htouched.mem _).1 hentry with hold | ⟨_, hnone, hend⟩
    · exact absurd (hw.mem_keys_nodeGraph.1 (List.mem_map_of_mem hold)) hn
    · exact ⟨hnone, hend⟩
  case ends =>
    exact ⟨(htouched.mem_keys x).2 (Or.inr ⟨(x, y), hedge, Or.inl rfl⟩),
      (htouched.mem_keys y).2 (Or.inr ⟨(x, y), hedge, Or.inr rfl⟩)⟩

/--
A tank with a leak: its rate reads itself, the level it drains, and an auxiliary that another
model had, and it fills a level of that model.
-/
def leakSession : List Operation :=
  let m : ModelId := ⟨0⟩
  let other : ModelId := ⟨1⟩
  let leaf (index : Nat) : Argument := .node ⟨index⟩
  [.newModel (.text "Tank"), .newModel (.text "Cellar"),
    .createLevel m (.text "Water") (.integer 8), .createRate m (.text "Leak"),
    .createAuxiliary other (.text "Damp"), .createLevel other (.text "Puddle") (.integer 0),
    .setFormula m (leaf 1) (.apply .add (leaf 0) (.apply .minimum (leaf 1) (leaf 2))),
    .addFlow m .levelToRate (leaf 0) (leaf 1), .addFlow m .rateToLevel (leaf 1) (leaf 3),
    .removeNode other (leaf 2)]

/-- A rate that reads its own source, and a node that was removed, in one graph. -/
theorem depicts_dependencyGraph_leakSession :
    let w := World.run {} leakSession
    let g := w.dependencyGraph (w.model ⟨0⟩)
    w.Depicts (w.model ⟨0⟩) g ∧
      g.edges = [((⟨0⟩, ⟨1⟩), .flow), ((⟨1⟩, ⟨1⟩), .formula), ((⟨2⟩, ⟨1⟩), .formula),
        ((⟨1⟩, ⟨3⟩), .flow)] ∧
      g.nodes = [(⟨0⟩, some (.level, "Water")), (⟨1⟩, some (.rate, "Leak")), (⟨2⟩, none),
        (⟨3⟩, none)] :=
  ⟨Reachable.depicts_dependencyGraph ⟨leakSession, rfl⟩ ⟨0⟩, by decide +kernel, by decide +kernel⟩

end World
end StockFlow
