import StockFlow.World.Action

/-!
# Influence on levels

A node influences a level if its value can reach the level through formulas and
flows.  The search starts at the rates that flow into or out of the levels; a
rate is influenced by what its formula reads and by its ends beyond the boundary,
an auxiliary by what its formula reads, and nothing else is followed further.

Main definitions:

- {lit}`Influence.gather`: all that can be reached from seeds within a finite domain.
- {lit}`World.influencedBy`: the direct influences on a node.
- {lit}`World.influencing`: every node that influences some of the given levels.
- {lit}`World.influencingEndpoints`: the same for arguments that must be endpoints.
-/

namespace StockFlow
namespace Influence

/-- The nodes of a domain and all that comes next to them, counted with repeats. -/
def weight (next : NodeId → List NodeId) : List NodeId → Nat
  | [] => 0
  | n :: rest => (next n).length + 1 + weight next rest

/-- Taking a node out of the domain takes its weight out. -/
theorem weight_erase (next : NodeId → List NodeId) {domain : List NodeId} {n : NodeId}
    (hn : n ∈ domain) : weight next (domain.erase n) + ((next n).length + 1) = weight next domain := by
  induction domain with
  | nil => simp at hn
  | cons k rest ih =>
      by_cases hk : k = n
      · subst hk
        rw [List.erase_cons_head, weight]
        omega
      · have hrest : n ∈ rest := (List.mem_cons.1 hn).resolve_left (Ne.symm hk)
        have hstep := ih hrest
        rw [List.erase_cons_tail (by simpa using hk), weight, weight]
        omega

/--
What can be reached from the pending nodes within a domain.  A node that is taken
leaves the domain, so circles end.
-/
def gather (next : NodeId → List NodeId) (domain pending : List NodeId) : List NodeId :=
  match pending with
  | [] => []
  | n :: rest =>
      if n ∈ domain then n :: gather next (domain.erase n) (next n ++ rest)
      else gather next domain rest
termination_by pending.length + weight next domain
decreasing_by
  · have hmem : n ∈ domain := ‹_›
    have := weight_erase next hmem
    simp only [List.length_append, List.length_cons]
    omega
  · simp only [List.length_cons]
    omega

/-- What is gathered lies in the domain. -/
theorem mem_domain_of_mem_gather {next : NodeId → List NodeId} {domain pending : List NodeId}
    {n : NodeId} (h : n ∈ gather next domain pending) : n ∈ domain := by
  fun_induction gather next domain pending with
  | case1 => simp at h
  | case2 domain k rest hk ih =>
      rcases List.mem_cons.1 h with rfl | hrest
      · exact hk
      · exact List.mem_of_mem_erase (ih hrest)
  | case3 domain k rest hk ih => exact ih h

end Influence

namespace World

/-- All nodes of a world. -/
def nodeIds (w : World) : List NodeId := (List.range w.nodes.size).map NodeId.mk

/-- The endpoints of a rate that lie beyond the model's boundary. -/
def boundaryEnds (w : World) (n : NodeId) : List NodeId :=
  ((w.endpoint? .source n).toList ++ (w.endpoint? .sink n).toList).filter (w.isKind .sourceSink)

/-- What a node is directly influenced by. -/
def influencedBy (w : World) (n : NodeId) : List NodeId :=
  match w.kind? n with
  | some .rate => w.formulaReads n ++ w.boundaryEnds n
  | some .auxiliary => w.formulaReads n
  | _ => []

/-- What is listed to flow into or out of a node. -/
def listedFlows (w : World) (n : NodeId) : List Entity := w.listedAt .sink n ++ w.listedAt .source n

/-- The rates that flow into or out of a node. -/
def flowsOf (w : World) (n : NodeId) : List NodeId := nodesOf (w.listedFlows n)

/-- Every node that influences some of the given levels; a level only if a formula reads it. -/
def influencing (w : World) (levels : List NodeId) : List NodeId :=
  Influence.gather w.influencedBy w.nodeIds (levels.flatMap w.flowsOf)

/-- The endpoints among arguments; every argument must be one. -/
def endpointsOf (w : World) (arguments : List Argument) : Except Fault (List NodeId) :=
  arguments.mapM (Action.withMember w NodeKind.isEndpoint "get_incoming_flows")

/-- What is listed at some nodes without being a node itself; equal things are told once. -/
def listedStrangers (w : World) (nodes : List NodeId) : List Entity :=
  ((nodes.flatMap w.listedFlows).filter fun e => e.node?.isNone).foldl
    (fun strangers e => insertKey e strangers) []

/-- Everything that influences the given endpoints: nodes, and whatever else is listed there. -/
def influencingEndpoints (w : World) (arguments : List Argument) : Except Fault (List Entity) :=
  (w.endpointsOf arguments).map fun nodes =>
    w.listedStrangers nodes ++ (w.influencing nodes).map .node

end World
end StockFlow
