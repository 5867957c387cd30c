import StockFlow.Value.Order

/-!
# Entities

What callers can hand over and lists can hold beside formulas: nodes, models,
executions and plain values.  Nodes, models and executions are known by numbers that
are never given twice.  All but lists and records can be looked up, so an entity that
can be is also called a key.

Main definitions:

- {lit}`NodeId`, {lit}`ModelId`, {lit}`ExecutionId`: identities.
- {lit}`Entity`: a node, a model, an execution or a plain value.
- {lit}`Entity.equals`, {lit}`Entity.isKey`: equality, and what can be looked up.
- {lit}`insertKey`, {lit}`eraseKey`: lists without repeats.

Main results:

- Theorems {lit}`nodesOf_insertKey` and {lit}`nodesOf_eraseKey`: what both do to the nodes among
  the keys.
-/

namespace StockFlow

/-! ## Identities -/

/-- The identity of a node; it is never given twice. -/
structure NodeId where
  index : Nat
  deriving DecidableEq, Repr, Inhabited, Hashable

/-- The identity of a model. -/
structure ModelId where
  index : Nat
  deriving DecidableEq, Repr, Inhabited

/-- The identity of an execution. -/
structure ExecutionId where
  index : Nat
  deriving DecidableEq, Repr, Inhabited

/-! ## Entities -/

/-- A thing that is no compound formula. -/
inductive Entity where
  | node (n : NodeId)
  | model (m : ModelId)
  | execution (x : ExecutionId)
  | plain (value : Value)
  deriving Inhabited

namespace Entity

/-- Nothing at all. -/
def absent : Entity := .plain .absent

/-- Whether nothing was handed over. -/
def isAbsent : Entity → Bool
  | .plain .absent => true
  | _ => false

/-- Whether an entity can be looked up. -/
def isKey : Entity → Bool
  | .plain v => v.isKey
  | _ => true

/-- The node that an entity is. -/
def node? : Entity → Option NodeId
  | .node n => some n
  | _ => none

/-- Whether two entities are equal: all but plain values only if they are one and the same. -/
def equals : Entity → Entity → Bool
  | .node a, .node b => a == b
  | .model a, .model b => a == b
  | .execution a, .execution b => a == b
  | .plain v, .plain w => v.equals w
  | _, _ => false

instance : BEq Entity := ⟨equals⟩

/-- As entities, nodes are compared by their numbers. -/
@[simp] theorem node_beq_node (a b : NodeId) : (Entity.node a == Entity.node b) = (a == b) := rfl

@[simp] theorem node?_node (n : NodeId) : (Entity.node n).node? = some n := rfl

/-- A node equals an entity if and only if the entity is this node. -/
theorem node_beq_iff {n : NodeId} {e : Entity} :
    (Entity.node n == e) = true ↔ e.node? = some n := by
  cases e with
  | node m =>
      simp only [node_beq_node, beq_iff_eq, node?_node, Option.some.injEq]
      exact eq_comm
  | model _ => exact ⟨nofun, nofun⟩
  | execution _ => exact ⟨nofun, nofun⟩
  | plain _ => exact ⟨nofun, nofun⟩

end Entity

/-! ## Keys in lists -/

/-- The nodes among entities. -/
def nodesOf (entities : List Entity) : List NodeId := entities.filterMap Entity.node?

/-- Appends a key unless an equal one is listed already. -/
def insertKey (k : Entity) (keys : List Entity) : List Entity :=
  if keys.any (k == ·) then keys else keys ++ [k]

/-- Takes a key out of a list. -/
def eraseKey (k : Entity) (keys : List Entity) : List Entity := keys.eraseP (k == ·)

/-- The nodes of a list without repeats after one was appended unless it is there. -/
def insertNode (n : NodeId) (nodes : List NodeId) : List NodeId :=
  if n ∈ nodes then nodes else nodes ++ [n]

@[simp] theorem nodesOf_nil : nodesOf [] = [] := rfl

/-- The nodes among joined entities are those among each of them. -/
@[simp] theorem nodesOf_append (xs ys : List Entity) :
    nodesOf (xs ++ ys) = nodesOf xs ++ nodesOf ys := by
  simp [nodesOf]

/-- Nodes as entities are all nodes. -/
@[simp] theorem nodesOf_map_node (nodes : List NodeId) : nodesOf (nodes.map .node) = nodes := by
  induction nodes with
  | nil => rfl
  | cons n rest ih => simpa [nodesOf] using ih

/-- A node is among entities if one of them equals it. -/
theorem mem_nodesOf {n : NodeId} {entities : List Entity} :
    n ∈ nodesOf entities ↔ entities.any (Entity.node n == ·) = true := by
  simp only [nodesOf, List.mem_filterMap, List.any_eq_true, Entity.node_beq_iff]

/-- A key that is a node is inserted among the nodes. -/
@[simp] theorem nodesOf_insertKey (n : NodeId) (keys : List Entity) :
    nodesOf (insertKey (.node n) keys) = insertNode n (nodesOf keys) := by
  unfold insertKey insertNode
  by_cases h : n ∈ nodesOf keys
  · rw [if_pos h, if_pos (mem_nodesOf.1 h)]
  · rw [if_neg h, if_neg (fun hk => h (mem_nodesOf.2 hk)), nodesOf_append]
    rfl

/-- A key that is a node is erased from the nodes. -/
@[simp] theorem nodesOf_eraseKey (n : NodeId) (keys : List Entity) :
    nodesOf (eraseKey (.node n) keys) = (nodesOf keys).erase n := by
  induction keys with
  | nil => rfl
  | cons k rest ih =>
      by_cases h : (Entity.node n == k) = true
      · have hk := Entity.node_beq_iff.1 h
        simp [eraseKey, h, nodesOf, hk]
      · have hk : k.node? ≠ some n := fun hn => h (Entity.node_beq_iff.2 hn)
        have hstep : eraseKey (.node n) (k :: rest) = k :: eraseKey (.node n) rest := by
          simp [eraseKey, h]
        rw [hstep]
        cases hn : k.node? with
        | none => simpa [nodesOf, hn] using ih
        | some m =>
            have hm : (m == n) = false := by
              simp only [beq_eq_false_iff_ne, ne_eq]
              rintro rfl
              exact hk hn
            simpa [nodesOf, hn, List.erase_cons, hm] using ih

/-- Inserting a node adds it, unless it is there. -/
@[simp] theorem mem_insertNode {n x : NodeId} {nodes : List NodeId} :
    x ∈ insertNode n nodes ↔ x = n ∨ x ∈ nodes := by
  unfold insertNode
  split
  · rename_i h
    constructor
    · exact Or.inr
    · rintro (rfl | hx)
      · exact h
      · exact hx
  · simp [or_comm]

/-- Inserting a node lists none twice. -/
theorem nodup_insertNode {n : NodeId} {nodes : List NodeId} (h : nodes.Nodup) :
    (insertNode n nodes).Nodup := by
  unfold insertNode
  split
  · exact h
  · rename_i hn
    rw [List.nodup_append]
    refine ⟨h, by simp, ?_⟩
    intro a ha b hb
    simp only [List.mem_singleton] at hb
    rintro rfl
    exact hn (hb ▸ ha)

end StockFlow
