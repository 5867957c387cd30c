import StockFlow.World.Operation

/-!
# Views of changed worlds

An update of a node shows only in those views of the world that the update does
not keep.  Relations between worlds say how much is kept as a whole: the links
between nodes, everything but the current values, or everything but the flows.

Main definitions:

- {lit}`Node.SameLinks`, {lit}`World.SameLinks`: kinds, formulas and flows are the same.
- {lit}`World.SameUnder`: everything is the same but what a reduction of nodes leaves out.
- {lit}`World.SameUpToValues`, {lit}`World.SameUpToFlows`: current values and flows left out.

Main results:

- Theorems {lit}`World.map_updateNode` and {lit}`World.bind_updateNode`: kept views.
- Theorem {lit}`World.sameLinks_updateNode`: updates that keep the links of every node.
- Theorem {lit}`World.SameUpToValues.sameLinks`: current values are no links.
-/

namespace StockFlow

namespace Node

/-- Whether two nodes are of one kind and have the same formula and the same flows. -/
structure SameLinks (a b : Node) : Prop where
  kind : b.kind = a.kind
  formula : b.formula? = a.formula?
  endpoint : ∀ side, b.endpoint? side = a.endpoint? side
  listed : ∀ side, b.listed side = a.listed side

/-- A name is no link. -/
theorem sameLinks_rename (name : String) (node : Node) : node.SameLinks (node.rename name) := by
  cases node <;> exact ⟨rfl, rfl, fun _ => rfl, fun _ => rfl⟩

/-- A start value is no link. -/
theorem sameLinks_setStart (x : Float) (node : Node) : node.SameLinks (node.setStart x) := by
  cases node <;> exact ⟨rfl, rfl, fun _ => rfl, fun _ => rfl⟩

/-- The value of a constant is no link. -/
theorem sameLinks_setValue (x : Float) (node : Node) : node.SameLinks (node.setValue x) := by
  cases node <;> exact ⟨rfl, rfl, fun _ => rfl, fun _ => rfl⟩

/-- A current value is no link. -/
theorem sameLinks_setCurrent (x : Float) (node : Node) : node.SameLinks (node.setCurrent x) := by
  cases node <;> exact ⟨rfl, rfl, fun _ => rfl, fun _ => rfl⟩

/-- A node with its current value left out. -/
def still (node : Node) : Node := node.setCurrent 0.0

/-- A node without its current value does not show which one it had. -/
@[simp] theorem still_setCurrent (x : Float) (node : Node) :
    (node.setCurrent x).still = node.still := by
  cases node <;> rfl

/-- A node without its current value keeps its name. -/
@[simp] theorem name?_still (node : Node) : node.still.name? = node.name? := by
  cases node <;> rfl

/-- A node with its flows left out. -/
def unlinked : Node → Node
  | .level l => .level { l with flows := {} }
  | .rate r => .rate { r with source := none, sink := none }
  | .sourceSink _ => .sourceSink {}
  | node => node

/-- A node without its flows does not show which rates it listed. -/
@[simp] theorem unlinked_mapListed (side : Side) (f : List Entity → List Entity) (node : Node) :
    (node.mapListed side f).unlinked = node.unlinked := by
  cases node <;> rfl

/-- A node without its flows does not show which endpoints it had. -/
@[simp] theorem unlinked_setEndpoint (side : Side) (e : Option NodeId) (node : Node) :
    (node.setEndpoint side e).unlinked = node.unlinked := by
  cases node <;> cases side <;> rfl

@[simp] theorem kind_unlinked (node : Node) : node.unlinked.kind = node.kind := by
  cases node <;> rfl

@[simp] theorem formula?_unlinked (node : Node) : node.unlinked.formula? = node.formula? := by
  cases node <;> rfl

end Node

namespace World

variable {w w' w'' : World}

/-! ## Kept views -/

/-- What an update of nodes keeps, it keeps of every node of the world. -/
theorem map_updateNode {α : Type} (view : Node → α) {f : Node → Node}
    (hkeep : ∀ node, view (f node) = view node) (w : World) (n k : NodeId) :
    ((w.updateNode n f).node? k).map view = (w.node? k).map view := by
  rw [node?_updateNode]
  split
  · rw [Option.map_map]
    exact Option.map_congr fun node _ => hkeep node
  · rfl

/-- What an update of nodes keeps, and only some nodes have, it keeps of every node. -/
theorem bind_updateNode {α : Type} (view : Node → Option α) {f : Node → Node}
    (hkeep : ∀ node, view (f node) = view node) (w : World) (n k : NodeId) :
    ((w.updateNode n f).node? k).bind view = (w.node? k).bind view := by
  have hmap := congrArg (Option.bind · id) (map_updateNode view hkeep w n k)
  simpa only [Option.bind_map, Function.id_comp] using hmap

/-! ## Formulas -/

/-- A node with a formula reads the leaves of that formula. -/
theorem formulaReads_eq {n : NodeId} {f : Formula NodeId} (h : w.formula? n = some f) :
    w.formulaReads n = f.reads := by
  rw [formula?] at h
  rw [formulaReads]
  cases hnode : w.node? n with
  | none => simp [hnode] at h
  | some node =>
      have hformula : node.formula? = some f := by simpa [hnode] using h
      simp [Node.formulaReads, hformula]

/-- A node without a formula reads nothing. -/
theorem formulaReads_eq_nil {n : NodeId} (h : w.formula? n = none) : w.formulaReads n = [] := by
  rw [formula?] at h
  rw [formulaReads]
  cases hnode : w.node? n with
  | none => rfl
  | some node =>
      have hformula : node.formula? = none := by simpa [hnode] using h
      simp [Node.formulaReads, hformula]

/-- A node is read exactly where it is a leaf of the formula. -/
theorem mem_formulaReads {n k : NodeId} :
    k ∈ w.formulaReads n ↔ ∃ f, w.formula? n = some f ∧ k ∈ f.leaves := by
  cases hf : w.formula? n with
  | none => simp [formulaReads_eq_nil hf]
  | some f => simp [formulaReads_eq hf]

/-- Only rates and auxiliaries have formulas. -/
theorem kind?_of_formula? {n : NodeId} {f : Formula NodeId} (h : w.formula? n = some f) :
    ∃ kind, w.kind? n = some kind ∧ kind.hasFormula = true := by
  rw [formula?] at h
  rw [kind?]
  cases hnode : w.node? n with
  | none => simp [hnode] at h
  | some node =>
      have hformula : node.formula? = some f := by simpa [hnode] using h
      cases node with
      | rate r => exact ⟨.rate, rfl, rfl⟩
      | auxiliary a => exact ⟨.auxiliary, rfl, rfl⟩
      | level l => simp [Node.formula?] at hformula
      | constant c => simp [Node.formula?] at hformula
      | sourceSink flows => simp [Node.formula?] at hformula

/-! ## Links -/

/-- Whether two worlds have the same models, and the same nodes linked in the same way. -/
structure SameLinks (w w' : World) : Prop where
  model : ∀ m, w'.model m = w.model m
  kind : ∀ n, w'.kind? n = w.kind? n
  formula : ∀ n, w'.formula? n = w.formula? n
  endpoint : ∀ side n, w'.endpoint? side n = w.endpoint? side n
  listed : ∀ side n, w'.listedAt side n = w.listedAt side n

namespace SameLinks

/-- The rates at a node follow from the links. -/
theorem rates (h : SameLinks w w') (side : Side) (n : NodeId) :
    w'.ratesAt side n = w.ratesAt side n := by
  rw [ratesAt, ratesAt, h.listed]

/-- What the formula of a node reads follows from the links. -/
theorem formulaReads (h : SameLinks w w') (n : NodeId) :
    w'.formulaReads n = w.formulaReads n := by
  have hformula := h.formula n
  cases hf : w.formula? n with
  | none => rw [formulaReads_eq_nil hf, formulaReads_eq_nil (hformula.trans hf)]
  | some f => rw [formulaReads_eq hf, formulaReads_eq (hformula.trans hf)]

theorem isKind (h : SameLinks w w') (kind : NodeKind) (n : NodeId) :
    w'.isKind kind n = w.isKind kind n := by
  rw [World.isKind, World.isKind, h.kind]

theorem isLeaf (h : SameLinks w w') (n : NodeId) : w'.isLeaf n = w.isLeaf n := by
  rw [World.isLeaf, World.isLeaf, h.kind]

/-- The lock of a model follows from the links. -/
theorem isChangeable (h : SameLinks w w') (m : ModelId) : w'.isChangeable m = w.isChangeable m := by
  rw [World.isChangeable, World.isChangeable, h.model]

end SameLinks

/-- An update that keeps the links of every node keeps those of the world. -/
theorem sameLinks_updateNode (w : World) (n : NodeId) {f : Node → Node}
    (hkeep : ∀ node : Node, node.SameLinks (f node)) : SameLinks w (w.updateNode n f) where
  model _ := rfl
  kind k := map_updateNode Node.kind (fun node => (hkeep node).kind) w n k
  formula k := bind_updateNode Node.formula? (fun node => (hkeep node).formula) w n k
  endpoint side k :=
    bind_updateNode (Node.endpoint? side) (fun node => (hkeep node).endpoint side) w n k
  listed side k := by
    rw [listedAt, listedAt, map_updateNode (Node.listed side) fun node => (hkeep node).listed side]

/-! ## Worlds that differ in one aspect -/

/-- Whether two worlds differ in nothing but what a reduction of nodes leaves out. -/
structure SameUnder (reduce : Node → Node) (w w' : World) : Prop where
  models : w'.models = w.models
  node : ∀ n, (w'.node? n).map reduce = (w.node? n).map reduce

namespace SameUnder

variable {reduce : Node → Node}

theorem refl (reduce : Node → Node) (w : World) : SameUnder reduce w w := ⟨rfl, fun _ => rfl⟩

theorem trans (h : SameUnder reduce w w') (h' : SameUnder reduce w' w'') :
    SameUnder reduce w w'' :=
  ⟨h'.models.trans h.models, fun n => (h'.node n).trans (h.node n)⟩

/-- Worlds that agree up to some reduction of nodes have the same models. -/
theorem model (h : SameUnder reduce w w') (m : ModelId) : w'.model m = w.model m := by
  rw [World.model, World.model, model?, model?, h.models]

/-- A view that shows nothing of what is left out is the same. -/
theorem map_eq {α : Type} (h : SameUnder reduce w w') (view : Node → α)
    (hview : ∀ node, view (reduce node) = view node) (n : NodeId) :
    (w'.node? n).map view = (w.node? n).map view := by
  have hfactor : ∀ o : Option Node, o.map view = (o.map reduce).map view := by
    intro o
    rw [Option.map_map]
    exact Option.map_congr fun node _ => (hview node).symm
  rw [hfactor, h.node, ← hfactor]

/-- What the reduction of nodes keeps is the same in both worlds. -/
theorem bind_eq {α : Type} (h : SameUnder reduce w w') (view : Node → Option α)
    (hview : ∀ node, view (reduce node) = view node) (n : NodeId) :
    (w'.node? n).bind view = (w.node? n).bind view := by
  have hmap := congrArg (Option.bind · id) (h.map_eq view hview n)
  simpa only [Option.bind_map, Function.id_comp] using hmap

end SameUnder

/-- An update that the reduction hides leaves the world the same up to it. -/
theorem sameUnder_updateNode {reduce : Node → Node} {f : Node → Node}
    (hkeep : ∀ node, reduce (f node) = reduce node) (w : World) (n : NodeId) :
    SameUnder reduce w (w.updateNode n f) :=
  ⟨rfl, map_updateNode reduce hkeep w n⟩

/-- Whether two worlds differ in nothing but current values. -/
abbrev SameUpToValues (w w' : World) : Prop := SameUnder Node.still w w'

/-- Whether two worlds differ in nothing but flows. -/
abbrev SameUpToFlows (w w' : World) : Prop := SameUnder Node.unlinked w w'

namespace SameUpToValues

/-- Current values are no links. -/
theorem sameLinks (h : SameUpToValues w w') : SameLinks w w' where
  model := h.model
  kind n := h.map_eq Node.kind (fun node => (node.sameLinks_setCurrent 0.0).kind) n
  formula n := h.bind_eq Node.formula? (fun node => (node.sameLinks_setCurrent 0.0).formula) n
  endpoint side n :=
    h.bind_eq (Node.endpoint? side) (fun node => (node.sameLinks_setCurrent 0.0).endpoint side) n
  listed side n := by
    rw [listedAt, listedAt,
      h.map_eq (Node.listed side) fun node => (node.sameLinks_setCurrent 0.0).listed side]

end SameUpToValues

/-- A current value that is written is all that differs. -/
theorem sameUpToValues_setCurrent (w : World) (n : NodeId) (x : Float) :
    SameUpToValues w (w.updateNode n (Node.setCurrent x)) :=
  sameUnder_updateNode (Node.still_setCurrent x) w n

namespace SameUpToFlows

/-- Kinds are the same in worlds that differ in flows alone. -/
theorem kind (h : SameUpToFlows w w') (n : NodeId) : w'.kind? n = w.kind? n :=
  h.map_eq Node.kind Node.kind_unlinked n

/-- Formulas are the same in worlds that differ in flows alone. -/
theorem formula (h : SameUpToFlows w w') (n : NodeId) : w'.formula? n = w.formula? n :=
  h.bind_eq Node.formula? Node.formula?_unlinked n

end SameUpToFlows

end World
end StockFlow
