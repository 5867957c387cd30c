import StockFlow.Proofs.World.Isolation
import StockFlow.Proofs.World.Noninterference

/-!
# Rounds are local

All that a round of a closed model reads are nodes of the model.  So worlds in which a
model owns the same nodes with the same contents can differ in everything else, and they
still show the same model after any number of its rounds; operations that leave its nodes
alone change nothing of that.

Main definitions:

- {lit}`World.SameModel`: two worlds show one model with the same content and the same nodes.

Main results:

- Theorem {lit}`World.SameModel.computeRound`: a round keeps what two worlds show of a model.
- Theorem {lit}`World.SameModel.step`: so does every operation that does not meddle with it.
-/

namespace StockFlow
namespace World

variable {w v u : World} {m : ModelId} {n : NodeId}

/-- Whether two worlds show a model with the same content and the same nodes. -/
structure SameModel (m : ModelId) (w v : World) : Prop where
  content : v.model? m = w.model? m
  node : ∀ n ∈ (w.model m).nodes, v.node? n = w.node? n

namespace SameModel

theorem refl (m : ModelId) (w : World) : SameModel m w w := ⟨rfl, fun _ _ => rfl⟩

/-- The same model has the same content. -/
theorem model (h : SameModel m w v) : v.model m = w.model m := by
  rw [World.model, World.model, h.content]

/-- What is the same model in turn is the same model. -/
theorem trans (h : SameModel m w v) (h' : SameModel m v u) : SameModel m w u where
  content := h'.content.trans h.content
  node n hn := by
    refine (h'.node n ?_).trans (h.node n hn)
    rwa [h.model]

theorem symm (h : SameModel m w v) : SameModel m v w where
  content := h.content.symm
  node n hn := by
    rw [h.model] at hn
    exact (h.node n hn).symm

/-- The same model is locked in both worlds or in neither. -/
theorem isChangeable (h : SameModel m w v) : v.isChangeable m = w.isChangeable m := by
  rw [World.isChangeable, World.isChangeable, h.model]

/-- The nodes of the same model have the same kinds. -/
theorem kind (h : SameModel m w v) (hn : n ∈ (w.model m).nodes) : v.kind? n = w.kind? n := by
  rw [kind?, kind?, h.node n hn]

/-- The nodes of the same model have the same formulas. -/
theorem formula (h : SameModel m w v) (hn : n ∈ (w.model m).nodes) :
    v.formula? n = w.formula? n := by
  rw [formula?, formula?, h.node n hn]

/-- The nodes of the same model have the same values. -/
theorem valueOf (h : SameModel m w v) (hn : n ∈ (w.model m).nodes) :
    v.valueOf n = w.valueOf n := by
  rw [World.valueOf, World.valueOf, current?, current?, h.node n hn]

/-- The nodes of the same model list the same rates. -/
theorem listedAt (h : SameModel m w v) (hn : n ∈ (w.model m).nodes) (side : Side) :
    v.listedAt side n = w.listedAt side n := by
  rw [World.listedAt, World.listedAt, h.node n hn]

/-- The same model has its own layout. -/
theorem sameLayout (h : SameModel m w v) : SameLayout id w m v m where
  bijective := by
    rw [h.model]
    exact Set.bijOn_id _
  kind n hn := h.kind hn
  constant c hc := by
    rw [id, current?, current?, h.node c (Model.mem_nodes_of_mem_members .constant hc)]
  endpoint side r hr := by
    rw [id, endpoint?, endpoint?, h.node r (Model.mem_nodes_of_mem_members .rate hr),
      Option.map_id_fun, id]
  rates side l hl := by
    have hl' := Model.mem_nodes_of_mem_members .level hl
    rw [id, ratesAt, ratesAt, h.listedAt hl', List.map_id_fun, id]

/-- All that a round of a closed model reads are nodes of the model, which both worlds show. -/
theorem sameReads (h : SameModel m w v) (hw : w.WellFormed) (hclosed : w.OwnershipClosed m) :
    SameReads id {n | n ∈ (w.model m).nodes} w m v m where
  layout := h.sameLayout
  order := by rw [h.model, List.map_id]
  owned n hn := hn
  isSome n hn := by rw [id, h.formula (Model.mem_nodes_of_mem_formulaOwners hn)]
  formula n hn _ := by
    have hid : (Formula.map id : Formula NodeId → Formula NodeId) = id := funext Formula.map_id
    rw [id, h.formula (Model.mem_nodes_of_mem_formulaOwners hn), hid, Option.map_id_fun, id]
  leaf n hn f hf k hk := hclosed.leaf n (hw.members.mem_formulaOwners hn hf) f hf k hk
  rate l hl _ side r hr :=
    Model.mem_nodes_of_mem_members .rate (hclosed.mem_rates hw.flows hl hr)

/-- A round of a closed model keeps what two worlds show of the model, whatever else they show. -/
theorem computeRound (h : SameModel m w v) (hw : w.Reachable) (hv : v.Reachable)
    (hlocked : w.isChangeable m = false) (hclosed : w.OwnershipClosed m) :
    SameModel m (w.step (.computeRound m)) (v.step (.computeRound m)) := by
  have hlockstep := (h.sameReads hw.wellFormed hclosed).lockstep_computeRound hw.wellFormed
    hv.wellFormed hlocked (by rw [h.isChangeable, hlocked])
    (fun n => (hw.ordersMatch m hlocked n).1) fun n hn => h.valueOf hn
  have hafter := hlockstep.worldAfter
  rw [worldAfter_computeRound, worldAfter_computeRound] at hafter
  refine ⟨?_, fun n hn => ?_⟩
  · rw [model?, model?, hafter.values.models, hafter.values'.models]
    exact h.content
  · rw [hafter.values.model] at hn
    refine node?_eq_of_still ?_ (hafter.agree n hn)
    rw [hafter.values'.node, hafter.values.node, h.node n hn]

/-- Operations that leave the nodes of a locked model alone keep what two worlds show of it. -/
theorem step (h : SameModel m w v) (hv : v.Reachable) {content : Model}
    (hm : w.model? m = some content) (hlocked : content.changeable = false) {op : Operation}
    (hop : op ≠ .computeRound m) (hspared : ∀ n ∈ (v.model m).nodes, ¬ Meddles m n v op) :
    SameModel m w (v.step op) := by
  have hm' : v.model? m = some content := h.content.trans hm
  refine h.trans ⟨?_, fun n hn => (hv.node?_step ?_ hn hop).resolve_left (hspared n hn)⟩
  · rw [hm']
    exact model?_run_of_locked hv.wellFormed [op] hm' hlocked
  · rw [World.isChangeable, model_of_model? hm', hlocked]

/-- Two worlds that show the same model both have rounds of it, or neither of them has. -/
theorem runnable (h : SameModel m w v) (hw : w.Reachable) (hrunnable : w.Runnable m) :
    v.Runnable m where
  locked := by rw [h.isChangeable, hrunnable.locked]
  order n hn := by
    rw [h.model] at hn
    have hmem := (hw.ordersMatch m hrunnable.locked n).1 hn
    rw [h.formula (Model.mem_nodes_of_mem_members .auxiliary hmem)]
    exact hrunnable.order n hn
  rates n hn := by
    rw [h.model] at hn
    rw [h.formula (Model.mem_nodes_of_mem_members .rate hn)]
    exact hrunnable.rates n hn

end SameModel

end World
end StockFlow
