import StockFlow.World.Basic

/-!
# Flows in a world

A flow joins a rate with an endpoint at one of its sides.  Both keep it: the rate
as its endpoint, the endpoint in its list of rates.  Connecting a rate takes it
from the endpoint that it had before.

Main definitions:

- {lit}`World.attach`, {lit}`World.detach`: the endpoint's half of a flow.
- {lit}`World.connect`, {lit}`World.disconnect`: both halves.
-/

namespace StockFlow
namespace World

/-- Lists a key at an endpoint. -/
def attach (w : World) (side : Side) (e : NodeId) (k : Entity) : World :=
  w.updateNode e (Node.mapListed side (insertKey k))

/-- Takes a key from the list of an endpoint. -/
def detach (w : World) (side : Side) (e : NodeId) (k : Entity) : World :=
  w.updateNode e (Node.mapListed side (eraseKey k))

/-- Notes at a rate which endpoint it has. -/
def noteEndpoint (w : World) (side : Side) (r : NodeId) (e : Option NodeId) : World :=
  w.updateNode r (Node.setEndpoint side e)

/-- Takes a rate from the list of its endpoint unless that is the given one. -/
def detachFromOther (w : World) (side : Side) (r e : NodeId) : World :=
  match w.endpoint? side r with
  | some old => if old = e then w else w.detach side old (.node r)
  | none => w

/-- Gives a rate an endpoint, whatever it had before. -/
def connect (w : World) (side : Side) (r e : NodeId) : World :=
  ((w.detachFromOther side r e).attach side e (.node r)).noteEndpoint side r (some e)

/-- Takes a rate's endpoint away, if it has one. -/
def disconnect (w : World) (side : Side) (r : NodeId) : World :=
  match w.endpoint? side r with
  | some old => (w.detach side old (.node r)).noteEndpoint side r none
  | none => w.noteEndpoint side r none

/-- Attaching a rate touches no model. -/
@[simp] theorem model?_attach (w : World) (side : Side) (e : NodeId) (k : Entity) (m : ModelId) :
    (w.attach side e k).model? m = w.model? m := rfl

@[simp] theorem model?_detach (w : World) (side : Side) (e : NodeId) (k : Entity) (m : ModelId) :
    (w.detach side e k).model? m = w.model? m := rfl

/-- Making a flow touches no model. -/
@[simp] theorem model?_connect (w : World) (side : Side) (r e : NodeId) (m : ModelId) :
    (w.connect side r e).model? m = w.model? m := by
  unfold connect detachFromOther
  split
  · split <;> rfl
  · rfl

/-- Cutting a flow touches no model. -/
@[simp] theorem model?_disconnect (w : World) (side : Side) (r : NodeId) (m : ModelId) :
    (w.disconnect side r).model? m = w.model? m := by
  unfold disconnect
  split <;> rfl

end World
end StockFlow
