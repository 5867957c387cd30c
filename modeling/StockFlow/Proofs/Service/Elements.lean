import StockFlow.Proofs.Service.Building

/-!
# Elements of models under construction

The elements of model data become nodes one after the other.  Which node an element
becomes depends on the element alone, and it is accepted if there is such a node and no
element before it has the same id.  So once all are added, the nodes of the model are
told by the elements, but for the order that they are listed in.

Main definitions:

- {lit}`ElementData.node?`: the node that an element becomes.
- {lit}`Built.Laid`: the nodes of the model are those of the elements, with their names.
- {lit}`Built.Begun`: nothing but elements were added so far.

Main results:

- Theorem {lit}`Built.addElement_eq_ok_iff`: which elements are accepted, and what becomes of them.
- Theorem {lit}`Built.Begun.of_addAll`: what holds once elements were added.
- Theorem {lit}`Built.Begun.exists_addAll`: elements that are accepted in any order.
-/

namespace StockFlow

/-! ## The node of an element -/

/-- The node that an element becomes if its id is free: its type, name and value are checked. -/
def ElementData.node? (e : ElementData) : Option Node :=
  (NodeKind.ofLabel? e.type).bind fun kind =>
    if kind != .sourceSink && (e.name.getD "").isEmpty then none
    else Built.newNode? kind e (e.name.getD "")

namespace Built

/-- A new node has the name of its element, if it has a name at all. -/
theorem name?_of_newNode? {kind : NodeKind} {e : ElementData} {name : String} {node : Node}
    (h : newNode? kind e name = some node) (hkind : node.kind ≠ .sourceSink) :
    node.name? = some name := by
  cases kind with
  | level =>
      rcases Option.map_eq_some_iff.1 h with ⟨x, _, rfl⟩
      rfl
  | constant =>
      rcases Option.map_eq_some_iff.1 h with ⟨x, _, rfl⟩
      rfl
  | rate =>
      cases h
      rfl
  | auxiliary =>
      cases h
      rfl
  | sourceSink =>
      cases h
      exact (hkind rfl).elim

end Built

namespace ElementData

variable {e : ElementData} {node : Node}

/-- An element that makes a node has a kind, and a name if this kind needs one. -/
theorem exists_newNode? (h : e.node? = some node) :
    ∃ kind, NodeKind.ofLabel? e.type = some kind ∧
      (kind ≠ .sourceSink → (e.name.getD "").isEmpty = false) ∧
      Built.newNode? kind e (e.name.getD "") = some node := by
  rcases Option.bind_eq_some_iff.1 h with ⟨kind, hkind, hnode⟩
  refine ⟨kind, hkind, ?_⟩
  split at hnode
  · cases hnode
  · rename_i hname
    exact ⟨by simpa using hname, hnode⟩

/-- An element that makes a node is labelled with the kind of the node. -/
theorem ofLabel?_of_node? (h : e.node? = some node) :
    NodeKind.ofLabel? e.type = some node.kind := by
  rcases exists_newNode? h with ⟨kind, hkind, _, hnode⟩
  rcases Built.exists_creates ⟨0⟩ hnode with ⟨_, _, _, rfl⟩
  exact hkind

/-- The node that an element makes is new. -/
theorem new_of_node? (h : e.node? = some node) : node.New := by
  rcases exists_newNode? h with ⟨kind, _, _, hnode⟩
  rcases Built.exists_creates ⟨0⟩ hnode with ⟨_, hop, _, _⟩
  exact hop.new

/-- Nodes that have names are called what their elements are called. -/
theorem name_of_node? (h : e.node? = some node) (hkind : node.kind ≠ .sourceSink) :
    e.name = some (node.name?.getD "") := by
  rcases exists_newNode? h with ⟨kind, _, hname, hnode⟩
  rcases Built.exists_creates ⟨0⟩ hnode with ⟨_, _, _, rfl⟩
  rw [Built.name?_of_newNode? hnode hkind, Option.getD_some]
  cases he : e.name with
  | some name => rfl
  | none =>
      rw [he] at hname
      cases hname hkind

end ElementData

namespace Built

variable {data : ModelData} {b b' : Built} {e : ElementData} {node : Node} {es : List ElementData}

/-- What is under construction, with one more node for an element. -/
def withNode (b : Built) (e : ElementData) (node : Node) : Built :=
  { b with
    world := b.world.withNew b.model node
    elements := b.elements ++ [{ element := e, kind := node.kind, node := b.world.nextNode }] }

/-- An element is added if it has a free id and becomes a node. -/
theorem addElement_eq_ok_iff (hc : b.world.isChangeable b.model = true) :
    b.addElement e = .ok b' ↔
      b.find? e.id = none ∧ ∃ node, e.node? = some node ∧ b' = b.withNode e node := by
  have hnode : ∀ kind, NodeKind.ofLabel? e.type = some kind →
      e.node? = if kind != .sourceSink && (e.name.getD "").isEmpty then none
        else newNode? kind e (e.name.getD "") := by
    intro kind hkind
    rw [ElementData.node?, hkind, Option.bind_some]
  rw [addElement]
  split
  · rename_i hfound
    simp [Option.isSome_iff_ne_none.1 hfound]
  · rename_i hfree
    have hfree' : b.find? e.id = none := by simpa using hfree
    simp only [hfree', true_and]
    split
    · rename_i hnone
      simp [ElementData.node?, hnone]
    · rename_i kind hkind
      rw [hnode kind hkind]
      split
      · simp
      · rw [run_creation hc]
        cases hnew : newNode? kind e (e.name.getD "") with
        | none => simp
        | some node =>
            rcases exists_creates b.model hnew with ⟨_, _, _, rfl⟩
            simp [withNode, eq_comm]

/-! ## Laid elements -/

/-- Whether the nodes of the model are those of the elements, called and listed as these are. -/
structure Laid (b : Built) : Prop where
  ids : (b.elements.map (·.element.id)).Nodup
  nodes : (b.elements.map (·.node)).Nodup
  members : ∀ kind, (b.world.model b.model).members kind =
    (b.elements.filter (·.kind == kind)).map (·.node)
  type : ∀ x ∈ b.elements, NodeKind.ofLabel? x.element.type = some x.kind
  name : ∀ x ∈ b.elements, x.kind ≠ .sourceSink →
    x.element.name = some (b.world.nameOf x.node)

/-- The nodes of one kind are those of the elements of this kind. -/
theorem Laid.mem_members_iff (h : b.Laid) {kind : NodeKind} {n : NodeId} :
    n ∈ (b.world.model b.model).members kind ↔ ∃ x ∈ b.elements, x.kind = kind ∧ x.node = n := by
  rw [h.members, List.mem_map]
  simp only [List.mem_filter, beq_iff_eq, and_assoc]

/-- The nodes of the model are those of the elements. -/
theorem Laid.mem_nodes_iff (h : b.Laid) {n : NodeId} :
    n ∈ (b.world.model b.model).nodes ↔ ∃ x ∈ b.elements, x.node = n := by
  simp only [Model.mem_nodes, h.mem_members_iff]
  constructor
  · rintro ⟨kind, x, hx, _, hnode⟩
    exact ⟨x, hx, hnode⟩
  · rintro ⟨x, hx, hnode⟩
    exact ⟨x.kind, x, hx, rfl, hnode⟩

/-- What alone has a property is found by it. -/
theorem find?_of_unique {elements : List BuiltElement} {p : BuiltElement → Bool}
    {x : BuiltElement} (hx : x ∈ elements) (hp : p x = true)
    (hunique : ∀ y ∈ elements, p y = true → y = x) : elements.find? p = some x := by
  cases hfind : elements.find? p with
  | none => exact (List.find?_eq_none.1 hfind x hx hp).elim
  | some y => rw [hunique y (List.mem_of_find?_eq_some hfind) (List.find?_some hfind)]

/-- What is looked for by a key that differs from those of all others is found. -/
theorem find?_of_nodup {α : Type} [DecidableEq α] {key : BuiltElement → α}
    {elements : List BuiltElement} (hkeys : (elements.map key).Nodup) {x : BuiltElement}
    (hx : x ∈ elements) : elements.find? (key · == key x) = some x :=
  find?_of_unique hx (beq_self_eq_true _) fun _ hy hkey =>
    List.inj_on_of_nodup_map hkeys hy hx (eq_of_beq hkey)

/-- The id of the element that a node was built from. -/
theorem Laid.elementId?_eq (h : b.Laid) {x : BuiltElement} (hx : x ∈ b.elements) :
    b.elementId? x.node = some x.element.id := by
  rw [elementId?, find?_of_nodup h.nodes hx, Option.map_some]

/-- Changes that keep the elements, the lists of the model and all names. -/
theorem Laid.of_same (h : b.Laid) (helements : b'.elements = b.elements)
    (hmodel : b'.world.model b'.model = b.world.model b.model)
    (hname : ∀ n, b'.world.nameOf n = b.world.nameOf n) : b'.Laid where
  ids := by
    rw [helements]
    exact h.ids
  nodes := by
    rw [helements]
    exact h.nodes
  members := by
    rw [hmodel, helements]
    exact h.members
  type := by
    rw [helements]
    exact h.type
  name := by
    simp only [helements, hname]
    exact h.name

/-! ## Adding elements -/

/-- Whether nothing but elements were added, so that every node is as it was created. -/
structure Begun (data : ModelData) (b : Built) : Prop extends Sound data b, Laid b where
  fresh : ∀ x ∈ b.elements, ∃ node, x.element.node? = some node ∧ b.world.node? x.node = some node

theorem find?_eq_none_iff {id : Int} :
    b.find? id = none ↔ id ∉ b.elements.map (·.element.id) := by
  rw [find?, List.find?_eq_none, List.mem_map]
  simp

namespace Begun

variable (h : Begun data b)

include h

/-- No element that was built has the number of the next node. -/
theorem node_ne_nextNode {x : BuiltElement} (hx : x ∈ b.elements) : x.node ≠ b.world.nextNode := by
  rcases h.fresh x hx with ⟨node, _, hnode⟩
  rintro heq
  simp [heq] at hnode

/-- One more node does not change those of the elements before it. -/
theorem node?_withNode {x : BuiltElement} (hx : x ∈ b.elements) :
    (b.withNode e node).world.node? x.node = b.world.node? x.node := by
  rw [withNode, World.node?_withNew, if_neg (h.node_ne_nextNode hx)]

/-- One more element of the data. -/
theorem withNode (he : e ∈ data.elements) (hfree : b.find? e.id = none)
    (hnode : e.node? = some node) : Begun data (b.withNode e node) := by
  have hnew : (b.withNode e node).world.node? b.world.nextNode = some node := by
    rw [Built.withNode, World.node?_withNew, if_pos rfl]
  have hcases : ∀ x ∈ (b.withNode e node).elements, x ∈ b.elements ∨
      x = { element := e, kind := node.kind, node := b.world.nextNode } := by
    intro x hx
    rwa [Built.withNode, List.mem_append, List.mem_singleton] at hx
  refine ⟨?_, ⟨?_, ?_, fun kind => ?_, fun x hx => ?_, fun x hx hkind => ?_⟩, fun x hx => ?_⟩
  · rcases ElementData.exists_newNode? hnode with ⟨kind, _, _, hcreated⟩
    rcases exists_creates b.model hcreated with ⟨op, hop, hperform, rfl⟩
    have hrun := run_creation h.changeable node.kind e (e.name.getD "")
    rw [hcreated] at hrun
    have hstep : (Action.perform op).run b.world =
        .ok (.node b.world.nextNode) (b.world.withNew b.model node) := by
      rw [hperform, Action.run_map, hrun]
    exact h.toSound.withNew he hop (World.step_of_ok hstep)
  · rw [Built.withNode, List.map_append, List.map_singleton, List.nodup_append]
    refine ⟨h.ids, List.nodup_singleton _, ?_⟩
    rintro id hid id' hid' rfl
    rw [List.mem_singleton.1 hid'] at hid
    exact find?_eq_none_iff.1 hfree hid
  · rw [Built.withNode, List.map_append, List.map_singleton, List.nodup_append]
    refine ⟨h.nodes, List.nodup_singleton _, ?_⟩
    rintro n hn n' hn' rfl
    rcases List.mem_map.1 hn with ⟨x, hx, rfl⟩
    exact h.node_ne_nextNode hx (List.mem_singleton.1 hn')
  · rw [Built.withNode, World.MembersMatch.members_withNew h.changeable, List.filter_append,
      List.map_append, ← h.members]
    by_cases hkind : kind = node.kind
    · simp [hkind]
    · simp [hkind, Ne.symm hkind]
  · rcases hcases x hx with hx | rfl
    · exact h.type x hx
    · exact ElementData.ofLabel?_of_node? hnode
  · rcases hcases x hx with hx | rfl
    · rw [World.nameOf, h.node?_withNode hx]
      exact h.name x hx hkind
    · rw [World.nameOf, hnew]
      exact ElementData.name_of_node? hnode hkind
  · rcases hcases x hx with hx | rfl
    · rw [h.node?_withNode hx]
      exact h.fresh x hx
    · exact ⟨node, hnode, hnew⟩

end Begun

/-- What holds once elements of the data were added. -/
theorem Begun.of_addAll (h : Begun data b) (hes : ∀ e ∈ es, e ∈ data.elements)
    (hadd : addAll addElement b es = .ok b') :
    Begun data b' ∧ b'.elements.map (·.element) = b.elements.map (·.element) ++ es := by
  induction es generalizing b with
  | nil =>
      cases hadd
      exact ⟨h, (List.append_nil _).symm⟩
  | cons e rest ih =>
      rcases addAll_cons_eq_ok_iff.1 hadd with ⟨next, he, hadd⟩
      rcases (addElement_eq_ok_iff h.changeable).1 he with ⟨hfree, node, hnode, rfl⟩
      have hnext := h.withNode (hes e List.mem_cons_self) hfree hnode
      rcases ih hnext (fun x hx => hes x (List.mem_cons_of_mem e hx)) hadd with ⟨hb', helements⟩
      refine ⟨hb', ?_⟩
      rw [helements, Built.withNode, List.map_append, List.map_singleton, List.append_assoc,
        List.singleton_append]

/-- Elements that become nodes are added if their ids are free and differ. -/
theorem Begun.exists_addAll (h : Begun data b) (hes : ∀ e ∈ es, e ∈ data.elements)
    (hnode : ∀ e ∈ es, ∃ node, e.node? = some node)
    (hids : (b.elements.map (·.element.id) ++ es.map (·.id)).Nodup) :
    ∃ b', addAll addElement b es = .ok b' := by
  induction es generalizing b with
  | nil => exact ⟨b, rfl⟩
  | cons e rest ih =>
      rcases hnode e List.mem_cons_self with ⟨node, he⟩
      have hfree : b.find? e.id = none := by
        rw [find?_eq_none_iff]
        intro hid
        exact (List.nodup_append.1 hids).2.2 _ hid _ List.mem_cons_self rfl
      have hnext := h.withNode (hes e List.mem_cons_self) hfree he
      have hids' : ((b.withNode e node).elements.map (·.element.id) ++ rest.map (·.id)).Nodup := by
        rw [Built.withNode, List.map_append, List.append_assoc]
        exact hids
      rcases ih hnext (fun x hx => hes x (List.mem_cons_of_mem e hx))
        (fun x hx => hnode x (List.mem_cons_of_mem e hx)) hids' with ⟨b', hadd⟩
      have he' := (addElement_eq_ok_iff h.changeable).2 ⟨hfree, node, he, rfl⟩
      exact ⟨b', addAll_cons_eq_ok_iff.2 ⟨_, he', hadd⟩⟩

/-- Before any element is added. -/
theorem begun_start (data : ModelData) (name : Value) :
    Begun data { world := ({} : World).addModel { name }, model := ({} : World).nextModel } where
  toSound := sound_start data name
  ids := List.nodup_nil
  nodes := List.nodup_nil
  members kind := by
    rw [World.model_addModel, if_pos rfl]
    cases kind <;> rfl
  type _ hx := (List.not_mem_nil hx).elim
  name _ hx := (List.not_mem_nil hx).elim
  fresh _ hx := (List.not_mem_nil hx).elim

end Built
end StockFlow
