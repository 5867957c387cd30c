import StockFlow.Proofs.Service.Connections
import StockFlow.Proofs.World.Starts

/-!
# Models are what their data says

A model that is built of data has a node for every element and nothing else, listed in the
order of the elements and with their names and values.  Its flows are those of the
connections, and the formulas are the ones that the texts write, with numbers for the ids
of elements.  Data whose flows give a rate two endpoints at one side makes no model.

Main definitions:

- {lit}`Built.Faithful`: a model is what the data says.

Main results:

- Theorem {lit}`ModelData.faithful_or_refused`: models are faithful to their data, and
  contradictory flows are refused.
-/

namespace StockFlow

/-! ## Nodes of elements -/

/-- The value that the node of an element starts with; sources and sinks have none. -/
def ElementData.valueFor (kind : NodeKind) (e : ElementData) : Option Float :=
  match kind with
  | .level | .constant => some (Built.valueOf e)
  | .rate | .auxiliary => some 0.0
  | .sourceSink => none

namespace ElementData

variable {e : ElementData} {node : Node}

theorem eq_of_toOption_checkBounds {x y : Float} (h : (checkBounds x).toOption = some y) :
    y = x := by
  rw [checkBounds] at h
  split at h <;> cases h
  rfl

/-- The node of an element has the values that its kind takes from the element. -/
theorem values_of_node? (h : e.node? = some node) :
    node.current? = e.valueFor node.kind ∧
      node.start? = if node.kind = .level then some (Built.valueOf e) else none := by
  rcases exists_newNode? h with ⟨kind, _, _, hnode⟩
  cases kind with
  | level =>
      rcases Option.map_eq_some_iff.1 hnode with ⟨x, hx, rfl⟩
      rw [eq_of_toOption_checkBounds hx]
      exact ⟨rfl, rfl⟩
  | constant =>
      rcases Option.map_eq_some_iff.1 hnode with ⟨x, hx, rfl⟩
      rw [eq_of_toOption_checkBounds hx]
      exact ⟨rfl, rfl⟩
  | rate =>
      cases hnode
      exact ⟨rfl, rfl⟩
  | auxiliary =>
      cases hnode
      exact ⟨rfl, rfl⟩
  | sourceSink =>
      cases hnode
      exact ⟨rfl, rfl⟩

/-- The node of an element has its name, unless it is a source or sink. -/
theorem name?_of_node? (h : e.node? = some node) :
    node.name? = if node.kind = .sourceSink then none else e.name := by
  split
  · rename_i hkind
    cases node with
    | sourceSink flows => rfl
    | _ => cases hkind
  · rename_i hkind
    rw [name_of_node? h hkind]
    cases node with
    | sourceSink flows => exact (hkind rfl).elim
    | _ => rfl

end ElementData

namespace Built

variable {data : ModelData} {b b₀ u v : Built} {x : BuiltElement}

/-! ## Ids of elements -/

/-- The ids of elements name the nodes of the model, each of them one. -/
theorem Laid.bijOn_elementId? (h : b.Laid) :
    Set.BijOn b.elementId? {n | n ∈ (b.world.model b.model).nodes}
      {id | ∃ x ∈ b.elements, id = some x.element.id} := by
  refine ⟨fun n hn => ?_, fun n hn k hk heq => ?_, ?_⟩
  · rcases h.mem_nodes_iff.1 hn with ⟨x, hx, rfl⟩
    exact ⟨x, hx, h.elementId?_eq hx⟩
  · rcases h.mem_nodes_iff.1 hn with ⟨x, hx, rfl⟩
    rcases h.mem_nodes_iff.1 hk with ⟨y, hy, rfl⟩
    rw [h.elementId?_eq hx, h.elementId?_eq hy] at heq
    rw [List.inj_on_of_nodup_map h.ids hx hy (Option.some.inj heq)]
  · rintro id ⟨x, hx, rfl⟩
    exact ⟨x.node, h.mem_nodes_iff.2 ⟨x, hx, rfl⟩, h.elementId?_eq hx⟩

/-- A reference in a formula text stands for the element of its kind with its id. -/
theorem Laid.table_eq_some_iff (h : b.Laid) {kind : ReferenceKind} {id : Nat} {n : NodeId} :
    b.table kind id = some n ↔
      ∃ x ∈ b.elements, x.kind = kind.nodeKind ∧ x.element.id = id ∧ x.node = n := by
  rw [table, Option.map_eq_some_iff]
  constructor
  · rintro ⟨x, hx, rfl⟩
    have hkey := List.find?_some hx
    rw [Bool.and_eq_true, beq_iff_eq, beq_iff_eq] at hkey
    exact ⟨x, List.mem_of_find?_eq_some hx, hkey.1, hkey.2, rfl⟩
  · rintro ⟨x, hx, hkind, hid, rfl⟩
    refine ⟨x, find?_of_unique hx (by simp [hkind, hid]) fun y hy hkey => ?_, rfl⟩
    rw [Bool.and_eq_true, beq_iff_eq, beq_iff_eq] at hkey
    exact List.inj_on_of_nodup_map h.ids hy hx (hkey.2.trans hid.symm)

/-! ## Faithful models -/

/--
Whether a model is what data says.  Its nodes are listed in the order of the elements and
stand for one of them each; names, values, flows and formulas are those of the data.
-/
structure Faithful (data : ModelData) (b : Built) : Prop where
  elements : b.elements.map (·.element) = data.elements
  type : ∀ x ∈ b.elements, NodeKind.ofLabel? x.element.type = some x.kind
  ids : (data.elements.map (·.id)).Nodup
  elementId : ∀ x ∈ b.elements, b.elementId? x.node = some x.element.id
  bijective : Set.BijOn b.elementId? {n | n ∈ (b.world.model b.model).nodes}
    {id | ∃ e ∈ data.elements, id = some e.id}
  members : ∀ kind, (b.world.model b.model).members kind =
    (b.elements.filter (·.kind == kind)).map (·.node)
  kind : ∀ x ∈ b.elements, b.world.kind? x.node = some x.kind
  name : ∀ x ∈ b.elements, (b.world.node? x.node).bind Node.name? =
    if x.kind = .sourceSink then none else x.element.name
  value : ∀ x ∈ b.elements, b.world.current? x.node = x.element.valueFor x.kind
  start : ∀ x ∈ b.elements, x.kind = .level → b.world.start? x.node = some (valueOf x.element)
  endpoint : ∀ side, ∀ r ∈ b.elements, r.kind = .rate → ∀ n,
    b.world.endpoint? side r.node = some n ↔
      ∃ x ∈ b.elements, x.node = n ∧
        ∃ c ∈ data.connections, c.Joins side x.element.id r.element.id
  rates : ∀ side, ∀ x ∈ b.elements, x.kind.isEndpoint = true →
    (b.world.ratesAt side x.node).map b.elementId? =
      (data.connections.filterMap (·.rateFor? side x.element.id)).eraseDups.map some
  table : ∀ kind id n, b.table kind id = some n ↔
    ∃ x ∈ b.elements, x.kind = kind.nodeKind ∧ x.element.id = id ∧ x.node = n
  noFormula : ∀ x ∈ b.elements, x.element.formula.getD "" = "" →
    b.world.formula? x.node = none
  formula : ∀ x ∈ b.elements, x.kind.hasFormula = true → ∀ text,
    x.element.formula = some text → text ≠ "" →
      ∃ f, Formula.ofText b.table text = .ok f ∧ b.world.formula? x.node = some f

/-- What a node shows besides flows and formulas is what its element made it. -/
theorem Begun.bind_eq {α : Type} {view : Node → Option α} {expected : BuiltElement → Option α}
    (h : Begun data b₀) (hflows : World.SameUpToFlows b₀.world u.world)
    (hformulas : World.SameUpToFormulas u.world v.world)
    (hunlinked : ∀ node : Node, view node.unlinked = view node)
    (hunformed : ∀ node : Node, view node.unformed = view node)
    (hexpected : ∀ x ∈ b₀.elements, ∀ node, x.element.node? = some node →
      node.kind = x.kind → view node = expected x) :
    ∀ x ∈ b₀.elements, (v.world.node? x.node).bind view = expected x := by
  intro x hx
  rcases h.fresh x hx with ⟨node, hnode, hworld⟩
  have hkind := h.kind?_eq hx
  rw [World.kind?, hworld, Option.map_some, Option.some.injEq] at hkind
  rw [hformulas.bind_eq view hunformed, hflows.bind_eq view hunlinked, hworld, Option.bind_some]
  exact hexpected x hx node hnode hkind

/-- Connections set no formulas. -/
theorem Connected.formula?_eq_none {cs : List ConnectionData} (hu : Connected data b₀ cs u)
    (hb : Begun data b₀) (hx : x ∈ u.elements) : u.world.formula? x.node = none := by
  rw [hu.elements] at hx
  rcases hb.fresh x hx with ⟨node, hnode, hworld⟩
  rw [hu.same.formula, World.formula?, hworld, Option.bind_some,
    (ElementData.new_of_node? hnode).formula]

section

variable {items : List BuiltElement} (h : Formed u items v) (hx : x ∈ items)
  (hfresh : u.world.formula? x.node = none)

include h hx hfresh

/-- Without a text there is no formula. -/
theorem Formed.formula?_eq_none (htext : x.element.formula.getD "" = "") :
    v.world.formula? x.node = none := by
  rcases h.set x hx with ⟨f, hf, hset⟩
  rw [formulaFor, htext, if_pos (by simp)] at hf
  cases hf
  rw [hset, hfresh]
  rfl

/-- With a text, the formula is the one that is read of it. -/
theorem Formed.exists_formula (hkind : x.kind.hasFormula = true) {text : String}
    (htext : x.element.formula = some text) (hne : text ≠ "") :
    ∃ f, Formula.ofText v.table text = .ok f ∧ v.world.formula? x.node = some f := by
  rcases h.set x hx with ⟨f, hf, hset⟩
  rw [hfresh, Option.or_none] at hset
  rw [formulaFor, htext, Option.getD_some, hkind, if_neg (by simpa using hne)] at hf
  rw [table_congr h.elements]
  cases htree : Formula.ofText u.table text with
  | error error =>
      rw [htree] at hf
      cases hf
  | ok tree =>
      rw [htree] at hf
      cases hf
      exact ⟨tree, rfl, hset⟩

end

/-- What the three passes over the data make of it. -/
theorem Faithful.of_passes (hb : Begun data b₀)
    (hlisted : b₀.elements.map (·.element) = data.elements)
    (hu : Connected data b₀ data.connections u) (hv : v.Sound data)
    (hformed : Formed u u.elements v) : Faithful data v := by
  have helements : v.elements = b₀.elements := hformed.elements.trans hu.elements
  have hsame := hformed.same
  have hlaid : v.Laid := by
    refine hu.laid.of_same hformed.elements ?_ hsame.nameOf
    rw [hformed.model, hsame.model]
  refine
    { elements := by rw [helements, hlisted]
      type := hlaid.type
      ids := ?_
      elementId := fun x hx => hlaid.elementId?_eq hx
      bijective := ?_
      members := hlaid.members
      kind := fun x hx => hv.kind?_eq hx
      name := ?_
      value := ?_
      start := ?_
      endpoint := ?_
      rates := ?_
      table := fun _ _ _ => hlaid.table_eq_some_iff
      noFormula := ?_
      formula := ?_ }
  · rw [← hlisted, List.map_map]
    exact hb.ids
  · have hset : {id | ∃ x ∈ v.elements, id = some x.element.id} =
        {id | ∃ e ∈ data.elements, id = some e.id} := by
      ext id
      simp [← hlisted, helements]
    rw [← hset]
    exact hlaid.bijOn_elementId?
  · rw [helements]
    refine hb.bind_eq hu.same hsame Node.name?_unlinked (Node.name?_setFormula none)
      fun x _ node hnode hkind => ?_
    rw [ElementData.name?_of_node? hnode, hkind]
  · rw [helements]
    refine hb.bind_eq hu.same hsame Node.current?_unlinked (Node.current?_setFormula none)
      fun x _ node hnode hkind => ?_
    rw [(ElementData.values_of_node? hnode).1, hkind]
  · rw [helements]
    have hstart : ∀ x ∈ b₀.elements, (v.world.node? x.node).bind Node.start? =
        if x.kind = .level then some (valueOf x.element) else none := by
      refine hb.bind_eq hu.same hsame (fun node => by cases node <;> rfl)
        (fun node => by cases node <;> rfl) fun x _ node hnode hkind => ?_
      rw [(ElementData.values_of_node? hnode).2, hkind]
    exact fun x hx hkind => (hstart x hx).trans (if_pos hkind)
  · intro side r hr hrate n
    rw [hformed.elements] at hr
    rw [hsame.endpoint, hformed.elements]
    exact hu.wired.endpoint side r hr hrate n
  · have hids : v.elementId? = u.elementId? := by
      funext n
      rw [elementId?, elementId?, hformed.elements]
    intro side x hx hend
    rw [hformed.elements] at hx
    rw [hsame.rates, hids]
    exact hu.wired.rates side x hx hend
  · intro x hx htext
    rw [hformed.elements] at hx
    exact hformed.formula?_eq_none hx (hu.formula?_eq_none hb hx) htext
  · intro x hx hkind text htext hne
    rw [hformed.elements] at hx
    exact hformed.exists_formula hx (hu.formula?_eq_none hb hx) hkind htext hne

end Built

/--
A model that is built of data is what the data says.  Data whose flows give one rate two
sources, or two sinks, is refused, in whatever order the connections come.
-/
theorem ModelData.faithful_or_refused (data : ModelData) :
    (∀ b, data.build = .ok b → b.Faithful data) ∧
      (data.Conflicts → ∃ refusal, data.build = .error (.refused refusal)) := by
  refine ⟨fun b hbuild => ?_, exists_refusal_of_conflicts⟩
  simp only [build, bind_eq_ok_iff] at hbuild
  rcases hbuild with ⟨b₀, hnodes, u, hflows, hformulas⟩
  obtain ⟨hb, hlisted⟩ :=
    (Built.begun_start data (nameValue data.name)).of_addAll (fun _ he => he) hnodes
  have hu := hb.connected.of_addAll hflows
  rw [List.nil_append] at hu
  obtain ⟨hv, hformed⟩ := hu.sound.of_addFormulas (fun _ hx => hx) hu.laid.nodes hformulas
  exact .of_passes hb hlisted hu hv hformed

/-- A pump that empties a tank, with a second connection from a given element to the pump. -/
def pumpData (source : Int) : ModelData :=
  { elements := [{ id := 1, type := "level", name := some "Tank", value := some 8.0 },
      { id := 2, type := "source_sink" },
      { id := 3, type := "rate", name := some "Pump", formula := some "AN(4)" },
      { id := 4, type := "auxiliary", name := some "Flow", formula := some "LN(1) / CN(5)" },
      { id := 5, type := "constant", name := some "Share", value := some 2.0 }]
    connections := [{ id := 1, source := 1, target := 3 }, { id := 2, source, target := 3 },
      { id := 3, source := 3, target := 2 }] }

/-- The pump may be connected with the tank twice, but not with the source as well. -/
theorem ModelData.faithful_or_refused_pump :
    (∃ b, (pumpData 1).build = .ok b ∧ b.Faithful (pumpData 1)) ∧ (pumpData 2).Conflicts ∧
      ∃ refusal, (pumpData 2).build = .error (.refused refusal) := by
  have hok : (pumpData 1).build.toOption.isSome = true := by decide +kernel
  have hconflicts : (pumpData 2).Conflicts := by
    refine ⟨.source, _, List.mem_cons_of_mem _ (List.mem_cons_of_mem _ List.mem_cons_self), rfl,
      _, List.mem_cons_self, _, List.mem_cons_of_mem _ List.mem_cons_self, 1, 2, by decide,
      ⟨rfl, rfl, rfl⟩, ⟨rfl, rfl, rfl⟩⟩
  refine ⟨?_, hconflicts, (faithful_or_refused _).2 hconflicts⟩
  cases hbuild : (pumpData 1).build with
  | error failure =>
      rw [hbuild] at hok
      cases hok
  | ok b => exact ⟨b, rfl, (faithful_or_refused _).1 b hbuild⟩

end StockFlow
