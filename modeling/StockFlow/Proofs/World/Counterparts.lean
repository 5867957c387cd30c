import Mathlib.Data.Set.Function
import StockFlow.Proofs.World.Locked
import StockFlow.Proofs.World.Ownership

/-!
# Counterparts

Two models may be one and the same system, built in another order: a bijection of
their nodes keeps kinds, constants, formulas and flows.  Their auxiliaries may then
be computed in quite different orders.  All the same a round computes one and the
same values for both, since the equations of a round have one solution: what a
formula reads is an old value, or the new value of an auxiliary, and chains of
auxiliaries end.

Main definitions:

- {lit}`World.SameLayout`: a bijection between the nodes of models that keeps all but formulas.
- {lit}`World.Corresponds`: one that keeps formulas too.

Main results:

- Theorem {lit}`World.Corresponds.midRound_eq`: formulas read the same values in both models.
- Theorem {lit}`World.Corresponds.round`: after a round the values of both models agree.
- Theorem {lit}`World.Corresponds.agree_afterRounds`: they agree after any rounds.
-/

namespace StockFlow
namespace World

variable {w w' v v' : World} {m m' : ModelId} {φ : NodeId → NodeId} {n k : NodeId}

/-! ## Current values -/

/-- Exactly the nodes that formulas can read have a current value. -/
theorem current?_eq (w : World) (n : NodeId) :
    w.current? n = if w.isLeaf n then some (w.valueOf n) else none := by
  rw [valueOf, isLeaf, current?, kind?]
  cases w.node? n with
  | none => rfl
  | some node => cases node <;> rfl

/-- Nodes of the same kind have the same current value if what is read of them is the same. -/
theorem current?_eq_iff (hkind : w'.kind? k = w.kind? n) :
    w'.current? k = w.current? n ↔ w'.valueOf k = w.valueOf n := by
  constructor
  · intro h
    rw [valueOf, valueOf, h]
  · intro h
    rw [current?_eq, current?_eq, h, isLeaf, isLeaf, hkind]

theorem valueOf_sourceSink (h : w.kind? n = some .sourceSink) : w.valueOf n = 0.0 := by
  rw [valueOf, current?_eq, isLeaf, h]
  rfl

/-- No round changes a constant. -/
theorem SameUpToValues.valueOf_constant (h : SameUpToValues w v)
    (hkind : w.kind? n = some .constant) : v.valueOf n = w.valueOf n := by
  have hnode := h.node n
  rw [kind?] at hkind
  rw [valueOf, valueOf, current?, current?]
  cases hw : w.node? n with
  | none => simp [hw] at hkind
  | some node =>
      cases node with
      | constant c =>
          rw [hw, Option.map_some, Option.map_eq_some_iff] at hnode
          rcases hnode with ⟨node', hv, hstill⟩
          cases node' with
          | constant c' =>
              obtain rfl : c' = c := Node.constant.inj hstill
              rw [hv]
          | _ => simp [Node.still, Node.setCurrent] at hstill
      | _ => simp [hw, Node.kind] at hkind

/-- In the middle of a round, auxiliaries have their new values. -/
theorem midRound_auxiliary (h : w.kind? n = some .auxiliary) (v : World) :
    midRound w v n = v.valueOf n := by
  rw [midRound, isKind, h]
  rfl

/-- In the middle of a round, all others have their old values. -/
theorem midRound_of_ne (h : w.kind? n ≠ some .auxiliary) (v : World) :
    midRound w v n = w.valueOf n := by
  rw [midRound, isKind, if_neg (by simpa using h)]

/-! ## Models of the same layout -/

/-- Whether a bijection between the nodes of models keeps kinds, constants and flows. -/
structure SameLayout (φ : NodeId → NodeId) (w : World) (m : ModelId) (w' : World)
    (m' : ModelId) : Prop where
  bijective : Set.BijOn φ {n | n ∈ (w.model m).nodes} {n | n ∈ (w'.model m').nodes}
  kind : ∀ n ∈ (w.model m).nodes, w'.kind? (φ n) = w.kind? n
  constant : ∀ c ∈ (w.model m).constants, w'.current? (φ c) = w.current? c
  endpoint : ∀ side, ∀ r ∈ (w.model m).rates,
    w'.endpoint? side (φ r) = (w.endpoint? side r).map φ
  rates : ∀ side, ∀ l ∈ (w.model m).levels, w'.ratesAt side (φ l) = (w.ratesAt side l).map φ

/-- Whether a bijection between the nodes of models keeps kinds, constants, flows and formulas. -/
structure Corresponds (φ : NodeId → NodeId) (w : World) (m : ModelId) (w' : World)
    (m' : ModelId) : Prop extends SameLayout φ w m w' m' where
  formula : ∀ n ∈ (w.model m).formulaOwners,
    w'.formula? (φ n) = (w.formula? n).map (Formula.map φ)

instance (φ : NodeId → NodeId) (w : World) (m : ModelId) (w' : World) (m' : ModelId) :
    Decidable (SameLayout φ w m w' m') :=
  decidable_of_iff
    (((∀ n ∈ (w.model m).nodes, φ n ∈ (w'.model m').nodes) ∧
      (∀ n ∈ (w.model m).nodes, ∀ k ∈ (w.model m).nodes, φ n = φ k → n = k) ∧
      ∀ n' ∈ (w'.model m').nodes, ∃ n ∈ (w.model m).nodes, φ n = n') ∧
      (∀ n ∈ (w.model m).nodes, w'.kind? (φ n) = w.kind? n) ∧
      (∀ c ∈ (w.model m).constants, w'.current? (φ c) = w.current? c) ∧
      (∀ side, ∀ r ∈ (w.model m).rates,
        w'.endpoint? side (φ r) = (w.endpoint? side r).map φ) ∧
      ∀ side, ∀ l ∈ (w.model m).levels, w'.ratesAt side (φ l) = (w.ratesAt side l).map φ)
    ⟨fun ⟨⟨hmaps, hinj, hsurj⟩, hkind, hconstant, hend, hrates⟩ =>
        ⟨⟨hmaps, fun n hn k hk => hinj n hn k hk, hsurj⟩, hkind, hconstant, hend, hrates⟩,
      fun h => ⟨⟨h.bijective.mapsTo, fun _ hn _ hk => h.bijective.injOn hn hk,
        h.bijective.surjOn⟩, h.kind, h.constant, h.endpoint, h.rates⟩⟩

instance (φ : NodeId → NodeId) (w : World) (m : ModelId) (w' : World) (m' : ModelId) :
    Decidable (Corresponds φ w m w' m') :=
  decidable_of_iff
    (SameLayout φ w m w' m' ∧ ∀ n ∈ (w.model m).formulaOwners,
      w'.formula? (φ n) = (w.formula? n).map (Formula.map φ))
    ⟨fun h => ⟨h.1, h.2⟩, fun h => ⟨h.toSameLayout, h.formula⟩⟩

namespace SameLayout

/-- A node and its counterpart are of the same kind. -/
theorem mem_members_iff (h : SameLayout φ w m w' m') (hw : w.MembersMatch)
    (hw' : w'.MembersMatch) (hn : n ∈ (w.model m).nodes) (kind : NodeKind) :
    φ n ∈ (w'.model m').members kind ↔ n ∈ (w.model m).members kind := by
  constructor
  · intro hmem
    refine hw.mem_members hn ?_
    rw [← h.kind n hn, hw'.kind m' kind (φ n) hmem]
  · intro hmem
    refine hw'.mem_members (h.bijective.mapsTo hn) ?_
    rw [h.kind n hn, hw.kind m kind n hmem]

theorem mem_members (h : SameLayout φ w m w' m') (hw : w.MembersMatch) (hw' : w'.MembersMatch)
    (kind : NodeKind) (hn : n ∈ (w.model m).members kind) :
    φ n ∈ (w'.model m').members kind :=
  (h.mem_members_iff hw hw' (Model.mem_nodes_of_mem_members kind hn) kind).2 hn

/-- Every node of the one layout is the counterpart of one of the other. -/
theorem exists_of_mem_members (h : SameLayout φ w m w' m') (hw : w.MembersMatch)
    (hw' : w'.MembersMatch) (kind : NodeKind) {n' : NodeId}
    (hn' : n' ∈ (w'.model m').members kind) : ∃ n ∈ (w.model m).members kind, φ n = n' := by
  rcases h.bijective.surjOn (Model.mem_nodes_of_mem_members kind hn') with ⟨n, hn, rfl⟩
  exact ⟨n, (h.mem_members_iff hw hw' hn kind).1 hn', rfl⟩

/-- Rounds do not change the layout of models. -/
theorem congr (h : SameLayout φ w m w' m') (hw : w.MembersMatch) (hv : SameUpToValues w v)
    (hv' : SameUpToValues w' v') : SameLayout φ v m v' m' where
  bijective := by
    rw [hv.model, hv'.model]
    exact h.bijective
  kind n hn := by
    rw [hv.model] at hn
    rw [hv.sameLinks.kind, hv'.sameLinks.kind, h.kind n hn]
  constant c hc := by
    rw [hv.model] at hc
    have hkind := hw.kind m .constant c hc
    have hkind' := h.kind c (Model.mem_nodes_of_mem_members .constant hc)
    have hsame : v'.kind? (φ c) = v.kind? c := by
      rw [hv.sameLinks.kind, hv'.sameLinks.kind, hkind']
    rw [current?_eq_iff hsame, hv.valueOf_constant hkind,
      hv'.valueOf_constant (hkind'.trans hkind)]
    exact (current?_eq_iff hkind').1 (h.constant c hc)
  endpoint side r hr := by
    rw [hv.model] at hr
    rw [hv.sameLinks.endpoint, hv'.sameLinks.endpoint, h.endpoint side r hr]
  rates side l hl := by
    rw [hv.model] at hl
    rw [hv.sameLinks.rates, hv'.sameLinks.rates, h.rates side l hl]

/-- The flows of corresponding levels change values alike if corresponding rates have one value. -/
theorem afterFlows_eq (h : SameLayout φ w m w' m') {l : NodeId} (hl : l ∈ (w.model m).levels)
    {rate rate' : NodeId → Float} (hrate : ∀ side, ∀ r ∈ w.ratesAt side l, rate' (φ r) = rate r)
    (x : Float) : w'.afterFlows rate' (φ l) x = w.afterFlows rate l x := by
  rw [afterFlows, afterFlows, h.rates .source l hl, h.rates .sink l hl, List.foldl_map,
    List.foldl_map]
  have hin : (w.ratesAt .sink l).foldl (fun x r => x + rate' (φ r)) x =
      (w.ratesAt .sink l).foldl (fun x r => x + rate r) x :=
    List.foldl_ext _ _ _ fun x r hr => by rw [hrate .sink r hr]
  rw [hin]
  exact List.foldl_ext _ _ _ fun x r hr => by rw [hrate .source r hr]

end SameLayout

/-- Layouts correspond whatever the current values are. -/
theorem Corresponds.congr (h : Corresponds φ w m w' m') (hw : w.MembersMatch)
    (hv : SameUpToValues w v) (hv' : SameUpToValues w' v') : Corresponds φ v m v' m' where
  toSameLayout := h.toSameLayout.congr hw hv hv'
  formula n hn := by
    rw [hv.model] at hn
    rw [hv.sameLinks.formula, hv'.sameLinks.formula, h.formula n hn]

/-! ## One round of both models -/

/-- Whether two models have the same values at all nodes but auxiliaries. -/
def AgreeButAuxiliaries (φ : NodeId → NodeId) (w : World) (m : ModelId) (w' : World) : Prop :=
  ∀ n ∈ (w.model m).nodes, w.kind? n ≠ some .auxiliary → w'.valueOf (φ n) = w.valueOf n

section

variable (h : Corresponds φ w m w' m') (hclosed : w.OwnershipClosed m) (hw : w.WellFormed)
  (hw' : w'.WellFormed) (hs : w.Steppable m) (hround : w.RoundEquations m v)
  (hround' : w'.RoundEquations m' v') (hold : AgreeButAuxiliaries φ w m w')

include h hclosed hw hw' hs hround hround' hold

/-- In a round the formulas of both models read the same values. -/
theorem Corresponds.midRound_eq (hn : n ∈ (w.model m).nodes) :
    midRound w' v' (φ n) = midRound w v n := by
  have hother : ∀ k ∈ (w.model m).nodes, w.kind? k ≠ some .auxiliary →
      midRound w' v' (φ k) = midRound w v k := by
    intro k hk hkind
    rw [midRound_of_ne hkind, midRound_of_ne (by rwa [h.kind k hk])]
    exact hold k hk hkind
  have haux : ∀ a, Dependency.ReadsEnd w.auxiliaryReads a → a ∈ (w.model m).auxiliaries →
      midRound w' v' (φ a) = midRound w v a := by
    intro a hend
    induction hend with
    | intro a _ ih =>
        intro ha
        rcases hround.auxiliary a ha with ⟨f, hf, hvalue⟩
        have ha' := h.toSameLayout.mem_members hw.members hw'.members .auxiliary ha
        rcases hround'.auxiliary (φ a) ha' with ⟨f', hf', hvalue'⟩
        have howner := List.mem_append_right (w.model m).rates ha
        rw [h.formula a howner, hf, Option.map_some] at hf'
        obtain rfl := Option.some.inj hf'
        have hkind := hw.members.kind m .auxiliary a ha
        have hkind' := hw'.members.kind m' .auxiliary (φ a) ha'
        rw [midRound_auxiliary hkind, midRound_auxiliary hkind', hvalue, hvalue', Formula.eval_map]
        refine Formula.eval_congr fun k hk => ?_
        have howned := hclosed.leaf a howner f hf k hk
        by_cases hread : w.kind? k = some .auxiliary
        · refine ih k ?_ (hw.members.mem_members howned hread)
          exact mem_auxiliaryReads.2 ⟨mem_formulaReads.2 ⟨f, hf, hk⟩, hread⟩
        · exact hother k howned hread
  by_cases hkind : w.kind? n = some .auxiliary
  · have hn' := hw.members.mem_members hn hkind
    refine haux n ?_ hn'
    exact hs.inOrder.readsEnd nofun n ((hs.mem_order n).2 hn')
  · exact hother n hn hkind

/-- After a round the values of both models agree, whatever auxiliaries had before. -/
theorem Corresponds.round (hn : n ∈ (w.model m).nodes) : v'.valueOf (φ n) = v.valueOf n := by
  have hmid : ∀ k ∈ (w.model m).nodes, midRound w' v' (φ k) = midRound w v k :=
    fun k hk => h.midRound_eq hclosed hw hw' hs hround hround' hold hk
  have hmem : ∀ kind k, k ∈ (w.model m).members kind → φ k ∈ (w'.model m').members kind :=
    fun kind _ => h.toSameLayout.mem_members hw.members hw'.members kind
  have hrate : ∀ r ∈ (w.model m).rates, v'.valueOf (φ r) = v.valueOf r := by
    intro r hr
    rcases hround.rate r hr with ⟨f, hf, hvalue⟩
    rcases hround'.rate (φ r) (hmem .rate r hr) with ⟨f', hf', hvalue'⟩
    have howner := List.mem_append_left (w.model m).auxiliaries hr
    rw [h.formula r howner, hf, Option.map_some] at hf'
    obtain rfl := Option.some.inj hf'
    rw [hvalue, hvalue', Formula.eval_map]
    exact Formula.eval_congr fun k hk => hmid k (hclosed.leaf r howner f hf k hk)
  have hvalues := hround.values
  have hvalues' := hround'.values
  rcases Model.mem_nodes.1 hn with ⟨kind, hkind⟩
  have hn' := hw.members.kind m kind n hkind
  have hφ := h.kind n hn
  cases kind with
  | level =>
      rw [hround.level n hkind, hround'.level (φ n) (hmem .level n hkind),
        h.toSameLayout.afterFlows_eq hkind, hold n hn (by simp [hn'])]
      exact fun side r hr => hrate r (hclosed.mem_rates hw.flows hkind hr)
  | rate => exact hrate n hkind
  | constant =>
      rw [hround.constant n hkind, hround'.constant (φ n) (hmem .constant n hkind)]
      exact hold n hn (by simp [hn'])
  | auxiliary =>
      rw [← midRound_auxiliary hn', ← midRound_auxiliary (hφ.trans hn')]
      exact hmid n hn
  | sourceSink =>
      have hvn : v.kind? n = some .sourceSink := hvalues.sameLinks.kind n ▸ hn'
      have hvφ : v'.kind? (φ n) = some .sourceSink := hvalues'.sameLinks.kind _ ▸ hφ.trans hn'
      rw [valueOf_sourceSink hvn, valueOf_sourceSink hvφ]

end

/-! ## Any rounds of both models -/

/-- Two models that correspond, after a number of rounds of both. -/
structure InStep (φ : NodeId → NodeId) (m m' : ModelId) (i : Nat) (w w' : World) : Prop where
  stands : w.StandsAsLocked m
  stands' : w'.StandsAsLocked m'
  closed : w.OwnershipClosed m
  corresponds : Corresponds φ w m w' m'
  agree : AgreeButAuxiliaries φ w m w'
  agree_all : 0 < i → ∀ n ∈ (w.model m).nodes, w'.valueOf (φ n) = w.valueOf n

namespace InStep

variable {i : Nat}

/-- What keeps the values of both models keeps them in step. -/
theorem congr (h : InStep φ m m' i w w') (hstands : v.StandsAsLocked m)
    (hstands' : v'.StandsAsLocked m') (hv : SameUpToValues w v) (hv' : SameUpToValues w' v')
    (hkeep : ∀ n ∈ (w.model m).nodes, v.valueOf n = w.valueOf n)
    (hkeep' : ∀ n ∈ (w'.model m').nodes, v'.valueOf n = w'.valueOf n) :
    InStep φ m m' i v v' where
  stands := hstands
  stands' := hstands'
  closed := hv.sameLinks.ownershipClosed h.stands.reachable.wellFormed h.closed
  corresponds := h.corresponds.congr h.stands.reachable.wellFormed.members hv hv'
  agree n hn hkind := by
    rw [hv.model] at hn
    rw [hv.sameLinks.kind] at hkind
    rw [hkeep n hn, hkeep' _ (h.corresponds.bijective.mapsTo hn), h.agree n hn hkind]
  agree_all hi n hn := by
    rw [hv.model] at hn
    rw [hkeep n hn, hkeep' _ (h.corresponds.bijective.mapsTo hn), h.agree_all hi n hn]

/-- A round of a model that is not watched changes nothing in step, on the left. -/
theorem left (h : InStep φ m m' i w w') {k : ModelId} (hne : k ≠ m) :
    InStep φ m m' i (w.step (.computeRound k)) w' :=
  h.congr (h.stands.afterRounds [k]) h.stands' (step_computeRound k) (SameUnder.refl _ w')
    (fun _ hn => h.stands.reachable.valueOf_step_computeRound hne hn) fun _ _ => rfl

/-- A round of a model that is not watched changes nothing in step, on the right. -/
theorem right (h : InStep φ m m' i w w') {k : ModelId} (hne : k ≠ m') :
    InStep φ m m' i w (w'.step (.computeRound k)) :=
  h.congr h.stands (h.stands'.afterRounds [k]) (SameUnder.refl _ w) (step_computeRound k)
    (fun _ _ => rfl) fun _ hn => h.stands'.reachable.valueOf_step_computeRound hne hn

/-- A round of both models brings all values together. -/
theorem both (h : InStep φ m m' i w w') :
    InStep φ m m' (i + 1) (w.step (.computeRound m)) (w'.step (.computeRound m')) := by
  have hw := h.stands.reachable.wellFormed
  have hv : SameUpToValues w (w.step (.computeRound m)) := step_computeRound m
  have hv' : SameUpToValues w' (w'.step (.computeRound m')) := step_computeRound m'
  have hagree : ∀ n ∈ (w.model m).nodes,
      (w'.step (.computeRound m')).valueOf (φ n) = (w.step (.computeRound m)).valueOf n :=
    fun n => h.corresponds.round h.closed hw h.stands'.reachable.wellFormed h.stands.steppable
      h.stands.round.2 h.stands'.round.2 h.agree
  refine ⟨h.stands.afterRounds [m], h.stands'.afterRounds [m'], ?_, ?_, ?_, ?_⟩
  · exact hv.sameLinks.ownershipClosed hw h.closed
  · exact h.corresponds.congr hw.members hv hv'
  · intro n hn _
    exact hagree n (hv.model m ▸ hn)
  · intro _ n hn
    exact hagree n (hv.model m ▸ hn)

/-- Rounds of any models keep two in step that take part in the same number of them. -/
theorem afterRounds (h : InStep φ m m' 0 w w') {ks ks' : List ModelId}
    (hcount : ks.count m = ks'.count m') :
    InStep φ m m' (ks.count m) (w.afterRounds ks) (w'.afterRounds ks') := by
  have hrun := afterRounds_induction (P := InStep φ m m') (fun _ _ _ _ hne h => h.left hne)
    (fun _ _ _ _ hne h => h.right hne) (fun _ _ _ h => h.both) hcount h
  rwa [Nat.zero_add] at hrun

end InStep

/--
Two models that were locked with the formulas that they have, and that correspond in
kinds, constants, formulas and flows whatever the order in which they were built:
if levels and rates agree, no round fails, and after any positive number of rounds
of both all levels, rates and auxiliaries agree.
-/
theorem Corresponds.agree_afterRounds (h : Corresponds φ w m w' m') (hstands : w.StandsAsLocked m)
    (hstands' : w'.StandsAsLocked m') (hclosed : w.OwnershipClosed m)
    (hstart : ∀ n ∈ (w.model m).levels ++ (w.model m).rates, w'.current? (φ n) = w.current? n)
    (ks ks' : List ModelId) (hpos : 0 < ks.count m) (hcount : ks.count m = ks'.count m') :
    (∀ ks, ∃ v, (Action.computeRound m).run (w.afterRounds ks) = .ok () v) ∧
      (∀ ks, ∃ v, (Action.computeRound m').run (w'.afterRounds ks) = .ok () v) ∧
      ∀ n ∈ (w.model m).levels ++ (w.model m).rates ++ (w.model m).auxiliaries,
        (w'.afterRounds ks').current? (φ n) = (w.afterRounds ks).current? n := by
  have hw := hstands.reachable.wellFormed
  have hinStep : InStep φ m m' 0 w w' := by
    refine ⟨hstands, hstands', hclosed, h, fun n hn hother => ?_, by simp⟩
    have hkind := h.kind n hn
    rcases Model.mem_nodes.1 hn with ⟨kind, hmem⟩
    have hn' := hw.members.kind m kind n hmem
    cases kind with
    | level => exact (current?_eq_iff hkind).1 (hstart n (List.mem_append_left _ hmem))
    | rate => exact (current?_eq_iff hkind).1 (hstart n (List.mem_append_right _ hmem))
    | constant => exact (current?_eq_iff hkind).1 (h.constant n hmem)
    | auxiliary => exact (hother hn').elim
    | sourceSink => rw [valueOf_sourceSink hn', valueOf_sourceSink (hkind.trans hn')]
  refine ⟨fun ks => ?_, fun ks => ?_, fun n hn => ?_⟩
  · exact (hstands.afterRounds ks).round.1
  · exact (hstands'.afterRounds ks).round.1
  · have hafter := hinStep.afterRounds hcount
    have hnode : n ∈ ((w.afterRounds ks).model m).nodes := by
      rw [(sameUpToValues_afterRounds w ks).model]
      simp only [List.mem_append] at hn
      simp only [Model.nodes, List.mem_append]
      tauto
    exact (current?_eq_iff (hafter.corresponds.kind n hnode)).2 (hafter.agree_all hpos n hnode)

/--
One system built twice: a tank that a rate fills, with two auxiliaries, the first of
which reads the second.  The second time everything is built in the opposite order.
-/
def builtTwice : List Operation :=
  let leaf (index : Nat) : Argument := .node ⟨index⟩
  let m : ModelId := ⟨0⟩
  let k : ModelId := ⟨1⟩
  [.newModel (.text "Tank"), .createLevel m (.text "Water") (.integer 8), .createSourceSink m,
    .createConstant m (.text "Share") (.integer 2), .createAuxiliary m (.text "Inflow"),
    .createAuxiliary m (.text "Gap"), .createRate m (.text "Fill"),
    .setFormula m (leaf 3) (.apply .multiply (leaf 4) (leaf 2)),
    .setFormula m (leaf 4) (.apply .subtract (leaf 0) (leaf 2)),
    .setFormula m (leaf 5) (.apply .add (leaf 3) (leaf 5)),
    .addFlow m .sourceSinkToRate (leaf 1) (leaf 5), .addFlow m .rateToLevel (leaf 5) (leaf 0),
    .newModel (.text "Tank"), .createRate k (.text "Fill"), .createAuxiliary k (.text "Gap"),
    .createAuxiliary k (.text "Inflow"), .createConstant k (.text "Share") (.integer 2),
    .createSourceSink k, .createLevel k (.text "Water") (.integer 8),
    .addFlow k .rateToLevel (leaf 6) (leaf 11), .addFlow k .sourceSinkToRate (leaf 10) (leaf 6),
    .setFormula k (leaf 6) (.apply .add (leaf 8) (leaf 6)),
    .setFormula k (leaf 7) (.apply .subtract (leaf 11) (leaf 9)),
    .setFormula k (leaf 8) (.apply .multiply (leaf 7) (leaf 9))]

/-- Both tanks, the one locked after the other. -/
def twoTanks : World := World.run {} (builtTwice ++ [.lock ⟨0⟩, .lock ⟨1⟩])

/-- Tanks that are built alike agree after two rounds each, with one of the other between. -/
theorem agree_afterRounds_twoTanks :
    (∀ ks, ∃ v, (Action.computeRound ⟨0⟩).run (twoTanks.afterRounds ks) = .ok () v) ∧
      (∀ ks, ∃ v, (Action.computeRound ⟨1⟩).run (twoTanks.afterRounds ks) = .ok () v) ∧
      ∀ n ∈ (twoTanks.model ⟨0⟩).levels ++ (twoTanks.model ⟨0⟩).rates ++
        (twoTanks.model ⟨0⟩).auxiliaries,
        (twoTanks.afterRounds [⟨1⟩, ⟨0⟩, ⟨1⟩]).current? ⟨11 - n.index⟩ =
          (twoTanks.afterRounds [⟨0⟩, ⟨1⟩, ⟨0⟩]).current? n := by
  have hbuilt : (World.run {} builtTwice).Reachable := ⟨builtTwice, rfl⟩
  have hfirst := hbuilt.standsAsLocked_step_lock (m := ⟨0⟩) (by decide +kernel) (by decide +kernel)
  have hsecond := hfirst.reachable.standsAsLocked_step_lock (m := ⟨1⟩) (by decide +kernel)
    (by decide +kernel)
  have hcorresponds : Corresponds (fun n => ⟨11 - n.index⟩) twoTanks ⟨0⟩ twoTanks ⟨1⟩ := by
    decide +kernel
  refine hcorresponds.agree_afterRounds ?_ ?_ (by decide +kernel) (by decide +kernel)
    [⟨0⟩, ⟨1⟩, ⟨0⟩] [⟨1⟩, ⟨0⟩, ⟨1⟩] (by decide) rfl
  · rw [twoTanks, run_append, run_cons]
    exact hfirst.run (by decide +kernel)
  · rw [twoTanks, run_append, run_cons, run_cons, run_nil]
    exact hsecond

/--
A locked model whose formulas were set through another model, so that an auxiliary
reads one that comes after it in the stored order, and a model that was built with
these formulas.
-/
def meddledSession : List Operation :=
  let leaf (index : Nat) : Argument := .node ⟨index⟩
  let build (m : ModelId) (first : Nat) (a b : Nat) : List Operation :=
    [.newModel (.text "Tank"), .createLevel m (.text "Water") (.integer 8), .createSourceSink m,
      .createConstant m (.text "Share") (.integer 2), .createAuxiliary m (.text "Early"),
      .createAuxiliary m (.text "Late"), .createRate m (.text "Fill"),
      .setFormula m (leaf (first + a)) (leaf (first + 2)),
      .setFormula m (leaf (first + b)) (leaf (first + a)),
      .setFormula m (leaf (first + 5)) (.apply .add (leaf (first + 3)) (leaf (first + 4))),
      .addFlow m .sourceSinkToRate (leaf (first + 1)) (leaf (first + 5)),
      .addFlow m .rateToLevel (leaf (first + 5)) (leaf first), .lock m]
  build ⟨0⟩ 0 3 4 ++ [.newModel (.text "Other"), .setFormula ⟨1⟩ (leaf 3) (leaf 4),
    .setFormula ⟨1⟩ (leaf 4) (leaf 2)] ++ build ⟨2⟩ 6 4 3

/-- The two models correspond and their levels and rates agree, but a round drives them apart. -/
theorem not_agree_meddled :
    (World.run {} meddledSession).isChangeable ⟨0⟩ = false ∧
      (World.run {} meddledSession).isChangeable ⟨2⟩ = false ∧
      (World.run {} meddledSession).OwnershipClosed ⟨0⟩ ∧
      (World.run {} meddledSession).OwnershipClosed ⟨2⟩ ∧
      Corresponds (fun n => ⟨n.index + 6⟩) (World.run {} meddledSession) ⟨0⟩
        (World.run {} meddledSession) ⟨2⟩ ∧
      (∀ n ∈ ((World.run {} meddledSession).model ⟨0⟩).levels ++
          ((World.run {} meddledSession).model ⟨0⟩).rates,
        (World.run {} meddledSession).current? ⟨n.index + 6⟩ =
          (World.run {} meddledSession).current? n) ∧
      ((World.run {} meddledSession).afterRounds [⟨0⟩, ⟨2⟩]).current? ⟨0⟩ = some 10.0 ∧
      ((World.run {} meddledSession).afterRounds [⟨0⟩, ⟨2⟩]).current? ⟨6⟩ = some 12.0 := by
  decide +kernel

end World
end StockFlow
