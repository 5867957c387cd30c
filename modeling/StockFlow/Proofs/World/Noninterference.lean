import StockFlow.Proofs.Dependency.Reaching
import StockFlow.Proofs.World.Counterparts
import StockFlow.Proofs.World.Starts

/-!
# Noninterference

The search for influences on levels claims that nothing else matters.  Two models
that differ only beyond what it finds, in start values of levels and in formulas of
rates, are stepped side by side: both take the same nodes in the same order, and
among the nodes found, and the levels that start alike, whatever is read lies among
them again.  So the values there never differ, whether rounds succeed or not.

Main definitions:

- {lit}`Action.Lockstep`: two actions succeed or fail together and keep a relation of worlds.
- {lit}`World.SameReads`: nodes that read each other only, and alike in both models.
- {lit}`World.DiffersBeyond`: models that differ only beyond some nodes.

Main results:

- Theorem {lit}`World.SameReads.lockstep_computeRound`: rounds of both models go in lockstep.
- Theorem {lit}`World.DiffersBeyond.agree_on_influencing`: what influences no level interferes
  with no level.
-/

namespace StockFlow
namespace Action

/-! ## Actions in lockstep -/

variable {α β γ δ : Type} {w w' : World}

/-- Whether two actions succeed together or fail together, and worlds are related afterwards. -/
def Lockstep (rel : World → World → Prop) (x : Action α) (y : Action β) (w w' : World) : Prop :=
  match x.run w, y.run w' with
  | .ok _ v, .ok _ v' => rel v v'
  | .error _ v, .error _ v' => rel v v'
  | _, _ => False

variable {rel : World → World → Prop} {x : Action α} {y : Action β}

/-- Two actions that both succeed go in step if what they leave is related. -/
theorem lockstep_of_ok {a : α} {b : β} {v v' : World} (hrun : x.run w = .ok a v)
    (hrun' : y.run w' = .ok b v') (h : rel v v') : Lockstep rel x y w w' := by
  rw [Lockstep, hrun, hrun']
  exact h

/-- Two actions that both fail go in step if what they leave is related. -/
theorem lockstep_of_error {e e' : Fault} {v v' : World} (hrun : x.run w = .error e v)
    (hrun' : y.run w' = .error e' v') (h : rel v v') : Lockstep rel x y w w' := by
  rw [Lockstep, hrun, hrun']
  exact h

theorem lockstep_of_run_eq {x' : Action α} {y' : Action β} {v v' : World}
    (hrun : x.run w = x'.run v) (hrun' : y.run w' = y'.run v') (h : Lockstep rel x' y' v v') :
    Lockstep rel x y w w' := by
  rw [Lockstep, hrun, hrun']
  exact h

/-- What goes in step, and goes on in step, does so as a whole. -/
theorem Lockstep.bind {f : α → Action γ} {g : β → Action δ} (h : Lockstep rel x y w w')
    (hrest : ∀ a b v v', rel v v' → Lockstep rel (f a) (g b) v v') :
    Lockstep rel (x >>= f) (y >>= g) w w' := by
  rw [Lockstep] at h
  rw [Lockstep]
  cases hx : x.run w with
  | ok a v =>
      cases hy : y.run w' with
      | ok b v' =>
          rw [hx, hy] at h
          rw [run_bind_ok hx, run_bind_ok hy]
          exact hrest a b v v' h
      | error e' v' => simp [hx, hy] at h
  | error e v =>
      cases hy : y.run w' with
      | ok b v' => simp [hx, hy] at h
      | error e' v' =>
          rw [hx, hy] at h
          rw [run_bind_error hx, run_bind_error hy]
          exact h

/-- What goes in step leaves related worlds, whether it succeeds or fails. -/
theorem Lockstep.worldAfter (h : Lockstep rel x y w w') :
    rel (x.worldAfter w) (y.worldAfter w') := by
  rw [Lockstep] at h
  rw [Action.worldAfter, Action.worldAfter]
  cases hx : x.run w <;> cases hy : y.run w' <;> simp_all

/-- What goes in step succeeds on both sides or on neither. -/
theorem Lockstep.ok_iff {x y : Action Unit} (h : Lockstep rel x y w w') :
    (∃ v, x.run w = .ok () v) ↔ ∃ v', y.run w' = .ok () v' := by
  rw [Lockstep] at h
  cases hx : x.run w <;> cases hy : y.run w' <;> simp_all

end Action

namespace World

variable {w w' v v' : World} {m m' : ModelId} {φ : NodeId → NodeId} {S : Set NodeId} {n k : NodeId}

/-! ## Nodes that read each other only -/

/-- Whether corresponding nodes have the same values. -/
def AgreeOn (φ : NodeId → NodeId) (S : Set NodeId) (w w' : World) : Prop :=
  ∀ n ∈ S, w'.valueOf (φ n) = w.valueOf n

/--
Nodes of a model such that all that a round reads for them lies among them, and is
read alike for their counterparts in another model.
-/
structure SameReads (φ : NodeId → NodeId) (S : Set NodeId) (w : World) (m : ModelId) (w' : World)
    (m' : ModelId) : Prop where
  layout : SameLayout φ w m w' m'
  order : (w'.model m').order = (w.model m).order.map φ
  owned : ∀ n ∈ S, n ∈ (w.model m).nodes
  isSome : ∀ n ∈ (w.model m).formulaOwners, (w'.formula? (φ n)).isSome = (w.formula? n).isSome
  formula : ∀ n ∈ (w.model m).formulaOwners, n ∈ S →
    w'.formula? (φ n) = (w.formula? n).map (Formula.map φ)
  leaf : ∀ n ∈ S, ∀ f, w.formula? n = some f → ∀ k ∈ f.leaves, k ∈ S
  rate : ∀ l ∈ (w.model m).levels, l ∈ S → ∀ side, ∀ r ∈ w.ratesAt side l, r ∈ S

/-- The worlds that a round of both models goes through: they differ in values only, and agree. -/
structure Alongside (φ : NodeId → NodeId) (S : Set NodeId) (w w' v v' : World) : Prop where
  values : SameUpToValues w v
  values' : SameUpToValues w' v'
  agree : AgreeOn φ S v v'

section

variable (h : SameReads φ S w m w' m')

include h

/-- Setting a value and its counterpart keeps values together if the two are equal or beyond. -/
theorem SameReads.alongside_setCurrent (hv : Alongside φ S w w' v v') {kind : NodeKind}
    (hn : n ∈ (w.model m).nodes) (hkind : w.kind? n = some kind)
    (hcomputed : kind.isComputed = true) {x x' : Float} (hx : n ∈ S → x' = x) :
    Alongside φ S w w' (v.updateNode n (Node.setCurrent x))
      (v'.updateNode (φ n) (Node.setCurrent x')) where
  values := hv.values.trans (sameUpToValues_setCurrent v n x)
  values' := hv.values'.trans (sameUpToValues_setCurrent v' (φ n) x')
  agree k hk := by
    by_cases hkn : n = k
    · subst hkn
      have hkv : v.kind? n = some kind := by rw [hv.values.sameLinks.kind, hkind]
      have hkv' : v'.kind? (φ n) = some kind := by
        rw [hv.values'.sameLinks.kind, h.layout.kind n hn, hkind]
      rw [valueOf_setCurrent hkv hcomputed, valueOf_setCurrent hkv' hcomputed, hx hk]
    · have hne : φ n ≠ φ k := fun heq => hkn (h.layout.bijective.injOn hn (h.owned k hk) heq)
      rw [valueOf_setCurrent_of_ne hkn, valueOf_setCurrent_of_ne hne, hv.agree k hk]

/-- Formulas of counterparts have the same value where values agree. -/
theorem SameReads.eval_eq (hv : Alongside φ S w w' v v') (hn : n ∈ S) {f f' : Formula NodeId}
    (howner : n ∈ (w.model m).formulaOwners) (hf : w.formula? n = some f)
    (hf' : w'.formula? (φ n) = some f') : f'.eval v'.valueOf = f.eval v.valueOf := by
  rw [h.formula n howner hn, hf, Option.map_some] at hf'
  obtain rfl := Option.some.inj hf'
  rw [Formula.eval_map]
  exact Formula.eval_congr fun k hk => hv.agree k (h.leaf n hn f hf k hk)

/-- Auxiliaries advance in step where formulas read the same. -/
theorem SameReads.lockstep_advanceFormula (hw : w.WellFormed) (hv : Alongside φ S w w' v v')
    (hn : n ∈ (w.model m).auxiliaries) :
    Action.Lockstep (Alongside φ S w w') (Action.advanceFormula n) (Action.advanceFormula (φ n))
      v v' := by
  have howner : n ∈ (w.model m).formulaOwners := List.mem_append_right _ hn
  have hsome := h.isSome n howner
  cases hf : w.formula? n with
  | none =>
      rw [hf, Option.isSome_none, Option.isSome_eq_false_iff, Option.isNone_iff_eq_none] at hsome
      rw [← hv.values.sameLinks.formula] at hf
      rw [← hv.values'.sameLinks.formula] at hsome
      exact Action.lockstep_of_error (Action.run_advanceFormula_of_none hf)
        (Action.run_advanceFormula_of_none hsome) hv
  | some f =>
      rw [hf, Option.isSome_some, Option.isSome_iff_exists] at hsome
      rcases hsome with ⟨f', hf'⟩
      refine Action.lockstep_of_ok
        (Action.run_advanceFormula (hv.values.sameLinks.formula n ▸ hf))
        (Action.run_advanceFormula (hv.values'.sameLinks.formula (φ n) ▸ hf')) ?_
      exact h.alongside_setCurrent hv (Model.mem_nodes_of_mem_members .auxiliary hn)
        (hw.members.kind m .auxiliary n hn) rfl fun hS => h.eval_eq hv hS howner hf hf'

/-- Auxiliaries are computed in lockstep, in whatever order that both models share. -/
theorem SameReads.lockstep_advanceAll (hw : w.WellFormed) {order : List NodeId}
    (horder : ∀ n ∈ order, n ∈ (w.model m).auxiliaries) (hv : Alongside φ S w w' v v') :
    Action.Lockstep (Alongside φ S w w') (Action.advanceAll order)
      (Action.advanceAll (order.map φ)) v v' := by
  induction order generalizing v v' with
  | nil => exact Action.lockstep_of_ok rfl rfl hv
  | cons n rest ih =>
      refine (h.lockstep_advanceFormula hw hv (horder n List.mem_cons_self)).bind ?_
      exact fun _ _ _ _ hv => ih (fun k hk => horder k (List.mem_cons_of_mem n hk)) hv

end

/-! ## Rates and levels -/

section

variable (h : SameReads φ S w m w' m') (hw : w.WellFormed) (hw' : w'.WellFormed)
  (hv : Alongside φ S w w' v v') {u u' : World}

include h hw hw' hv

/-- What is changed only at nodes of one kind agrees if it agrees there. -/
theorem SameReads.agreeOn_of_members (kind : NodeKind)
    (hkeep : ∀ n ∉ (w.model m).members kind, u.valueOf n = v.valueOf n)
    (hkeep' : ∀ n ∉ (w'.model m').members kind, u'.valueOf n = v'.valueOf n)
    (hmembers : ∀ n ∈ (w.model m).members kind, n ∈ S → u'.valueOf (φ n) = u.valueOf n) :
    AgreeOn φ S u u' := by
  intro n hn
  by_cases hmem : n ∈ (w.model m).members kind
  · exact hmembers n hmem hn
  · have hiff := h.layout.mem_members_iff hw.members hw'.members (h.owned n hn) kind
    rw [hkeep n hmem, hkeep' (φ n) (mt hiff.1 hmem), hv.agree n hn]

/-- The rates among the nodes agree once all rates are stored. -/
theorem SameReads.agreeOn_rates (hformula : ∀ r ∈ (w.model m).rates, ∃ f, w.formula? r = some f)
    (hkeep : ∀ n ∉ (w.model m).rates, u.valueOf n = v.valueOf n)
    (hkeep' : ∀ n ∉ (w'.model m').rates, u'.valueOf n = v'.valueOf n)
    (hsolved : ∀ r ∈ (w.model m).rates, ∀ f, v.formula? r = some f →
      u.valueOf r = f.eval v.valueOf)
    (hsolved' : ∀ r ∈ (w'.model m').rates, ∀ f, v'.formula? r = some f →
      u'.valueOf r = f.eval v'.valueOf) : AgreeOn φ S u u' := by
  refine h.agreeOn_of_members hw hw' hv .rate hkeep hkeep' fun r hr hS => ?_
  have howner : r ∈ (w.model m).formulaOwners := List.mem_append_left _ hr
  rcases hformula r hr with ⟨f, hf⟩
  have hf' := h.formula r howner hS
  rw [hf, Option.map_some] at hf'
  have hr' := h.layout.mem_members hw.members hw'.members .rate hr
  rw [hsolved r hr f (by rw [hv.values.sameLinks.formula, hf]),
    hsolved' (φ r) hr' _ (by rw [hv.values'.sameLinks.formula, hf'])]
  exact h.eval_eq hv hS howner hf hf'

/-- The levels among the nodes agree once all levels have taken in their flows. -/
theorem SameReads.agreeOn_levels
    (hkeep : ∀ n ∉ (w.model m).levels, u.valueOf n = v.valueOf n)
    (hkeep' : ∀ n ∉ (w'.model m').levels, u'.valueOf n = v'.valueOf n)
    (hsolved : ∀ l ∈ (w.model m).levels, u.valueOf l = v.afterFlows v.valueOf l (v.valueOf l))
    (hsolved' : ∀ l ∈ (w'.model m').levels,
      u'.valueOf l = v'.afterFlows v'.valueOf l (v'.valueOf l)) : AgreeOn φ S u u' := by
  refine h.agreeOn_of_members hw hw' hv .level hkeep hkeep' fun l hl hS => ?_
  have hl' := h.layout.mem_members hw.members hw'.members .level hl
  have hlayout := h.layout.congr hw.members hv.values hv.values'
  rw [hsolved l hl, hsolved' (φ l) hl', hlayout.afterFlows_eq (by rwa [hv.values.model]),
    hv.agree l hS]
  intro side r hr
  rw [hv.values.sameLinks.rates] at hr
  exact hv.agree r (h.rate l hl hS side r hr)

end

/-! ## Rounds -/

section

variable (h : SameReads φ S w m w' m') (hw : w.WellFormed) (hw' : w'.WellFormed)

include h hw hw'

/-- The rates of one model have formulas if and only if those of the other do. -/
theorem SameReads.rates_have_formulas :
    (∀ r ∈ (w.model m).rates, ∃ f, w.formula? r = some f) ↔
      ∀ r ∈ (w'.model m').rates, ∃ f, w'.formula? r = some f := by
  have hsome : ∀ r ∈ (w.model m).rates,
      ((∃ f, w'.formula? (φ r) = some f) ↔ ∃ f, w.formula? r = some f) := by
    intro r hr
    rw [← Option.isSome_iff_exists, ← Option.isSome_iff_exists,
      h.isSome r (List.mem_append_left _ hr)]
  constructor
  · intro hall r' hr'
    rcases h.layout.exists_of_mem_members hw.members hw'.members .rate hr' with
      ⟨r, hr, rfl⟩
    exact (hsome r hr).2 (hall r hr)
  · intro hall r hr
    exact (hsome r hr).1 (hall _ (h.layout.mem_members hw.members hw'.members .rate hr))

/-- The levels of both models take in their flows in lockstep. -/
theorem SameReads.lockstep_advanceLevels (hv : Alongside φ S w w' v v') :
    Action.Lockstep (Alongside φ S w w') (Action.advanceLevels (w.model m).levels)
      (Action.advanceLevels (w'.model m').levels) v v' := by
  obtain ⟨u, hrun, hsame, hkeep, hsolved⟩ := Action.run_advanceLevels (w := v)
    (hv.values.sameLinks.flowsMatch hw.flows) (hw.members.nodup m .level) fun l hl => by
      rw [hv.values.sameLinks.kind]
      exact hw.members.kind m .level l hl
  obtain ⟨u', hrun', hsame', hkeep', hsolved'⟩ := Action.run_advanceLevels (w := v')
    (hv.values'.sameLinks.flowsMatch hw'.flows) (hw'.members.nodup m' .level) fun l hl => by
      rw [hv.values'.sameLinks.kind]
      exact hw'.members.kind m' .level l hl
  exact Action.lockstep_of_ok hrun hrun' ⟨hv.values.trans hsame, hv.values'.trans hsame',
    h.agreeOn_levels hw hw' hv hkeep hkeep' hsolved hsolved'⟩

/-- Rates are stored in lockstep, and levels after them, or neither in either model. -/
theorem SameReads.lockstep_store (hv : Alongside φ S w w' v v') :
    Action.Lockstep (Alongside φ S w w')
      (do
        let v ← get
        let values ← Action.ofExcept (Action.evaluateAll v (w.model m).rates)
        set (Action.storeAll v values)
        Action.advanceLevels (w.model m).levels)
      (do
        let v ← get
        let values ← Action.ofExcept (Action.evaluateAll v (w'.model m').rates)
        set (Action.storeAll v values)
        Action.advanceLevels (w'.model m').levels) v v' := by
  have hlinks := hv.values.sameLinks
  have hlinks' := hv.values'.sameLinks
  by_cases hall : ∀ r ∈ (w.model m).rates, ∃ f, w.formula? r = some f
  · have hall' := (h.rates_have_formulas hw hw').1 hall
    obtain ⟨u, hrun, hsame, hkeep, hsolved⟩ := Action.run_storeRates (w := v)
      (w.model m).levels (hw.members.nodup m .rate) fun r hr => by
        rw [hlinks.formula]
        exact hall r hr
    obtain ⟨u', hrun', hsame', hkeep', hsolved'⟩ := Action.run_storeRates (w := v')
      (w'.model m').levels (hw'.members.nodup m' .rate) fun r hr => by
        rw [hlinks'.formula]
        exact hall' r hr
    have hstored : Alongside φ S w w' u u' := ⟨hv.values.trans hsame, hv.values'.trans hsame',
      h.agreeOn_rates hw hw' hv hall hkeep hkeep' hsolved hsolved'⟩
    exact Action.lockstep_of_run_eq hrun hrun' (h.lockstep_advanceLevels hw hw' hstored)
  · -- a rate without a formula keeps all rates and levels from being stored
    have hnone : ¬ ∃ values, Action.evaluateAll v (w.model m).rates = .ok values := by
      rw [Action.evaluateAll_ok_iff]
      simpa only [hlinks.formula] using hall
    have hnone' : ¬ ∃ values, Action.evaluateAll v' (w'.model m').rates = .ok values := by
      rw [Action.evaluateAll_ok_iff]
      simpa only [hlinks'.formula] using mt (h.rates_have_formulas hw hw').2 hall
    cases hvalues : Action.evaluateAll v (w.model m).rates with
    | ok values => exact (hnone ⟨values, hvalues⟩).elim
    | error e =>
        cases hvalues' : Action.evaluateAll v' (w'.model m').rates with
        | ok values => exact (hnone' ⟨values, hvalues'⟩).elim
        | error e' =>
            unfold Action.Lockstep
            rw [Action.run_get_bind, hvalues, Action.run_get_bind, hvalues']
            exact hv

/-- Rounds of both models go in lockstep, and keep together what is read alike. -/
theorem SameReads.lockstep_computeRound (hlocked : w.isChangeable m = false)
    (hlocked' : w'.isChangeable m' = false)
    (horder : ∀ n ∈ (w.model m).order, n ∈ (w.model m).auxiliaries) (hagree : AgreeOn φ S w w') :
    Action.Lockstep (Alongside φ S w w') (Action.computeRound m) (Action.computeRound m')
      w w' := by
  have hstart : Alongside φ S w w' w w' := ⟨SameUnder.refl _ w, SameUnder.refl _ w', hagree⟩
  unfold Action.Lockstep Action.computeRound
  rw [Action.run_get_bind, Action.run_get_bind]
  simp only [hlocked, hlocked', Bool.false_eq_true, if_false]
  change Action.Lockstep _ (_ >>= _) (_ >>= _) w w'
  rw [h.order]
  refine (h.lockstep_advanceAll hw horder hstart).bind fun _ _ v v' hv => ?_
  exact h.lockstep_store hw hw' hv

end

/-! ## Models that differ beyond what influences levels -/

/--
Whether two models differ only beyond some nodes: in start values of other levels,
and in what the formulas of other rates are, though not in which rates have one.
-/
structure DiffersBeyond (φ : NodeId → NodeId) (R : List NodeId) (w : World) (m : ModelId)
    (w' : World) (m' : ModelId) : Prop extends SameLayout φ w m w' m' where
  order : (w'.model m').order = (w.model m).order.map φ
  auxiliary : ∀ a ∈ (w.model m).auxiliaries,
    w'.formula? (φ a) = (w.formula? a).map (Formula.map φ)
  rate : ∀ r ∈ (w.model m).rates, r ∈ R → w'.formula? (φ r) = (w.formula? r).map (Formula.map φ)
  isSome : ∀ r ∈ (w.model m).rates, (w'.formula? (φ r)).isSome = (w.formula? r).isSome
  start : ∀ l ∈ (w.model m).levels, l ∈ R → w'.start? (φ l) = w.start? l

instance (φ : NodeId → NodeId) (R : List NodeId) (w : World) (m : ModelId) (w' : World)
    (m' : ModelId) : Decidable (DiffersBeyond φ R w m w' m') :=
  decidable_of_iff
    (SameLayout φ w m w' m' ∧ (w'.model m').order = (w.model m).order.map φ ∧
      (∀ a ∈ (w.model m).auxiliaries,
        w'.formula? (φ a) = (w.formula? a).map (Formula.map φ)) ∧
      (∀ r ∈ (w.model m).rates, r ∈ R →
        w'.formula? (φ r) = (w.formula? r).map (Formula.map φ)) ∧
      (∀ r ∈ (w.model m).rates, (w'.formula? (φ r)).isSome = (w.formula? r).isSome) ∧
      ∀ l ∈ (w.model m).levels, l ∈ R → w'.start? (φ l) = w.start? l)
    ⟨fun ⟨hlayout, horder, haux, hrate, hsome, hstart⟩ =>
        ⟨hlayout, horder, haux, hrate, hsome, hstart⟩,
      fun h => ⟨h.toSameLayout, h.order, h.auxiliary, h.rate, h.isSome, h.start⟩⟩

/-- What influences the levels of a closed model belongs to the model. -/
theorem Influences.mem_nodes (h : w.Influences (w.model m).levels n) (hw : w.WellFormed)
    (hclosed : w.OwnershipClosed m) : n ∈ (w.model m).nodes := by
  induction h with
  | flow side hl hr =>
      exact Model.mem_nodes_of_mem_members .rate (hclosed.mem_rates hw.flows hl hr)
  | read hn hf hk ih => exact hclosed.leaf _ (hw.members.mem_formulaOwners ih hf) _ hf _ hk
  | boundary side hr he hkind ih =>
      have hrate := hw.members.mem_members ih (kind?_of_endpoint? he)
      exact hclosed.endpoint _ hrate side _ he

/-- The nodes that influence levels, and the levels that start alike in both models. -/
def influencedAlike (φ : NodeId → NodeId) (w : World) (m : ModelId) (w' : World) : Set NodeId :=
  {n | n ∈ w.influencing (w.model m).levels ∨
    n ∈ (w.model m).levels ∧ w'.start? (φ n) = w.start? n}

/-- Models that differ beyond the influences on levels read the same within them. -/
theorem DiffersBeyond.sameReads (h : DiffersBeyond φ (w.influencing (w.model m).levels) w m w' m')
    (hw : w.WellFormed) (hclosed : w.OwnershipClosed m) :
    SameReads φ (influencedAlike φ w m w') w m w' m' where
  layout := h.toSameLayout
  order := h.order
  owned n hn := by
    rcases hn with hn | hn
    · exact ((mem_influencing_iff hw).1 hn).mem_nodes hw hclosed
    · exact Model.mem_nodes_of_mem_members .level hn.1
  isSome n hn := by
    rcases List.mem_append.1 hn with hn | hn
    · exact h.isSome n hn
    · rw [h.auxiliary n hn, Option.isSome_map]
  formula n hn hS := by
    rcases List.mem_append.1 hn with hn | hn
    · rcases hS with hS | hS
      · exact h.rate n hn hS
      · exact (hw.members.not_mem .level (hw.members.kind m .rate n hn) nofun hS.1).elim
    · exact h.auxiliary n hn
  leaf n hn f hf k hk := by
    rcases hn with hn | hn
    · exact Or.inl ((mem_influencing_iff hw).2 (.read ((mem_influencing_iff hw).1 hn) hf hk))
    · rcases kind?_of_formula? hf with ⟨kind, hkind, hformula⟩
      rw [hw.members.kind m .level n hn.1] at hkind
      obtain rfl := Option.some.inj hkind
      simp [NodeKind.hasFormula] at hformula
  rate l hl _ side r hr := Or.inl ((mem_influencing_iff hw).2 (.flow side hl hr))

/-- At the start of both models the nodes that are influenced alike agree. -/
theorem DiffersBeyond.agreeOn (h : DiffersBeyond φ (w.influencing (w.model m).levels) w m w' m')
    (hw : w.WellFormed) (hclosed : w.OwnershipClosed m) (hstart : w.AtStart m)
    (hstart' : w'.AtStart m') : AgreeOn φ (influencedAlike φ w m w') w w' := by
  intro n hn
  have hnode := (h.sameReads hw hclosed).owned n hn
  have hkind := h.kind n hnode
  by_cases hconstant : w.kind? n = some .constant
  · exact (current?_eq_iff hkind).1 (h.constant n (hw.members.mem_members hnode hconstant))
  · rw [valueOf_of_isAtStart (hstart n hnode) hconstant,
      valueOf_of_isAtStart (hstart' _ (h.bijective.mapsTo hnode)) (by rwa [hkind])]
    by_cases hlevel : w.kind? n = some .level
    · rcases hn with hn | hn
      · rw [h.start n (hw.members.mem_members hnode hlevel) hn]
      · rw [hn.2]
    · rw [start?_eq_none hlevel, start?_eq_none (by rwa [hkind])]

/-! ## Any rounds of both models -/

/-- Formulas read the same nodes whatever the current values are. -/
theorem SameReads.congr (h : SameReads φ S w m w' m') (hw : w.WellFormed)
    (hv : SameUpToValues w v) (hv' : SameUpToValues w' v') : SameReads φ S v m v' m' where
  layout := h.layout.congr hw.members hv hv'
  order := by rw [hv.model, hv'.model, h.order]
  owned n hn := by
    rw [hv.model]
    exact h.owned n hn
  isSome n hn := by
    rw [hv.model] at hn
    rw [hv.sameLinks.formula, hv'.sameLinks.formula, h.isSome n hn]
  formula n hn hS := by
    rw [hv.model] at hn
    rw [hv.sameLinks.formula, hv'.sameLinks.formula, h.formula n hn hS]
  leaf n hn f hf := by
    rw [hv.sameLinks.formula] at hf
    exact h.leaf n hn f hf
  rate l hl hS side r hr := by
    rw [hv.model] at hl
    rw [hv.sameLinks.rates] at hr
    exact h.rate l hl hS side r hr

/-- Two locked models of which some nodes are read alike and agree. -/
structure Together (φ : NodeId → NodeId) (S : Set NodeId) (m m' : ModelId) (w w' : World) :
    Prop where
  reachable : w.Reachable
  reachable' : w'.Reachable
  locked : w.isChangeable m = false
  locked' : w'.isChangeable m' = false
  reads : SameReads φ S w m w' m'
  agree : AgreeOn φ S w w'

namespace Together

/-- What goes together does so at other current values, if these agree. -/
theorem congr (h : Together φ S m m' w w') (hreach : v.Reachable) (hreach' : v'.Reachable)
    (hv : SameUpToValues w v) (hv' : SameUpToValues w' v') (hagree : AgreeOn φ S v v') :
    Together φ S m m' v v' where
  reachable := hreach
  reachable' := hreach'
  locked := by rw [hv.sameLinks.isChangeable, h.locked]
  locked' := by rw [hv'.sameLinks.isChangeable, h.locked']
  reads := h.reads.congr h.reachable.wellFormed hv hv'
  agree := hagree

theorem left (h : Together φ S m m' w w') {k : ModelId} (hne : k ≠ m) :
    Together φ S m m' (w.step (.computeRound k)) w' := by
  refine h.congr (h.reachable.step _) h.reachable' (step_computeRound k) (SameUnder.refl _ w') ?_
  intro n hn
  rw [h.reachable.valueOf_step_computeRound hne (h.reads.owned n hn), h.agree n hn]

theorem right (h : Together φ S m m' w w') {k : ModelId} (hne : k ≠ m') :
    Together φ S m m' w (w'.step (.computeRound k)) := by
  refine h.congr h.reachable (h.reachable'.step _) (SameUnder.refl _ w) (step_computeRound k) ?_
  intro n hn
  have hn' := h.reads.layout.bijective.mapsTo (h.reads.owned n hn)
  rw [h.reachable'.valueOf_step_computeRound hne hn', h.agree n hn]

theorem lockstep (h : Together φ S m m' w w') :
    Action.Lockstep (Alongside φ S w w') (Action.computeRound m) (Action.computeRound m')
      w w' :=
  h.reads.lockstep_computeRound h.reachable.wellFormed h.reachable'.wellFormed h.locked h.locked'
    (fun n => (h.reachable.ordersMatch m h.locked n).1) h.agree

/-- A round of both models keeps them together. -/
theorem both (h : Together φ S m m' w w') :
    Together φ S m m' (w.step (.computeRound m)) (w'.step (.computeRound m')) := by
  have hafter := h.lockstep.worldAfter
  rw [worldAfter_computeRound, worldAfter_computeRound] at hafter
  exact h.congr (h.reachable.step _) (h.reachable'.step _) hafter.values hafter.values'
    hafter.agree

/-- Rounds of any models keep two together that take part in the same number of them. -/
theorem afterRounds (h : Together φ S m m' w w') {ks ks' : List ModelId}
    (hcount : ks.count m = ks'.count m') :
    Together φ S m m' (w.afterRounds ks) (w'.afterRounds ks') :=
  afterRounds_induction (P := fun _ => Together φ S m m') (fun _ _ _ _ hne h => h.left hne)
    (fun _ _ _ _ hne h => h.right hne) (fun _ _ _ h => h.both) hcount (i := 0) h

end Together

/--
Two locked models that differ only in start values of levels and formulas of rates
that influence no level of the first: after equally many rounds of both from their
start, whatever influences a level agrees, and so does every level with the same
start value.  A further round of one model succeeds if and only if one of the other does.
-/
theorem DiffersBeyond.agree_on_influencing
    (h : DiffersBeyond φ (w.influencing (w.model m).levels) w m w' m') (hreach : w.Reachable)
    (hreach' : w'.Reachable) (hlocked : w.isChangeable m = false)
    (hlocked' : w'.isChangeable m' = false) (hclosed : w.OwnershipClosed m)
    (hstart : w.AtStart m) (hstart' : w'.AtStart m') (ks ks' : List ModelId)
    (hcount : ks.count m = ks'.count m') :
    (∀ n ∈ w.influencing (w.model m).levels,
      (w'.afterRounds ks').current? (φ n) = (w.afterRounds ks).current? n) ∧
      (∀ l ∈ (w.model m).levels, w'.start? (φ l) = w.start? l →
        (w'.afterRounds ks').current? (φ l) = (w.afterRounds ks).current? l) ∧
      ((∃ v, (Action.computeRound m).run (w.afterRounds ks) = .ok () v) ↔
        ∃ v, (Action.computeRound m').run (w'.afterRounds ks') = .ok () v) := by
  have hw := hreach.wellFormed
  have htogether : Together φ (influencedAlike φ w m w') m m' w w' :=
    ⟨hreach, hreach', hlocked, hlocked', h.sameReads hw hclosed,
      h.agreeOn hw hclosed hstart hstart'⟩
  have hafter := htogether.afterRounds hcount
  have hagree : ∀ n ∈ influencedAlike φ w m w',
      (w'.afterRounds ks').current? (φ n) = (w.afterRounds ks).current? n := fun n hn =>
    (current?_eq_iff (hafter.reads.layout.kind n (hafter.reads.owned n hn))).2 (hafter.agree n hn)
  exact ⟨fun n hn => hagree n (Or.inl hn), fun l hl hsame => hagree l (Or.inr ⟨hl, hsame⟩),
    hafter.lockstep.ok_iff⟩

/--
Two tanks of water that differ in the start of a level that nothing reads, and in the
formula of a rate that turns in a circle beyond the boundary.
-/
def variantSession : List Operation :=
  let leaf (index : Nat) : Argument := .node ⟨index⟩
  let build (m : ModelId) (first : Nat) (start : Int) (read : Nat) : List Operation :=
    [.newModel (.text "Tanks"), .createLevel m (.text "Used") (.integer start),
      .createLevel m (.text "Stored") (.integer 8), .createSourceSink m,
      .createConstant m (.text "Share") (.integer 2), .createRate m (.text "Fill"),
      .createRate m (.text "Drain"), .createRate m (.text "Weather"),
      .setFormula m (leaf (first + 4)) (leaf (first + 3)),
      .setFormula m (leaf (first + 5)) (.apply .divide (leaf (first + 1)) (leaf (first + 3))),
      .setFormula m (leaf (first + 6)) (leaf (first + read)),
      .addFlow m .sourceSinkToRate (leaf (first + 2)) (leaf (first + 4)),
      .addFlow m .rateToLevel (leaf (first + 4)) (leaf (first + 1)),
      .addFlow m .levelToRate (leaf (first + 1)) (leaf (first + 5)),
      .addFlow m .rateToLevel (leaf (first + 5)) (leaf first),
      .addFlow m .sourceSinkToRate (leaf (first + 2)) (leaf (first + 6)),
      .addFlow m .rateToSourceSink (leaf (first + 6)) (leaf (first + 2)), .lock m]
  build ⟨0⟩ 0 5 3 ++ build ⟨1⟩ 7 100 0

/-- Both tanks. -/
def twoVariants : World := World.run {} variantSession

/-- Two variants agree in what influences levels, after two rounds each. -/
theorem agree_on_influencing_twoVariants :
    (∀ n ∈ twoVariants.influencing (twoVariants.model ⟨0⟩).levels,
      (twoVariants.afterRounds [⟨0⟩, ⟨1⟩, ⟨1⟩]).current? ⟨n.index + 7⟩ =
        (twoVariants.afterRounds [⟨0⟩, ⟨1⟩, ⟨0⟩]).current? n) ∧
      (∀ l ∈ (twoVariants.model ⟨0⟩).levels,
        twoVariants.start? ⟨l.index + 7⟩ = twoVariants.start? l →
        (twoVariants.afterRounds [⟨0⟩, ⟨1⟩, ⟨1⟩]).current? ⟨l.index + 7⟩ =
          (twoVariants.afterRounds [⟨0⟩, ⟨1⟩, ⟨0⟩]).current? l) ∧
      ((∃ v, (Action.computeRound ⟨0⟩).run (twoVariants.afterRounds [⟨0⟩, ⟨1⟩, ⟨0⟩]) =
          .ok () v) ↔
        ∃ v, (Action.computeRound ⟨1⟩).run (twoVariants.afterRounds [⟨0⟩, ⟨1⟩, ⟨1⟩]) =
          .ok () v) := by
  have hreach : twoVariants.Reachable := ⟨variantSession, rfl⟩
  have hdiffers : DiffersBeyond (fun n => ⟨n.index + 7⟩)
      (twoVariants.influencing (twoVariants.model ⟨0⟩).levels) twoVariants ⟨0⟩ twoVariants ⟨1⟩ := by
    decide +kernel
  exact hdiffers.agree_on_influencing hreach hreach (by decide +kernel) (by decide +kernel)
    (by decide +kernel) (by decide +kernel) (by decide +kernel) [⟨0⟩, ⟨1⟩, ⟨0⟩] [⟨0⟩, ⟨1⟩, ⟨1⟩] rfl

end World
end StockFlow
