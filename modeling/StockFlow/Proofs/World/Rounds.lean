import StockFlow.Proofs.World.Sessions

/-!
# What a round computes

A round goes through three phases.  The auxiliaries are computed one by one in the
stored order, so each finds the new values of those that it reads.  All rates are
computed before any is stored, so each finds the old values of the others.  A level
takes the new values of its rates, which no level changes.

Main definitions:

- {lit}`World.midRound`: the values that formulas read in a round.
- {lit}`World.RoundEquations`: the equations between the values before and after a round.

Main results:

- Theorems {lit}`Action.run_advanceAll`, {lit}`Action.run_storeRates` and
  {lit}`Action.run_advanceLevels`: the three phases.
- Theorem {lit}`World.ReachableWithin.computeRound_equations`: a round of a locked model succeeds
  and its values solve the equations.
-/

namespace StockFlow

/-- Whether the current values of nodes of the kind are computed in rounds. -/
def NodeKind.isComputed : NodeKind → Bool
  | .level | .rate | .auxiliary => true
  | _ => false

/-- What has a formula is computed in rounds. -/
theorem NodeKind.isComputed_of_hasFormula {kind : NodeKind} (h : kind.hasFormula = true) :
    kind.isComputed = true := by
  cases kind <;> simp_all [hasFormula, isComputed]

namespace World

variable {w w' : World}

/-! ## Storing current values -/

/-- A computed node has the current value that it is given. -/
theorem current?_setCurrent {n : NodeId} {kind : NodeKind} (hn : w.kind? n = some kind)
    (hkind : kind.isComputed = true) (x : Float) :
    (w.updateNode n (Node.setCurrent x)).current? n = some x := by
  rw [kind?] at hn
  rw [current?, node?_updateNode_self]
  cases hnode : w.node? n with
  | none => simp [hnode] at hn
  | some node =>
      obtain rfl : node.kind = kind := by simpa [hnode] using hn
      cases node with
      | level l => rfl
      | rate r => rfl
      | auxiliary a => rfl
      | constant c => simp [Node.kind, NodeKind.isComputed] at hkind
      | sourceSink flows => simp [Node.kind, NodeKind.isComputed] at hkind

/-- Another node keeps its current value. -/
theorem current?_setCurrent_of_ne {n k : NodeId} (h : n ≠ k) (x : Float) :
    (w.updateNode n (Node.setCurrent x)).current? k = w.current? k := by
  rw [current?, node?_updateNode_of_ne w h, current?]

/-- A computed node is read at the value that it is given. -/
theorem valueOf_setCurrent {n : NodeId} {kind : NodeKind} (hn : w.kind? n = some kind)
    (hkind : kind.isComputed = true) (x : Float) :
    (w.updateNode n (Node.setCurrent x)).valueOf n = x := by
  rw [valueOf, current?_setCurrent hn hkind, Option.getD_some]

/-- Another node is read at its old value. -/
theorem valueOf_setCurrent_of_ne {n k : NodeId} (h : n ≠ k) (x : Float) :
    (w.updateNode n (Node.setCurrent x)).valueOf k = w.valueOf k := by
  rw [valueOf, current?_setCurrent_of_ne h, valueOf]

end World

namespace Action

variable {w : World}

/-! ## Auxiliaries -/

/-- A node with a formula takes the value of its formula. -/
theorem run_advanceFormula {n : NodeId} {f : Formula NodeId} (hf : w.formula? n = some f) :
    (advanceFormula n).run w =
      .ok () (w.updateNode n (Node.setCurrent (f.eval w.valueOf))) := by
  have hevaluate : evaluate w n = .ok (f.eval w.valueOf) := by rw [evaluate, hf]
  unfold advanceFormula
  rw [run_get_bind, hevaluate, run_ofExcept_bind]
  rfl

/-- A node without a formula stops the round. -/
theorem run_advanceFormula_of_none {n : NodeId} (hf : w.formula? n = none) :
    (advanceFormula n).run w = .error .formulaAbsent w := by
  have hevaluate : evaluate w n = .error .formulaAbsent := by rw [evaluate, hf]
  unfold advanceFormula
  rw [run_get_bind, hevaluate]
  rfl

/-- What a formula reads is not computed after it. -/
theorem not_mem_order_of_reads {done order : List NodeId} {n : NodeId} {f : Formula NodeId}
    (hreads : ∀ k ∈ w.auxiliaryReads n, k ∈ done) (hnodup : (done ++ order).Nodup)
    (hkind : ∀ k ∈ order, w.kind? k = some .auxiliary) (hf : w.formula? n = some f) :
    ∀ k ∈ f.leaves, k ∉ order := by
  intro k hk horder
  have hread : k ∈ w.auxiliaryReads n := by
    rw [World.mem_auxiliaryReads, World.formulaReads_eq hf]
    exact ⟨Formula.mem_reads.2 hk, hkind k horder⟩
  exact (List.nodup_append.1 hnodup).2.2 k (hreads k hread) k horder rfl

/--
Nodes that are computed in order all have the values of their formulas in the end,
as nothing that a formula reads is computed after it.
-/
theorem run_advanceAll (done order : List NodeId)
    (horder : Dependency.InOrder w.auxiliaryReads done order) (hnodup : (done ++ order).Nodup)
    (hkind : ∀ n ∈ order, w.kind? n = some .auxiliary)
    (hformula : ∀ n ∈ order, ∃ f, w.formula? n = some f) :
    ∃ w', (advanceAll order).run w = .ok () w' ∧ World.SameUpToValues w w' ∧
      (∀ n ∉ order, w'.valueOf n = w.valueOf n) ∧
      ∀ n ∈ order, ∀ f, w.formula? n = some f → w'.valueOf n = f.eval w'.valueOf := by
  induction order generalizing w done with
  | nil => exact ⟨w, rfl, World.SameUnder.refl _ w, fun _ _ => rfl, nofun⟩
  | cons n rest ih =>
      rcases hformula n List.mem_cons_self with ⟨f, hf⟩
      let x := f.eval w.valueOf
      let w₁ := w.updateNode n (Node.setCurrent x)
      have hvalues : World.SameUpToValues w w₁ := World.sameUpToValues_setCurrent w n x
      have hlinks := hvalues.sameLinks
      have hsplit : (done ++ [n]) ++ rest = done ++ n :: rest := by
        rw [List.append_assoc, List.singleton_append]
      obtain ⟨w', hrun, hsame, hkeep, hsolved⟩ := ih (w := w₁) (done ++ [n])
        (World.inOrder_congr horder.2 fun k _ => hlinks.auxiliaryReads k) (by rwa [hsplit])
        (fun k hk => by
          rw [hlinks.kind]
          exact hkind k (List.mem_cons_of_mem n hk))
        (fun k hk => by
          rw [hlinks.formula]
          exact hformula k (List.mem_cons_of_mem n hk))
      have hkeepAll : ∀ k ∉ n :: rest, w'.valueOf k = w.valueOf k := by
        intro k hk
        rw [List.mem_cons, not_or] at hk
        rw [hkeep k hk.2, World.valueOf_setCurrent_of_ne (Ne.symm hk.1)]
      refine ⟨w', ?_, hvalues.trans hsame, hkeepAll, ?_⟩
      · rw [advanceAll, run_bind_ok (run_advanceFormula hf)]
        exact hrun
      · intro k hk g hg
        rcases List.mem_cons.1 hk with rfl | hk
        · obtain rfl : f = g := Option.some.inj (hf.symm.trans hg)
          have hn : k ∉ rest := (List.nodup_cons.1 (List.nodup_append.1 hnodup).2.1).1
          have hread := not_mem_order_of_reads horder.1 hnodup hkind hf
          calc w'.valueOf k = w₁.valueOf k := hkeep k hn
            _ = x := World.valueOf_setCurrent (hkind k List.mem_cons_self) rfl x
            _ = f.eval w'.valueOf := Formula.eval_congr fun a ha => (hkeepAll a (hread a ha)).symm
        · refine hsolved k hk g ?_
          rw [hlinks.formula]
          exact hg

/-! ## Rates -/

/-- Rates with formulas are evaluated in one and the same world. -/
theorem evaluateAll_eq_ok {rates : List NodeId}
    (hformula : ∀ r ∈ rates, ∃ f, w.formula? r = some f) :
    ∃ values, evaluateAll w rates = .ok values ∧ values.map Prod.fst = rates ∧
      ∀ entry ∈ values, ∀ f, w.formula? entry.1 = some f → entry.2 = f.eval w.valueOf := by
  induction rates with
  | nil => exact ⟨[], rfl, rfl, nofun⟩
  | cons r rest ih =>
      rcases hformula r List.mem_cons_self with ⟨f, hf⟩
      obtain ⟨values, hvalues, hkeys, hentry⟩ := ih fun k hk =>
        hformula k (List.mem_cons_of_mem r hk)
      refine ⟨(r, f.eval w.valueOf) :: values, ?_, by rw [List.map_cons, hkeys], ?_⟩
      · rw [evaluateAll, evaluate, hf, hvalues]
        rfl
      · intro entry hmem g hg
        rcases List.mem_cons.1 hmem with rfl | hmem
        · obtain rfl : f = g := Option.some.inj (hf.symm.trans hg)
          rfl
        · exact hentry entry hmem g hg

/-- Storing values leaves other nodes alone. -/
theorem valueOf_storeAll_of_not_mem {values : List (NodeId × Float)} {n : NodeId}
    (hn : n ∉ values.map Prod.fst) : (storeAll w values).valueOf n = w.valueOf n := by
  induction values generalizing w with
  | nil => rfl
  | cons entry rest ih =>
      rw [List.map_cons, List.mem_cons, not_or] at hn
      rw [storeAll, List.foldl_cons]
      exact (ih hn.2).trans (World.valueOf_setCurrent_of_ne (Ne.symm hn.1) entry.2)

/-- Storing values gives each of its nodes its value. -/
theorem valueOf_storeAll_of_mem {values : List (NodeId × Float)} {entry : NodeId × Float}
    (hnodup : (values.map Prod.fst).Nodup)
    (hkind : ∀ e ∈ values, ∃ kind, w.kind? e.1 = some kind ∧ kind.isComputed = true)
    (hmem : entry ∈ values) : (storeAll w values).valueOf entry.1 = entry.2 := by
  induction values generalizing w with
  | nil => simp at hmem
  | cons e rest ih =>
      rw [List.map_cons, List.nodup_cons] at hnodup
      rw [storeAll, List.foldl_cons]
      rcases List.mem_cons.1 hmem with rfl | hmem
      · rcases hkind entry List.mem_cons_self with ⟨kind, hn, hcomputed⟩
        exact (valueOf_storeAll_of_not_mem hnodup.1).trans
          (World.valueOf_setCurrent hn hcomputed entry.2)
      · refine ih hnodup.2 (fun k hk => ?_) hmem
        rw [(World.sameUpToValues_setCurrent w e.1 e.2).sameLinks.kind]
        exact hkind k (List.mem_cons_of_mem e hk)

/-- All rates are computed from the values before any of them is stored. -/
theorem run_storeRates {rates : List NodeId} (levels : List NodeId) (hnodup : rates.Nodup)
    (hformula : ∀ r ∈ rates, ∃ f, w.formula? r = some f) :
    ∃ w', (do
        let w ← get
        let values ← ofExcept (evaluateAll w rates)
        set (storeAll w values)
        advanceLevels levels : Action Unit).run w = (advanceLevels levels).run w' ∧
      World.SameUpToValues w w' ∧ (∀ n ∉ rates, w'.valueOf n = w.valueOf n) ∧
      ∀ r ∈ rates, ∀ f, w.formula? r = some f → w'.valueOf r = f.eval w.valueOf := by
  rcases evaluateAll_eq_ok hformula with ⟨values, hvalues, hkeys, hentry⟩
  have hkind : ∀ e ∈ values, ∃ kind, w.kind? e.1 = some kind ∧ kind.isComputed = true := by
    intro e he
    have hr : e.1 ∈ rates := hkeys ▸ List.mem_map_of_mem he
    rcases hformula e.1 hr with ⟨f, hf⟩
    rcases World.kind?_of_formula? hf with ⟨kind, hkind, hformula⟩
    exact ⟨kind, hkind, NodeKind.isComputed_of_hasFormula hformula⟩
  refine ⟨storeAll w values, ?_, sameUpToValues_storeAll w values, ?_, ?_⟩
  · rw [run_get_bind, hvalues, run_ofExcept_bind]
    rfl
  · intro n hn
    exact valueOf_storeAll_of_not_mem (hkeys ▸ hn)
  · intro r hr f hf
    rw [← hkeys, List.mem_map] at hr
    rcases hr with ⟨entry, hmem, rfl⟩
    rw [valueOf_storeAll_of_mem (by rwa [hkeys]) hkind hmem]
    exact hentry entry hmem f hf

end Action

/-! ## Levels -/

/-- A value after all that flows into a level was added and all that flows out was taken away. -/
def World.afterFlows (w : World) (rate : NodeId → Float) (l : NodeId) (x : Float) : Float :=
  (w.ratesAt .source l).foldl (fun x r => x - rate r)
    ((w.ratesAt .sink l).foldl (fun x r => x + rate r) x)

/-- What flows make of a level is up to the rates of the level. -/
theorem World.afterFlows_congr {w w' : World} (h : w.SameLinks w') (hflows : w.FlowsMatch)
    {rate rate' : NodeId → Float} (hrate : ∀ r, w.kind? r = some .rate → rate' r = rate r)
    (l : NodeId) (x : Float) : w'.afterFlows rate' l x = w.afterFlows rate l x := by
  have hlisted : ∀ {side r}, r ∈ w.ratesAt side l → rate' r = rate r := fun hr =>
    hrate _ (World.kind?_of_endpoint? ((hflows.endpoint_iff _ _ l).2 hr))
  rw [World.afterFlows, World.afterFlows, h.rates, h.rates]
  have hin : (w.ratesAt .sink l).foldl (fun x r => x + rate' r) x =
      (w.ratesAt .sink l).foldl (fun x r => x + rate r) x :=
    List.foldl_ext _ _ _ fun x r hr => by rw [hlisted hr]
  rw [hin]
  exact List.foldl_ext _ _ _ fun x r hr => by rw [hlisted hr]

namespace Action

variable {w : World}

theorem currentOf_rate {r : NodeId} (hr : w.kind? r = some .rate) :
    currentOf w (.node r) = .ok (w.valueOf r) := by
  rw [World.kind?] at hr
  rw [currentOf, World.valueOf, World.current?]
  cases hnode : w.node? r with
  | none => simp [hnode] at hr
  | some node =>
      have hkind : node.kind = .rate := by simpa [hnode] using hr
      cases node with
      | rate content => rfl
      | level l => simp [Node.kind] at hkind
      | constant c => simp [Node.kind] at hkind
      | auxiliary a => simp [Node.kind] at hkind
      | sourceSink flows => simp [Node.kind] at hkind

/-- Flows are added up in the order in which the level lists them. -/
theorem accumulate_rates {rs : List NodeId} (hkind : ∀ r ∈ rs, w.kind? r = some .rate)
    (join : Float → Float → Float) (x : Float) :
    accumulate w join x (rs.map .node) = .ok (rs.foldl (fun x r => join x (w.valueOf r)) x) := by
  induction rs generalizing x with
  | nil => rfl
  | cons r rest ih =>
      rw [List.map_cons, accumulate, currentOf_rate (hkind r List.mem_cons_self)]
      exact ih (fun k hk => hkind k (List.mem_cons_of_mem r hk)) _

/-- The next value of a level is what its flows make of the current one. -/
theorem nextLevelValue_eq_ok (h : w.FlowsMatch) (l : NodeId) :
    nextLevelValue w l = .ok (w.afterFlows w.valueOf l (w.valueOf l)) := by
  have hkind : ∀ side, ∀ r ∈ w.ratesAt side l, w.kind? r = some .rate := fun side r hr =>
    World.kind?_of_endpoint? ((h.endpoint_iff side r l).2 hr)
  rw [nextLevelValue, h.listed_eq, h.listed_eq, accumulate_rates (hkind .sink)]
  exact accumulate_rates (hkind .source) _ _

/-- A level takes what its flows make of its value. -/
theorem run_advanceLevel (h : w.FlowsMatch) (l : NodeId) :
    (advanceLevel l).run w =
      .ok () (w.updateNode l (Node.setCurrent (w.afterFlows w.valueOf l (w.valueOf l)))) := by
  unfold advanceLevel
  rw [run_get_bind, nextLevelValue_eq_ok h, run_ofExcept_bind]
  rfl

/-- Levels move on independently of each other, as they only look at themselves and at rates. -/
theorem run_advanceLevels {levels : List NodeId} (h : w.FlowsMatch) (hnodup : levels.Nodup)
    (hkind : ∀ l ∈ levels, w.kind? l = some .level) :
    ∃ w', (advanceLevels levels).run w = .ok () w' ∧ World.SameUpToValues w w' ∧
      (∀ n ∉ levels, w'.valueOf n = w.valueOf n) ∧
      ∀ l ∈ levels, w'.valueOf l = w.afterFlows w.valueOf l (w.valueOf l) := by
  induction levels generalizing w with
  | nil => exact ⟨w, rfl, World.SameUnder.refl _ w, fun _ _ => rfl, nofun⟩
  | cons l rest ih =>
      rw [List.nodup_cons] at hnodup
      have hl := hkind l List.mem_cons_self
      let x := w.afterFlows w.valueOf l (w.valueOf l)
      let w₁ := w.updateNode l (Node.setCurrent x)
      have hvalues : World.SameUpToValues w w₁ := World.sameUpToValues_setCurrent w l x
      have hlinks := hvalues.sameLinks
      obtain ⟨w', hrun, hsame, hkeep, hnext⟩ := ih (w := w₁) (hlinks.flowsMatch h) hnodup.2
        (fun k hk => by
          rw [hlinks.kind]
          exact hkind k (List.mem_cons_of_mem l hk))
      have hrate : ∀ r, w.kind? r = some .rate → w₁.valueOf r = w.valueOf r := by
        intro r hr
        refine World.valueOf_setCurrent_of_ne ?_ x
        rintro rfl
        simp [hl] at hr
      refine ⟨w', ?_, hvalues.trans hsame, ?_, ?_⟩
      · rw [advanceLevels, run_bind_ok (run_advanceLevel h l)]
        exact hrun
      · intro n hn
        rw [List.mem_cons, not_or] at hn
        rw [hkeep n hn.2, World.valueOf_setCurrent_of_ne (Ne.symm hn.1)]
      · intro k hk
        rcases List.mem_cons.1 hk with rfl | hk
        · rw [hkeep k hnodup.1, World.valueOf_setCurrent hl rfl]
        · have hne : l ≠ k := by
            rintro rfl
            exact hnodup.1 hk
          rw [hnext k hk, World.afterFlows_congr hlinks h hrate, World.valueOf_setCurrent_of_ne hne]

end Action

/-! ## Whole rounds -/

namespace World

variable {w w' : World} {m : ModelId}

/-- What formulas read in a round: new values of auxiliaries, old values of everything else. -/
def midRound (w w' : World) (n : NodeId) : Float :=
  if w.isKind .auxiliary n then w'.valueOf n else w.valueOf n

/-- The equations between the values before and after a round of a model. -/
structure RoundEquations (w : World) (m : ModelId) (w' : World) : Prop where
  values : SameUpToValues w w'
  auxiliary : ∀ a ∈ (w.model m).auxiliaries,
    ∃ f, w.formula? a = some f ∧ w'.valueOf a = f.eval (midRound w w')
  rate : ∀ r ∈ (w.model m).rates,
    ∃ f, w.formula? r = some f ∧ w'.valueOf r = f.eval (midRound w w')
  level : ∀ l ∈ (w.model m).levels, w'.valueOf l = w.afterFlows w'.valueOf l (w.valueOf l)
  constant : ∀ c ∈ (w.model m).constants, w'.valueOf c = w.valueOf c
  other : ∀ n ∉ (w.model m).nodes, w'.valueOf n = w.valueOf n

/-- The worlds between the phases of a round: each phase computes the nodes of one kind only. -/
structure RoundPhases (w : World) (m : ModelId) (w₁ w₂ w₃ : World) : Prop where
  same₁ : SameUpToValues w w₁
  same₂ : SameUpToValues w₁ w₂
  same₃ : SameUpToValues w₂ w₃
  keep₁ : ∀ n ∉ (w.model m).auxiliaries, w₁.valueOf n = w.valueOf n
  keep₂ : ∀ n ∉ (w.model m).rates, w₂.valueOf n = w₁.valueOf n
  keep₃ : ∀ n ∉ (w.model m).levels, w₃.valueOf n = w₂.valueOf n
  auxiliary : ∀ a ∈ (w.model m).auxiliaries, ∃ f, w.formula? a = some f ∧
    w₁.valueOf a = f.eval w₁.valueOf
  rate : ∀ r ∈ (w.model m).rates, ∃ f, w.formula? r = some f ∧ w₂.valueOf r = f.eval w₁.valueOf
  level : ∀ l ∈ (w.model m).levels, w₃.valueOf l = w₂.afterFlows w₂.valueOf l (w₂.valueOf l)

/-- A round of a model that can be stepped goes through all its phases. -/
theorem Steppable.run_computeRound (h : w.Steppable m) (hw : w.WellFormed)
    (hlocked : w.isChangeable m = false) :
    ∃ w₁ w₂ w₃, (Action.computeRound m).run w = .ok () w₃ ∧ w.RoundPhases m w₁ w₂ w₃ := by
  have hmembers := hw.members.kind m
  have haux : ∀ n ∈ (w.model m).order, n ∈ (w.model m).auxiliaries := fun n => (h.mem_order n).1
  obtain ⟨w₁, hrun₁, hsame₁, hkeep₁, hsolved₁⟩ := Action.run_advanceAll [] _ h.inOrder
    h.nodup (fun n hn => hmembers .auxiliary n (haux n hn))
    (fun n hn => h.formula n (List.mem_append_right _ (haux n hn)))
  have hlinks₁ := hsame₁.sameLinks
  have hrate : ∀ r ∈ (w.model m).rates, ∃ f, w.formula? r = some f := fun r hr =>
    h.formula r (List.mem_append_left _ hr)
  obtain ⟨w₂, hrun₂, hsame₂, hkeep₂, hsolved₂⟩ := Action.run_storeRates (w := w₁)
    (w.model m).levels (hw.members.nodup m .rate) fun r hr => by
      rw [hlinks₁.formula]
      exact hrate r hr
  have hlinks₂ := SameUpToValues.sameLinks (hsame₁.trans hsame₂)
  obtain ⟨w₃, hrun₃, hsame₃, hkeep₃, hsolved₃⟩ := Action.run_advanceLevels (w := w₂)
    (hlinks₂.flowsMatch hw.flows) (hw.members.nodup m .level) fun l hl => by
      rw [hlinks₂.kind]
      exact hmembers .level l hl
  refine ⟨w₁, w₂, w₃, ?_, ⟨hsame₁, hsame₂, hsame₃, ?_, hkeep₂, hkeep₃, ?_, ?_, hsolved₃⟩⟩
  · unfold Action.computeRound
    rw [Action.run_get_bind]
    simp only [hlocked, Bool.false_eq_true, if_false]
    rw [Action.run_bind_ok hrun₁]
    exact hrun₂.trans hrun₃
  · exact fun n hn => hkeep₁ n fun hn' => hn (haux n hn')
  · intro a ha
    rcases h.formula a (List.mem_append_right _ ha) with ⟨f, hf⟩
    exact ⟨f, hf, hsolved₁ a ((h.mem_order a).2 ha) f hf⟩
  · intro r hr
    rcases hrate r hr with ⟨f, hf⟩
    refine ⟨f, hf, hsolved₂ r hr f ?_⟩
    rwa [hlinks₁.formula]

/-- Between the phases stand exactly the values that formulas read in a round. -/
theorem RoundPhases.midRound_eq {w₁ w₂ w₃ : World} (h : w.RoundPhases m w₁ w₂ w₃)
    (hw : w.WellFormed) : midRound w w₃ = w₁.valueOf := by
  ext n
  rw [midRound]
  split
  · rename_i haux
    have hkind : w.kind? n = some .auxiliary := eq_of_beq haux
    rw [h.keep₃ n (hw.members.not_mem .level hkind nofun),
      h.keep₂ n (hw.members.not_mem .rate hkind nofun)]
  · rename_i haux
    refine (h.keep₁ n fun hn => haux ?_).symm
    rw [isKind, hw.members.kind m .auxiliary n hn]
    rfl

/-- The phases of a round solve the equations of a round. -/
theorem RoundPhases.roundEquations {w₁ w₂ w₃ : World} (h : w.RoundPhases m w₁ w₂ w₃)
    (hw : w.WellFormed) : w.RoundEquations m w₃ := by
  have hmembers := hw.members.kind m
  have hmid := h.midRound_eq hw
  have hkeep : ∀ n, n ∉ (w.model m).levels → n ∉ (w.model m).rates →
      n ∉ (w.model m).auxiliaries → w₃.valueOf n = w.valueOf n := by
    intro n hlevel hrate haux
    rw [h.keep₃ n hlevel, h.keep₂ n hrate, h.keep₁ n haux]
  refine ⟨(h.same₁.trans h.same₂).trans h.same₃, ?_, ?_, ?_, ?_, ?_⟩
  · intro a ha
    rcases h.auxiliary a ha with ⟨f, hf, hvalue⟩
    have hkind := hmembers .auxiliary a ha
    refine ⟨f, hf, ?_⟩
    rw [hmid, ← hvalue, h.keep₃ a (hw.members.not_mem .level hkind nofun),
      h.keep₂ a (hw.members.not_mem .rate hkind nofun)]
  · intro r hr
    rcases h.rate r hr with ⟨f, hf, hvalue⟩
    have hkind := hmembers .rate r hr
    refine ⟨f, hf, ?_⟩
    rw [hmid, ← hvalue, h.keep₃ r (hw.members.not_mem .level hkind nofun)]
  · intro l hl
    have hkind := hmembers .level l hl
    have hlinks := SameUpToValues.sameLinks (h.same₁.trans h.same₂)
    have hold : w₂.valueOf l = w.valueOf l := by
      rw [h.keep₂ l (hw.members.not_mem .rate hkind nofun),
        h.keep₁ l (hw.members.not_mem .auxiliary hkind nofun)]
    rw [h.level l hl, hold]
    refine World.afterFlows_congr hlinks hw.flows (fun r hr => ?_) l _
    exact (h.keep₃ r (hw.members.not_mem .level hr nofun)).symm
  · intro c hc
    have hkind := hmembers .constant c hc
    exact hkeep c (hw.members.not_mem .level hkind nofun)
      (hw.members.not_mem .rate hkind nofun)
      (hw.members.not_mem .auxiliary hkind nofun)
  · intro n hn
    have hnot : ∀ kind, n ∉ (w.model m).members kind := fun kind hkind =>
      hn (Model.mem_nodes.2 ⟨kind, hkind⟩)
    exact hkeep n (hnot .level) (hnot .rate) (hnot .auxiliary)

/--
In a session that stays within models, a round of a locked model succeeds, and the
values before and after it solve the equations of a round.
-/
theorem ReachableWithin.computeRound_equations (h : w.ReachableWithin)
    (hlocked : w.isChangeable m = false) :
    ∃ w', (Action.computeRound m).run w = .ok () w' ∧ w.RoundEquations m w' := by
  have hw := h.reachable.wellFormed
  rcases (h.steppable hlocked).run_computeRound hw hlocked with ⟨w₁, w₂, w₃, hrun, hphases⟩
  exact ⟨w₃, hrun, hphases.roundEquations hw⟩

/--
A tank that is filled at a rate; the first auxiliary reads the second one, which was
created after it, and the rate reads itself.
-/
def tankSession : List Operation :=
  let m : ModelId := ⟨0⟩
  let leaf (index : Nat) : Argument := .node ⟨index⟩
  [.newModel (.text "Tank"), .createLevel m (.text "Water") (.integer 8), .createSourceSink m,
    .createConstant m (.text "Share") (.integer 2), .createAuxiliary m (.text "Inflow"),
    .createAuxiliary m (.text "Gap"), .createRate m (.text "Fill"),
    .setFormula m (leaf 3) (.apply .multiply (leaf 4) (leaf 2)),
    .setFormula m (leaf 4) (.apply .subtract (leaf 0) (leaf 2)),
    .setFormula m (leaf 5) (.apply .add (.apply .add (leaf 3) (leaf 5)) (leaf 4)),
    .addFlow m .sourceSinkToRate (leaf 1) (leaf 5), .addFlow m .rateToLevel (leaf 5) (leaf 0),
    .lock m, .computeRound m]

/-- A round of the tank succeeds and solves its equations. -/
theorem computeRound_equations_tank :
    ∃ w', (Action.computeRound ⟨0⟩).run (World.run {} tankSession) = .ok () w' ∧
      (World.run {} tankSession).RoundEquations ⟨0⟩ w' :=
  ReachableWithin.computeRound_equations (ReachableWithin.start.run (by decide +kernel))
    (by decide +kernel)

end World
end StockFlow
