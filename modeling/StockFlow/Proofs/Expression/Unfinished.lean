import StockFlow.Proofs.Expression.Loads

/-!
# How much reading leaves unfinished

Between an expression and its parts lie the steps of the binding levels, and brackets
lead back to whole expressions.  So the most that is unfinished at once is bounded by
the brackets that are open at once and by the tokens that a reader goes further down
for.  This holds for both readings, whatever comes of them, and for everything that
has no place in formulas as well.  The bound is not exact: a pair of brackets that groups
takes 28 steps, and 40 are counted for it.

Main definitions:

- {lit}`Expression.BoundedAt`: what all readers keep to with some fuel.

Main results:

- Theorem {lit}`Expression.boundedAt`: every reader keeps to its steps.
- Theorem {lit}`Expression.steps_ofText_le`: the steps of a whole text.
- Theorem {lit}`Expression.exists_scan_of_ofText`: what is found in a text is found in all of it.
-/

namespace StockFlow

/-! ## Readers -/

/-- What a pass has left of the steps when it comes to an atom. -/
def Pass.room : Pass → Nat
  | .first => 10
  | .second => 12

/-- No pass takes more than one extra step to an expression. -/
theorem Pass.extra_le (pass : Pass) : pass.extra ≤ 1 := by
  cases pass <;> decide

/-- Every pass leaves the steps that a word takes. -/
theorem Pass.four_le_room (pass : Pass) : 4 ≤ pass.room := by
  cases pass <;> decide

/-- The steps from an operand down to an atom. -/
def Connective.steps : Connective → Nat
  | .conjunction => 19
  | .disjunction => 20

namespace Expression

open Reading

/--
What all readers keep to with some fuel.  Those that take a closing bracket with them
start with one more open bracket than they leave.
-/
structure BoundedAt (n : Nat) : Prop where
  expression : ∀ pass d ts, Bounded (pass.room + 22 + pass.extra) d d false ts
    (readExpression pass n ts)
  connected : ∀ pass word d ts, Bounded (pass.room + word.steps + 1) d d false ts
    (readConnected pass word n ts)
  operand : ∀ pass word d ts, Bounded (pass.room + word.steps) d d false ts
    (readOperand pass word n ts)
  operands : ∀ pass word d ts, Bounded (pass.room + word.steps + 1) d d true ts
    (readOperands pass word n ts)
  inversion : ∀ pass d ts, Bounded (pass.room + 19) d d false ts (readInversion pass n ts)
  comparisons : ∀ pass d ts, Bounded (pass.room + 19) d d true ts (readComparisons pass n ts)
  sum : ∀ pass d ts, Bounded (pass.room + 9) d d false ts (readSum pass n ts)
  sumTail : ∀ pass left d ts, Bounded (pass.room + 9) d d true ts (readSumTail pass n left ts)
  term : ∀ pass d ts, Bounded (pass.room + 7) d d false ts (readTerm pass n ts)
  termTail : ∀ pass left d ts, Bounded (pass.room + 7) d d true ts (readTermTail pass n left ts)
  factor : ∀ pass d ts, Bounded (pass.room + 5) d d false ts (readFactor pass n ts)
  awaited : ∀ pass d ts, Bounded (pass.room + 3) d d false ts (readAwaited pass n ts)
  primary : ∀ pass d ts, Bounded (pass.room + 2) d d false ts (readPrimary pass n ts)
  trailers : ∀ pass left d ts, Bounded pass.room d d true ts (readTrailers pass n left ts)
  arguments : ∀ pass d ts, Bounded (pass.room + 38) (d + 1) d false ts (readArguments pass n ts)
  plainArguments : ∀ pass steps d ts, steps.1 ≤ 7 → steps.2 ≤ 7 →
    Bounded (pass.room + 38) (d + 1) d false ts (readPlainArguments pass steps n ts)
  moreArguments : ∀ pass d ts, Bounded (pass.room + 38) (d + 1) d true ts
    (readMoreArguments pass n ts)
  keywords : ∀ pass steps d ts, steps.1 ≤ 7 → steps.2 ≤ 7 →
    Bounded (pass.room + 38) (d + 1) d false ts (readKeywords pass steps n ts)
  atom : ∀ pass d ts, Bounded pass.room d d false ts (readAtom pass n ts)
  bracketed : ∀ pass d ts, Bounded (pass.room + 40) (d + 1) d false ts (readBracketed pass n ts)
  items : ∀ pass k d ts, k ≤ 9 →
    Bounded (pass.room + 40) (d + 1) d false ts (readItems pass k n ts)
  item : ∀ pass steps d ts, steps.1 ≤ 10 → steps.2 ≤ 17 →
    Bounded (pass.room + 38) d d false ts (readItem pass steps n ts)
  yielded : ∀ pass d ts, Bounded (pass.room + 38) d d false ts (readYield pass n ts)
  yieldedRest : ∀ pass d ts, Bounded (pass.room + 38) d d false ts (readYieldedRest pass n ts)
  clauses : ∀ pass d ts, Bounded (pass.room + 26) d d true ts (readClauses pass n ts)
  clause : ∀ pass d ts, Bounded (pass.room + 24) d d true ts (readClause pass n ts)
  loop : ∀ pass asynchronous d ts, Bounded (pass.room + 28) d d false ts
    (readLoop pass asynchronous n ts)
  conditions : ∀ pass d ts, Bounded (pass.room + 24) d d true ts (readConditions pass n ts)
  targets : ∀ pass d ts, Bounded (pass.room + 9) d d false ts (readTargets pass n ts)
  targetRest : ∀ pass d ts, Bounded (pass.room + 9) d d false ts (readTargetRest pass n ts)
  target : ∀ pass d ts, Bounded (pass.room + 6) d d false ts (readTarget pass n ts)

/-- The word of a comparison, and what follows it. -/
theorem bounded_comparison {α : Type} {x : Reading (α × List Token)} {c d : Nat}
    {comparison : Comparison} {ts us : List Token}
    (hword : comparison? ts = some (comparison, us)) (hx : Bounded (c + 4) d d false us x) :
    Bounded c d d true ts x := by
  have htail : ∀ {c : Nat} {us : List Token} {k : Keyword} {b : Bool},
      Bounded (c + 4) d d false us x → Bounded c d d b (.keyword k :: us) x :=
    fun hx => hx.tail rfl (Nat.le_refl _)
  unfold comparison? at hword
  split at hword
  all_goals cases hword
  · exact htail hx
  · exact htail (htail (hx.mono (by omega)))
  · exact htail (htail (hx.mono (by omega)))
  · exact htail hx

namespace BoundedAt

variable {n : Nat} (h : BoundedAt n) (pass : Pass) (d : Nat) (ts : List Token)

include h

/-- An expression some steps further down. -/
theorem deeper {c k : Nat} (hc : 23 + k ≤ c) (us : List Token) :
    Bounded (pass.room + c) d d false ts ((readExpression pass n ts).deeper k us) :=
  (h.expression pass d ts).deeper us (by
    have hextra := pass.extra_le
    omega)

/-- A sum some steps further down. -/
theorem sum_deeper {c k : Nat} (hc : 9 + k ≤ c) (us : List Token) :
    Bounded (pass.room + c) d d false ts ((readSum pass n ts).deeper k us) :=
  (h.sum pass d ts).deeper us (by omega)

/-- A sum behind a star, some steps further down. -/
theorem starred_deeper {c k : Nat} (hc : 9 + k ≤ c) (us : List Token) :
    Bounded (pass.room + c) d d false (.star :: ts) ((readSum pass n ts).deeper k us) :=
  (h.sum_deeper pass d ts hc us).tail rfl (Nat.le_refl _)

/-- A disjunction some steps further down. -/
theorem connected_deeper {c k : Nat} (hc : 21 + k ≤ c) (us : List Token) :
    Bounded (pass.room + c) d d false ts ((readConnected pass .disjunction n ts).deeper k us) :=
  (h.connected pass .disjunction d ts).deeper us (by
    rw [Connective.steps]
    omega)

/-- Loops up to a closing bracket. -/
theorem clauses_closed {α : Type} (build : List Clause → α) {c k : Nat} (hk : 26 + k ≤ c)
    (hc : 38 ≤ c) : Bounded (pass.room + c) (d + 1) d true ts (do
      let (clauses, ts) ← (readClauses pass n ts).deeper k ts
      match ts with
      | .closing :: ts => pure (build clauses, ts)
      | _ => .refuse) := by
  have hroom := pass.four_le_room
  refine ((h.clauses pass (d + 1) ts).deeper ts (by omega)).bind fun clauses ts => ?_
  dsimp only
  split
  · exact bounded_closed (by omega) ..
  · exact bounded_refuse ..

/-! ### Words -/

/-- The words of a conditional allow for its condition and its alternative. -/
theorem expression_succ : Bounded (pass.room + 22 + pass.extra) d d false ts
    (readExpression pass (n + 1) ts) := by
  rw [Nat.add_assoc, readExpression]
  refine (h.connected_deeper pass d ts (by omega) ts).bind fun body ts => ?_
  refine Bounded.after_further ?_ fun hpass => ?_
  · split
    · refine Bounded.tail (m := pass.room + (22 + pass.extra)) ?_ rfl (Nat.le_add_right _ _)
      refine (h.connected_deeper pass d _ (by omega) _).bind fun test ts => ?_
      dsimp only
      split
      · refine Bounded.tail (m := pass.room + 24) ?_ rfl (by
          rw [Token.weight]
          omega)
        exact (h.deeper pass d _ (by omega) _).bind fun otherwise ts => bounded_pure ..
      · exact bounded_refuse ..
    · exact bounded_pure ..
  · subst hpass
    have hsteps := ((h.expression .first d ts).deeper (k := 2) ts (Nat.le_refl _)).steps_le
    have hload := load_false_le d ts
    simp only [Pass.room, Pass.extra] at hsteps ⊢
    omega

/-- The first operand is one step below what the word joins. -/
theorem connected_succ (word : Connective) :
    Bounded (pass.room + word.steps + 1) d d false ts (readConnected pass word (n + 1) ts) := by
  rw [readConnected]
  refine ((h.operand pass word d ts).deeper ts (Nat.le_refl _)).bind fun first ts => ?_
  exact (h.operands pass word d ts).bind fun rest ts => bounded_pure ..

/-- The operands of a disjunction are conjunctions, and those of a conjunction are inversions. -/
theorem operand_succ (word : Connective) :
    Bounded (pass.room + word.steps) d d false ts (readOperand pass word (n + 1) ts) := by
  cases word with
  | disjunction => exact h.connected pass .conjunction d ts
  | conjunction => exact h.inversion pass d ts

/-- A further operand is read behind a word, which allows for the steps down to it. -/
theorem operands_succ (word : Connective) :
    Bounded (pass.room + word.steps + 1) d d true ts (readOperands pass word (n + 1) ts) := by
  rw [readOperands.eq_def]
  dsimp only
  split
  · split
    · refine Bounded.tail (m := pass.room + word.steps + 3) ?_ rfl (by
        rw [Token.weight]
        omega)
      refine ((h.operand pass word d _).deeper _ (Nat.le_refl _)).bind fun next ts => ?_
      exact ((h.operands pass word d ts).mono (by omega)).bind fun rest ts => bounded_pure ..
    · exact bounded_pure ..
  · exact bounded_pure ..

/-- The word of a negation allows for the step down to what it negates. -/
theorem inversion_succ :
    Bounded (pass.room + 19) d d false ts (readInversion pass (n + 1) ts) := by
  rw [readInversion.eq_def]
  dsimp only
  split
  · refine Bounded.tail (m := pass.room + 20) ?_ rfl (by
      rw [Token.weight]
      omega)
    exact ((h.inversion pass d _).deeper _ (by omega)).bind fun operand ts => bounded_pure ..
  · refine (h.sum_deeper pass d ts (by omega) ts).bind fun first ts => ?_
    exact (h.comparisons pass d ts).bind fun rest ts => bounded_pure ..

/-- A further sum is read behind a comparison, at the depth of the first one. -/
theorem comparisons_succ :
    Bounded (pass.room + 19) d d true ts (readComparisons pass (n + 1) ts) := by
  rw [readComparisons.eq_def]
  dsimp only
  split
  · exact bounded_cut (Nat.zero_le _) ..
  · split
    · rename_i comparison us hword
      refine bounded_comparison hword ?_
      rw [Nat.add_assoc]
      refine (h.sum_deeper pass d us (by decide) us).bind fun next ts => ?_
      exact ((h.comparisons pass d ts).mono (by omega)).bind fun rest ts => bounded_pure ..
    · exact bounded_pure ..

/-! ### Signs -/

/-- The first term is two steps below its sum. -/
theorem sum_succ : Bounded (pass.room + 9) d d false ts (readSum pass (n + 1) ts) := by
  rw [readSum]
  exact ((h.term pass d ts).deeper ts (by omega)).bind fun first ts => h.sumTail pass first d ts

/-- Further terms follow one another at one depth. -/
theorem sumTail_succ (left : Expression) :
    Bounded (pass.room + 9) d d true ts (readSumTail pass (n + 1) left ts) := by
  have hterm : ∀ ts, Bounded (pass.room + 9) d d false ts ((readTerm pass n ts).deeper 2 ts) :=
    fun ts => (h.term pass d ts).deeper ts (by omega)
  rw [readSumTail.eq_def]
  dsimp only
  split
  · exact ((hterm _).bind fun right ts => h.sumTail pass _ d ts).tail rfl (Nat.le_refl _)
  · exact ((hterm _).bind fun right ts => h.sumTail pass _ d ts).tail rfl (Nat.le_refl _)
  · exact bounded_pure ..

/-- The first factor is two steps below its term. -/
theorem term_succ : Bounded (pass.room + 7) d d false ts (readTerm pass (n + 1) ts) := by
  rw [readTerm]
  exact ((h.factor pass d ts).deeper ts (by omega)).bind fun first ts =>
    h.termTail pass first d ts

/-- Further factors follow one another at one depth. -/
theorem termTail_succ (left : Expression) :
    Bounded (pass.room + 7) d d true ts (readTermTail pass (n + 1) left ts) := by
  have hfactor : ∀ ts, Bounded (pass.room + 7) d d false ts
      ((readFactor pass n ts).deeper 2 ts) :=
    fun ts => (h.factor pass d ts).deeper ts (by omega)
  rw [readTermTail.eq_def]
  dsimp only
  split
  · exact ((hfactor _).bind fun right ts => h.termTail pass _ d ts).tail rfl (Nat.le_refl _)
  · exact ((hfactor _).bind fun right ts => h.termTail pass _ d ts).tail rfl (Nat.le_refl _)
  · exact ((hfactor _).bind fun right ts => h.termTail pass _ d ts).tail rfl (Nat.le_refl _)
  · exact bounded_pure ..

/-- A sign in front of a factor allows for the step down to it, and so does the one of a power. -/
theorem factor_succ : Bounded (pass.room + 5) d d false ts (readFactor pass (n + 1) ts) := by
  have hfactor : ∀ {c k : Nat} (ts : List Token), 5 + k ≤ c →
      Bounded (pass.room + c) d d false ts ((readFactor pass n ts).deeper k ts) :=
    fun ts hc => (h.factor pass d ts).deeper ts (by omega)
  rw [readFactor.eq_def]
  dsimp only
  split
  · refine Bounded.tail (m := pass.room + 6) ?_ rfl (Nat.le_refl _)
    exact (hfactor _ (by omega)).bind fun operand ts => bounded_pure ..
  · refine Bounded.tail (m := pass.room + 6) ?_ rfl (Nat.le_refl _)
    exact (hfactor _ (by omega)).bind fun operand ts => bounded_pure ..
  · refine ((h.awaited pass d ts).deeper ts (by omega)).bind fun base ts => ?_
    dsimp only
    split
    · refine Bounded.tail (m := pass.room + 7) ?_ rfl (Nat.le_refl _)
      exact (hfactor _ (by omega)).bind fun exponent ts => bounded_pure ..
    · exact bounded_pure ..

/-! ### Atoms and calls -/

/-- An awaited value is read no further down than one that is not awaited. -/
theorem awaited_succ : Bounded (pass.room + 3) d d false ts (readAwaited pass (n + 1) ts) := by
  have hprimary : ∀ ts, Bounded (pass.room + 3) d d false ts
      ((readPrimary pass n ts).deeper 1 ts) :=
    fun ts => (h.primary pass d ts).deeper ts (by omega)
  rw [readAwaited.eq_def]
  dsimp only
  split
  · refine Bounded.tail (m := pass.room + 3) ?_ rfl (Nat.le_add_right _ _)
    exact (hprimary _).bind fun value ts => bounded_pure ..
  · exact hprimary ts

/-- An atom is the first step of what has attributes and calls. -/
theorem primary_succ : Bounded (pass.room + 2) d d false ts (readPrimary pass (n + 1) ts) := by
  rw [readPrimary]
  exact ((h.atom pass d ts).deeper ts (by omega)).bind fun first ts =>
    (h.trailers pass first d ts).mono (by omega)

/-- Attributes and calls follow one another at one depth, and each call opens a bracket. -/
theorem trailers_succ (left : Expression) :
    Bounded pass.room d d true ts (readTrailers pass (n + 1) left ts) := by
  have hlooked : 4 * pass.extra ≤ pass.room := by
    cases pass <;> decide
  rw [readTrailers.eq_def]
  dsimp only
  split
  · refine Bounded.tail (m := pass.room) ?_ rfl (Nat.le_refl _)
    exact (h.trailers pass _ d _).tail rfl (Nat.le_refl _)
  · refine Bounded.tail (m := pass.room) ?_ rfl (Nat.le_refl _)
    exact (bounded_refuse 0 d d _ _).deeper _ (by omega)
  · exact bounded_cut pass.four_le_room ..
  · refine Bounded.opening ?_
    exact ((h.arguments pass d _).deeper _ (by omega)).bind_closed
      (fun args ts => h.trailers pass _ d ts) (Nat.le_refl _)
  · exact (bounded_pure 0 d left ts).deeper ts (by omega)

theorem atom_succ : Bounded pass.room d d false ts (readAtom pass (n + 1) ts) := by
  rw [readAtom.eq_def]
  dsimp only
  split
  · exact (bounded_pure pass.room d _ _).tail rfl (Nat.le_add_right _ _)
  · exact (bounded_pure pass.room d _ _).tail rfl (Nat.le_add_right _ _)
  · exact (h.bracketed pass d _).opening
  · exact bounded_refuse ..

/-! ### Arguments -/

/-- Arguments and a lone generator keep to the bracket of their call, and close it. -/
theorem arguments_succ :
    Bounded (pass.room + 38) (d + 1) d false ts (readArguments pass (n + 1) ts) := by
  have hroom := pass.four_le_room
  have hfirst := h.deeper pass (d + 1) ts (c := 38) (k := 2) (by omega) ts
  rw [readArguments.eq_def]
  dsimp only
  split
  · exact (bounded_closed (by omega) ..).after_attempt hfirst.steps_le
  · exact (h.plainArguments pass _ d _ (by dsimp only; omega) (by dsimp only; omega)).after_attempt
      hfirst.steps_le
  · refine Bounded.after_attempt ?_ hfirst.steps_le
    exact (h.keywords pass (5, 6) d _ (by decide) (by decide)).bind_closed
      (fun keywords ts => bounded_pure 0 ..) (by omega)
  · refine (hfirst.bind fun first after => ?_).after_ahead (by omega)
    dsimp only
    split
    · exact h.clauses_closed pass d _ (fun clauses => ([Expression.generator first clauses], []))
        (by omega) (by omega)
    · exact h.clauses_closed pass d _ (fun clauses => ([Expression.generator first clauses], []))
        (by omega) (by omega)
    · exact (h.moreArguments pass d after).bind_closed (fun more after => bounded_pure 0 ..)
        (by omega)

/-- Every argument is an expression at most seven steps further down. -/
theorem plainArguments_succ {steps : Nat × Nat} (hfirst : steps.1 ≤ 7) (hnext : steps.2 ≤ 7) :
    Bounded (pass.room + 38) (d + 1) d false ts (readPlainArguments pass steps (n + 1) ts) := by
  have hroom := pass.four_le_room
  have hvalue : ∀ ts, Bounded (pass.room + 38) (d + 1) (d + 1) false ts
      ((readExpression pass n ts).deeper steps.1 ts) :=
    fun ts => h.deeper pass (d + 1) ts (by omega) ts
  rw [readPlainArguments.eq_def]
  dsimp only
  split
  · refine Bounded.after_attempt ?_ (hvalue _).steps_le
    exact (h.keywords pass steps d _ hfirst hnext).bind_closed
      (fun keywords ts => bounded_pure 0 ..) (by omega)
  · refine Bounded.tail (m := pass.room + 38) ?_ rfl (Nat.le_refl _)
    refine (hvalue _).required.bind fun value ts => ?_
    exact (h.moreArguments pass d ts).bind_closed (fun more ts => bounded_pure 0 ..) (by omega)
  · refine Bounded.after_ahead ((hvalue _).bind fun value ts => ?_) (by omega)
    exact (h.moreArguments pass d ts).bind_closed (fun more ts => bounded_pure 0 ..) (by omega)

/-- Arguments behind a comma keep to the bracket of their call as the first one does. -/
theorem moreArguments_succ :
    Bounded (pass.room + 38) (d + 1) d true ts (readMoreArguments pass (n + 1) ts) := by
  have hroom := pass.four_le_room
  rw [readMoreArguments.eq_def]
  dsimp only
  split
  · exact bounded_closed (by omega) ..
  · refine Bounded.tail (m := pass.room + 38) ?_ rfl (Nat.le_refl _)
    refine Bounded.after_attempt ?_ (h.deeper pass (d + 1) _ (by omega) _).steps_le
    exact bounded_closed (by omega) ..
  · refine Bounded.tail (m := pass.room + 38) ?_ rfl (Nat.le_refl _)
    exact h.plainArguments pass (6, 7) d _ (by decide) (by decide)
  · exact bounded_refuse ..

/-- Doubly starred arguments keep to the bracket of their call, and close it. -/
theorem keywords_succ {steps : Nat × Nat} (hfirst : steps.1 ≤ 7) (hnext : steps.2 ≤ 7) :
    Bounded (pass.room + 38) (d + 1) d false ts (readKeywords pass steps (n + 1) ts) := by
  have hroom := pass.four_le_room
  have hmore : ∀ ts, Bounded (pass.room + 38) (d + 1) d false ts
      ((readKeywords pass (steps.2, steps.2) n ts).deeper 0 ts) :=
    fun ts => (h.keywords pass (steps.2, steps.2) d ts hnext hnext).deeper ts (Nat.le_refl _)
  rw [readKeywords.eq_def]
  dsimp only
  split
  · refine Bounded.tail (m := pass.room + 38) ?_ rfl (Nat.le_add_right _ _)
    refine (h.deeper pass (d + 1) _ (by omega) _).bind fun value ts => ?_
    dsimp only
    split
    · exact bounded_closed (by omega) ..
    · refine Bounded.tail (m := pass.room + 38) ?_ rfl (Nat.le_refl _)
      exact bounded_closed (by omega) ..
    · refine Bounded.tail (m := pass.room + 38) ?_ rfl (Nat.le_refl _)
      exact (hmore _).bind_closed (fun rest ts => bounded_pure 0 ..) (by omega)
    · exact bounded_refuse ..
  · exact bounded_refuse ..

/-! ### Brackets -/

/-- Whatever stands in brackets keeps to the forty steps that they are counted for. -/
theorem bracketed_succ :
    Bounded (pass.room + 40) (d + 1) d false ts (readBracketed pass (n + 1) ts) := by
  have hextra := pass.extra_le
  have hfirst := h.deeper pass (d + 1) ts (c := 40) (k := 6 + pass.extra) (by omega) ts
  have hitems : ∀ (first : Expression) (ts : List Token),
      Bounded (pass.room + 40) (d + 1) d true (.comma :: ts) (readItems pass 8 n ts >>= fun more =>
        pure (Expression.tuple (first :: more.1), more.2)) := by
    intro first ts
    refine Bounded.tail (m := pass.room + 40) ?_ rfl (Nat.le_refl _)
    exact (h.items pass 8 d ts (by decide)).bind_closed (fun rest ts => bounded_pure 0 ..)
      (by omega)
  rw [readBracketed.eq_def]
  dsimp only
  split
  · exact bounded_cut (by omega) ..
  · exact bounded_cut (by omega) ..
  · exact (bounded_closed (by omega) ..).after_attempt hfirst.steps_le
  · refine Bounded.after_attempt ?_ hfirst.steps_le
    refine Bounded.tail (m := pass.room + 40) ?_ rfl (Nat.le_add_right _ _)
    refine ((h.yielded pass (d + 1) _).mono (by omega)).bind fun value ts => ?_
    dsimp only
    split
    · exact bounded_closed (by omega) ..
    · exact bounded_refuse ..
  · refine ((h.starred_deeper pass (d + 1) _ (by omega) _).otherwise hfirst.steps_le).bind_of_le
      (m := pass.room + 40) (fun value ts => ?_) (Nat.le_refl _)
    dsimp only
    split
    · exact .inl (hitems ..)
    · refine .inr ⟨rfl, ?_⟩
      rw [steps_refuse_otherwise]
      exact (h.deeper pass (d + 1) _ (by omega) _).steps_le
  · refine ((bounded_refuse ..).after_further fun _ => ?_).after_attempt hfirst.steps_le
    exact ((h.deeper pass (d + 1) _ (by omega) _).tail rfl (Nat.le_add_right _ _)).steps_le
  · refine (hfirst.bind fun first ts => ?_).after_ahead (by omega)
    dsimp only
    split
    · exact bounded_closed (by omega) ..
    · exact hitems ..
    · exact h.clauses_closed pass d _ (Expression.generator first) (by omega) (by omega)
    · exact h.clauses_closed pass d _ (Expression.generator first) (by omega) (by omega)
    · exact bounded_refuse ..

/-- The items of a tuple are at most nine steps below its bracket, and close it. -/
theorem items_succ {k : Nat} (hk : k ≤ 9) :
    Bounded (pass.room + 40) (d + 1) d false ts (readItems pass k (n + 1) ts) := by
  have hextra := pass.extra_le
  rw [readItems.eq_def]
  dsimp only
  split
  · refine Bounded.after_attempt ?_ (h.deeper pass (d + 1) _ (by omega) _).steps_le
    exact bounded_closed (by omega) ..
  · have hitem := (h.item pass (k + pass.extra, k + 7) (d + 1) ts (by dsimp only; omega)
      (by dsimp only; omega)).mono (c := pass.room + 40) (by omega)
    refine (hitem.bind fun item ts => ?_).after_ahead (by omega)
    dsimp only
    split
    · exact bounded_closed (by omega) ..
    · refine Bounded.tail (m := pass.room + 40) ?_ rfl (Nat.le_refl _)
      exact (h.items pass 9 d _ (Nat.le_refl _)).bind_closed (fun rest ts => bounded_pure 0 ..)
        (by omega)
    · exact bounded_refuse ..

/-- A starred item is a sum, and has more steps down to it than an expression. -/
theorem item_succ {steps : Nat × Nat} (hitem : steps.1 ≤ 10) (hstarred : steps.2 ≤ 17) :
    Bounded (pass.room + 38) d d false ts (readItem pass steps (n + 1) ts) := by
  rw [readItem.eq_def]
  dsimp only
  split
  · refine ((h.starred_deeper pass d _ (by omega) _).otherwise ?_).bind fun value ts =>
      bounded_pure ..
    exact (h.deeper pass d _ (by omega) _).steps_le
  · exact h.deeper pass d ts (by omega) ts

/-- What a yield gives keeps to the bracket around the yield, and leaves it open. -/
theorem yielded_succ : Bounded (pass.room + 38) d d false ts (readYield pass (n + 1) ts) := by
  rw [readYield.eq_def]
  dsimp only
  split
  · refine Bounded.tail (m := pass.room + 38) ?_ rfl (Nat.le_add_right _ _)
    exact (h.deeper pass d _ (by omega) _).bind fun value ts => bounded_pure ..
  · refine Bounded.after_attempt ?_ (h.deeper pass d _ (by omega) _).steps_le
    exact (bounded_pure ..).behind (Nat.le_refl _)
  · refine (h.item pass (7, 15) d ts (by decide) (by decide)).bind fun first ts => ?_
    dsimp only
    split
    · refine Bounded.tail (m := pass.room + 38) ?_ rfl (Nat.le_refl _)
      exact (h.yieldedRest pass d _).bind fun rest ts => bounded_pure ..
    · exact bounded_pure ..

theorem yieldedRest_succ :
    Bounded (pass.room + 38) d d false ts (readYieldedRest pass (n + 1) ts) := by
  rw [readYieldedRest.eq_def]
  dsimp only
  split
  · refine Bounded.after_attempt ?_ (h.deeper pass d _ (by omega) _).steps_le
    exact (bounded_pure ..).behind (Nat.le_refl _)
  · refine (h.item pass (9, 17) d ts (by decide) (by decide)).bind fun item ts => ?_
    dsimp only
    split
    · refine Bounded.tail (m := pass.room + 38) ?_ rfl (Nat.le_refl _)
      exact (h.yieldedRest pass d _).bind fun rest ts => bounded_pure ..
    · exact bounded_pure ..

/-! ### Loops -/

/-- The loops of a generator follow one another at one depth. -/
theorem clauses_succ : Bounded (pass.room + 26) d d true ts (readClauses pass (n + 1) ts) := by
  rw [readClauses]
  refine ((h.clause pass d ts).deeper ts (by omega)).bind fun first ts => ?_
  dsimp only
  split
  · exact (h.clauses pass d _).bind fun rest ts => bounded_pure ..
  · exact (h.clauses pass d _).bind fun rest ts => bounded_pure ..
  · exact bounded_pure ..

theorem clause_succ : Bounded (pass.room + 24) d d true ts (readClause pass (n + 1) ts) := by
  rw [readClause.eq_def]
  dsimp only
  split
  · exact bounded_cut (Nat.zero_le _) ..
  · refine Bounded.tail (m := pass.room + 24) ?_ rfl (Nat.le_add_right _ _)
    exact (h.loop pass true d _).tail rfl (Nat.le_refl _)
  · exact (h.loop pass false d _).tail rfl (Nat.le_refl _)
  · exact bounded_refuse ..

/-- The words of a loop allow for what it binds and for what it runs over. -/
theorem loop_succ (asynchronous : Bool) :
    Bounded (pass.room + 28) d d false ts (readLoop pass asynchronous (n + 1) ts) := by
  have hother : 40 * d + (pass.further ((readExpression pass n (ts.take 2)).deeper 4 ts)).steps ≤
      pass.room + 28 + load d false ts := by
    have hload : load d false (ts.take 2) ≤ load d false ts := by
      have happend := load_le_append d false (ts.take 2) (ts.drop 2)
      rwa [List.take_append_drop] at happend
    have hsteps := (h.deeper pass d (ts.take 2) (c := 28) (k := 4) (by decide) ts).steps_le
    cases pass with
    | first => exact Nat.le_trans (le_load d false ts) (Nat.le_add_left _ _)
    | second =>
        rw [Pass.further, steps_attempt]
        omega
  have htargets := (h.targets pass d ts).deeper (c := pass.room + 28) (k := 1) ts (by omega)
  rw [readLoop]
  refine (htargets.otherwise hother).bind_of_le (m := pass.room + 28) (fun target ts => ?_)
    (Nat.le_refl _)
  dsimp only
  split
  · refine .inl (Bounded.tail (m := pass.room + 28) ?_ rfl (Nat.le_add_right _ _))
    refine (h.connected_deeper pass d _ (by omega) _).bind fun source ts => ?_
    exact ((h.conditions pass d ts).mono (by omega)).bind fun conditions ts => bounded_pure ..
  · refine .inr ⟨rfl, ?_⟩
    rwa [steps_refuse_otherwise]

theorem conditions_succ :
    Bounded (pass.room + 24) d d true ts (readConditions pass (n + 1) ts) := by
  rw [readConditions.eq_def]
  dsimp only
  split
  · refine Bounded.tail (m := pass.room + 24) ?_ rfl (Nat.le_add_right _ _)
    refine (h.connected_deeper pass d _ (by omega) _).bind fun first ts => ?_
    exact (h.conditions pass d ts).bind fun rest ts => bounded_pure ..
  · exact bounded_pure ..

theorem targets_succ : Bounded (pass.room + 9) d d false ts (readTargets pass (n + 1) ts) := by
  rw [readTargets]
  refine ((h.target pass d ts).deeper ts (by omega)).bind fun first ts => ?_
  dsimp only
  split
  · refine Bounded.tail (m := pass.room + 9) ?_ rfl (Nat.le_refl _)
    exact (h.targetRest pass d _).bind fun rest ts => bounded_pure ..
  · exact bounded_pure ..

theorem targetRest_succ :
    Bounded (pass.room + 9) d d false ts (readTargetRest pass (n + 1) ts) := by
  rw [readTargetRest.eq_def]
  dsimp only
  split
  · exact (bounded_pure ..).behind (Nat.le_refl _)
  · refine ((h.target pass d ts).deeper ts (by omega)).bind fun target ts => ?_
    dsimp only
    split
    · refine Bounded.tail (m := pass.room + 9) ?_ rfl (Nat.le_refl _)
      exact (h.targetRest pass d _).bind fun rest ts => bounded_pure ..
    · exact bounded_pure ..

/-- A target is an atom with attributes and calls, a few steps further down. -/
theorem target_succ : Bounded (pass.room + 6) d d false ts (readTarget pass (n + 1) ts) := by
  have hbound : ∀ (target e : Expression) (ts : List Token),
      Bounded (pass.room + 6) d d true ts
        (if isTarget target then pure (e, ts) else .refuse : Reading _) := by
    intro target e ts
    split
    · exact bounded_pure ..
    · exact bounded_refuse ..
  rw [readTarget.eq_def]
  dsimp only
  split
  · refine Bounded.tail (m := pass.room + 6) ?_ rfl (Nat.le_refl _)
    exact ((h.primary pass d _).deeper _ (by omega)).bind fun target ts => hbound ..
  · exact ((h.primary pass d ts).deeper ts (by omega)).bind fun target ts => hbound ..

end BoundedAt

/-- Every reader keeps to its steps: one more unit of fuel goes once through all readers. -/
theorem boundedAt (n : Nat) : BoundedAt n := by
  induction n with
  | zero => constructor <;> intros <;> exact bounded_refuse ..
  | succ n h =>
      exact {
        expression := h.expression_succ
        connected := fun pass word d ts => h.connected_succ pass d ts word
        operand := fun pass word d ts => h.operand_succ pass d ts word
        operands := fun pass word d ts => h.operands_succ pass d ts word
        inversion := h.inversion_succ
        comparisons := h.comparisons_succ
        sum := h.sum_succ
        sumTail := fun pass left d ts => h.sumTail_succ pass d ts left
        term := h.term_succ
        termTail := fun pass left d ts => h.termTail_succ pass d ts left
        factor := h.factor_succ
        awaited := h.awaited_succ
        primary := h.primary_succ
        trailers := fun pass left d ts => h.trailers_succ pass d ts left
        arguments := h.arguments_succ
        plainArguments := fun pass _ d ts => h.plainArguments_succ pass d ts
        moreArguments := h.moreArguments_succ
        keywords := fun pass _ d ts => h.keywords_succ pass d ts
        atom := h.atom_succ
        bracketed := h.bracketed_succ
        items := fun pass _ d ts => h.items_succ pass d ts
        item := fun pass _ d ts => h.item_succ pass d ts
        yielded := h.yielded_succ
        yieldedRest := h.yieldedRest_succ
        clauses := h.clauses_succ
        clause := h.clause_succ
        loop := fun pass asynchronous d ts => h.loop_succ pass d ts asynchronous
        conditions := h.conditions_succ
        targets := h.targets_succ
        targetRest := h.targetRest_succ
        target := h.target_succ }

/-! ## Whole texts -/

variable {ts : List Token} {e : Expression}

/-- An expression outside brackets. -/
theorem bounded_readExpression (pass : Pass) (fuel : Nat) {k : Nat} (hk : k ≤ 5)
    (ts us : List Token) :
    Bounded 40 0 0 false ts ((readExpression pass fuel ts).deeper k us) := by
  refine ((boundedAt fuel).deeper pass 0 ts (c := 28) (by omega) us).mono ?_
  cases pass <;> decide

/-- The expressions of a line keep to the load of the line. -/
theorem steps_readAll_le (pass : Pass) (fuel n : Nat) (ts : List Token) :
    (readAll pass fuel n ts).steps ≤ 40 + load 0 false ts := by
  induction n generalizing ts with
  | zero => exact Nat.zero_le _
  | succ n ih =>
      have hfirst := bounded_readExpression pass fuel (Nat.le_refl 5) ts ts
      have hsteps : ((readExpression pass fuel ts).deeper 5 ts).steps ≤ 40 + load 0 false ts := by
        have hle := hfirst.steps_le
        omega
      by_cases hend : ts = [.lineEnd]
      · subst hend
        rw [readAll]
        refine steps_bind_le ?_ fun _ _ => Nat.zero_le _
        rwa [steps_attempt]
      · rw [readAll]
        · refine steps_bind_le hsteps fun ⟨next, rest⟩ hfound => ?_
          have hload := hfirst.load_le next rest hfound
          dsimp only
          split
          · exact Nat.zero_le _
          · rw [load_cons rfl] at hload
            refine steps_bind_le (Nat.le_trans (ih _) ?_) fun _ _ => Nat.zero_le _
            exact Nat.add_le_add_left (Nat.le_trans (Nat.le_add_right _ _) hload) 40
          · exact Nat.zero_le _
        · exact hend

/-- A whole line keeps to its load, in either reading. -/
theorem steps_ofTokens_le (pass : Pass) (ts : List Token) :
    (ofTokens pass ts).steps ≤ 40 + load 0 false ts := by
  have hfirst := bounded_readExpression pass (fuelFor ts.length) (k := 3) (by decide) ts ts
  rw [ofTokens]
  refine steps_bind_le (by have hle := hfirst.steps_le; omega) fun ⟨first, rest⟩ hfound => ?_
  have hload := hfirst.load_le first rest hfound
  dsimp only
  split
  · exact Nat.zero_le _
  · rw [load_cons rfl] at hload
    refine steps_bind_le (Nat.le_trans (steps_readAll_le ..) ?_) fun _ _ => Nat.zero_le _
    exact Nat.add_le_add_left (Nat.le_trans (Nat.le_add_right _ _) hload) 40
  · exact Nat.zero_le _

/-- Whatever comes of reading a text, no more steps are unfinished at once than its tokens allow. -/
theorem steps_ofText_le (cs : List Char) :
    (ofText cs).steps ≤ 40 + load 0 false (Lexer.tokens cs) := by
  have hfirst := steps_ofTokens_le .first (Lexer.tokens cs)
  rw [ofText]
  split
  · rename_i n hrefused
    rw [hrefused] at hfirst
    exact Nat.max_le.2 ⟨hfirst, steps_ofTokens_le .second (Lexer.tokens cs)⟩
  · exact hfirst

/-! ## The end of a line -/

/-- What is found in a line is followed by the end of the line. -/
theorem lineEnd_mem_of_readAll {pass : Pass} {fuel n : Nat} {es : List Expression}
    (h : (readAll pass fuel n ts).outcome = .found es) : .lineEnd ∈ ts := by
  induction n generalizing ts es with
  | zero => cases h
  | succ n ih =>
      by_cases hend : ts = [.lineEnd]
      · exact hend ▸ List.mem_singleton_self _
      · rw [readAll] at h
        · simp only [outcome_bind, Prod.exists] at h
          rcases h with ⟨next, rest, hfound, h⟩
          have hsuffix := (bounded_readExpression pass fuel (Nat.le_refl 5) ts ts).suffix _ _ hfound
          split at h
          · exact hsuffix.subset (List.mem_singleton_self _)
          · rcases outcome_bind.1 h with ⟨others, hothers, -⟩
            exact hsuffix.subset (List.mem_cons_of_mem _ (ih hothers))
          · cases h
        · exact hend

/-- What is read up to the end has an end. -/
theorem lineEnd_mem_of_ofTokens {pass : Pass} (h : (ofTokens pass ts).outcome = .found e) :
    .lineEnd ∈ ts := by
  rw [ofTokens] at h
  simp only [outcome_bind, Prod.exists] at h
  rcases h with ⟨first, rest, hfound, h⟩
  have hsuffix := (bounded_readExpression pass (fuelFor ts.length) (k := 3) (by decide) ts
    ts).suffix _ _ hfound
  split at h
  · exact hsuffix.subset (List.mem_singleton_self _)
  · rcases outcome_bind.1 h with ⟨others, hothers, -⟩
    exact hsuffix.subset (List.mem_cons_of_mem _ (lineEnd_mem_of_readAll hothers))
  · cases h

/-- What is found in a text is found by the first reading, in all of its tokens. -/
theorem exists_scan_of_ofText {cs : List Char} (h : (ofText cs).outcome = .found e) :
    ∃ ts, Lexer.scan 0 cs = (ts, true) ∧ Lexer.tokens cs = ts ++ [.lineEnd] ∧
      (ofTokens .first (ts ++ [.lineEnd])).outcome = .found e := by
  have hfirst : (ofTokens .first (Lexer.tokens cs)).outcome = .found e := by
    rw [ofText] at h
    split at h
    · cases h
    · exact h
  rcases Lexer.exists_scan_of_lineEnd_mem (lineEnd_mem_of_ofTokens hfirst) with ⟨ts, hscan, htokens⟩
  exact ⟨ts, hscan, htokens, htokens ▸ hfirst⟩

end Expression
end StockFlow
