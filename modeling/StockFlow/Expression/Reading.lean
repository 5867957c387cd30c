import StockFlow.Expression.Token

/-!
# Readings

A reader goes down through the binding levels of expressions and comes back with what
it found.  The steps that it has begun and not yet finished are kept on a stack of
limited size, so the most that is ever unfinished at once is a result of its own,
whatever else comes of the reading.  A reader that needs one more token behind the last
one stops there, because it is not known what the text would go on with.

Main definitions:

- {lit}`Reading.Outcome`, {lit}`Reading`: what comes of reading, and the most that was unfinished.
- {lit}`Reading.deeper`: a reading some steps further down.
- {lit}`Reading.attempt`: a reading of which only the steps count.
- {lit}`Reading.otherwise`, {lit}`Reading.required`: what a refusal leads to.
- {lit}`Reading.ahead`: a look at the token behind a name.
- {lit}`Reading.Finds`: what is found within some steps.

Main results:

- Theorem {lit}`Reading.outcome_bind`: what has to be found on the way to something.
- Theorem {lit}`Reading.steps_bind_le`: a bound of the steps of two readings.
-/

namespace StockFlow

/-- What comes of reading: something, a refusal, or the end of the tokens before either. -/
inductive Reading.Outcome (α : Type) where
  | found (a : α)
  | refused
  | cut

/-- An outcome, with the most steps that were unfinished at once on the way to it. -/
structure Reading (α : Type) where
  outcome : Reading.Outcome α
  steps : Nat

namespace Reading

variable {α β : Type}

/-- A reading that refuses. -/
def refuse : Reading α := ⟨.refused, 0⟩

/-- One reading after another. -/
def andThen (x : Reading α) (f : α → Reading β) : Reading β :=
  match x with
  | ⟨.found a, n⟩ =>
      match f a with
      | ⟨b, m⟩ => ⟨b, max n m⟩
  | ⟨.refused, n⟩ => ⟨.refused, n⟩
  | ⟨.cut, n⟩ => ⟨.cut, n⟩

instance : Monad Reading where
  pure a := ⟨.found a, 0⟩
  bind := andThen

/-- What is read some steps further down, if there is a token left to look at. -/
def deeper (k : Nat) (ts : List Token) (x : Reading α) : Reading α :=
  match ts with
  | [] => ⟨.cut, k⟩
  | _ :: _ => ⟨x.outcome, x.steps + k⟩

/-- A name that could be given a value is looked at together with the token behind it. -/
def ahead (k : Nat) : List Token → Reading Unit
  | [.name _] => ⟨.cut, k⟩
  | _ => pure ()

/-- A reading, and what else is tried in vain if it refuses. -/
def otherwise (x : Reading α) (y : Reading β) : Reading α :=
  match x with
  | ⟨.refused, n⟩ => ⟨.refused, max n y.steps⟩
  | x => x

/-- A reading after which nothing else is tried, though it refuses. -/
def required (x : Reading α) : Reading α :=
  match x with
  | ⟨.refused, n⟩ => ⟨.cut, n⟩
  | x => x

/-- What is read in any case, in spite of what comes of it. -/
def attempt (x : Reading α) : Reading Unit :=
  match x with
  | ⟨.cut, n⟩ => ⟨.cut, n⟩
  | ⟨_, n⟩ => ⟨.found (), n⟩

/-! ## Outcomes -/

variable {x : Reading α} {f : α → Reading β} {a : α} {b : β} {k m n : Nat} {ts : List Token}

@[simp, grind =] theorem outcome_pure (a : α) : (pure a : Reading α).outcome = .found a := rfl

@[simp, grind =] theorem outcome_refuse : (refuse : Reading α).outcome = .refused := rfl

@[simp] theorem steps_pure (a : α) : (pure a : Reading α).steps = 0 := rfl

/-- What is found in two readings is found by the second in what the first one found. -/
@[grind =] theorem outcome_bind :
    (x >>= f).outcome = .found b ↔ ∃ a, x.outcome = .found a ∧ (f a).outcome = .found b := by
  rcases x with ⟨a | _ | _, n⟩
  · simp [bind, andThen]
  · simp [bind, andThen]
  · simp [bind, andThen]

/-- What is found further down is found, where there is a token to look at. -/
@[grind =] theorem outcome_deeper :
    (x.deeper k ts).outcome = .found a ↔ ts ≠ [] ∧ x.outcome = .found a := by
  cases ts <;> simp [deeper]

/-- Looking ahead changes nothing where a token follows the first one. -/
theorem ahead_eq_pure (h : 1 < ts.length) : ahead k ts = pure () := by
  rcases ts with _ | ⟨t, _ | ⟨u, us⟩⟩
  · rfl
  · exact absurd h (Nat.lt_irrefl 1)
  · cases t <;> rfl

/-- What is tried in vain changes nothing about what comes of a reading. -/
@[simp, grind =] theorem outcome_otherwise (x : Reading α) (y : Reading β) :
    (x.otherwise y).outcome = x.outcome := by
  rcases x with ⟨_ | _ | _, n⟩ <;> rfl

/-- What has to be found is found as before. -/
@[grind =] theorem outcome_required : x.required.outcome = .found a ↔ x.outcome = .found a := by
  rcases x with ⟨_ | _ | _, n⟩ <;> simp [required]

/-! ## Steps -/

/-- Two readings in turn keep to what each of them keeps to. -/
theorem steps_bind_le (hx : x.steps ≤ n) (hf : ∀ a, x.outcome = .found a → (f a).steps ≤ n) :
    (x >>= f).steps ≤ n := by
  rcases x with ⟨a | _ | _, m⟩
  · exact Nat.max_le.2 ⟨hx, hf a rfl⟩
  · exact hx
  · exact hx

/-- Going down costs its steps on top of those of the reading. -/
theorem steps_deeper_le (h : x.steps + k ≤ n) : (x.deeper k ts).steps ≤ n := by
  cases ts with
  | nil => exact Nat.le_trans (Nat.le_add_left k x.steps) h
  | cons t ts => exact h

/-- An attempt costs what it tries. -/
@[simp] theorem steps_attempt (x : Reading α) : x.attempt.steps = x.steps := by
  rcases x with ⟨_ | _ | _, n⟩ <;> rfl

/-- Looking ahead goes no further down than to the name. -/
theorem steps_ahead_le (k : Nat) (ts : List Token) : (ahead k ts).steps ≤ k := by
  unfold ahead
  split
  · exact Nat.le_refl k
  · exact Nat.zero_le k

/-- A reading and what is tried in vain keep to what each of them keeps to. -/
theorem steps_otherwise_le {y : Reading β} (hx : x.steps ≤ n) (hy : y.steps ≤ n) :
    (x.otherwise y).steps ≤ n := by
  rcases x with ⟨_ | _ | _, m⟩
  · exact hx
  · exact Nat.max_le.2 ⟨hx, hy⟩
  · exact hx

/-- A refusal comes down to what is tried in vain. -/
theorem steps_refuse_otherwise (y : Reading β) :
    ((refuse : Reading α).otherwise y).steps = y.steps :=
  Nat.zero_max y.steps

/-- To have to find something takes no step. -/
@[simp] theorem steps_required (x : Reading α) : x.required.steps = x.steps := by
  rcases x with ⟨_ | _ | _, n⟩ <;> rfl

/-! ## What is found within some steps -/

/-- Whether a reading finds something and no more than so many steps are unfinished at once. -/
def Finds (x : Reading α) (a : α) (n : Nat) : Prop := x.outcome = .found a ∧ x.steps ≤ n

/-- What is there is found in no step. -/
theorem finds_pure (a : α) (n : Nat) : (pure a : Reading α).Finds a n := ⟨rfl, Nat.zero_le n⟩

/-- What is found in some steps is found in more. -/
theorem Finds.mono (h : x.Finds a m) (hmn : m ≤ n) : x.Finds a n := ⟨h.1, Nat.le_trans h.2 hmn⟩

/-- What is found in what was found is found within the steps of both. -/
theorem Finds.bind (hx : x.Finds a n) (hf : (f a).Finds b n) : (x >>= f).Finds b n := by
  refine ⟨outcome_bind.2 ⟨a, hx.1, hf.1⟩, steps_bind_le hx.2 fun a' ha' => ?_⟩
  rw [hx.1, Outcome.found.injEq] at ha'
  exact ha' ▸ hf.2

/-- A look ahead at more than one token takes no step. -/
theorem Finds.after_ahead {y : Reading β} (hy : y.Finds b n) (hts : 1 < ts.length) :
    (ahead k ts >>= fun _ => y).Finds b n := by
  rw [ahead_eq_pure hts]
  exact (finds_pure () n).bind hy

/-- A find further down takes the steps to there as well, and something to read there. -/
theorem Finds.deeper (h : x.Finds a m) (hts : ts ≠ []) (hn : m + k ≤ n) :
    (x.deeper k ts).Finds a n :=
  ⟨outcome_deeper.2 ⟨hts, h.1⟩, steps_deeper_le (Nat.le_trans (Nat.add_le_add_right h.2 k) hn)⟩

end Reading
end StockFlow
