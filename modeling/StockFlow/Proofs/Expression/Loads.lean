import StockFlow.Expression.Parser
import StockFlow.Proofs.Expression.Lexing

/-!
# Loads of tokens

Brackets that are open, and tokens that a reader goes further down for, stand for the
steps that reading can leave unfinished at once.  A reading is bounded if it keeps to a
number of steps besides the load of its tokens, and if what it leaves is no greater load.
Bounded readings are put together as readings are.

Main definitions:

- {lit}`Expression.load`: the steps that open brackets and tokens stand for.
- {lit}`Reading.Bounded`: a reading that keeps to its steps and leaves no greater load.

Main results:

- Theorems {lit}`Reading.Bounded.tail`, {lit}`Reading.Bounded.opening` and
  {lit}`Reading.Bounded.closing`: what a token allows for.
- Theorem {lit}`Reading.Bounded.bind`: one bounded reading after another.
-/

namespace StockFlow

/-! ## Loads -/

namespace Token

/-- Whether an operand can end with a token. -/
def endsOperand : Token → Bool
  | .name _ | .literal _ | .closing => true
  | _ => false

/-- How many steps a token stands for, behind an operand or elsewhere. -/
def weight (behind : Bool) : Token → Nat
  | .name _ | .literal _ => if behind then 4 else 0
  | .plus | .minus => if behind then 0 else 1
  | .doubleStar => 2
  | .keyword _ | .reserved => 4
  | _ => 0

end Token

namespace Expression

/-- How many steps tokens stand for, the first of them behind an operand or not. -/
def weights : Bool → List Token → Nat
  | _, [] => 0
  | behind, t :: ts => t.weight behind + weights t.endsOperand ts

/--
How many steps stand for what is open at once in tokens, where a number of brackets is
open already, and for the tokens themselves.
-/
def load (depth : Nat) (behind : Bool) (ts : List Token) : Nat :=
  40 * mostOpenFrom Token.openAfter depth ts + weights behind ts

variable {d d' : Nat} {b b' : Bool} {ts us : List Token} {t : Token}

/-- The load counts the brackets that are open from the start. -/
theorem le_load (d : Nat) (b : Bool) (ts : List Token) : 40 * d ≤ load d b ts :=
  Nat.le_trans (Nat.mul_le_mul_left 40 (le_mostOpenFrom d ts)) (Nat.le_add_right _ _)

/-- A token that is no bracket adds its weight to the load of what follows. -/
theorem load_cons (h : Token.openAfter d t = d) (b : Bool) (ts : List Token) :
    load d b (t :: ts) = load d t.endsOperand ts + t.weight b := by
  rw [load, load, mostOpenFrom_cons_of_eq h, weights]
  omega

/-- An opening bracket has no weight, and is counted with what it encloses. -/
theorem load_opening (d : Nat) (b : Bool) (ts : List Token) :
    load d b (.opening :: ts) = load (d + 1) false ts := by
  rw [load, load, mostOpenFrom_cons_of_lt (Nat.lt_succ_self d), weights]
  exact congrArg _ (Nat.zero_add _)

/-- Behind a closing bracket less is open, and an operand has just ended. -/
theorem load_closing (d : Nat) (b : Bool) (ts : List Token) :
    load d true ts ≤ load (d + 1) b (.closing :: ts) := by
  have hopen : mostOpenFrom Token.openAfter d ts ≤
      mostOpenFrom Token.openAfter (d + 1) (.closing :: ts) := Nat.le_max_right _ _
  rw [load, load, weights]
  have hweight : Token.weight b .closing = 0 := rfl
  have hends : Token.endsOperand .closing = true := rfl
  rw [hweight, hends]
  omega

/-- Tokens in front of others have no greater load than all of them. -/
theorem load_le_append (d : Nat) (b : Bool) (ts us : List Token) :
    load d b ts ≤ load d b (ts ++ us) := by
  have hweights : weights b ts ≤ weights b (ts ++ us) := by
    induction ts generalizing b with
    | nil => exact Nat.zero_le _
    | cons t ts ih => exact Nat.add_le_add_left (ih t.endsOperand) (t.weight b)
  have hopen : mostOpenFrom Token.openAfter d ts ≤ mostOpenFrom Token.openAfter d (ts ++ us) :=
    mostOpenFrom_le_append d ts us
  rw [load, load]
  omega

/-- Where no operand stands in front, only a sign counts for more. -/
theorem load_false_le (d : Nat) (ts : List Token) : load d false ts ≤ load d true ts + 1 := by
  cases ts with
  | nil => exact Nat.le_succ _
  | cons t ts =>
      have hweight : t.weight false ≤ t.weight true + 1 := by
        cases t <;> simp [Token.weight]
      rw [load, load, weights, weights]
      omega

end Expression

/-! ## Bounded readings -/

open Expression

/--
Whether a reading at some tokens keeps to a number of steps besides their load, and leaves
the last of them with no greater load, at a number of open brackets of its own.
-/
structure Reading.Bounded {α : Type} (c d d' : Nat) (b : Bool) (ts : List Token)
    (x : Reading (α × List Token)) : Prop where
  steps_le : 40 * d + x.steps ≤ c + load d b ts
  suffix : ∀ a rest, x.outcome = .found (a, rest) → rest <:+ ts
  load_le : ∀ a rest, x.outcome = .found (a, rest) → load d' true rest ≤ load d b ts

namespace Reading

variable {α β : Type} {x : Reading (α × List Token)} {c m d d' d'' k : Nat} {b : Bool}
  {t : Token} {ts us : List Token}

/-- A refusal takes no step and leaves nothing. -/
theorem bounded_refuse (c d d' : Nat) (b : Bool) (ts : List Token) :
    Bounded c d d' b ts (refuse : Reading (α × List Token)) where
  steps_le := Nat.le_trans (le_load d b ts) (Nat.le_add_left _ c)
  suffix := nofun
  load_le := nofun

/-- A reading that stops at the end of the tokens. -/
theorem bounded_cut (hk : k ≤ c) (d d' : Nat) (b : Bool) (ts : List Token) :
    Bounded c d d' b ts (⟨.cut, k⟩ : Reading (α × List Token)) where
  steps_le := by
    have hload := le_load d b ts
    change 40 * d + k ≤ c + load d b ts
    omega
  suffix := nofun
  load_le := nofun

/-- What is left behind an operand is left as it is. -/
theorem bounded_pure (c d : Nat) (a : α) (ts : List Token) :
    Bounded c d d true ts (pure (a, ts)) where
  steps_le := Nat.le_trans (le_load d true ts) (Nat.le_add_left _ c)
  suffix := by
    intro a' rest hfound
    cases hfound
    exact List.suffix_rfl
  load_le := by
    intro a' rest hfound
    cases hfound
    exact Nat.le_refl _

namespace Bounded

/-- A token that is no bracket is taken, and with it the steps that it stands for. -/
theorem tail (h : Bounded m d d' t.endsOperand ts x) (ht : Token.openAfter d t = d)
    (hc : m ≤ c + t.weight b) : Bounded c d d' b (t :: ts) x where
  steps_le := by
    have hsteps := h.steps_le
    rw [load_cons ht]
    omega
  suffix := fun a rest hfound => (h.suffix a rest hfound).trans (List.suffix_cons t ts)
  load_le := by
    intro a rest hfound
    have hload := h.load_le a rest hfound
    rw [load_cons ht]
    omega

/-- Behind an opening bracket forty steps more are allowed for. -/
theorem opening (h : Bounded (c + 40) (d + 1) d' false ts x) :
    Bounded c d d' b (.opening :: ts) x where
  steps_le := by
    have hsteps := h.steps_le
    rw [load_opening]
    omega
  suffix := fun a rest hfound => (h.suffix a rest hfound).trans (List.suffix_cons _ ts)
  load_le := by
    intro a rest hfound
    rw [load_opening]
    exact h.load_le a rest hfound

/-- A closing bracket gives back the forty steps that its opening allowed for. -/
theorem closing (h : Bounded m d d' true ts x) (hc : m + 40 ≤ c) :
    Bounded c (d + 1) d' b (.closing :: ts) x where
  steps_le := by
    have hsteps := h.steps_le
    have hload := load_closing d b ts
    omega
  suffix := fun a rest hfound => (h.suffix a rest hfound).trans (List.suffix_cons _ ts)
  load_le := fun a rest hfound => Nat.le_trans (h.load_le a rest hfound) (load_closing d b ts)

/-- Whether an operand stands in front makes no difference to some tokens. -/
theorem behind (h : Bounded c d d' true (t :: ts) x) (ht : t.weight true ≤ t.weight b) :
    Bounded c d d' b (t :: ts) x where
  steps_le := by
    have hsteps := h.steps_le
    rw [load, weights] at hsteps ⊢
    omega
  suffix := h.suffix
  load_le := by
    intro a rest hfound
    have hload := h.load_le a rest hfound
    rw [load, load, weights] at hload ⊢
    omega

/-- Going some steps down uses up as many of those that are left. -/
theorem deeper (h : Bounded m d d' b ts x) (us : List Token) (hc : m + k ≤ c) :
    Bounded c d d' b ts (x.deeper k us) where
  steps_le := by
    have hsteps := h.steps_le
    have hload := le_load d b ts
    cases us with
    | nil =>
        change 40 * d + k ≤ c + load d b ts
        omega
    | cons u us =>
        change 40 * d + (x.steps + k) ≤ c + load d b ts
        omega
  suffix := fun a rest hfound => h.suffix a rest (outcome_deeper.1 hfound).2
  load_le := fun a rest hfound => h.load_le a rest (outcome_deeper.1 hfound).2

/-- A reading that keeps to some steps keeps to more. -/
theorem mono (h : Bounded m d d' b ts x) (hc : m ≤ c) : Bounded c d d' b ts x where
  steps_le := by
    have hsteps := h.steps_le
    omega
  suffix := h.suffix
  load_le := h.load_le

/-- What is read of the tokens that the first reading leaves may also refuse some steps down. -/
theorem bind_of_le {f : α × List Token → Reading (β × List Token)} (hx : Bounded c d d' b ts x)
    (hf : ∀ a rest, Bounded m d' d'' true rest (f (a, rest)) ∨
      (f (a, rest)).outcome = .refused ∧ 40 * d + (f (a, rest)).steps ≤ c + load d b ts)
    (hc : 40 * d + m ≤ 40 * d' + c) : Bounded c d d'' b ts (x >>= f) where
  steps_le := by
    have hsteps : (x >>= f).steps ≤ c + load d b ts - 40 * d := by
      refine steps_bind_le (by have hsteps := hx.steps_le; omega) fun ⟨a, rest⟩ hfound => ?_
      rcases hf a rest with hf | ⟨-, hsteps⟩
      · have hsteps := hf.steps_le
        have hload := hx.load_le a rest hfound
        omega
      · omega
    have hload := le_load d b ts
    omega
  suffix := by
    intro y rest' hfound
    rcases outcome_bind.1 hfound with ⟨⟨a, rest⟩, hfirst, hsecond⟩
    rcases hf a rest with hf | ⟨hrefused, -⟩
    · exact (hf.suffix y rest' hsecond).trans (hx.suffix a rest hfirst)
    · cases hrefused.symm.trans hsecond
  load_le := by
    intro y rest' hfound
    rcases outcome_bind.1 hfound with ⟨⟨a, rest⟩, hfirst, hsecond⟩
    rcases hf a rest with hf | ⟨hrefused, -⟩
    · exact Nat.le_trans (hf.load_le y rest' hsecond) (hx.load_le a rest hfirst)
    · cases hrefused.symm.trans hsecond

/-- What is read of the tokens that the first reading leaves, behind its operand. -/
theorem bind {f : α × List Token → Reading (β × List Token)} (hx : Bounded c d d b ts x)
    (hf : ∀ a rest, Bounded c d d' true rest (f (a, rest))) : Bounded c d d' b ts (x >>= f) :=
  hx.bind_of_le (fun a rest => .inl (hf a rest)) (Nat.le_refl _)

/-- What is read behind the closing bracket that the first reading takes. -/
theorem bind_closed {f : α × List Token → Reading (β × List Token)}
    (hx : Bounded c (d + 1) d b ts x) (hf : ∀ a rest, Bounded m d d' true rest (f (a, rest)))
    (hc : m + 40 ≤ c) : Bounded c (d + 1) d' b ts (x >>= f) :=
  hx.bind_of_le (fun a rest => .inl (hf a rest)) (by omega)

/-- Something that leaves its tokens, in front of a reading of them. -/
theorem after {y : Reading (β × List Token)} {z : Reading Unit} (hy : Bounded c d d' b ts y)
    (hz : 40 * d + z.steps ≤ c + load d b ts) : Bounded c d d' b ts (z >>= fun _ => y) where
  steps_le := by
    have hsteps : (z >>= fun _ => y).steps ≤ c + load d b ts - 40 * d := by
      refine steps_bind_le (by omega) fun _ _ => ?_
      have hsteps := hy.steps_le
      omega
    have hload := le_load d b ts
    omega
  suffix := by
    intro a rest hfound
    rcases outcome_bind.1 hfound with ⟨_, _, hfound⟩
    exact hy.suffix a rest hfound
  load_le := by
    intro a rest hfound
    rcases outcome_bind.1 hfound with ⟨_, _, hfound⟩
    exact hy.load_le a rest hfound

/-- An attempt in front of a reading. -/
theorem after_attempt {y : Reading (β × List Token)} (hy : Bounded c d d' b ts y)
    (hx : 40 * d + x.steps ≤ c + load d b ts) :
    Bounded c d d' b ts (x.attempt >>= fun _ => y) :=
  hy.after (by rwa [steps_attempt])

/-- What only the second reading looks for in front of a reading. -/
theorem after_further {y : Reading (β × List Token)} {pass : Pass} (hy : Bounded c d d' b ts y)
    (hx : pass = .second → 40 * d + x.steps ≤ c + load d b ts) :
    Bounded c d d' b ts (pass.further x >>= fun _ => y) := by
  cases pass with
  | first => exact hy.after (Nat.le_trans (le_load d b ts) (Nat.le_add_left _ c))
  | second => exact hy.after_attempt (hx rfl)

/-- A look at the token behind a name in front of a reading. -/
theorem after_ahead {y : Reading (β × List Token)} (hy : Bounded c d d' b ts y) (hk : k ≤ c) :
    Bounded c d d' b ts (ahead k ts >>= fun _ => y) := by
  have hsteps := steps_ahead_le k ts
  have hload := le_load d b ts
  exact hy.after (by omega)

/-- A reading, and what is tried in vain if it refuses. -/
theorem otherwise (hx : Bounded c d d' b ts x) {y : Reading β}
    (hy : 40 * d + y.steps ≤ c + load d b ts) : Bounded c d d' b ts (x.otherwise y) where
  steps_le := by
    have hsteps : (x.otherwise y).steps ≤ c + load d b ts - 40 * d :=
      steps_otherwise_le (by have hsteps := hx.steps_le; omega) (by omega)
    have hload := le_load d b ts
    omega
  suffix := by
    intro a rest hfound
    rw [outcome_otherwise] at hfound
    exact hx.suffix a rest hfound
  load_le := by
    intro a rest hfound
    rw [outcome_otherwise] at hfound
    exact hx.load_le a rest hfound

/-- A reading that has to find something. -/
theorem required (hx : Bounded c d d' b ts x) : Bounded c d d' b ts x.required where
  steps_le := by
    rw [steps_required]
    exact hx.steps_le
  suffix := fun a rest hfound => hx.suffix a rest (outcome_required.1 hfound)
  load_le := fun a rest hfound => hx.load_le a rest (outcome_required.1 hfound)

end Bounded

/-- What was found in brackets, with the closing one as all that is still to be read. -/
theorem bounded_closed (hc : 40 ≤ c) (d : Nat) (b : Bool) (a : α) (ts : List Token) :
    Bounded c (d + 1) d b (.closing :: ts) (pure (a, ts)) :=
  (bounded_pure 0 d a ts).closing hc

end Reading

end StockFlow
