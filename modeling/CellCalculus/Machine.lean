import CellCalculus.SmallStep

/-!
# The machine

A machine holds a configuration, counts the steps it took, and may carry a limit on them. A run takes
one step after the other until it can answer. With a limit it answers at the latest when it has come
to that, and without one it may go on for ever.
-/

namespace CellCalculus

inductive Progress where
  | stepped
  | done (v : Val)
  | stuck (err : StuckError)
  deriving DecidableEq

inductive RunError where
  /-- The configuration at the point where it got stuck. -/
  | stuck (e : Expr) (err : StuckError) (steps : Nat)
  | outOfFuel (steps : Nat)
  deriving DecidableEq

def RunError.message : RunError → String
  | .stuck _ err steps => "stuck after " ++ toString steps ++ " steps: " ++ err.message
  | .outOfFuel steps => "out of fuel after " ++ toString steps ++ " steps"

structure Machine where
  expr : Expr
  heap : Heap := .empty
  /-- The most steps a run may take, if limited. -/
  fuel : Option Nat := none
  steps : Nat := 0
  deriving DecidableEq

namespace Machine

/-- One step, whatever the limit says. -/
def step (m : Machine) : Progress × Machine :=
  -- Taken apart first, so that nothing else holds the heap while the step changes it.
  let ⟨e, h, fuel, steps⟩ := m
  match CellCalculus.step e h with
  | (.next e, h) => (.stepped, ⟨e, h, fuel, steps + 1⟩)
  | (.value v, h) => (.done v, ⟨.val v, h, fuel, steps⟩)
  | (.stuck e err, h) => (.stuck err, ⟨e, h, fuel, steps⟩)

/-- Whether the limit forbids a step that is still needed. -/
def exhausted (m : Machine) : Bool :=
  match m.fuel with
  | none => false
  | some f => decide (f ≤ m.steps) && !m.expr.isValue

/-- Runs to an answer; there is none if the run goes on for ever. -/
def run? (m : Machine) : Option (Except RunError Val × Machine) :=
  if m.exhausted then some (.error (.outOfFuel m.steps), m)
  else
    match m.step with
    -- The call is built by a tactic: written as a term it would keep its source position.
    | (.stepped, m') => by apply run?; exact m'
    | (.done v, m') => some (.ok v, m')
    | (.stuck err, m') => some (.error (.stuck m'.expr err m'.steps), m')
partial_fixpoint

/-- The answer of the run. One that goes on for ever never comes to what stands in its place. -/
def run (m : Machine) : Except RunError Val × Machine :=
  m.run?.getD (.error (.outOfFuel m.steps), m)

theorem exhausted_iff {m : Machine} :
    m.exhausted = true ↔ ∃ f, m.fuel = some f ∧ f ≤ m.steps ∧ m.expr.isValue = false := by
  cases hf : m.fuel <;> simp [exhausted, hf]

theorem exhausted_of_isValue {m : Machine} (hv : m.expr.isValue = true) : m.exhausted = false := by
  refine Bool.eq_false_iff.mpr fun hx => ?_
  obtain ⟨f, -, -, hnot⟩ := exhausted_iff.mp hx
  exact Bool.false_ne_true (hnot.symm.trans hv)

theorem exhausted_of_lt {m : Machine} (hlt : ∀ f ∈ m.fuel, m.steps < f) : m.exhausted = false := by
  refine Bool.eq_false_iff.mpr fun hx => ?_
  obtain ⟨f, hf, hle, -⟩ := exhausted_iff.mp hx
  exact Nat.not_le.mpr (hlt f hf) hle

theorem steps_lt_of_not_exhausted {f : Nat} {m : Machine} (hx : m.exhausted = false)
    (hv : m.expr.isValue = false) (hf : m.fuel = some f) : m.steps < f :=
  Nat.lt_of_not_le fun hle =>
    Bool.false_ne_true (hx.symm.trans (exhausted_iff.mpr ⟨f, hf, hle, hv⟩))

/-- A step goes on, or it finds the machine finished or stuck and leaves it as it is. -/
theorem step_cases (m : Machine) :
    (∃ e h, CellCalculus.step m.expr m.heap = (.next e, h) ∧
        m.step = (.stepped, { m with expr := e, heap := h, steps := m.steps + 1 })) ∨
      (∃ v, m.expr = .val v ∧ m.step = (.done v, m)) ∨
      ∃ err, CellCalculus.step m.expr m.heap = (.stuck m.expr err, m.heap) ∧
        m.step = (.stuck err, m) := by
  obtain ⟨e, h, fuel, steps⟩ := m
  rcases hs : CellCalculus.step e h with ⟨e' | v | ⟨e', err⟩, h'⟩
  · exact .inl ⟨e', h', rfl, by simp only [step, hs]⟩
  · obtain ⟨rfl, hh⟩ := step_value (congrArg Prod.fst hs)
    obtain rfl : h' = h := (congrArg Prod.snd hs).symm.trans hh
    exact .inr (.inl ⟨v, rfl, by simp only [step, hs]⟩)
  · obtain ⟨rfl, hh⟩ := step_stuck (congrArg Prod.fst hs)
    obtain rfl : h' = h := (congrArg Prod.snd hs).symm.trans hh
    exact .inr (.inr ⟨err, rfl, by simp only [step, hs]⟩)

section Runs

variable {m : Machine}

theorem run?_of_exhausted (hx : m.exhausted = true) :
    m.run? = some (.error (.outOfFuel m.steps), m) := by
  rw [run?, if_pos hx]

theorem run?_of_stepped {m' : Machine} (hx : m.exhausted = false)
    (hs : m.step = (.stepped, m')) : m.run? = m'.run? := by
  rw [run?, if_neg (by simp [hx]), hs]

theorem run?_of_done {v : Val} (hs : m.step = (.done v, m)) (hv : m.expr = .val v) :
    m.run? = some (.ok v, m) := by
  have hx : m.exhausted = false := exhausted_of_isValue (Expr.isValue_iff.mpr ⟨v, hv⟩)
  rw [run?, if_neg (by simp [hx]), hs]

theorem run?_of_stuck {err : StuckError} (hx : m.exhausted = false)
    (hs : m.step = (.stuck err, m)) :
    m.run? = some (.error (.stuck m.expr err m.steps), m) := by
  rw [run?, if_neg (by simp [hx]), hs]

/-- A limited machine answers, since every step brings it closer to the limit. -/
theorem run?_isSome {f : Nat} (hf : m.fuel = some f) : m.run?.isSome := by
  induction hleft : f - m.steps using Nat.strongRecOn generalizing m with
  | ind n ih =>
    cases hx : m.exhausted with
    | true =>
      rw [run?_of_exhausted hx]
      rfl
    | false =>
      rcases m.step_cases with ⟨e, h, hnext, hs⟩ | ⟨v, hv, hs⟩ | ⟨err, -, hs⟩
      · have hvalue := isValue_of_step_next (congrArg Prod.fst hnext)
        have hlt := steps_lt_of_not_exhausted hx hvalue hf
        rw [run?_of_stepped hx hs]
        exact ih (f - (m.steps + 1)) (by omega) hf rfl
      · rw [run?_of_done hs hv]
        rfl
      · rw [run?_of_stuck hx hs]
        rfl

theorem run?_eq_some_run {f : Nat} (hf : m.fuel = some f) : m.run? = some m.run := by
  obtain ⟨r, hr⟩ := Option.isSome_iff_exists.mp (run?_isSome hf)
  rw [run, hr, Option.getD_some]

end Runs

end Machine

end CellCalculus
