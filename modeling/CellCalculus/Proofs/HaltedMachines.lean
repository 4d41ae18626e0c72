import CellCalculus.Machine

/-!
# Machines that have halted

A head step that fails has not touched the heap. A step is stuck when the head step of its redex
fails, and then it has put the configuration together again as it was. So a machine that is finished
or stuck stays what it is: any number of further steps leave it alone and answer the same.
-/

namespace CellCalculus

/-- A step is stuck when its redex fails, and it hands back what it was given. -/
theorem step_eq_stuck_iff {e d : Expr} {h h' : Heap} {err : StuckError} :
    step e h = (.stuck d err, h') ↔ d = e ∧ h' = h ∧
      ∃ K r, decompose e = .redex K r ∧ (headStep r h).1 = .error err := by
  constructor
  · intro hs
    obtain ⟨rfl, hh⟩ := step_stuck (congrArg Prod.fst hs)
    obtain rfl : h' = h := (congrArg Prod.snd hs).symm.trans hh
    refine ⟨rfl, rfl, ?_⟩
    unfold step at hs
    split at hs
    · cases hs
    · next K r hd =>
      split at hs <;> cases hs
      next hr => exact ⟨K, r, hd, congrArg Prod.fst hr⟩
  · rintro ⟨rfl, rfl, K, r, hd, herr⟩
    have hr : headStep r h' = (.error err, h') := Prod.ext herr (headStep_error herr)
    simp only [step, hd, hr, fill_decompose hd]

namespace Machine

/-- The answers of so many steps in a row, and the machine that they leave behind. -/
def stepTimes : Nat → Machine → List Progress × Machine
  | 0, m => ([], m)
  | n + 1, m =>
      let (answer, m') := m.step
      let (answers, last) := stepTimes n m'
      (answer :: answers, last)

variable {m : Machine}

theorem step_of_val {v : Val} (hv : m.expr = .val v) : m.step = (.done v, m) := by
  obtain ⟨e, h, fuel, steps⟩ := m
  cases hv
  rfl

theorem step_of_stuck {d : Expr} {err : StuckError}
    (hstuck : (CellCalculus.step m.expr m.heap).1 = .stuck d err) : m.step = (.stuck err, m) := by
  obtain ⟨hd, hh⟩ := step_stuck hstuck
  have hs : CellCalculus.step m.expr m.heap = (.stuck m.expr err, m.heap) :=
    Prod.ext (hd ▸ hstuck) hh
  simp only [step, hs]

/-- A step that changes nothing can be repeated. -/
theorem stepTimes_of_step_eq {answer : Progress} (hs : m.step = (answer, m)) (n : Nat) :
    m.stepTimes n = (List.replicate n answer, m) := by
  induction n with
  | zero => rfl
  | succ n ih =>
    rw [stepTimes, hs]
    simp only [ih, List.replicate_succ]

/-- A head step that fails leaves the heap as it was, and a step that is stuck because of it hands
back the very configuration. A machine that is finished or stuck stays what it is, with its count of
steps, and answers the same however often it steps. -/
theorem failing_changes_nothing :
    (∀ r h err, (headStep r h).1 = .error err → (headStep r h).2 = h) ∧
    (∀ e h d h' err, CellCalculus.step e h = (.stuck d err, h') ↔ d = e ∧ h' = h ∧
      ∃ K r, decompose e = .redex K r ∧ (headStep r h).1 = .error err) ∧
    (∀ (m : Machine) v, m.expr = .val v →
      ∀ n, m.stepTimes n = (List.replicate n (.done v), m)) ∧
    ∀ (m : Machine) d err, (CellCalculus.step m.expr m.heap).1 = .stuck d err →
      ∀ n, m.stepTimes n = (List.replicate n (.stuck err), m) :=
  ⟨fun _ _ _ => headStep_error, fun _ _ _ _ _ => step_eq_stuck_iff,
    fun _ _ hv => stepTimes_of_step_eq (step_of_val hv),
    fun _ _ _ hstuck => stepTimes_of_step_eq (step_of_stuck hstuck)⟩

/-- A machine past its limit whose program frees a cell twice, in the second operand of a pair. -/
theorem freedTwice_changes_nothing :
    let e : Expr := .pair .plain (.var "x") (.free (.val (.loc ⟨0⟩)))
    let m : Machine := ⟨e, ⟨#[none, some (.int 5)]⟩, some 3, 7⟩
    (headStep (.free (.val (.loc ⟨0⟩))) m.heap).2 = m.heap ∧
      m.stepTimes 3 = (List.replicate 3 (.stuck (.invalidAddress (.loc ⟨0⟩))), m) ∧
      Machine.stepTimes 2 ⟨.int 5, m.heap, none, 7⟩ =
        ([.done (.int 5), .done (.int 5)], ⟨.int 5, m.heap, none, 7⟩) := by
  obtain ⟨hhead, -, hdone, hstuck⟩ := failing_changes_nothing
  exact ⟨hhead _ _ (.invalidAddress (.loc ⟨0⟩)) rfl, hstuck _ _ _ rfl 3, hdone _ _ rfl 2⟩

end Machine

end CellCalculus
