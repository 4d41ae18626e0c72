import CellCalculus.Proofs.CountedRuns
import CellCalculus.Proofs.StepUnderFrame

/-!
# Runs that end

`Ends P e` says that `e` runs, with the heap empty all along, to a value with `P` or to the fault of
a partial operator. To run an operand in a frame is to run it by itself and then to go on from its
value (`Ends.bind`). What a run like this passes ends as well, and enough fuel sees it to its end.
-/

namespace CellCalculus

/-- Whether the operator is defined on some integers and undefined on others. -/
def BinaryOp.isPartial : BinaryOp → Bool
  | .quot | .rem | .shiftL | .shiftR => true
  | _ => false

/-- Whether the error is that of a partial operator on two integers. -/
def StuckError.isPartialFault : StuckError → Bool
  | .binaryMismatch op (.lit (.int _)) (.lit (.int _)) => op.isPartial
  | _ => false

inductive Ends (P : Val → Prop) : Expr → Prop
  | value {v} : P v → Ends P (.val v)
  | fault {e err} : step e .empty = (.stuck e err, .empty) → err.isPartialFault = true → Ends P e
  | step {e e'} : step e .empty = (.next e', .empty) → Ends P e' → Ends P e

namespace Ends

variable {P Q R : Val → Prop}

theorem of_val {v : Val} (h : Ends P (.val v)) : P v := by
  cases h with
  | value hv => exact hv
  | fault hs _ => cases hs
  | step hs _ => cases hs

theorem of_contract {r e : Expr} (hr : decompose r = .redex [] r)
    (hc : contract r = .ok (.expr e)) (he : Ends P e) : Ends P r :=
  .step (step_of_contract hr hc .empty) he

theorem of_contract_error {r : Expr} {err : StuckError} (hr : decompose r = .redex [] r)
    (hc : contract r = .error err) (herr : err.isPartialFault = true) : Ends P r :=
  .fault (step_of_contract_error hr hc .empty) herr

theorem bind {F : Frame} {e : Expr} (h : Ends P e)
    (hk : ∀ v, P v → Ends Q (F.fill (.val v))) : Ends Q (F.fill e) := by
  induction h with
  | value hv => exact hk _ hv
  | @fault e err hs herr =>
    have he : e.isValue = false := isValue_of_step_stuck (congrArg Prod.fst hs)
    refine .fault ?_ herr
    rw [step_fill F .empty he, hs]
    rfl
  | @step e e' hs _ ih =>
    have he : e.isValue = false := isValue_of_step_next (congrArg Prod.fst hs)
    refine .step ?_ ih
    rw [step_fill F .empty he, hs]
    rfl

/-- Of two operands the second one runs first. -/
theorem bind₂ {F : Frame} {G : Val → Frame} {e₁ e₂ : Expr} (h₂ : Ends Q e₂) (h₁ : Ends P e₁)
    (hmeet : ∀ w, F.fill (.val w) = (G w).fill e₁)
    (hk : ∀ v w, P v → Q w → Ends R ((G w).fill (.val v))) : Ends R (F.fill e₂) := by
  refine h₂.bind fun w hw => ?_
  rw [hmeet w]
  exact h₁.bind fun v hv => hk v w hv hw

theorem of_configAfter {n : Nat} {e e' : Expr} {h : Heap} (he : Ends P e)
    (hc : configAfter n e .empty = some (e', h)) : h = .empty ∧ Ends P e' := by
  refine configAfter_keeps (J := fun d k => k = .empty ∧ Ends P d) ?_ ⟨rfl, he⟩ hc
  rintro d _ d' k' ⟨rfl, hd⟩ hs
  cases hd with
  | value _ => cases hs
  | fault hstuck _ =>
    rw [hs] at hstuck
    cases hstuck
  | step hnext hd₁ =>
    rw [hs] at hnext
    cases hnext
    exact ⟨rfl, hd₁⟩

theorem isPartialFault_of_stuck {e e' : Expr} {err : StuckError} (he : Ends P e)
    (hs : (CellCalculus.step e .empty).1 = .stuck e' err) : err.isPartialFault = true := by
  cases he with
  | value _ => cases hs
  | fault hstuck herr =>
    rw [hstuck] at hs
    cases hs
    exact herr
  | step hnext _ =>
    rw [hnext] at hs
    cases hs

theorem exists_last {e : Expr} (he : Ends P e) :
    ∃ n e', configAfter n e .empty = some (e', .empty) ∧
      ∀ e'', (CellCalculus.step e' .empty).1 ≠ .next e'' := by
  induction he with
  | @value v _ => exact ⟨0, .val v, rfl, fun e'' hs => by cases hs⟩
  | @fault e err hs _ =>
    refine ⟨0, e, rfl, fun e'' hnext => ?_⟩
    rw [hs] at hnext
    cases hnext
  | step hs _ ih =>
    obtain ⟨n, e', hc, hlast⟩ := ih
    exact ⟨n + 1, e', (configAfter_succ_of_step n hs).trans hc, hlast⟩

/-- Beyond the length of the run no fuel is too little. -/
theorem exists_enough_fuel {e : Expr} (he : Ends P e) :
    ∃ n, ∀ fuel, n < fuel → ∀ steps,
      (Machine.run { expr := e, fuel := some fuel }).1 ≠ .error (.outOfFuel steps) := by
  obtain ⟨n, e', hc, hlast⟩ := he.exists_last
  refine ⟨n, fun fuel hn steps => ?_⟩
  rw [Machine.run_of_configAfter hc (Nat.le_of_lt hn)]
  exact Machine.run_ne_outOfFuel hlast hn steps

end Ends

end CellCalculus
