import CellCalculus.Proofs.InferenceSoundness
import CellCalculus.Proofs.Reducibility
import CellCalculus.Proofs.SelfNameCapture

/-!
# What acceptance promises

A program that the checker accepts in the empty environment, and whose functions do not use their
self-names, runs with an empty heap to a value of the shape its type asks for, or to the fault of a
partial operator. That no self-name is captured is enough, since an accepted program uses no other
ones. Without this, acceptance promises nothing: the checker gives a captured self-name the type of
the parameter that is called the same, and the machine gives it the closure.
-/

namespace CellCalculus

/-- Whether a value has the shape that the type asks for. Records and references leave no trace in
values. -/
def Ty.admits : Ty → Val → Bool
  | .int, v => v.toInt?.isSome
  | .bool, v => v.toBool?.isSome
  | .unit, v => decide (v = .unit)
  | .pair tag a b, v => match v with
    | .pair inner v₁ v₂ => decide (inner = tag) && a.admits v₁ && b.admits v₂
    | _ => false
  | .record a b, v => match v with
    | .pair .plain v₁ v₂ => a.admits v₁ && b.admits v₂
    | _ => false
  | .ref t, v => t.admits v
  | .arrow .., v => match v with
    | .closure .. => true
    | _ => false
  | .var _, _ => false

theorem admits_of_reducible {t : Ty} {v : Val} (hv : Reducible t v) : t.admits v = true := by
  induction t generalizing v with
  | int =>
    obtain ⟨n, rfl⟩ := hv
    rfl
  | bool =>
    obtain ⟨b, rfl⟩ := hv
    rfl
  | unit => exact decide_eq_true hv
  | pair tag a b iha ihb =>
    obtain ⟨v₁, v₂, rfl, ha, hb⟩ := hv
    change (decide (tag = tag) && a.admits v₁ && b.admits v₂) = true
    rw [iha ha, ihb hb, decide_eq_true rfl]
    rfl
  | record a b iha ihb =>
    obtain ⟨v₁, v₂, rfl, ha, hb⟩ := hv
    change (a.admits v₁ && b.admits v₂) = true
    rw [iha ha, ihb hb]
    rfl
  | ref t ih => exact ih hv
  | arrow a b _ _ =>
    obtain ⟨⟨self, param, body, rfl⟩, _⟩ := hv
    rfl
  | var x => exact hv.elim

theorem ends_of_typeOf {e : Expr} {t : Ty} (he : e.selfNameFree = true)
    (ht : typeOf .empty e = .ok t) : Ends (Reducible t) e := by
  have hends := ends_close (typeOf_empty_sound ht) he Valuation.models_empty
  rwa [Expr.close_empty] at hends

theorem selfNameFree_of_typeOf {e : Expr} {t : Ty} (ht : typeOf .empty e = .ok t)
    (hclosure : e.closureFree = true) (hcapture : e.capturesSelfName [] = false) :
    e.selfNameFree = true :=
  (typeOf_empty_sound ht).selfNameFree (fun _ hx => absurd rfl hx) hclosure hcapture

/-- An accepted program that captures no self-name gets stuck in partial operators only. -/
theorem accepted_stuck_isPartialFault {e e' e'' : Expr} {t : Ty} {n : Nat} {h : Heap}
    {err : StuckError} (hclosure : e.closureFree = true) (hcapture : e.capturesSelfName [] = false)
    (ht : typeOf .empty e = .ok t) (hc : configAfter n e .empty = some (e', h))
    (hs : (step e' h).1 = .stuck e'' err) : err.isPartialFault = true := by
  have he := selfNameFree_of_typeOf ht hclosure hcapture
  obtain ⟨rfl, hends⟩ := (ends_of_typeOf he ht).of_configAfter hc
  exact hends.isPartialFault_of_stuck hs

/-- `let x = 0 in 1 / x`. -/
def quotientByVariable : Expr := .letIn "x" (.int 0) (.binop .quot (.int 1) (.var "x"))

theorem quotientByVariable_stuck :
    quotientByVariable.closureFree = true ∧ quotientByVariable.capturesSelfName [] = false ∧
      typeOf .empty quotientByVariable = .ok .int ∧
      configAfter 2 quotientByVariable .empty =
        some (.binop .quot (.int 1) (.int 0), .empty) ∧
      (step (.binop .quot (.int 1) (.int 0)) .empty).1 =
        .stuck (.binop .quot (.int 1) (.int 0)) (.binaryMismatch .quot (.int 1) (.int 0)) ∧
      (StuckError.binaryMismatch .quot (.int 1) (.int 0)).isPartialFault = true := by
  have hclosure : quotientByVariable.closureFree = true := rfl
  have hcapture : quotientByVariable.capturesSelfName [] = false := rfl
  have ht : typeOf .empty quotientByVariable = .ok .int := by cbv
  have hc : configAfter 2 quotientByVariable .empty =
      some (.binop .quot (.int 1) (.int 0), .empty) := rfl
  have hs : (step (.binop .quot (.int 1) (.int 0)) .empty).1 =
      .stuck (.binop .quot (.int 1) (.int 0)) (.binaryMismatch .quot (.int 1) (.int 0)) := rfl
  exact ⟨hclosure, hcapture, ht, hc, hs, accepted_stuck_isPartialFault hclosure hcapture ht hc hs⟩

/-- `rec f x := f + 1` as a value. -/
def selfIncrement : Val := .closure (.named "f") (.named "x") (.binop .plus (.var "f") (.int 1))

/-- `(λf. rec f x := f + 1) 5 0`. -/
def capturedIncrement : Expr :=
  .app (.app (.lam "f" (.fn (.named "f") (.named "x") (.binop .plus (.var "f") (.int 1))))
    (.int 5)) (.int 0)

/-- In the body `f` is the parameter for the checker and the closure for the machine. -/
theorem capturedIncrement_stuck :
    capturedIncrement.closureFree = true ∧ typeOf .empty capturedIncrement = .ok .int ∧
      configAfter 4 capturedIncrement .empty =
        some (.binop .plus (.val selfIncrement) (.int 1), .empty) ∧
      (step (.binop .plus (.val selfIncrement) (.int 1)) .empty).1 =
        .stuck (.binop .plus (.val selfIncrement) (.int 1))
          (.binaryMismatch .plus selfIncrement (.int 1)) ∧
      (StuckError.binaryMismatch .plus selfIncrement (.int 1)).isPartialFault = false := by
  have ht : typeOf .empty capturedIncrement = .ok .int := by cbv
  exact ⟨rfl, ht, rfl, rfl, rfl⟩

/-- An accepted program without self-names leaves the heap empty, gets stuck in partial operators
only, and ends in nothing but a value of its type. -/
theorem accepted_result_admitted {e e' : Expr} {t : Ty} {n : Nat} {h : Heap}
    (he : e.selfNameFree = true) (ht : typeOf .empty e = .ok t)
    (hc : configAfter n e .empty = some (e', h)) :
    h = .empty ∧
      (∀ e'' err, (step e' h).1 = .stuck e'' err → err.isPartialFault = true) ∧
      ∀ v, e' = .val v → t.admits v = true := by
  obtain ⟨rfl, hends⟩ := (ends_of_typeOf he ht).of_configAfter hc
  refine ⟨rfl, fun e'' err hs => hends.isPartialFault_of_stuck hs, ?_⟩
  rintro v rfl
  exact admits_of_reducible hends.of_val

/-- `let x = 5 in fst (ref (ref (&x, 1), λy. y))`. -/
def nestedRefStruct : Expr :=
  .letIn "x" (.int 5) (.fst (.pair .ref (.pair .ref (.ref (.var "x")) (.int 1))
    (.lam "y" (.var "y"))))

theorem nestedRefStruct_result :
    nestedRefStruct.selfNameFree = true ∧
      typeOf .empty nestedRefStruct = .ok (.pair .ref (.ref .int) .int) ∧
      configAfter 7 nestedRefStruct .empty = some (.val (.pair .ref (.int 5) (.int 1)), .empty) ∧
      (∀ e err, (step (.val (.pair .ref (.int 5) (.int 1))) .empty).1 = .stuck e err →
        err.isPartialFault = true) ∧
      ∀ v, Expr.val (.pair .ref (.int 5) (.int 1)) = .val v →
        (Ty.pair .ref (.ref .int) .int).admits v = true := by
  have ht : typeOf .empty nestedRefStruct = .ok (.pair .ref (.ref .int) .int) := by cbv
  have hc : configAfter 7 nestedRefStruct .empty =
      some (.val (.pair .ref (.int 5) (.int 1)), .empty) := rfl
  exact ⟨rfl, ht, hc, (accepted_result_admitted rfl ht hc).2⟩

/-- An accepted program without self-names ends: beyond some limit no fuel is too little. -/
theorem accepted_terminates {e : Expr} {t : Ty} (he : e.selfNameFree = true)
    (ht : typeOf .empty e = .ok t) :
    ∃ n, ∀ fuel, n < fuel → ∀ steps,
      (Machine.run { expr := e, fuel := some fuel }).1 ≠ .error (.outOfFuel steps) :=
  (ends_of_typeOf he ht).exists_enough_fuel

/-- `(λf. f (f 1)) (λx. x + 1)`. -/
def twiceIncrement : Expr :=
  .app (.lam "f" (.app (.var "f") (.app (.var "f") (.int 1))))
    (.lam "x" (.binop .plus (.var "x") (.int 1)))

theorem twiceIncrement_terminates :
    twiceIncrement.selfNameFree = true ∧ typeOf .empty twiceIncrement = .ok .int ∧
      ∃ n, ∀ fuel, n < fuel → ∀ steps,
        (Machine.run { expr := twiceIncrement, fuel := some fuel }).1 ≠
          .error (.outOfFuel steps) := by
  have ht : typeOf .empty twiceIncrement = .ok .int := by cbv
  exact ⟨rfl, ht, accepted_terminates rfl ht⟩

end CellCalculus
