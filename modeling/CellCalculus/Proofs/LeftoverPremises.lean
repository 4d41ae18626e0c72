import Mathlib
import CellCalculus.Proofs.JointSettling

/-!
# Premises left behind by a failed check

A checker keeps its counter, its substitution and its premises from one check to the next. What a
check finds out about its own variables does not matter later, but a check that fails leaves
premises behind, and the next one settles these before its own. `Reached.settlePremises_ok_iff` says
that this goes well exactly if the checker answers whatever it is asked as a new one would.
-/

namespace CellCalculus

open Check Function

/-- The states of a checker that has been asked under environments without type variables only. -/
inductive Checker.Reached : Checker → Prop
  | start : Reached {}
  | asked {c env} (e : Expr) : Reached c → (∀ x t, env.lookup? x = some t → t.vars = []) →
      Reached (check env e c).checker

theorem Checker.Reached.tidy {c : Checker} (hc : c.Reached) : c.Tidy := by
  induction hc with
  | start => exact tidy_start
  | asked e _ henv ih =>
    exact (ih.run fun hf _ => check_mirrored hf (TypeEnv.renamed_ground _ henv) e).1

/-- Beside premises that can be settled, a check goes as it goes by itself. -/
theorem Checker.Tidy.check_answer {c : Checker} (hc : c.Tidy)
    (hpremises : (settlePremises c).answer = .ok ()) {env : TypeEnv}
    (henv : ∀ x t, env.lookup? x = some t → t.vars = []) (e : Expr) :
    ∃ g, Injective g ∧ (check env e c).answer = renameAnswer g (Ty.rename g) (typeOf env e) := by
  obtain ⟨f, g, -, hanswer, haligned⟩ := hc.infer_aligned henv e
  have hthere : (check env e c).answer = ((check env e).result c).1 := rfl
  have halone : typeOf env e = ((check env e).result {}).1 := rfl
  rw [hthere, halone, check_result, check_result]
  cases ht : (infer env e {}).answer with
  | error err =>
    rw [ht] at hanswer
    rw [result_bind_of_error (congrArg (·, _) ht), result_bind_of_error (congrArg (·, _) hanswer)]
    exact ⟨g, haligned.right.injective, rfl⟩
  | ok t =>
    rw [ht] at hanswer
    rw [result_bind_of_ok (congrArg (·, _) ht), result_bind_of_ok (congrArg (·, _) hanswer)]
    have hleft : settlePremises.result c = (.ok (), (settlePremises c).checker) :=
      congrArg (·, _) hpremises
    have hjoint := joint_settlePremises haligned
    rw [hleft] at hjoint
    generalize hy : settlePremises.result (infer env e {}).checker = y at hjoint
    generalize hz : settlePremises.result (infer env e c).checker = z at hjoint
    cases hjoint with
    | @right g' _ _ _ _ hinjective =>
      rw [result_bind_of_error hy, result_bind_of_error hz]
      exact ⟨g', hinjective, rfl⟩
    | @ok _ g' _ _ _ _ hg haligned' =>
      rw [result_bind_of_ok hy, result_bind_of_ok hz]
      have hrename : t.rename g = t.rename g' :=
        (infer_below henv Checker.tidy_start ht).rename_congr fun x hx => (hg.agrees x hx).symm
      refine ⟨g', haligned'.right.injective, congrArg Except.ok ?_⟩
      rw [hrename]
      exact haligned'.right.mirrors t

/-- An integer needs no premise, so a check of one fails only on what was left behind. -/
theorem settlePremises_of_check_int {c : Checker} {t : Ty} (n : Int64)
    (h : (check .empty (.val (.lit (.int n))) c).answer = .ok t) :
    (settlePremises c).answer = .ok () := by
  have hresult : ((check .empty (.val (.lit (.int n)))).result c).1 = .ok t := h
  have hinfer : (infer .empty (.val (.lit (.int n)))).result c = (.ok .int, c) := by
    rw [infer, inferVal]
    rfl
  rw [check_result, result_bind_of_ok hinfer] at hresult
  rcases hs : settlePremises.result c with ⟨err | _, c'⟩
  · rw [result_bind_of_error hs] at hresult
    cases hresult
  · exact (Prod.mk.inj hs).1

/-- The checker answers everything as a new one does, up to the names of type variables, exactly if
what it still has recorded can be settled. -/
theorem Checker.Reached.settlePremises_ok_iff {c : Checker} (hc : c.Reached) :
    (settlePremises c).answer = .ok () ↔
      ∀ env e, (∀ x t, env.lookup? x = some t → t.vars = []) →
        ∃ g, Injective g ∧
          (check env e c).answer = renameAnswer g (Ty.rename g) (typeOf env e) := by
  refine ⟨fun h env e henv => hc.tidy.check_answer h henv e, fun h => ?_⟩
  have hground : ∀ x t, TypeEnv.empty.lookup? x = some t → t.vars = [] := fun _ _ hx => nomatch hx
  obtain ⟨g, -, hanswer⟩ := h .empty (.val (.lit (.int 1))) hground
  exact settlePremises_of_check_int 1 hanswer

/-- `λx. (fst x, y)`: the projection is recorded before the unbound name is found. -/
def projectionBesideUnbound : Expr :=
  .lam "x" (.pair .plain (.fst (.var "x")) (.var "y"))

/-- Here the projection can be settled, its operand being a plain pair by default. -/
theorem projectionBesideUnbound_recovered :
    (check .empty projectionBesideUnbound {}).answer = .error ⟨.var "y", .unboundVariable "y"⟩ ∧
      (check .empty projectionBesideUnbound {}).checker.Reached ∧
      ∀ env e, (∀ x t, env.lookup? x = some t → t.vars = []) →
        ∃ g, Injective g ∧
          (check env e (check .empty projectionBesideUnbound {}).checker).answer =
            renameAnswer g (Ty.rename g) (typeOf env e) := by
  have hreached : (check .empty projectionBesideUnbound {}).checker.Reached :=
    .asked _ .start fun _ _ hx => nomatch hx
  exact ⟨by cbv, hreached, hreached.settlePremises_ok_iff.mp (by cbv)⟩

/-- `λx. (fst x, (-x, y))`: after the projection is recorded its operand turns out an integer, and
then the unbound name is found. -/
def projectionFromInteger : Expr :=
  .lam "x" (.pair .plain (.fst (.var "x")) (.pair .plain (.unop .minus (.var "x")) (.var "y")))

/-- The next check fails on the projection, though it was asked about an integer. -/
theorem projectionFromInteger_leftover :
    (check .empty projectionFromInteger {}).answer = .error ⟨.var "y", .unboundVariable "y"⟩ ∧
      (check .empty (.val (.lit (.int 1))) (check .empty projectionFromInteger {}).checker).answer =
        .error ⟨.fst (.var "x"), .notAnAggregate .int⟩ ∧
      typeOf .empty (.val (.lit (.int 1))) = .ok .int := by
  refine ⟨?_, ?_, ?_⟩ <;> cbv

end CellCalculus
