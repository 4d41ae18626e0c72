import Mathlib
import CellCalculus.Proofs.InferenceSoundness
import CellCalculus.Proofs.LeftoverPremises

/-!
# Checks one after the other

A check that succeeds leaves no premise behind, and what it found out is about variables that no
later check mentions. Of all that the checker keeps only the counter still matters: it is where the
numbering of the variables goes on.
-/

namespace CellCalculus

open Check Function

/-- The states of a checker that has succeeded each time, under environments without type variables
only. -/
inductive Checker.Answered : Checker → Prop
  | start : Answered {}
  | asked {c env e t} : Answered c → (∀ x t, env.lookup? x = some t → t.vars = []) →
      (check env e c).answer = .ok t → Answered (check env e c).checker

namespace Checker.Answered

variable {c : Checker}

theorem reached (hc : c.Answered) : c.Reached := by
  induction hc with
  | start => exact .start
  | asked _ henv _ ih => exact .asked _ ih henv

theorem premiseless (hc : c.Answered) : c.fields = [] ∧ c.projections = [] := by
  cases hc with
  | start => exact ⟨rfl, rfl⟩
  | asked _ _ ht => exact check_leaves_none ⟨ht, rfl⟩

/-- The state holds nothing but a copy of the start, which lies beyond the variables made so far. -/
theorem copies_start (hc : c.Answered) : Copies (c.nextVar + ·) {} c where
  mirrors := hc.reached.tidy.mirrors_start
  fields := hc.premiseless.1
  projections := hc.premiseless.2

/-- After checks that succeeded, every answer is the one of a new checker with its type variables
counted from where the counter stands. -/
theorem check_answer_eq (hc : c.Answered) {env : TypeEnv}
    (henv : ∀ x t, env.lookup? x = some t → t.vars = []) (e : Expr) :
    (check env e c).answer =
      renameAnswer (c.nextVar + ·) (Ty.rename (c.nextVar + ·)) (typeOf env e) := by
  have hinjective : Injective (c.nextVar + ·) := fun _ _ hxy => Nat.add_left_cancel hxy
  have hsupplies : Supplies (c.nextVar + ·) {} (check env e {}).checker c :=
    fun x _ _ => Nat.add_comm c.nextVar x
  have hmirrored := check_mirrored hinjective (TypeEnv.renamed_ground _ henv) e
  exact (hmirrored.run {} c hc.copies_start hsupplies).1

end Checker.Answered

/-- `λx. x x`. -/
def selfApplication : Expr := .lam "x" (.app (.var "x") (.var "x"))

/-- `λp. fst p`, whose operand is a plain pair of integers by default. -/
def firstComponent : Expr := .lam "p" (.fst (.var "p"))

/-- The four variables made for the first function count on in the error about the second one. -/
theorem selfApplication_after_firstComponent :
    (check .empty firstComponent {}).answer = .ok (.arrow (.pair .plain .int .int) .int) ∧
      (check .empty firstComponent {}).checker.Answered ∧
      (check .empty firstComponent {}).checker.nextVar = 4 ∧
      typeOf .empty selfApplication =
        .error ⟨.app (.var "x") (.var "x"), .occursCheck 0 (.arrow (.var 0) (.var 1))⟩ ∧
      (check .empty selfApplication (check .empty firstComponent {}).checker).answer =
        .error ⟨.app (.var "x") (.var "x"), .occursCheck 4 (.arrow (.var 4) (.var 5))⟩ := by
  have hground : ∀ x t, TypeEnv.empty.lookup? x = some t → t.vars = [] := fun _ _ hx => nomatch hx
  have hfirst : (check .empty firstComponent {}).answer =
      .ok (.arrow (.pair .plain .int .int) .int) := by
    cbv
  have hanswered : (check .empty firstComponent {}).checker.Answered :=
    .asked .start hground hfirst
  have hcount : (check .empty firstComponent {}).checker.nextVar = 4 := by cbv
  have hself : typeOf .empty selfApplication =
      .error ⟨.app (.var "x") (.var "x"), .occursCheck 0 (.arrow (.var 0) (.var 1))⟩ := by
    cbv
  have hlater := hanswered.check_answer_eq hground selfApplication
  rw [hself, hcount] at hlater
  exact ⟨hfirst, hanswered, hcount, hself, hlater⟩

end CellCalculus
