import CellCalculus.Contraction
import CellCalculus.EvaluationContext

/-!
# Small steps

One step finds the next redex, contracts it and puts the result back. A step that fails hands back
the configuration it was given, heap included.
-/

namespace CellCalculus

inductive Step where
  | next (e : Expr)
  | value (v : Val)
  /-- No rule applies; the whole configuration and the reason. -/
  | stuck (e : Expr) (err : StuckError)
  deriving DecidableEq

def step (e : Expr) (h : Heap) : Step × Heap :=
  match decompose e with
  | .value v => (.value v, h)
  | .redex K r =>
      match headStep r h with
      | (.ok e', h') => (.next (K.fill e'), h')
      | (.error err, h') => (.stuck (K.fill r) err, h')

def Step.next? : Step → Option Expr
  | .next e => some e
  | _ => none

@[simp] theorem step_val (v : Val) (h : Heap) : step (.val v) h = (.value v, h) := rfl

theorem step_stuck {e e' : Expr} {h : Heap} {err : StuckError}
    (hs : (step e h).1 = .stuck e' err) : e' = e ∧ (step e h).2 = h := by
  unfold step at *
  cases hd : decompose e with
  | value v => simp [hd] at hs
  | redex K r =>
    cases hr : headStep r h with
    | mk answer h' =>
      cases answer with
      | ok e₁ => simp [hd, hr] at hs
      | error err₁ =>
        have hh := headStep_error (show (headStep r h).1 = .error err₁ by rw [hr])
        simp only [hd, hr, Step.stuck.injEq] at hs hh ⊢
        exact ⟨hs.1 ▸ fill_decompose hd, hh⟩

theorem step_value {e : Expr} {h : Heap} {v : Val} (hs : (step e h).1 = .value v) :
    e = .val v ∧ (step e h).2 = h := by
  cases hv : e.isValue with
  | true =>
    obtain ⟨w, rfl⟩ := Expr.isValue_iff.mp hv
    simpa using hs
  | false =>
    simp only [step, decompose_of_not_isValue hv] at hs
    split at hs <;> cases hs

theorem isValue_of_step_next {e e' : Expr} {h : Heap} (hs : (step e h).1 = .next e') :
    e.isValue = false := by
  cases hv : e.isValue with
  | false => rfl
  | true =>
    obtain ⟨v, rfl⟩ := Expr.isValue_iff.mp hv
    simp at hs

theorem isValue_of_step_stuck {e e' : Expr} {h : Heap} {err : StuckError}
    (hs : (step e h).1 = .stuck e' err) : e.isValue = false := by
  cases hv : e.isValue with
  | false => rfl
  | true =>
    obtain ⟨v, rfl⟩ := Expr.isValue_iff.mp hv
    simp at hs

/-- The configurations passed in at most `n` steps, each with what it came to. -/
def steps : Nat → Expr → Heap → List Step × Heap
  | 0, _, h => ([], h)
  | n + 1, e, h =>
      match step e h with
      | (.next e', h') => let (rest, last) := steps n e' h'; (.next e' :: rest, last)
      | (s, h') => ([s], h')

@[simp] theorem steps_zero (e : Expr) (h : Heap) : steps 0 e h = ([], h) := rfl

end CellCalculus
