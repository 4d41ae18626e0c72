import CellCalculus.Inference
import CellCalculus.Proofs.CheckerGuarantees
import CellCalculus.Proofs.ExpressionParts

/-!
# Programs that need no premises

Only projections and aggregates make the checker put a premise off. A program is free of either kind
when no expression in it is of that kind, bodies of closures and values included.
-/

namespace CellCalculus

open Check

namespace Expr

def isProjection : Expr → Bool
  | .fst _ | .snd _ => true
  | _ => false

def isAggregate : Expr → Bool
  | .pair .. | .record .. | .val (.pair ..) => true
  | _ => false

def projectionFree (e : Expr) : Bool := e.everywhere fun e => !e.isProjection

def aggregateFree (e : Expr) : Bool := e.everywhere fun e => !e.isAggregate

end Expr

theorem keeps_variableRule_fields (env : TypeEnv) (x : String) :
    (variableRule env x).Keeps Checker.fields := by
  refine (keeps_emit _ _).bind fun _ => ?_
  split
  · exact keeps_resolve _ _
  · exact keeps_fail _ _ _

theorem keeps_referenceRule_fields (env : TypeEnv) (e : Expr) :
    (referenceRule env e).Keeps Checker.fields := by
  unfold referenceRule
  split
  · exact (keeps_variableRule_fields env _).bind fun t => keeps_pure _ _
  · exact keeps_fail _ _ _

theorem keeps_functionRule_fields {env : TypeEnv} {param : Binder} {body : TypeEnv → Check Ty}
    (hbody : ∀ env, (body env).Keeps Checker.fields) :
    (functionRule env param body).Keeps Checker.fields := by
  refine (keeps_fresh fun _ _ => rfl).bind fun t => ?_
  refine (hbody (env.extend param t)).bind fun result => ?_
  exact (keeps_resolve t _).bind fun u => keeps_pure _ _

theorem keeps_applicationRule_fields (site : Expr) (func arg : Ty) :
    (applicationRule site func arg).Keeps Checker.fields := by
  refine (keeps_resolve func _).bind fun known => ?_
  split
  · exact (keeps_unifyAt _ _ _ fun _ _ => rfl).bind fun _ => keeps_resolve _ _
  · refine (keeps_fresh fun _ _ => rfl).bind fun result => ?_
    exact (keeps_unifyAt _ _ _ fun _ _ => rfl).bind fun _ => keeps_resolve _ _
  · exact keeps_fail _ _ _

theorem keeps_projectionRule_fields (site : Expr) (side : Side) (operand : Ty) :
    (projectionRule site side operand).Keeps Checker.fields := by
  refine (keeps_resolve operand _).bind fun known => ?_
  split
  · exact keeps_pure _ _
  · exact keeps_pure _ _
  · refine (keeps_fresh fun _ _ => rfl).bind fun result => (keeps_emit _ _).bind fun _ => ?_
    exact (keeps_recordProjection _ fun _ _ => rfl).bind fun _ => keeps_pure _ _
  · exact keeps_fail _ _ _

mutual

theorem keeps_inferVal_fields (env : TypeEnv) : (v : Val) → (Expr.val v).aggregateFree = true →
    (inferVal env v).Keeps Checker.fields
  | .lit (.int _), _ | .lit (.bool _), _ | .lit .unit, _ => keeps_pure _ _
  | .lit (.loc _), _ => keeps_fail _ _ _
  | .closure self param body, h => by
    simp only [Expr.aggregateFree, Expr.everywhere, Val.everywhere, Bool.and_eq_true] at h
    rw [inferVal]
    exact keeps_functionRule_fields fun env => keeps_infer_fields env body h.2
  | .pair tag v w, h => by
    simp [Expr.aggregateFree, Expr.everywhere, Val.everywhere, Expr.isAggregate] at h

/-- Without aggregates no field is recorded. -/
theorem keeps_infer_fields (env : TypeEnv) : (e : Expr) → e.aggregateFree = true →
    (infer env e).Keeps Checker.fields
  | .val v, h => by
    rw [infer]
    exact (keeps_emit _ _).bind fun _ => keeps_inferVal_fields env v h
  | .var x, _ => by
    rw [infer]
    exact keeps_variableRule_fields env x
  | .fn self param body, h => by
    simp only [Expr.aggregateFree, Expr.everywhere, Bool.and_eq_true] at h
    rw [infer]
    refine (keeps_emit _ _).bind fun _ => ?_
    exact keeps_functionRule_fields fun env => keeps_infer_fields env body h.2
  | .app e₁ e₂, h => by
    simp only [Expr.aggregateFree, Expr.everywhere, Bool.and_eq_true] at h
    rw [infer]
    refine (keeps_emit _ _).bind fun _ => (keeps_infer_fields env e₁ h.1.2).bind fun func => ?_
    exact (keeps_infer_fields env e₂ h.2).bind fun arg => keeps_applicationRule_fields _ func arg
  | .unop op e, h => by
    simp only [Expr.aggregateFree, Expr.everywhere, Bool.and_eq_true] at h
    rw [infer]
    refine (keeps_emit _ _).bind fun _ => (keeps_infer_fields env e h.2).bind fun t => ?_
    exact (keeps_unifyAt _ _ _ fun _ _ => rfl).bind fun _ => keeps_pure _ _
  | .binop op e₁ e₂, h => by
    simp only [Expr.aggregateFree, Expr.everywhere, Bool.and_eq_true] at h
    rw [infer]
    refine (keeps_emit _ _).bind fun _ => ?_
    split
    · exact keeps_fail _ _ _
    · refine (keeps_infer_fields env e₁ h.1.2).bind fun a => ?_
      refine (keeps_infer_fields env e₂ h.2).bind fun b => ?_
      refine (keeps_unifyAt _ _ _ fun _ _ => rfl).bind fun _ => ?_
      exact (keeps_unifyAt _ _ _ fun _ _ => rfl).bind fun _ => keeps_pure _ _
  | .ite c t f, h => by
    simp only [Expr.aggregateFree, Expr.everywhere, Bool.and_eq_true] at h
    rw [infer]
    refine (keeps_emit _ _).bind fun _ => (keeps_infer_fields env c h.1.1.2).bind fun cond => ?_
    refine (keeps_unifyAt _ _ _ fun _ _ => rfl).bind fun _ => ?_
    refine (keeps_infer_fields env t h.1.2).bind fun a => ?_
    refine (keeps_infer_fields env f h.2).bind fun b => ?_
    exact (keeps_unifyAt _ _ _ fun _ _ => rfl).bind fun _ => keeps_resolve _ _
  | .pair tag e₁ e₂, h => by simp [Expr.aggregateFree, Expr.everywhere, Expr.isAggregate] at h
  | .record e₁ e₂, h => by simp [Expr.aggregateFree, Expr.everywhere, Expr.isAggregate] at h
  | .fst e, h | .snd e, h => by
    simp only [Expr.aggregateFree, Expr.everywhere, Bool.and_eq_true] at h
    rw [infer]
    refine (keeps_emit _ _).bind fun _ => (keeps_infer_fields env e h.2).bind fun t => ?_
    exact keeps_projectionRule_fields _ _ t
  | .ref e, _ => by
    rw [infer]
    exact (keeps_emit _ _).bind fun _ => keeps_referenceRule_fields env e
  | .alloc _ _, _ | .free _, _ | .load _, _ | .store _ _, _ => by
    rw [infer]
    exact (keeps_emit _ _).bind fun _ => keeps_fail _ _ _

end

end CellCalculus
