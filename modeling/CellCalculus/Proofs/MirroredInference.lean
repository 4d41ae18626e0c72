import CellCalculus.Inference
import CellCalculus.Proofs.MirroredRuns

/-!
# Inference in mirrored runs

Each typing rule treats types alike whatever their variables are called. So inference under an
environment and under the same one with its variables renamed are mirrored runs, as long as the
renaming also takes the variables that one of them makes to those of the other. An environment
without variables is its own renaming.
-/

namespace CellCalculus

open Check Function

/-- The second environment has the types of the first one with their variables renamed. -/
def TypeEnv.Renamed (f : Nat → Nat) (env env' : TypeEnv) : Prop :=
  ∀ x, env'.lookup? x = (env.lookup? x).map (Ty.rename f)

variable {f : Nat → Nat} {R : Checker → Checker → Prop} {env env' : TypeEnv}

theorem TypeEnv.Renamed.extend (henv : env.Renamed f env') (b : Binder) (t : Ty) :
    (env.extend b t).Renamed f (env'.extend b (t.rename f)) := by
  intro x
  rw [lookup?_extend, lookup?_extend]
  split
  · rfl
  · exact henv x

theorem TypeEnv.renamed_ground (f : Nat → Nat)
    (henv : ∀ x t, env.lookup? x = some t → t.vars = []) : env.Renamed f env := by
  intro x
  cases hx : env.lookup? x with
  | none => rfl
  | some t => rw [Option.map_some, Ty.rename_ground f (henv x t hx)]

theorem variableRule_mirrored (hR : Correspondence f R) (henv : env.Renamed f env') (x : String) :
    Mirrored f R (Ty.rename f) (variableRule env x) (variableRule env' x) := by
  unfold variableRule
  rw [henv x]
  cases env.lookup? x with
  | none => exact (mirrored_fail _ (.var x) (.unboundVariable x)).emit_bind _ _
  | some t => exact (mirrored_resolve hR t).emit_bind _ _

theorem referenceRule_mirrored (hR : Correspondence f R) (henv : env.Renamed f env') (e : Expr) :
    Mirrored f R (Ty.rename f) (referenceRule env e) (referenceRule env' e) := by
  unfold referenceRule
  split
  · next x => exact (variableRule_mirrored hR henv x).bind fun t => mirrored_pure f R _ (Ty.ref t)
  · exact mirrored_fail _ _ .illegalReference

theorem functionRule_mirrored (hR : Correspondence f R) {param : Binder}
    {body body' : TypeEnv → Check Ty} (henv : env.Renamed f env')
    (hbody : ∀ {env env' : TypeEnv}, env.Renamed f env' →
      Mirrored f R (Ty.rename f) (body env) (body' env')) :
    Mirrored f R (Ty.rename f) (functionRule env param body) (functionRule env' param body') :=
  (mirrored_fresh hR).bind fun t => (hbody (henv.extend param t)).bind fun result =>
    (mirrored_resolve hR t).bind fun u => mirrored_pure f R _ (Ty.arrow u result)

theorem applicationRule_mirrored (hR : Correspondence f R) (site : Expr) (func arg : Ty) :
    Mirrored f R (Ty.rename f) (applicationRule site func arg)
      (applicationRule site (func.rename f) (arg.rename f)) := by
  refine (mirrored_resolve hR func).bind fun known => ?_
  cases known with
  | arrow param result =>
    exact (mirrored_unifyAt hR site param arg).bind fun _ => mirrored_resolve hR result
  | var x =>
    exact (mirrored_fresh hR).bind fun result =>
      (mirrored_unifyAt hR site (.arrow arg result) func).bind fun _ => mirrored_resolve hR result
  | _ => exact mirrored_fail _ site (.notAFunction _)

theorem aggregateRule_mirrored (hR : Correspondence f R) (site : Expr) (tag : Tag)
    (first second : Ty) :
    Mirrored f R (Prod.map (Ty.rename f) (Ty.rename f)) (aggregateRule site tag first second)
      (aggregateRule site tag (first.rename f) (second.rename f)) :=
  (mirrored_resolve hR first).bind fun a => (mirrored_resolve hR second).bind fun b =>
    (mirrored_requireField hR site tag a).bind fun _ =>
      (mirrored_requireField hR site tag b).bind fun _ => mirrored_pure f R _ (a, b)

/-- The two components are inferred, checked as fields and put together by `mk`. -/
theorem aggregate_mirrored (hR : Correspondence f R) {m₁ m₂ m₁' m₂' : Check Ty} {site : Expr}
    {tag : Tag} {mk : Ty → Ty → Ty}
    (hmk : ∀ a b, (mk a b).rename f = mk (a.rename f) (b.rename f))
    (h₁ : Mirrored f R (Ty.rename f) m₁ m₁') (h₂ : Mirrored f R (Ty.rename f) m₂ m₂') :
    Mirrored f R (Ty.rename f)
      (do
        let a ← m₁
        let b ← m₂
        let (a, b) ← aggregateRule site tag a b
        return mk a b)
      (do
        let a ← m₁'
        let b ← m₂'
        let (a, b) ← aggregateRule site tag a b
        return mk a b) := by
  refine h₁.bind fun a => h₂.bind fun b => ?_
  refine (aggregateRule_mirrored hR site tag a b).bind fun ab => ?_
  have hpure := mirrored_pure f R (Ty.rename f) (mk ab.1 ab.2)
  rw [hmk] at hpure
  exact hpure

theorem projectionRule_mirrored (hR : Correspondence f R) (site : Expr) (side : Side)
    (operand : Ty) :
    Mirrored f R (Ty.rename f) (projectionRule site side operand)
      (projectionRule site side (operand.rename f)) := by
  refine (mirrored_resolve hR operand).bind fun known => ?_
  have hpick : ∀ a b : Ty, (side.pick (a, b)).rename f = side.pick (a.rename f, b.rename f) := by
    intro a b
    cases side <;> rfl
  cases known with
  | pair tag a b | record a b =>
    have hpure := mirrored_pure f R (Ty.rename f) (side.pick (a, b))
    rw [hpick] at hpure
    exact hpure
  | var x =>
    refine (mirrored_fresh hR).bind fun result => Mirrored.emit_bind ?_ _ _
    exact (mirrored_recordProjection hR ⟨.var x, result, side, site⟩).bind fun _ =>
      mirrored_pure f R _ result
  | _ => exact mirrored_fail _ site (.notAnAggregate _)

mutual

theorem inferVal_mirrored (hR : Correspondence f R) {env env' : TypeEnv}
    (henv : env.Renamed f env') :
    (v : Val) → Mirrored f R (Ty.rename f) (inferVal env v) (inferVal env' v)
  | .lit (.int _) => mirrored_pure f R _ Ty.int
  | .lit (.bool _) => mirrored_pure f R _ Ty.bool
  | .lit .unit => mirrored_pure f R _ Ty.unit
  | .lit (.loc l) => mirrored_fail _ (.val (.loc l)) .untypable
  | .closure self param body => by
    rw [inferVal, inferVal]
    exact functionRule_mirrored hR henv fun h => infer_mirrored hR h body
  | .pair tag v w => by
    rw [inferVal, inferVal]
    exact aggregate_mirrored hR (fun _ _ => rfl) (inferVal_mirrored hR henv v)
      (inferVal_mirrored hR henv w)

/-- By recursion on the expression, one rule after the other. -/
theorem infer_mirrored (hR : Correspondence f R) {env env' : TypeEnv}
    (henv : env.Renamed f env') :
    (e : Expr) → Mirrored f R (Ty.rename f) (infer env e) (infer env' e)
  | .val v => by
    rw [infer, infer]
    exact (inferVal_mirrored hR henv v).emit_bind _ _
  | .var x => by
    rw [infer, infer]
    exact variableRule_mirrored hR henv x
  | .fn self param body => by
    rw [infer, infer]
    exact (functionRule_mirrored hR henv fun h => infer_mirrored hR h body).emit_bind _ _
  | .app e₁ e₂ => by
    rw [infer, infer]
    refine Mirrored.emit_bind ?_ _ _
    exact (infer_mirrored hR henv e₁).bind fun func => (infer_mirrored hR henv e₂).bind fun arg =>
      applicationRule_mirrored hR (.app e₁ e₂) func arg
  | .unop op e => by
    rw [infer, infer]
    refine Mirrored.emit_bind ((infer_mirrored hR henv e).bind fun t => ?_) _ _
    have hunify := mirrored_unifyAt hR (.unop op e) op.type t
    have hpure := mirrored_pure f R (Ty.rename f) op.type
    rw [Ty.rename_ground f op.vars_type] at hunify hpure
    exact hunify.bind fun _ => hpure
  | .binop op e₁ e₂ => by
    rw [infer, infer]
    refine Mirrored.emit_bind ?_ _ _
    split
    · exact mirrored_fail _ (.binop op e₁ e₂) .untypable
    · next sig hsig =>
      obtain ⟨hleft, hright, hresult⟩ := BinaryOp.vars_signature hsig
      refine (infer_mirrored hR henv e₁).bind fun a => (infer_mirrored hR henv e₂).bind fun b => ?_
      have hunify₁ := mirrored_unifyAt hR (.binop op e₁ e₂) sig.left a
      have hunify₂ := mirrored_unifyAt hR (.binop op e₁ e₂) sig.right b
      have hpure := mirrored_pure f R (Ty.rename f) sig.result
      rw [Ty.rename_ground f hleft] at hunify₁
      rw [Ty.rename_ground f hright] at hunify₂
      rw [Ty.rename_ground f hresult] at hpure
      exact hunify₁.bind fun _ => hunify₂.bind fun _ => hpure
  | .ite c t e => by
    rw [infer, infer]
    refine Mirrored.emit_bind ((infer_mirrored hR henv c).bind fun cond => ?_) _ _
    refine (mirrored_unifyAt hR (.ite c t e) .bool cond).bind fun _ => ?_
    refine (infer_mirrored hR henv t).bind fun a => (infer_mirrored hR henv e).bind fun b => ?_
    exact (mirrored_unifyAt hR (.ite c t e) a b).bind fun _ => mirrored_resolve hR a
  | .pair tag e₁ e₂ => by
    rw [infer, infer]
    refine Mirrored.emit_bind ?_ _ _
    exact aggregate_mirrored hR (fun _ _ => rfl) (infer_mirrored hR henv e₁)
      (infer_mirrored hR henv e₂)
  | .record e₁ e₂ => by
    rw [infer, infer]
    refine Mirrored.emit_bind ?_ _ _
    exact aggregate_mirrored hR (fun _ _ => rfl) (infer_mirrored hR henv e₁)
      (infer_mirrored hR henv e₂)
  | .fst e => by
    rw [infer, infer]
    refine Mirrored.emit_bind ((infer_mirrored hR henv e).bind fun t => ?_) _ _
    exact projectionRule_mirrored hR (.fst e) .first t
  | .snd e => by
    rw [infer, infer]
    refine Mirrored.emit_bind ((infer_mirrored hR henv e).bind fun t => ?_) _ _
    exact projectionRule_mirrored hR (.snd e) .second t
  | .ref e => by
    rw [infer, infer]
    exact (referenceRule_mirrored hR henv e).emit_bind _ _
  | .alloc _ _ | .free _ | .load _ | .store _ _ => by
    rw [infer, infer]
    refine Mirrored.emit_bind ?_ _ _
    exact mirrored_fail _ _ .untypable

end

end CellCalculus
