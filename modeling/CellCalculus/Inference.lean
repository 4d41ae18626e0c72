import CellCalculus.Checker

/-!
# Inference

One typing rule for each construct. A function binds its parameter and not its self-name, a
reference is typed over a variable only, and heap operations have no rule at all. A type that comes
back may be less resolved than the state knows by then, so a rule resolves it where it looks at it.
-/

namespace CellCalculus

open Check

def variableRule (env : TypeEnv) (x : String) : Check Ty := do
  emit (.inferring (.var x))
  match env.lookup? x with
  | some t => resolve t
  | none => fail (.var x) (.unboundVariable x)

def referenceRule (env : TypeEnv) : Expr → Check Ty
  | .var x => return .ref (← variableRule env x)
  | e => fail (.ref e) .illegalReference

def functionRule (env : TypeEnv) (param : Binder) (body : TypeEnv → Check Ty) : Check Ty := do
  let t ← fresh
  let result ← body (env.extend param t)
  return .arrow (← resolve t) result

def applicationRule (site : Expr) (func arg : Ty) : Check Ty := do
  match ← resolve func with
  | .arrow param result =>
      unifyAt site param arg
      resolve result
  | .var _ =>
      let result ← fresh
      unifyAt site (.arrow arg result) func
      resolve result
  | t => fail site (.notAFunction t)

/-- The types of the two components of an aggregate, which both have to be valid fields. -/
def aggregateRule (site : Expr) (tag : Tag) (first second : Ty) : Check (Ty × Ty) := do
  let first ← resolve first
  let second ← resolve second
  requireField site tag first
  requireField site tag second
  return (first, second)

/-- A projection from an operand that may turn out an aggregate later is put off. -/
def projectionRule (site : Expr) (side : Side) (operand : Ty) : Check Ty := do
  match ← resolve operand with
  | .pair _ a b | .record a b => return side.pick (a, b)
  | .var x =>
      let result ← fresh
      emit (.projectionDeferred (.var x))
      recordProjection ⟨.var x, result, side, site⟩
      return result
  | t => fail site (.notAnAggregate t)

mutual

/-- The type of a value; a component of a pair value is blamed as a value of its own. -/
def inferVal (env : TypeEnv) : Val → Check Ty
  | .lit (.int _) => return .int
  | .lit (.bool _) => return .bool
  | .lit .unit => return .unit
  | .lit (.loc l) => fail (.val (.loc l)) .untypable
  | .closure _ param body => functionRule env param fun env => infer env body
  | .pair tag v w => do
      let a ← inferVal env v
      let b ← inferVal env w
      let (a, b) ← aggregateRule (.val (.pair tag v w)) tag a b
      return .pair tag a b

def infer (env : TypeEnv) : Expr → Check Ty
  | .val v => do
      emit (.inferring (.val v))
      inferVal env v
  | .var x => variableRule env x
  | .fn self param body => do
      emit (.inferring (.fn self param body))
      functionRule env param fun env => infer env body
  | .app e₁ e₂ => do
      emit (.inferring (.app e₁ e₂))
      let func ← infer env e₁
      let arg ← infer env e₂
      applicationRule (.app e₁ e₂) func arg
  | .unop op e => do
      emit (.inferring (.unop op e))
      let t ← infer env e
      unifyAt (.unop op e) op.type t
      return op.type
  | .binop op e₁ e₂ => do
      emit (.inferring (.binop op e₁ e₂))
      match op.signature? with
      | none => fail (.binop op e₁ e₂) .untypable
      | some sig =>
          let a ← infer env e₁
          let b ← infer env e₂
          unifyAt (.binop op e₁ e₂) sig.left a
          unifyAt (.binop op e₁ e₂) sig.right b
          return sig.result
  | .ite c t f => do
      emit (.inferring (.ite c t f))
      let cond ← infer env c
      unifyAt (.ite c t f) .bool cond
      let a ← infer env t
      let b ← infer env f
      unifyAt (.ite c t f) a b
      resolve a
  | .pair tag e₁ e₂ => do
      emit (.inferring (.pair tag e₁ e₂))
      let a ← infer env e₁
      let b ← infer env e₂
      let (a, b) ← aggregateRule (.pair tag e₁ e₂) tag a b
      return .pair tag a b
  | .record e₁ e₂ => do
      emit (.inferring (.record e₁ e₂))
      let a ← infer env e₁
      let b ← infer env e₂
      let (a, b) ← aggregateRule (.record e₁ e₂) .plain a b
      return .record a b
  | .fst e => do
      emit (.inferring (.fst e))
      let t ← infer env e
      projectionRule (.fst e) .first t
  | .snd e => do
      emit (.inferring (.snd e))
      let t ← infer env e
      projectionRule (.snd e) .second t
  | .ref e => do
      emit (.inferring (.ref e))
      referenceRule env e
  | .alloc e₁ e₂ => do
      emit (.inferring (.alloc e₁ e₂))
      fail (.alloc e₁ e₂) .untypable
  | .free e => do
      emit (.inferring (.free e))
      fail (.free e) .untypable
  | .load e => do
      emit (.inferring (.load e))
      fail (.load e) .untypable
  | .store e₁ e₂ => do
      emit (.inferring (.store e₁ e₂))
      fail (.store e₁ e₂) .untypable

end

end CellCalculus
