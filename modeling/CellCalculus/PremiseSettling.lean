import CellCalculus.Inference

/-!
# Settling the premises

Once the whole expression is walked, the recorded projections are settled in passes, as a settled
one may fix the operand of another. A pass without progress takes the oldest operand to be a plain
pair. After that a field that is still open has its variables set to integers, each of them once;
integers are valid under either tag.
-/

namespace CellCalculus

open Check

/-- Equates the result of a projection with the component of its operand, now known to be `t`. -/
def settleProjection (p : ProjectionPremise) (t : Ty) : Check Unit :=
  match t.components? with
  | some components => unifyAt p.site p.result (p.side.pick components)
  | none => fail p.site (.notAnAggregate t)

/-- Settles the projections whose operands are known and hands back the others. -/
def settlePass : List ProjectionPremise → Check (List ProjectionPremise)
  | [] => return []
  | p :: rest => do
      match ← resolve p.operand with
      | .var _ => return p :: (← settlePass rest)
      | t =>
          settleProjection p t
          settlePass rest

/-- Takes the operand to be a plain pair of two valid fields. -/
def defaultOperand (p : ProjectionPremise) : Check Unit := do
  let a ← fresh
  let b ← fresh
  requireField p.site .plain a
  requireField p.site .plain b
  emit (.projectionDefaulted (.pair .plain a b))
  unifyAt p.site (.pair .plain a b) p.operand

/-- Those that are still open after so many passes at most. -/
def settlePasses : Nat → List ProjectionPremise → Check (List ProjectionPremise)
  | _, [] => return []
  | 0, p :: rest => return p :: rest
  | n + 1, p :: rest => do
      match ← settlePass (p :: rest) with
      | [] => return []
      | oldest :: others => do
          if others.length = rest.length then defaultOperand oldest
          settlePasses n (oldest :: others)

/-- A pass without progress makes the next one settle a projection, so this many leave none. -/
def settleProjections : Check Unit := do
  let recorded ← takeProjections
  let _ ← settlePasses (2 * recorded.length) recorded

def demandField (p : FieldPremise) (t : Ty) : Check Unit :=
  if fieldValid p.tag t then return () else fail p.site (.invalidField t p.tag)

def settleField (p : FieldPremise) : Check Unit := do
  let t ← resolve p.ty
  if fieldValidity p.tag t = none then
    t.vars.eraseDups.forM fun x => unifyAt p.site .int (.var x)
    let t ← resolve p.ty
    emit (.fieldDefaulted t)
    demandField p t
  else demandField p t

def settleFields : Check Unit := do
  (← takeFields).forM settleField

def check (env : TypeEnv) (e : Expr) : Check Ty := do
  let t ← infer env e
  settleProjections
  settleFields
  let t ← resolve t
  emit (.typed t)
  return t

def typeOf (env : TypeEnv) (e : Expr) : Except TypeError Ty := (check env e {}).answer

end CellCalculus
