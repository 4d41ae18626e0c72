import CellCalculus.OperatorEvaluation
import CellCalculus.ValueSubstitution

/-!
# Contraction of a redex

A redex either contracts to an expression by itself or asks the heap for something, and then the
answer takes its place. Operands are inspected before the rule, the left one first; a reference is
erased. A redex that fails leaves the heap as it was.
-/

namespace CellCalculus

inductive Contractum where
  | expr (e : Expr)
  | call (c : HeapCall)

namespace Expr

/-- The value of an operand that is to have run already. -/
def operand : Expr → Except StuckError Val
  | .val v => .ok v
  | .var x => .error (.freeVariable x)
  | e => .error (.notARedex e)

def operands (e₁ e₂ : Expr) : Except StuckError (Val × Val) := do
  let v ← e₁.operand
  let w ← e₂.operand
  return (v, w)

@[simp] theorem operand_val (v : Val) : (Expr.val v).operand = .ok v := rfl

@[simp] theorem operands_val (v w : Val) : (Expr.val v).operands (.val w) = .ok (v, w) := rfl

end Expr

namespace Val

/-- The body of a function, with the closure for its self-name and then `v` for its parameter. -/
def apply (func v : Val) : Except StuckError Expr :=
  match func with
  | .closure self param body => .ok ((body.substBinder self func).substBinder param v)
  | _ => .error (.notAFunction func)

def fst : Val → Except StuckError Val
  | .pair _ v _ => .ok v
  | v => .error (.notAPair v)

def snd : Val → Except StuckError Val
  | .pair _ _ v => .ok v
  | v => .error (.notAPair v)

def address (v : Val) : Except StuckError Loc :=
  match v.toLoc? with
  | some l => .ok l
  | none => .error (.invalidAddress v)

def cellCount (v : Val) : Except StuckError Int64 :=
  match v.toInt? with
  | some n => .ok n
  | none => .error (.invalidSize v)

def branch (v : Val) (thenE elseE : Expr) : Except StuckError Expr :=
  match v.toBool? with
  | some true => .ok thenE
  | some false => .ok elseE
  | none => .error (.notABoolean v)

end Val

def contract : Expr → Except StuckError Contractum
  | .val v => .error (.notARedex (.val v))
  | .var x => .error (.freeVariable x)
  | .fn self param body => .ok (.expr (.val (.closure self param body)))
  | .app e₁ e₂ => do
      let (func, v) ← e₁.operands e₂
      return .expr (← func.apply v)
  | .unop op e => do
      let v ← e.operand
      return .expr (.val (← op.eval v))
  | .binop op e₁ e₂ => do
      let (v, w) ← e₁.operands e₂
      return .expr (.val (← op.eval v w))
  | .ite c t e => do
      let v ← c.operand
      return .expr (← v.branch t e)
  | .pair tag e₁ e₂ => do
      let (v, w) ← e₁.operands e₂
      return .expr (.val (.pair tag v w))
  | .record e₁ e₂ => do
      let (v, w) ← e₁.operands e₂
      return .expr (.val (.pair .plain v w))
  | .fst e => do
      let v ← e.operand
      return .expr (.val (← v.fst))
  | .snd e => do
      let v ← e.operand
      return .expr (.val (← v.snd))
  | .alloc e₁ e₂ => do
      let (size, init) ← e₁.operands e₂
      return .call (.allocate (← size.cellCount) init)
  | .free e => do
      let v ← e.operand
      return .call (.free (← v.address))
  | .load e => do
      let v ← e.operand
      return .call (.load (← v.address))
  | .store e₁ e₂ => do
      let (v, w) ← e₁.operands e₂
      return .call (.store (← v.address) w)
  | .ref (.val v) => .ok (.expr (.val v))
  | .ref (.var x) => .error (.freeVariable x)
  | .ref e => .error (.malformedReference (.ref e))

theorem contract_app (func v : Val) :
    contract (.app (.val func) (.val v)) = (func.apply v).map .expr := by
  change (func.apply v >>= fun e => pure (Contractum.expr e)) = _
  cases func.apply v <;> rfl

theorem contract_unop (op : UnaryOp) (v : Val) :
    contract (.unop op (.val v)) = (op.eval v).map fun u => .expr (.val u) := by
  change (op.eval v >>= fun u => pure (Contractum.expr (.val u))) = _
  cases op.eval v <;> rfl

theorem contract_binop (op : BinaryOp) (v w : Val) :
    contract (.binop op (.val v) (.val w)) = (op.eval v w).map fun u => .expr (.val u) := by
  change (op.eval v w >>= fun u => pure (Contractum.expr (.val u))) = _
  cases op.eval v w <;> rfl

def headStep (r : Expr) (h : Heap) : Except StuckError Expr × Heap :=
  match contract r with
  | .error err => (.error err, h)
  | .ok (.expr e) => (.ok e, h)
  | .ok (.call c) =>
      match h.perform c with
      | (.ok v, h') => (.ok (.val v), h')
      | (.error err, h') => (.error (.ofHeapError err), h')

theorem headStep_expr {r e : Expr} (hr : contract r = .ok (.expr e)) (h : Heap) :
    headStep r h = (.ok e, h) := by
  simp [headStep, hr]

theorem headStep_stuck {r : Expr} {err : StuckError} (hr : contract r = .error err) (h : Heap) :
    headStep r h = (.error err, h) := by
  simp [headStep, hr]

/-- A redex that fails leaves the heap as it was. -/
theorem headStep_error {r : Expr} {h : Heap} {err : StuckError}
    (he : (headStep r h).1 = .error err) : (headStep r h).2 = h := by
  unfold headStep at *
  cases hc : contract r with
  | error _ => rfl
  | ok c =>
    cases c with
    | expr e => rfl
    | call c =>
      cases hp : h.perform c with
      | mk answer h' =>
        cases answer with
        | ok v => simp [hc, hp] at he
        | error cause =>
          simpa [hp] using Heap.perform_error (show (h.perform c).1 = .error cause by rw [hp])

end CellCalculus
