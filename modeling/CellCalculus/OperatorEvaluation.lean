import CellCalculus.StuckError

/-!
# Evaluation of operators

Integer arithmetic wraps around at 64 bits. Division is undefined where the exact quotient does not
exist or does not fit, a shift where the amount is not a bit position, and an operator on operands
of the wrong kinds is undefined everywhere.
-/

namespace CellCalculus

def UnaryOp.eval (op : UnaryOp) (v : Val) : Except StuckError Val :=
  match op, v with
  | .neg, .lit (.bool b) => .ok (.bool !b)
  | .neg, .lit (.int n) => .ok (.int (~~~n))
  | .minus, .lit (.int n) => .ok (.int (-n))
  | _, _ => .error (.unaryMismatch op v)

namespace BinaryOp

/-- Whether `a / b` has an exact quotient that fits. -/
def Divides (a b : Int64) : Prop := b ≠ 0 ∧ ¬(a = Int64.minValue ∧ b = -1)

instance (a b : Int64) : Decidable (Divides a b) := inferInstanceAs (Decidable (_ ∧ _))

/-- Whether `b` is a bit position, so that a shift by it is defined. -/
def Shifts (b : Int64) : Prop := 0 ≤ b ∧ b < 64

instance (b : Int64) : Decidable (Shifts b) := inferInstanceAs (Decidable (_ ∧ _))

def onInts (op : BinaryOp) (a b : Int64) : Option Val :=
  match op with
  | .plus => some (.int (a + b))
  | .minus => some (.int (a - b))
  | .mult => some (.int (a * b))
  | .quot => if Divides a b then some (.int (a / b)) else none
  | .rem => if Divides a b then some (.int (a % b)) else none
  | .and => some (.int (a &&& b))
  | .or => some (.int (a ||| b))
  | .xor => some (.int (a ^^^ b))
  | .shiftL => if Shifts b then some (.int (a <<< b)) else none
  | .shiftR => if Shifts b then some (.int (a >>> b)) else none
  | .le => some (.bool (a ≤ b))
  | .lt => some (.bool (a < b))
  | .eq => some (.bool (a = b))
  | .offset => none

def onBools (op : BinaryOp) (a b : Bool) : Option Val :=
  match op with
  | .and => some (.bool (a && b))
  | .or => some (.bool (a || b))
  | .xor => some (.bool (a ^^ b))
  | .eq => some (.bool (a = b))
  | _ => none

def onLits (op : BinaryOp) : Lit → Lit → Option Val
  | .int a, .int b => op.onInts a b
  | .bool a, .bool b => op.onBools a b
  | .unit, .unit => if op = .eq then some (.bool true) else none
  | .loc l, .loc k => if op = .eq then some (.bool (l = k)) else none
  | .loc l, .int n => if op = .offset then (l.offset? n).map .loc else none
  | _, _ => none

def result? (op : BinaryOp) : Val → Val → Option Val
  | .lit a, .lit b => op.onLits a b
  | _, _ => none

def eval (op : BinaryOp) (v w : Val) : Except StuckError Val :=
  match op.result? v w with
  | some u => .ok u
  | none => .error (.binaryMismatch op v w)

theorem eval_of_onInts_eq_some {op : BinaryOp} {a b : Int64} {u : Val}
    (h : op.onInts a b = some u) : op.eval (.int a) (.int b) = .ok u := by
  have hr : op.result? (.int a) (.int b) = some u := h
  rw [eval, hr]

theorem eval_of_onInts_eq_none {op : BinaryOp} {a b : Int64} (h : op.onInts a b = none) :
    op.eval (.int a) (.int b) = .error (.binaryMismatch op (.int a) (.int b)) := by
  have hr : op.result? (.int a) (.int b) = none := h
  rw [eval, hr]

end BinaryOp

end CellCalculus
