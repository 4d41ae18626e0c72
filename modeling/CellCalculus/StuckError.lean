import CellCalculus.Heap

/-!
# Stuck configurations

The reasons for which an expression that is no value has no next step.
-/

namespace CellCalculus

inductive StuckError where
  | invalidAddress (v : Val)
  | unaryMismatch (op : UnaryOp) (operand : Val)
  | binaryMismatch (op : BinaryOp) (left right : Val)
  | notAFunction (v : Val)
  | notABoolean (v : Val)
  | notAPair (v : Val)
  | invalidSize (v : Val)
  | freeVariable (x : String)
  /-- The given reference is over something other than a variable or a value. -/
  | malformedReference (e : Expr)
  /-- An expression that no rule contracts, since an operand still has to run. -/
  | notARedex (e : Expr)
  deriving DecidableEq

namespace StuckError

def message : StuckError → String
  | .invalidAddress v => "invalid address: " ++ v.text
  | .unaryMismatch op v => "operator " ++ op.symbol ++ " is undefined on " ++ v.text
  | .binaryMismatch op v w =>
      "operator " ++ op.symbol ++ " is undefined on " ++ v.text ++ ", " ++ w.text
  | .notAFunction v => "cannot apply non-function value " ++ v.text
  | .notABoolean v => "condition is not a boolean: " ++ v.text
  | .notAPair v => "cannot project from non-pair value " ++ v.text
  | .invalidSize v => "invalid allocation size: " ++ v.text
  | .freeVariable x => "free variable: " ++ x
  | .malformedReference e => "reference to a non-variable " ++ e.kind ++ " expression"
  | .notARedex e => e.kind ++ " expression is not a redex"

def ofHeapError : HeapError → StuckError
  | .invalidAddress l => .invalidAddress (.loc l)
  | .nonPositiveSize n => .invalidSize (.int n)

end StuckError

end CellCalculus
