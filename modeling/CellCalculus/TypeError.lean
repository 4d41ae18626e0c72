import CellCalculus.Unification

/-!
# Type errors

A type error blames one expression and says why its rule does not apply.
-/

namespace CellCalculus

inductive TypeFault where
  | unboundVariable (x : String)
  | mismatch (expected found : Ty)
  | notAFunction (t : Ty)
  /-- The type may not be a field of an aggregate of that tag. -/
  | invalidField (t : Ty) (tag : Tag)
  | notAnAggregate (t : Ty)
  | illegalReference
  | untypable
  | occursCheck (x : Nat) (t : Ty)
  deriving DecidableEq

structure TypeError where
  /-- The blamed expression. -/
  expr : Expr
  fault : TypeFault
  deriving DecidableEq

def Tag.text : Tag → String
  | .plain => "plain"
  | .ref => "ref"

def TypeFault.message : TypeFault → String
  | .unboundVariable x => "unbound variable: " ++ x
  | .mismatch expected found =>
      "type mismatch: expected " ++ expected.text ++ ", found " ++ found.text
  | .notAFunction t => "cannot apply a value of type " ++ t.text
  | .invalidField t tag =>
      t.text ++ " is not a valid field of a " ++ tag.text ++ " aggregate"
  | .notAnAggregate t => "cannot project from a value of type " ++ t.text
  | .illegalReference => "references can only be taken of a variable"
  | .untypable => "no typing rule for this construct"
  | .occursCheck x t => "cannot construct infinite type " ++ (Ty.var x).text ++ " = " ++ t.text

def TypeError.message (err : TypeError) : String :=
  "type error in " ++ err.expr.kind ++ " expression: " ++ err.fault.message

def TypeFault.ofUnifyError : UnifyError → TypeFault
  | .mismatch expected found => .mismatch expected found
  | .occursCheck x t => .occursCheck x t

end CellCalculus
