/-!
# Operators

The unary and binary operators of the calculus, with the symbols they are written with.
-/

namespace CellCalculus

inductive UnaryOp where
  /-- Logical not on booleans, bitwise complement on integers. -/
  | neg
  /-- Integer negation. -/
  | minus
  deriving DecidableEq

def UnaryOp.symbol : UnaryOp → String
  | .neg => "~"
  | .minus => "-"

inductive BinaryOp where
  | plus
  | minus
  | mult
  | quot
  | rem
  | and
  | or
  | xor
  | shiftL
  | shiftR
  | le
  | lt
  | eq
  /-- Address arithmetic: a location moved by an integer. -/
  | offset
  deriving DecidableEq

def BinaryOp.symbol : BinaryOp → String
  | .plus => "+"
  | .minus => "-"
  | .mult => "*"
  | .quot => "/"
  | .rem => "%"
  | .and => "&"
  | .or => "|"
  | .xor => "^"
  | .shiftL => "<<"
  | .shiftR => ">>"
  | .le => "<="
  | .lt => "<"
  | .eq => "="
  | .offset => "+ₗ"

end CellCalculus
