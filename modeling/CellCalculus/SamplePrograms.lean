import CellCalculus.Syntax

/-!
# Sample programs

Small programs that each show another part of the calculus.
-/

namespace CellCalculus

/-- `(rec f x := if x = 0 then 1 else f (x - 1)) n`. -/
def countdown (n : Int64) : Expr :=
  .app
    (.fn (.named "f") (.named "x")
      (.ite (.binop .eq (.var "x") (.int 0)) (.int 1)
        (.app (.var "f") (.binop .minus (.var "x") (.int 1)))))
    (.int n)

/-- Stores into the middle of a block of three cells and reads it back. -/
def middleCell : Expr :=
  let middle : Expr := .binop .offset (.var "base") (.int 1)
  .letIn "base" (.alloc (.int 3) (.int 0)) (.seq (.store middle (.int 7)) (.load middle))

/-- Loads from a freed cell, and so gets stuck. -/
def useAfterFree : Expr :=
  .letIn "l" (.new (.int 5)) (.seq (.free (.var "l")) (.load (.var "l")))

/-- Exchanges the contents of two cells that start with `x` and `y`. -/
def swap (x y : Expr) : Expr :=
  .letIn "a" (.new x) <| .letIn "b" (.new y) <| .letIn "t" (.load (.var "a")) <|
    .seq (.store (.var "a") (.load (.var "b"))) <|
      .seq (.store (.var "b") (.var "t")) <|
        .pair .plain (.load (.var "a")) (.load (.var "b"))

def increment : Expr :=
  .store (.var "c") (.binop .plus (.load (.var "c")) (.int 1))

/-- So many increments of the cell `c`, which is then read. -/
def increments : Nat → Expr
  | 0 => .load (.var "c")
  | n + 1 => .seq increment (increments n)

/-- A cell that starts at 0, incremented `times` times and then read. -/
def counter (times : Nat) : Expr := .letIn "c" (.new (.int 0)) (increments times)

/-- `let x = 1 in fst (ref (&x, true))`, which is well typed. -/
def refStruct : Expr :=
  .letIn "x" (.int 1) (.fst (.pair .ref (.ref (.var "x")) (.bool true)))

inductive SampleProgram where
  | countdown
  | cells
  | useAfterFree
  | swap
  | counter
  | refStruct
  deriving DecidableEq

namespace SampleProgram

def all : List SampleProgram := [.countdown, .cells, .useAfterFree, .swap, .counter, .refStruct]

/-- The name that the command line takes. -/
def name : SampleProgram → String
  | .countdown => "countdown"
  | .cells => "cells"
  | .useAfterFree => "use-after-free"
  | .swap => "swap"
  | .counter => "counter"
  | .refStruct => "ref-struct"

/-- The name that reports give. -/
def title : SampleProgram → String
  | .countdown => "Countdown"
  | .cells => "Cells"
  | .useAfterFree => "UseAfterFree"
  | .swap => "Swap"
  | .counter => "Counter"
  | .refStruct => "RefStruct"

def ofName? (s : String) : Option SampleProgram := all.find? fun p => p.name == s

def expr : SampleProgram → Expr
  | .countdown => CellCalculus.countdown 10
  | .cells => middleCell
  | .useAfterFree => CellCalculus.useAfterFree
  | .swap => CellCalculus.swap (.int 1) (.int 2)
  | .counter => CellCalculus.counter 2
  | .refStruct => CellCalculus.refStruct

theorem ofName?_name (p : SampleProgram) : ofName? p.name = some p := by
  cases p <;> decide

end SampleProgram

end CellCalculus
