import CellCalculus.Syntax

/-!
# Types

Pairs of the two tags, records and references each have a type of their own. Parameters carry no
annotation, so a type may hold variables. An arrow associates to the right, and only an arrow
directly left of an arrow is put in parentheses. A text is written from the left to the right, and
`text_arrow` and the lemmas beside it say what each type reads as.
-/

namespace CellCalculus

inductive Ty where
  | int
  | bool
  | unit
  | pair (tag : Tag) (first second : Ty)
  | record (first second : Ty)
  | ref (t : Ty)
  | arrow (param result : Ty)
  | var (x : Nat)
  deriving DecidableEq

namespace Ty

/-- The variables of a type, one entry for each occurrence. -/
def vars : Ty → List Nat
  | .int | .bool | .unit => []
  | .pair _ a b | .record a b | .arrow a b => a.vars ++ b.vars
  | .ref t => t.vars
  | .var x => [x]

def size : Ty → Nat
  | .int | .bool | .unit | .var _ => 1
  | .pair _ a b | .record a b | .arrow a b => a.size + b.size + 1
  | .ref t => t.size + 1

theorem size_pos (t : Ty) : 0 < t.size := by
  cases t <;> simp [size]

def components? : Ty → Option (Ty × Ty)
  | .pair _ a b | .record a b => some (a, b)
  | _ => none

def isArrow : Ty → Bool
  | .arrow .. => true
  | _ => false

/-- The text written behind `before`. -/
def write : Ty → String → String
  | .int, before => before ++ "Int"
  | .bool, before => before ++ "Bool"
  | .unit, before => before ++ "Unit"
  | .pair .plain a b, before => b.write (a.write (before ++ "(") ++ " * ") ++ ")"
  | .pair .ref a b, before => b.write (a.write (before ++ "ref (") ++ " * ") ++ ")"
  | .record a b, before => b.write (a.write (before ++ "class(") ++ ", ") ++ ")"
  | .ref t, before => t.write (before ++ "&")
  | .arrow a b, before =>
      b.write ((if a.isArrow then a.write (before ++ "(") ++ ")" else a.write before) ++ " -> ")
  | .var x, before => before ++ "'t" ++ toString x

def text (t : Ty) : String := t.write ""

attribute [local simp] write

theorem write_append (t : Ty) (s r : String) : t.write (s ++ r) = s ++ t.write r := by
  induction t generalizing s r with
  | pair tag a b iha ihb => cases tag <;> simp only [write, String.append_assoc, iha, ihb]
  | arrow a b iha ihb =>
    by_cases ha : a.isArrow = true <;> simp [String.append_assoc, iha, ihb, ha]
  | record a b iha ihb => simp only [write, String.append_assoc, iha, ihb]
  | ref t ih => simp only [write, String.append_assoc, ih]
  | _ => simp [String.append_assoc]

theorem write_eq (t : Ty) (before : String) : t.write before = before ++ t.text := by
  rw [text, ← write_append, String.append_empty]

@[simp] theorem text_int : Ty.int.text = "Int" := rfl

@[simp] theorem text_bool : Ty.bool.text = "Bool" := rfl

@[simp] theorem text_unit : Ty.unit.text = "Unit" := rfl

@[simp] theorem text_var (x : Nat) : (Ty.var x).text = "'t" ++ toString x := by
  simp [text]

theorem text_plain (a b : Ty) :
    (Ty.pair .plain a b).text = "(" ++ a.text ++ " * " ++ b.text ++ ")" := by
  rw [text, write, write_eq, write_eq]
  rfl

theorem text_ref_pair (a b : Ty) :
    (Ty.pair .ref a b).text = "ref (" ++ a.text ++ " * " ++ b.text ++ ")" := by
  rw [text, write, write_eq, write_eq]
  rfl

theorem text_record (a b : Ty) :
    (Ty.record a b).text = "class(" ++ a.text ++ ", " ++ b.text ++ ")" := by
  rw [text, write, write_eq, write_eq]
  rfl

theorem text_ref (t : Ty) : (Ty.ref t).text = "&" ++ t.text := by
  rw [text, write, write_eq]
  rfl

theorem text_arrow (a b : Ty) : (Ty.arrow a b).text =
    (if a.isArrow then "(" ++ a.text ++ ")" else a.text) ++ " -> " ++ b.text := by
  rw [text, write, write_eq, write_eq]
  rfl

end Ty

def UnaryOp.type : UnaryOp → Ty
  | .neg => .bool
  | .minus => .int

theorem UnaryOp.vars_type (op : UnaryOp) : op.type.vars = [] := by
  cases op <;> rfl

structure Signature where
  left : Ty
  right : Ty
  result : Ty

/-- Equality compares booleans only, and address arithmetic is not typed. -/
def BinaryOp.signature? : BinaryOp → Option Signature
  | .plus | .minus | .mult | .quot | .rem | .shiftL | .shiftR => some ⟨.int, .int, .int⟩
  | .and | .or | .xor | .eq => some ⟨.bool, .bool, .bool⟩
  | .le | .lt => some ⟨.int, .int, .bool⟩
  | .offset => none

theorem BinaryOp.vars_signature {op : BinaryOp} {sig : Signature} (h : op.signature? = some sig) :
    sig.left.vars = [] ∧ sig.right.vars = [] ∧ sig.result.vars = [] := by
  cases op <;> cases h <;> exact ⟨rfl, rfl, rfl⟩

end CellCalculus
