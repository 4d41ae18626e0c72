import CellCalculus.Syntax

/-!
# The text of values

A closure shows its two binders only, and a ref-struct is a pair with `ref` in front. A text is
written from the left to the right, so its length is all that it costs; `text_plain` and `text_ref`
say what a pair reads as.
-/

namespace CellCalculus

def Loc.text (l : Loc) : String := "#" ++ toString l.addr.toNat

def Lit.text : Lit → String
  | .int n => toString n.toInt
  | .bool true => "true"
  | .bool false => "false"
  | .unit => "()"
  | .loc l => l.text

def Binder.text : Binder → String
  | .anon => "_"
  | .named x => x

namespace Val

/-- The text written behind `before`. -/
def write : Val → String → String
  | .lit l, before => before ++ l.text
  | .closure self param _, before =>
      before ++ "<rec " ++ self.text ++ " " ++ param.text ++ ">"
  | .pair .plain v w, before => w.write (v.write (before ++ "(") ++ ", ") ++ ")"
  | .pair .ref v w, before => w.write (v.write (before ++ "ref (") ++ ", ") ++ ")"

def text (v : Val) : String := v.write ""

attribute [local simp] write

theorem write_append (v : Val) (s t : String) : v.write (s ++ t) = s ++ v.write t := by
  fun_induction write v t with
  | case1 l => simp [String.append_assoc]
  | case2 self param => simp [String.append_assoc]
  | case3 v w t ihv ihw | case4 v w t ihv ihw =>
      rw [write, String.append_assoc, ihv, String.append_assoc, ihw, String.append_assoc]

theorem write_eq (v : Val) (before : String) : v.write before = before ++ v.text := by
  rw [text, ← write_append, String.append_empty]

@[simp] theorem text_lit (l : Lit) : (Val.lit l).text = l.text := by
  simp [text]

@[simp] theorem text_closure (self param : Binder) (body : Expr) :
    (Val.closure self param body).text = "<rec " ++ self.text ++ " " ++ param.text ++ ">" := by
  simp [text]

theorem text_plain (v w : Val) :
    (Val.pair .plain v w).text = "(" ++ v.text ++ ", " ++ w.text ++ ")" := by
  rw [text, write, write_eq, write_eq]
  rfl

theorem text_ref (v w : Val) :
    (Val.pair .ref v w).text = "ref (" ++ v.text ++ ", " ++ w.text ++ ")" := by
  rw [text, write, write_eq, write_eq]
  rfl

end Val

end CellCalculus
