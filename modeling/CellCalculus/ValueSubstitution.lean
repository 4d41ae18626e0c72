import CellCalculus.Syntax

/-!
# Substitution of values for variables

Values are taken as closed, so nothing is captured: substitution stops under a binder of the same
name, whether it is the self-name or the parameter, and never enters a value.
-/

namespace CellCalculus

namespace Expr

def subst (x : String) (v : Val) : Expr → Expr
  | .val w => .val w
  | .var y => if y = x then .val v else .var y
  | .fn self param body =>
      if self.binds x || param.binds x then .fn self param body
      else .fn self param (subst x v body)
  | .app e₁ e₂ => .app (subst x v e₁) (subst x v e₂)
  | .unop op e => .unop op (subst x v e)
  | .binop op e₁ e₂ => .binop op (subst x v e₁) (subst x v e₂)
  | .ite c t e => .ite (subst x v c) (subst x v t) (subst x v e)
  | .pair tag e₁ e₂ => .pair tag (subst x v e₁) (subst x v e₂)
  | .record e₁ e₂ => .record (subst x v e₁) (subst x v e₂)
  | .fst e => .fst (subst x v e)
  | .snd e => .snd (subst x v e)
  | .alloc e₁ e₂ => .alloc (subst x v e₁) (subst x v e₂)
  | .free e => .free (subst x v e)
  | .load e => .load (subst x v e)
  | .store e₁ e₂ => .store (subst x v e₁) (subst x v e₂)
  | .ref e => .ref (subst x v e)

/-- Substitution for what a binder binds; an anonymous one leaves the expression as it is. -/
def substBinder (b : Binder) (v : Val) (e : Expr) : Expr :=
  match b with
  | .anon => e
  | .named x => e.subst x v

@[simp] theorem substBinder_anon (v : Val) (e : Expr) : e.substBinder .anon v = e := rfl

@[simp] theorem substBinder_named (x : String) (v : Val) (e : Expr) :
    e.substBinder (.named x) v = e.subst x v := rfl

theorem subst_var_self (x : String) (v : Val) : (Expr.var x).subst x v = .val v := by
  simp [subst]

theorem subst_fn_of_binds {x : String} {self param : Binder} (v : Val) (body : Expr)
    (h : self.binds x = true ∨ param.binds x = true) :
    (Expr.fn self param body).subst x v = .fn self param body := by
  simp [subst, h]

/-- Substitution makes no value of anything but the variable it is for. -/
theorem isValue_subst {x : String} {v : Val} {e : Expr} (h : e ≠ .var x) :
    (e.subst x v).isValue = e.isValue := by
  cases e with
  | var y => simp_all [subst]
  | fn self param body =>
    by_cases hb : self.binds x || param.binds x <;> simp [subst, isValue, toVal?, hb]
  | _ => rfl

end Expr

end CellCalculus
