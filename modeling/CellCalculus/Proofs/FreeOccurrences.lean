import CellCalculus.ValueSubstitution

/-!
# Free occurrences and self-names

A variable occurs free where substitution would reach it. An expression is free of self-names when
no function in it uses its own: substitution for a self-name then changes nothing. The checker keeps
a self-name out of the typing environment only by not binding it, so nothing but this condition
separates a use of it from a use of an outer variable that is called the same.
-/

namespace CellCalculus

namespace Expr

/-- Whether the variable occurs where substitution would reach it: outside of the functions that
bind it, and outside of values, which are closed. -/
def occursFree (x : String) : Expr → Bool
  | .val _ => false
  | .var y => y == x
  | .fn self param body => !self.binds x && !param.binds x && body.occursFree x
  | .app e₁ e₂ | .binop _ e₁ e₂ | .pair _ e₁ e₂ | .record e₁ e₂ | .alloc e₁ e₂ | .store e₁ e₂ =>
      e₁.occursFree x || e₂.occursFree x
  | .ite c t f => c.occursFree x || t.occursFree x || f.occursFree x
  | .unop _ e | .fst e | .snd e | .free e | .load e | .ref e => e.occursFree x

theorem subst_of_not_occursFree {x : String} {e : Expr} (v : Val) (he : e.occursFree x = false) :
    e.subst x v = e := by
  induction e with
  | val w => rfl
  | var y =>
    have hyx : y ≠ x := by simpa [occursFree] using he
    rw [subst, if_neg hyx]
  | fn self param body ih =>
    by_cases hb : (self.binds x || param.binds x) = true
    · rw [subst, if_pos hb]
    · have hbody : body.occursFree x = false := by simp_all [occursFree]
      rw [subst, if_neg hb, ih hbody]
  | ite c t f ihc iht ihf => simp_all [occursFree, subst]
  | _ => simp_all [occursFree, subst]

end Expr

def Binder.occursIn (b : Binder) (e : Expr) : Bool :=
  match b with
  | .anon => false
  | .named x => e.occursFree x

theorem Expr.substBinder_of_not_occursIn {b : Binder} {e : Expr} (v : Val)
    (he : b.occursIn e = false) : e.substBinder b v = e := by
  cases b with
  | anon => rfl
  | named x => exact subst_of_not_occursFree v he

theorem Binder.not_binds_of_occursFree {b : Binder} {e : Expr} {x : String}
    (hb : b.occursIn e = false) (hx : e.occursFree x = true) : b.binds x = false := by
  cases b with
  | anon => rfl
  | named y =>
    refine Bool.eq_false_iff.mpr fun hyx => ?_
    obtain rfl := (Binder.binds_named y x).mp hyx
    rw [Binder.occursIn, hx] at hb
    cases hb

def Val.closureFree : Val → Bool
  | .lit _ => true
  | .closure .. => false
  | .pair _ v w => v.closureFree && w.closureFree

/-- Whether no closure occurs and no function uses its own self-name. -/
def Expr.selfNameFree : Expr → Bool
  | .val v => v.closureFree
  | .var _ => true
  | .fn self _ body => !self.occursIn body && body.selfNameFree
  | .app e₁ e₂ | .binop _ e₁ e₂ | .pair _ e₁ e₂ | .record e₁ e₂ | .alloc e₁ e₂ | .store e₁ e₂ =>
      e₁.selfNameFree && e₂.selfNameFree
  | .ite c t f => c.selfNameFree && t.selfNameFree && f.selfNameFree
  | .unop _ e | .fst e | .snd e | .free e | .load e | .ref e => e.selfNameFree

end CellCalculus
