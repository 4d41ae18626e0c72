import CellCalculus.Contraction
import CellCalculus.Proofs.FreeOccurrences

/-!
# Substitution for many variables at once

A valuation gives values to some variables, and `Expr.close` puts all of them in at once. Where no
function uses its own self-name, applying a closed function to an argument is closing its body under
a valuation with one entry more (`apply_close`): the self-name has nothing to be substituted for.
-/

namespace CellCalculus

/-- Values for some of the variables. -/
abbrev Valuation := String → Option Val

namespace Valuation

def empty : Valuation := fun _ => none

def without (g : Valuation) (b : Binder) : Valuation := fun x => if b.binds x then none else g x

/-- With `v` for what the binder binds. -/
def bind (g : Valuation) (b : Binder) (v : Val) : Valuation :=
  fun x => if b.binds x then some v else g x

theorem without_bind_of_binds {g : Valuation} {b : Binder} {x : String} {v : Val}
    (hb : b.binds x = true) : (g.bind (.named x) v).without b = g.without b := by
  funext y
  by_cases hyx : x = y
  · subst hyx
    rw [without, without, if_pos hb, if_pos hb]
  · simp [without, bind, hyx]

theorem without_bind_of_not_binds {g : Valuation} {b : Binder} {x : String} {v : Val}
    (hb : b.binds x = false) :
    (g.bind (.named x) v).without b = (g.without b).bind (.named x) v := by
  funext y
  by_cases hyx : x = y
  · subst hyx
    simp [without, bind, hb]
  · simp [without, bind, hyx]

theorem without_empty (b : Binder) : empty.without b = empty := by
  funext x
  simp [without, empty]

theorem without_eq_none {g : Valuation} {x : String} (b : Binder) (hx : g x = none) :
    g.without b x = none := by
  simp [without, hx]

end Valuation

namespace Expr

/-- Puts in the value of each variable that occurs free and has one. -/
def close (g : Valuation) : Expr → Expr
  | .val v => .val v
  | .var x => match g x with
    | some v => .val v
    | none => .var x
  | .fn self param body => .fn self param (body.close ((g.without self).without param))
  | .app e₁ e₂ => .app (e₁.close g) (e₂.close g)
  | .unop op e => .unop op (e.close g)
  | .binop op e₁ e₂ => .binop op (e₁.close g) (e₂.close g)
  | .ite c t f => .ite (c.close g) (t.close g) (f.close g)
  | .pair tag e₁ e₂ => .pair tag (e₁.close g) (e₂.close g)
  | .record e₁ e₂ => .record (e₁.close g) (e₂.close g)
  | .fst e => .fst (e.close g)
  | .snd e => .snd (e.close g)
  | .alloc e₁ e₂ => .alloc (e₁.close g) (e₂.close g)
  | .free e => .free (e.close g)
  | .load e => .load (e.close g)
  | .store e₁ e₂ => .store (e₁.close g) (e₂.close g)
  | .ref e => .ref (e.close g)

theorem close_congr {g k : Valuation} {e : Expr} (h : ∀ x, e.occursFree x = true → g x = k x) :
    e.close g = e.close k := by
  induction e generalizing g k with
  | val v => rfl
  | var x =>
    have hx : g x = k x := h x (by simp [occursFree])
    simp only [close, hx]
  | fn self param body ih =>
    rw [close, close, ih]
    intro x hx
    by_cases hs : self.binds x = true <;> by_cases hp : param.binds x = true <;>
      simp_all [Valuation.without, occursFree]
  | app _ _ ih₁ ih₂ | binop _ _ _ ih₁ ih₂ | pair _ _ _ ih₁ ih₂ | record _ _ ih₁ ih₂
  | alloc _ _ ih₁ ih₂ | store _ _ ih₁ ih₂ =>
    simp only [occursFree, Bool.or_eq_true] at h
    rw [close, close, ih₁ fun x hx => h x (.inl hx), ih₂ fun x hx => h x (.inr hx)]
  | ite _ _ _ ihc iht ihf =>
    simp only [occursFree, Bool.or_eq_true] at h
    rw [close, close, ihc fun x hx => h x (.inl (.inl hx)), iht fun x hx => h x (.inl (.inr hx)),
      ihf fun x hx => h x (.inr hx)]
  | unop _ _ ih | fst _ ih | snd _ ih | free _ ih | load _ ih | ref _ ih =>
    rw [close, close, ih h]

theorem close_empty (e : Expr) : e.close .empty = e := by
  induction e with
  | val _ | var _ => rfl
  | fn self param body ih => rw [close, Valuation.without_empty, Valuation.without_empty, ih]
  | app _ _ ih₁ ih₂ | binop _ _ _ ih₁ ih₂ | pair _ _ _ ih₁ ih₂ | record _ _ ih₁ ih₂
  | alloc _ _ ih₁ ih₂ | store _ _ ih₁ ih₂ => rw [close, ih₁, ih₂]
  | ite _ _ _ ihc iht ihf => rw [close, ihc, iht, ihf]
  | unop _ _ ih | fst _ ih | snd _ ih | free _ ih | load _ ih | ref _ ih => rw [close, ih]

theorem occursFree_close {x : String} {g : Valuation} {e : Expr} (he : e.occursFree x = false) :
    (e.close g).occursFree x = false := by
  induction e generalizing g with
  | var y =>
    rw [close]
    cases g y with
    | some v => rfl
    | none => exact he
  | _ => simp_all [occursFree, close]

theorem close_subst {x : String} {g : Valuation} {e : Expr} (v : Val) (hx : g x = none) :
    (e.close g).subst x v = e.close (g.bind (.named x) v) := by
  induction e generalizing g with
  | val w => rfl
  | var y =>
    by_cases hyx : y = x
    · subst hyx
      simp [close, subst, hx, Valuation.bind, Binder.binds]
    · have hb : (Binder.named x).binds y = false := by simp [Binder.binds, Ne.symm hyx]
      cases hg : g y <;> simp [close, subst, hyx, Valuation.bind, hb, hg]
  | fn self param body ih =>
    have hxs := Valuation.without_eq_none self hx
    have hxp := Valuation.without_eq_none param hxs
    cases hs : self.binds x with
    | true => simp [close, subst, hs, Valuation.without_bind_of_binds hs]
    | false =>
      have hswap := Valuation.without_bind_of_not_binds (g := g) (v := v) hs
      cases hp : param.binds x with
      | true => simp [close, subst, hp, hswap, Valuation.without_bind_of_binds hp]
      | false =>
        have hswap' := Valuation.without_bind_of_not_binds (g := g.without self) (v := v) hp
        simp [close, subst, hs, hp, ih hxp, hswap, hswap']
  | _ => simp_all [close, subst]

end Expr

theorem Expr.close_substBinder {b : Binder} {g : Valuation} (e : Expr) (v : Val) :
    (e.close (g.without b)).substBinder b v = e.close (g.bind b v) := by
  cases b with
  | anon => rfl
  | named x =>
    have hx : g.without (.named x) x = none := by simp [Valuation.without]
    rw [substBinder_named, close_subst v hx]
    congr 1
    funext y
    by_cases hyx : x = y <;> simp [Valuation.bind, Valuation.without, hyx]

theorem Expr.substBinder_eq_close {b : Binder} (e : Expr) (v : Val) :
    e.substBinder b v = e.close (Valuation.empty.bind b v) := by
  rw [← close_substBinder, Valuation.without_empty, close_empty]

theorem Binder.occursIn_close {b : Binder} {e : Expr} (g : Valuation) (hb : b.occursIn e = false) :
    b.occursIn (e.close g) = false := by
  cases b with
  | anon => rfl
  | named x => exact Expr.occursFree_close hb

/-- Applying a function that does not use its self-name closes the body with the argument for the
parameter. -/
theorem Val.apply_close {self param : Binder} {body : Expr} {g : Valuation} (v : Val)
    (hself : self.occursIn body = false) :
    (Val.closure self param (body.close ((g.without self).without param))).apply v =
      .ok (body.close (g.bind param v)) := by
  rw [Val.apply, Expr.substBinder_of_not_occursIn _ (Binder.occursIn_close _ hself),
    Expr.close_substBinder]
  refine congrArg _ (Expr.close_congr fun x hx => ?_)
  simp [Valuation.bind, Valuation.without, Binder.not_binds_of_occursFree hself hx]

end CellCalculus
