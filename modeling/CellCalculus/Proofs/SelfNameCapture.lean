import CellCalculus.Proofs.DeclarativeTyping
import CellCalculus.Proofs.FreeOccurrences

/-!
# Captured self-names

The typing rules leave self-names unbound, so a use of one is untypable unless a parameter of the
same name, the function's own or an enclosing one, is in scope. Where no self-name is captured like
this, a typed expression without closures is free of self-names.
-/

namespace CellCalculus

namespace Expr

def closureFree : Expr → Bool
  | .val v => v.closureFree
  | .var _ => true
  | .fn _ _ body => body.closureFree
  | .app e₁ e₂ | .binop _ e₁ e₂ | .pair _ e₁ e₂ | .record e₁ e₂ | .alloc e₁ e₂ | .store e₁ e₂ =>
      e₁.closureFree && e₂.closureFree
  | .ite c t f => c.closureFree && t.closureFree && f.closureFree
  | .unop _ e | .fst e | .snd e | .free e | .load e | .ref e => e.closureFree

/-- Whether a function uses its self-name where a parameter of that name is in scope. -/
def capturesSelfName (scope : List Binder) : Expr → Bool
  | .val _ | .var _ => false
  | .fn self param body => self.occursIn body && (param :: scope).contains self ||
      body.capturesSelfName (param :: scope)
  | .app e₁ e₂ | .binop _ e₁ e₂ | .pair _ e₁ e₂ | .record e₁ e₂ | .alloc e₁ e₂ | .store e₁ e₂ =>
      e₁.capturesSelfName scope || e₂.capturesSelfName scope
  | .ite c t f =>
      c.capturesSelfName scope || t.capturesSelfName scope || f.capturesSelfName scope
  | .unop _ e | .fst e | .snd e | .free e | .load e | .ref e => e.capturesSelfName scope

end Expr

/-- What occurs free in a typed expression is bound by the environment. -/
theorem HasType.bound_of_occursFree {env : TypeEnv} {e : Expr} {t : Ty} {x : String}
    (ht : HasType env e t) (hx : e.occursFree x = true) : env.lookup? x ≠ none := by
  induction ht with
  | int | bool | unit | closure _ _ | pairVal _ _ _ _ _ _ => cases hx
  | var hlook | ref hlook =>
    obtain rfl := beq_iff_eq.mp hx
    simp [hlook]
  | fn _ ih =>
    simp only [Expr.occursFree, Bool.and_eq_true, Bool.not_eq_true'] at hx
    have hbody := ih hx.2
    rwa [TypeEnv.lookup?_extend_of_not_binds _ hx.1.2] at hbody
  | app _ _ ih₁ ih₂ | binop _ _ _ ih₁ ih₂ | pair _ _ _ _ ih₁ ih₂ | record _ _ _ _ ih₁ ih₂ =>
    rw [Expr.occursFree, Bool.or_eq_true] at hx
    exact hx.elim ih₁ ih₂
  | ite _ _ _ ihc iht ihf =>
    simp only [Expr.occursFree, Bool.or_eq_true] at hx
    exact hx.elim (fun h => h.elim ihc iht) ihf
  | unop _ ih | fst _ _ ih | snd _ _ ih => exact ih hx

theorem HasType.selfNameFree {env : TypeEnv} {e : Expr} {t : Ty} {scope : List Binder}
    (ht : HasType env e t) (hscope : ∀ x, env.lookup? x ≠ none → .named x ∈ scope)
    (hclosure : e.closureFree = true) (hcapture : e.capturesSelfName scope = false) :
    e.selfNameFree = true := by
  induction ht generalizing scope with
  | int | bool | unit | closure _ _ | pairVal _ _ _ _ _ _ => exact hclosure
  | var _ | ref _ => rfl
  | @fn env self param body a b hbody ih =>
    simp only [Expr.capturesSelfName, Bool.or_eq_false_iff] at hcapture
    have hextend : ∀ x, (env.extend param a).lookup? x ≠ none → .named x ∈ param :: scope := by
      intro x hx
      by_cases hp : param.binds x = true
      · exact List.mem_cons.mpr (.inl (Binder.eq_named_of_binds hp).symm)
      · rw [TypeEnv.lookup?_extend_of_not_binds _ (Bool.eq_false_iff.mpr hp)] at hx
        exact List.mem_cons_of_mem _ (hscope x hx)
    have hself : self.occursIn body = false := by
      cases self with
      | anon => rfl
      | named y =>
        refine Bool.eq_false_iff.mpr fun hy => ?_
        have hmem : (param :: scope).contains (.named y) = true :=
          List.contains_iff_mem.mpr (hextend y (hbody.bound_of_occursFree hy))
        rw [hy, hmem] at hcapture
        exact Bool.noConfusion hcapture.1
    rw [Expr.selfNameFree, hself, ih hextend hclosure hcapture.2]
    rfl
  | app _ _ ih₁ ih₂ | binop _ _ _ ih₁ ih₂ | pair _ _ _ _ ih₁ ih₂ | record _ _ _ _ ih₁ ih₂ =>
    simp only [Expr.closureFree, Bool.and_eq_true] at hclosure
    simp only [Expr.capturesSelfName, Bool.or_eq_false_iff] at hcapture
    rw [Expr.selfNameFree, ih₁ hscope hclosure.1 hcapture.1, ih₂ hscope hclosure.2 hcapture.2]
    rfl
  | ite _ _ _ ihc iht ihf =>
    simp only [Expr.closureFree, Bool.and_eq_true] at hclosure
    simp only [Expr.capturesSelfName, Bool.or_eq_false_iff] at hcapture
    rw [Expr.selfNameFree, ihc hscope hclosure.1.1 hcapture.1.1,
      iht hscope hclosure.1.2 hcapture.1.2, ihf hscope hclosure.2 hcapture.2]
    rfl
  | unop _ ih | fst _ _ ih | snd _ _ ih => exact ih hscope hclosure hcapture

end CellCalculus
