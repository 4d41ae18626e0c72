import CellCalculus.EvaluationContext
import CellCalculus.ValueSubstitution

/-!
# The parts of an expression

`parts` lists an expression and all expressions inside it, those in closures and in other values
included, and `everywhere p` asks `p` of each of them. A predicate is shallow when it looks at
values and at the outermost construct of everything else. What a shallow predicate holds of
everywhere is what it holds of in the frame and in the hole, and substitution brings in nothing but
the parts of the value.
-/

namespace CellCalculus

mutual

/-- The value, the components of a pair value as values of their own, and what is in a closure. -/
def Val.parts : Val → List Expr
  | .lit l => [.val (.lit l)]
  | .closure self param body => .val (.closure self param body) :: body.parts
  | .pair tag v w => .val (.pair tag v w) :: (v.parts ++ w.parts)

/-- The expression itself and all those inside it, values included. -/
def Expr.parts : Expr → List Expr
  | .val v => v.parts
  | .var x => [.var x]
  | .fn self param body => .fn self param body :: body.parts
  | .app e₁ e₂ => .app e₁ e₂ :: (e₁.parts ++ e₂.parts)
  | .unop op e => .unop op e :: e.parts
  | .binop op e₁ e₂ => .binop op e₁ e₂ :: (e₁.parts ++ e₂.parts)
  | .ite c t f => .ite c t f :: (c.parts ++ t.parts ++ f.parts)
  | .pair tag e₁ e₂ => .pair tag e₁ e₂ :: (e₁.parts ++ e₂.parts)
  | .record e₁ e₂ => .record e₁ e₂ :: (e₁.parts ++ e₂.parts)
  | .fst e => .fst e :: e.parts
  | .snd e => .snd e :: e.parts
  | .alloc e₁ e₂ => .alloc e₁ e₂ :: (e₁.parts ++ e₂.parts)
  | .free e => .free e :: e.parts
  | .load e => .load e :: e.parts
  | .store e₁ e₂ => .store e₁ e₂ :: (e₁.parts ++ e₂.parts)
  | .ref e => .ref e :: e.parts

end

theorem Expr.mem_parts_self (e : Expr) : e ∈ e.parts := by
  cases e with
  | val v => cases v <;> exact List.mem_cons_self
  | _ => exact List.mem_cons_self

mutual

/-- Whether `p` holds of the value and of all expressions inside it. -/
def Val.everywhere (p : Expr → Bool) : Val → Bool
  | .lit l => p (.val (.lit l))
  | .closure self param body => p (.val (.closure self param body)) && body.everywhere p
  | .pair tag v w => p (.val (.pair tag v w)) && v.everywhere p && w.everywhere p

/-- Whether `p` holds of the expression and of all those inside it, values included. -/
def Expr.everywhere (p : Expr → Bool) : Expr → Bool
  | .val v => v.everywhere p
  | .var x => p (.var x)
  | .fn self param body => p (.fn self param body) && body.everywhere p
  | .app e₁ e₂ => p (.app e₁ e₂) && e₁.everywhere p && e₂.everywhere p
  | .unop op e => p (.unop op e) && e.everywhere p
  | .binop op e₁ e₂ => p (.binop op e₁ e₂) && e₁.everywhere p && e₂.everywhere p
  | .ite c t f => p (.ite c t f) && c.everywhere p && t.everywhere p && f.everywhere p
  | .pair tag e₁ e₂ => p (.pair tag e₁ e₂) && e₁.everywhere p && e₂.everywhere p
  | .record e₁ e₂ => p (.record e₁ e₂) && e₁.everywhere p && e₂.everywhere p
  | .fst e => p (.fst e) && e.everywhere p
  | .snd e => p (.snd e) && e.everywhere p
  | .alloc e₁ e₂ => p (.alloc e₁ e₂) && e₁.everywhere p && e₂.everywhere p
  | .free e => p (.free e) && e.everywhere p
  | .load e => p (.load e) && e.everywhere p
  | .store e₁ e₂ => p (.store e₁ e₂) && e₁.everywhere p && e₂.everywhere p
  | .ref e => p (.ref e) && e.everywhere p

end

mutual

theorem Val.everywhere_mono {p q : Expr → Bool} (hpq : ∀ d, p d = true → q d = true) :
    (v : Val) → v.everywhere p = true → v.everywhere q = true
  | .lit _, hv => hpq _ hv
  | .closure _ _ body, hv => by
    rw [Val.everywhere, Bool.and_eq_true] at hv ⊢
    exact ⟨hpq _ hv.1, Expr.everywhere_mono hpq body hv.2⟩
  | .pair _ v w, hv => by
    simp only [Val.everywhere, Bool.and_eq_true] at hv ⊢
    exact ⟨⟨hpq _ hv.1.1, Val.everywhere_mono hpq v hv.1.2⟩, Val.everywhere_mono hpq w hv.2⟩

theorem Expr.everywhere_mono {p q : Expr → Bool} (hpq : ∀ d, p d = true → q d = true) :
    (e : Expr) → e.everywhere p = true → e.everywhere q = true
  | .val v, he => Val.everywhere_mono hpq v he
  | .var _, he => hpq _ he
  | .app e₁ e₂, he | .binop _ e₁ e₂, he | .pair _ e₁ e₂, he | .record e₁ e₂, he
  | .alloc e₁ e₂, he | .store e₁ e₂, he => by
    simp only [Expr.everywhere, Bool.and_eq_true] at he ⊢
    exact ⟨⟨hpq _ he.1.1, Expr.everywhere_mono hpq e₁ he.1.2⟩, Expr.everywhere_mono hpq e₂ he.2⟩
  | .ite c t f, he => by
    simp only [Expr.everywhere, Bool.and_eq_true] at he ⊢
    exact ⟨⟨⟨hpq _ he.1.1.1, Expr.everywhere_mono hpq c he.1.1.2⟩,
      Expr.everywhere_mono hpq t he.1.2⟩, Expr.everywhere_mono hpq f he.2⟩
  | .fn _ _ e, he | .unop _ e, he | .fst e, he | .snd e, he | .free e, he | .load e, he
  | .ref e, he => by
    rw [Expr.everywhere, Bool.and_eq_true] at he ⊢
    exact ⟨hpq _ he.1, Expr.everywhere_mono hpq e he.2⟩

end

theorem Expr.everywhere_branches {p : Expr → Bool} {c t f : Expr}
    (he : (Expr.ite c t f).everywhere p = true) :
    t.everywhere p = true ∧ f.everywhere p = true := by
  simp only [everywhere, Bool.and_eq_true] at he
  exact ⟨he.1.2, he.2⟩

/-- Whether the parts of what is no value do not matter to the predicate. -/
structure Shallow (p : Expr → Bool) : Prop where
  fill : ∀ (F : Frame) (d d' : Expr), p (F.fill d) = p (F.fill d')
  subst : ∀ {d : Expr} (x : String) (v : Val), p d = true → d ≠ .var x → p (d.subst x v) = true

namespace Shallow

variable {p : Expr → Bool}

theorem everywhere_subst (hp : Shallow p) {e : Expr} {x : String} {v : Val}
    (he : e.everywhere p = true) (hv : (Expr.val v).everywhere p = true) :
    (e.subst x v).everywhere p = true := by
  induction e with
  | val w => exact he
  | var y =>
    rw [Expr.subst]
    split
    · exact hv
    · exact he
  | fn self param body ih =>
    have hparts := Bool.and_eq_true_iff.mp he
    have hnode := hp.subst x v hparts.1 (by simp)
    rw [Expr.subst] at hnode ⊢
    split
    · exact he
    · next hb =>
      rw [if_neg hb] at hnode
      exact Bool.and_eq_true_iff.mpr ⟨hnode, ih hparts.2⟩
  | app _ _ ih₁ ih₂ | binop _ _ _ ih₁ ih₂ | pair _ _ _ ih₁ ih₂ | record _ _ ih₁ ih₂
  | alloc _ _ ih₁ ih₂ | store _ _ ih₁ ih₂ =>
    simp only [Expr.everywhere, Bool.and_eq_true] at he
    simp only [Expr.subst, Expr.everywhere, Bool.and_eq_true]
    exact ⟨⟨hp.subst x v he.1.1 (by simp), ih₁ he.1.2⟩, ih₂ he.2⟩
  | ite _ _ _ ihc iht ihf =>
    simp only [Expr.everywhere, Bool.and_eq_true] at he
    simp only [Expr.subst, Expr.everywhere, Bool.and_eq_true]
    exact ⟨⟨⟨hp.subst x v he.1.1.1 (by simp), ihc he.1.1.2⟩, iht he.1.2⟩, ihf he.2⟩
  | unop _ _ ih | fst _ ih | snd _ ih | free _ ih | load _ ih | ref _ ih =>
    simp only [Expr.everywhere, Bool.and_eq_true] at he
    simp only [Expr.subst, Expr.everywhere, Bool.and_eq_true]
    exact ⟨hp.subst x v he.1 (by simp), ih he.2⟩

theorem everywhere_substBinder (hp : Shallow p) {e : Expr} {b : Binder} {v : Val}
    (he : e.everywhere p = true) (hv : (Expr.val v).everywhere p = true) :
    (e.substBinder b v).everywhere p = true := by
  cases b with
  | anon => exact he
  | named x => exact hp.everywhere_subst he hv

/-- The body of a function, with values for its self-name and its parameter. -/
theorem everywhere_apply (hp : Shallow p) {self param : Binder} {body : Expr} {v : Val}
    (hfunc : (Expr.val (.closure self param body)).everywhere p = true)
    (hv : (Expr.val v).everywhere p = true) :
    ((body.substBinder self (.closure self param body)).substBinder param v).everywhere p =
      true := by
  have hbody : body.everywhere p = true := (Bool.and_eq_true_iff.mp hfunc).2
  exact hp.everywhere_substBinder (hp.everywhere_substBinder hbody hfunc) hv

end Shallow

end CellCalculus
