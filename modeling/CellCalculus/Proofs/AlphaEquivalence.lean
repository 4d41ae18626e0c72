import CellCalculus.Proofs.ClosedPrograms
import CellCalculus.Proofs.ClosingSubstitution

/-!
# Alpha-equivalence

Two expressions are alpha-equivalent when they differ in the names of bound variables only. What is
in scope is a list of corresponding binders, the innermost first: under a function the self-name
comes before the parameter and wins where both have one name. Putting equivalent closed values in
for corresponding variables keeps expressions equivalent, although substitution goes by names and
may stop at a binder in one of the two where it goes on in the other.
-/

namespace CellCalculus

/-- The binders around two expressions, pairwise and with the innermost first. -/
abbrev BinderPairs := List (Binder × Binder)

/-- Whether two names mean the same: the innermost pair that binds one of them binds both, or
neither is bound and they are equal. -/
def sameVariable : BinderPairs → String → String → Bool
  | [], x, y => x == y
  | (b, c) :: scope, x, y =>
      if b.binds x || c.binds y then b.binds x && c.binds y else sameVariable scope x y

/-- Equal up to the names of bound variables; values are related as the expressions they are. -/
inductive AlphaEq : BinderPairs → Expr → Expr → Prop
  | lit {Γ l} : AlphaEq Γ (.val (.lit l)) (.val (.lit l))
  | closure {Γ self self' param param' body body'} :
      AlphaEq ((self, self') :: (param, param') :: Γ) body body' →
      AlphaEq Γ (.val (.closure self param body)) (.val (.closure self' param' body'))
  | pairVal {Γ tag v v' w w'} : AlphaEq Γ (.val v) (.val v') → AlphaEq Γ (.val w) (.val w') →
      AlphaEq Γ (.val (.pair tag v w)) (.val (.pair tag v' w'))
  | var {Γ x y} : sameVariable Γ x y = true → AlphaEq Γ (.var x) (.var y)
  | fn {Γ self self' param param' body body'} :
      AlphaEq ((self, self') :: (param, param') :: Γ) body body' →
      AlphaEq Γ (.fn self param body) (.fn self' param' body')
  | app {Γ a a' b b'} : AlphaEq Γ a a' → AlphaEq Γ b b' → AlphaEq Γ (.app a b) (.app a' b')
  | unop {Γ op a a'} : AlphaEq Γ a a' → AlphaEq Γ (.unop op a) (.unop op a')
  | binop {Γ op a a' b b'} : AlphaEq Γ a a' → AlphaEq Γ b b' →
      AlphaEq Γ (.binop op a b) (.binop op a' b')
  | ite {Γ c c' t t' f f'} : AlphaEq Γ c c' → AlphaEq Γ t t' → AlphaEq Γ f f' →
      AlphaEq Γ (.ite c t f) (.ite c' t' f')
  | pair {Γ tag a a' b b'} : AlphaEq Γ a a' → AlphaEq Γ b b' →
      AlphaEq Γ (.pair tag a b) (.pair tag a' b')
  | record {Γ a a' b b'} : AlphaEq Γ a a' → AlphaEq Γ b b' →
      AlphaEq Γ (.record a b) (.record a' b')
  | fst {Γ a a'} : AlphaEq Γ a a' → AlphaEq Γ (.fst a) (.fst a')
  | snd {Γ a a'} : AlphaEq Γ a a' → AlphaEq Γ (.snd a) (.snd a')
  | alloc {Γ a a' b b'} : AlphaEq Γ a a' → AlphaEq Γ b b' →
      AlphaEq Γ (.alloc a b) (.alloc a' b')
  | free {Γ a a'} : AlphaEq Γ a a' → AlphaEq Γ (.free a) (.free a')
  | load {Γ a a'} : AlphaEq Γ a a' → AlphaEq Γ (.load a) (.load a')
  | store {Γ a a' b b'} : AlphaEq Γ a a' → AlphaEq Γ b b' →
      AlphaEq Γ (.store a b) (.store a' b')
  | ref {Γ a a'} : AlphaEq Γ a a' → AlphaEq Γ (.ref a) (.ref a')

/-- Corresponding binders bind corresponding variables. -/
theorem sameVariable_cons {b c : Binder} {Γ : BinderPairs} {x y : String} :
    sameVariable ((b, c) :: Γ) x y = true ↔ b.binds x = true ∧ c.binds y = true ∨
      b.binds x = false ∧ c.binds y = false ∧ sameVariable Γ x y = true := by
  rw [sameVariable]
  cases b.binds x <;> cases c.binds y <;> simp

theorem sameVariable_self (scope : List Binder) (x : String) :
    sameVariable (scope.map fun b => (b, b)) x x = true := by
  induction scope with
  | nil => exact beq_self_eq_true x
  | cons b scope ih =>
    rw [List.map_cons, sameVariable_cons]
    cases hb : b.binds x with
    | true => exact .inl ⟨rfl, rfl⟩
    | false => exact .inr ⟨rfl, rfl, ih⟩

theorem sameVariable_swap {Γ : BinderPairs} {x y : String} :
    sameVariable (Γ.map Prod.swap) y x = sameVariable Γ x y := by
  induction Γ with
  | nil => exact Bool.beq_comm
  | cons p Γ ih =>
    obtain ⟨b, c⟩ := p
    have hmap : ((b, c) :: Γ).map Prod.swap = (c, b) :: Γ.map Prod.swap := rfl
    rw [hmap, sameVariable, sameVariable, ih, Bool.or_comm, Bool.and_comm]

mutual

theorem Val.alphaEq_refl (scope : List Binder) :
    (v : Val) → AlphaEq (scope.map fun b => (b, b)) (.val v) (.val v)
  | .lit _ => .lit
  | .closure self param body => .closure (Expr.alphaEq_refl (self :: param :: scope) body)
  | .pair _ v w => .pairVal (Val.alphaEq_refl scope v) (Val.alphaEq_refl scope w)

theorem Expr.alphaEq_refl (scope : List Binder) :
    (e : Expr) → AlphaEq (scope.map fun b => (b, b)) e e
  | .val v => Val.alphaEq_refl scope v
  | .var x => .var (sameVariable_self scope x)
  | .fn self param body => .fn (Expr.alphaEq_refl (self :: param :: scope) body)
  | .app e₁ e₂ => .app (Expr.alphaEq_refl scope e₁) (Expr.alphaEq_refl scope e₂)
  | .unop _ e => .unop (Expr.alphaEq_refl scope e)
  | .binop _ e₁ e₂ => .binop (Expr.alphaEq_refl scope e₁) (Expr.alphaEq_refl scope e₂)
  | .ite c t f =>
    .ite (Expr.alphaEq_refl scope c) (Expr.alphaEq_refl scope t) (Expr.alphaEq_refl scope f)
  | .pair _ e₁ e₂ => .pair (Expr.alphaEq_refl scope e₁) (Expr.alphaEq_refl scope e₂)
  | .record e₁ e₂ => .record (Expr.alphaEq_refl scope e₁) (Expr.alphaEq_refl scope e₂)
  | .fst e => .fst (Expr.alphaEq_refl scope e)
  | .snd e => .snd (Expr.alphaEq_refl scope e)
  | .alloc e₁ e₂ => .alloc (Expr.alphaEq_refl scope e₁) (Expr.alphaEq_refl scope e₂)
  | .free e => .free (Expr.alphaEq_refl scope e)
  | .load e => .load (Expr.alphaEq_refl scope e)
  | .store e₁ e₂ => .store (Expr.alphaEq_refl scope e₁) (Expr.alphaEq_refl scope e₂)
  | .ref e => .ref (Expr.alphaEq_refl scope e)

end

theorem AlphaEq.symm {Γ : BinderPairs} {e e' : Expr} (h : AlphaEq Γ e e') :
    AlphaEq (Γ.map Prod.swap) e' e := by
  induction h with
  | var hxy => exact .var (sameVariable_swap.trans hxy)
  | lit => exact .lit
  | _ => constructor <;> assumption

/-- Whether what corresponds in the first list and is in scope corresponds in the second one. -/
def Agrees (scope : List Binder) (Γ Δ : BinderPairs) : Prop :=
  ∀ x y, scope.any (·.binds x) = true → sameVariable Γ x y = true → sameVariable Δ x y = true

theorem Agrees.cons {scope : List Binder} {Γ Δ : BinderPairs} (h : Agrees scope Γ Δ)
    (b c : Binder) : Agrees (b :: scope) ((b, c) :: Γ) ((b, c) :: Δ) := by
  intro x y hx hxy
  rw [List.any_cons, Bool.or_eq_true] at hx
  rw [sameVariable_cons] at hxy ⊢
  rcases hxy with hboth | ⟨hb, hc, hxy⟩
  · exact .inl hboth
  · rw [hb] at hx
    exact .inr ⟨hb, hc, h x y (hx.resolve_left Bool.false_ne_true) hxy⟩

namespace AlphaEq

/-- What is closed does not depend on what its surroundings bind. -/
theorem rescope {Γ Δ : BinderPairs} {e e' : Expr} {scope : List Binder} (h : AlphaEq Γ e e')
    (he : e.closedIn scope = true) (hscope : Agrees scope Γ Δ) : AlphaEq Δ e e' := by
  induction h generalizing Δ scope with
  | lit => exact .lit
  | var hxy => exact .var (hscope _ _ he hxy)
  | closure _ ih => exact .closure (ih he ((hscope.cons _ _).cons _ _))
  | fn _ ih => exact .fn (ih he ((hscope.cons _ _).cons _ _))
  | pairVal _ _ ih₁ ih₂ =>
    rw [Expr.closedIn, Val.closedIn, Bool.and_eq_true] at he
    exact .pairVal (ih₁ he.1 hscope) (ih₂ he.2 hscope)
  | app _ _ ih₁ ih₂ | binop _ _ ih₁ ih₂ | pair _ _ ih₁ ih₂ | record _ _ ih₁ ih₂
  | alloc _ _ ih₁ ih₂ | store _ _ ih₁ ih₂ =>
    rw [Expr.closedIn, Bool.and_eq_true] at he
    constructor
    · exact ih₁ he.1 hscope
    · exact ih₂ he.2 hscope
  | ite _ _ _ ihc iht ihf =>
    simp only [Expr.closedIn, Bool.and_eq_true] at he
    exact .ite (ihc he.1.1 hscope) (iht he.1.2 hscope) (ihf he.2 hscope)
  | unop _ ih | fst _ ih | snd _ ih | free _ ih | load _ ih | ref _ ih =>
    constructor
    exact ih he hscope

theorem rescope_closed {Γ : BinderPairs} {v v' : Val} (h : AlphaEq Γ (.val v) (.val v'))
    (hv : v.closed = true) (Δ : BinderPairs) : AlphaEq Δ (.val v) (.val v') :=
  h.rescope hv fun _ _ hx => nomatch hx

end AlphaEq

namespace Valuation

theorem without_comm (g : Valuation) (b c : Binder) :
    (g.without b).without c = (g.without c).without b := by
  funext x
  simp only [without]
  split <;> split <;> rfl

/-- Whether two valuations have equivalent closed values for the variables that correspond in the
first list, or none where they correspond in the second one. -/
def Corresponds (Γ Δ : BinderPairs) (g g' : Valuation) : Prop :=
  ∀ x y, sameVariable Γ x y = true → (g x = none ∧ g' y = none ∧ sameVariable Δ x y = true) ∨
    ∃ v v', g x = some v ∧ g' y = some v' ∧ v.closed = true ∧ AlphaEq [] (.val v) (.val v')

theorem Corresponds.cons {Γ Δ : BinderPairs} {g g' : Valuation} (h : Corresponds Γ Δ g g')
    (b c : Binder) :
    Corresponds ((b, c) :: Γ) ((b, c) :: Δ) (g.without b) (g'.without c) := by
  intro x y hxy
  rw [sameVariable_cons] at hxy
  rcases hxy with ⟨hb, hc⟩ | ⟨hb, hc, hxy⟩
  · exact .inl ⟨if_pos hb, if_pos hc, sameVariable_cons.mpr (.inl ⟨hb, hc⟩)⟩
  · have hg : g.without b x = g x := if_neg (Bool.eq_false_iff.mp hb)
    have hg' : g'.without c y = g' y := if_neg (Bool.eq_false_iff.mp hc)
    rw [hg, hg']
    rcases h x y hxy with ⟨hx, hy, hxy'⟩ | hvals
    · exact .inl ⟨hx, hy, sameVariable_cons.mpr (.inr ⟨hb, hc, hxy'⟩)⟩
    · exact .inr hvals

theorem Corresponds.bind {b c : Binder} {v v' : Val} (hv : v.closed = true)
    (h : AlphaEq [] (.val v) (.val v')) (Γ : BinderPairs) :
    Corresponds ((b, c) :: Γ) Γ (empty.bind b v) (empty.bind c v') := by
  intro x y hxy
  rw [sameVariable_cons] at hxy
  rcases hxy with ⟨hb, hc⟩ | ⟨hb, hc, hxy⟩
  · exact .inr ⟨v, v', if_pos hb, if_pos hc, hv, h⟩
  · exact .inl ⟨if_neg (Bool.eq_false_iff.mp hb), if_neg (Bool.eq_false_iff.mp hc), hxy⟩

end Valuation

namespace AlphaEq

theorem close {Γ Δ : BinderPairs} {e e' : Expr} {g g' : Valuation} (h : AlphaEq Γ e e')
    (he : e.valuesClosed = true) (hg : Valuation.Corresponds Γ Δ g g') :
    AlphaEq Δ (e.close g) (e'.close g') := by
  induction h generalizing Δ g g' with
  | lit => exact .lit
  -- The valuations do not reach into values, and closed values are equivalent in any scope.
  | closure hbody _ =>
    exact (AlphaEq.closure hbody).rescope_closed (Val.closed_of_valuesClosed he) Δ
  | pairVal hv hw _ _ =>
    exact (AlphaEq.pairVal hv hw).rescope_closed (Val.closed_of_valuesClosed he) Δ
  | @var Γ x y hxy =>
    rcases hg x y hxy with ⟨hx, hy, hxy'⟩ | ⟨v, v', hx, hy, hv, hvals⟩
    · rw [Expr.close, Expr.close, hx, hy]
      exact .var hxy'
    · rw [Expr.close, Expr.close, hx, hy]
      exact hvals.rescope_closed hv Δ
  | fn _ ih =>
    -- `close` takes out the self-name first, but the parameter is the outer one of the two pairs.
    rw [Expr.close, Expr.close, Valuation.without_comm g, Valuation.without_comm g']
    exact .fn (ih he ((hg.cons _ _).cons _ _))
  | app _ _ ih₁ ih₂ | binop _ _ ih₁ ih₂ | pair _ _ ih₁ ih₂ | record _ _ ih₁ ih₂
  | alloc _ _ ih₁ ih₂ | store _ _ ih₁ ih₂ =>
    simp only [Expr.valuesClosed, Expr.everywhere, Bool.and_eq_true] at he
    constructor
    · exact ih₁ he.1.2 hg
    · exact ih₂ he.2 hg
  | ite _ _ _ ihc iht ihf =>
    simp only [Expr.valuesClosed, Expr.everywhere, Bool.and_eq_true] at he
    exact .ite (ihc he.1.1.2 hg) (iht he.1.2 hg) (ihf he.2 hg)
  | unop _ ih | fst _ ih | snd _ ih | free _ ih | load _ ih | ref _ ih =>
    constructor
    exact ih he hg

/-- Substitution of equivalent closed values for what a pair of binders binds. -/
theorem substBinder {Γ : BinderPairs} {b c : Binder} {e e' : Expr} {v v' : Val}
    (h : AlphaEq ((b, c) :: Γ) e e') (he : e.valuesClosed = true) (hv : v.closed = true)
    (hvals : AlphaEq [] (.val v) (.val v')) :
    AlphaEq Γ (e.substBinder b v) (e'.substBinder c v') := by
  rw [Expr.substBinder_eq_close, Expr.substBinder_eq_close]
  exact h.close he (.bind hv hvals Γ)

end AlphaEq

end CellCalculus
