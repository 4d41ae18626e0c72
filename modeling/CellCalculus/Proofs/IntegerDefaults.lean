import CellCalculus.Proofs.GroundTyping
import CellCalculus.Proofs.InferenceSoundness

/-!
# Settling the fields succeeds

Setting a variable to an integer makes no difference to a type once all its variables are integers.
So whether a recorded field can still be valid does not change while the others are settled, and a
field that can be valid is so when its own variables are integers.
-/

namespace CellCalculus

open Check

/-- A variable, or what has been made of one already, can be set to an integer. -/
theorem unify_int {t : Ty} (ht : t.withInts = .int) :
    ∃ r, unify .int t = .ok r ∧ ∀ u, (r.apply u).withInts = u.withInts := by
  rcases Ty.withInts_eq_int ht with rfl | ⟨x, rfl⟩
  · refine ⟨.empty, by simp [unify, solve], fun u => ?_⟩
    rw [Substitution.apply_empty]
  · refine ⟨Substitution.empty.compose (.single x .int), ?_, Ty.withInts_apply fun y => ?_⟩
    · simp [unify, solve, binding?, Ty.vars, Substitution.applyEquations]
    · rw [Substitution.apply_compose, Substitution.apply_empty, Substitution.apply,
        Substitution.lookup?_single]
      split <;> rfl

/-- Both states tell the same of a type, up to variables that have become integers. -/
def Checker.SameWithInts (c c' : Checker) : Prop :=
  ∀ t, (c'.subst.apply t).withInts = (c.subst.apply t).withInts

theorem defaults_return (site : Expr) {xs : List Nat} {c : Checker}
    (hxs : ∀ x ∈ xs, (c.subst.apply (.var x)).withInts = .int) :
    ∃ c', (xs.forM fun x => unifyAt site .int (.var x)).Returns c () c' ∧ c.SameWithInts c' := by
  induction xs generalizing c with
  | nil => exact ⟨c, returns_pure_iff.mpr ⟨rfl, rfl⟩, fun _ => rfl⟩
  | cons x xs ih =>
    obtain ⟨hx, hxs⟩ := List.forall_mem_cons.mp hxs
    obtain ⟨r, hr, hsame⟩ := unify_int hx
    have hstep : c.SameWithInts { c with subst := r.compose c.subst } := fun t => by
      rw [Substitution.apply_compose, hsame]
    obtain ⟨c', hrest, hsame'⟩ := ih fun y hy => (hstep (.var y)).trans (hxs y hy)
    refine ⟨c', returns_bind_iff.mpr ⟨(), _, returns_unifyAt_iff.mpr ⟨r, hr, rfl⟩, hrest⟩, ?_⟩
    exact fun t => (hsame' t).trans (hstep t)

/-- A state from which all premises have been taken. -/
structure Checker.Premiseless (c : Checker) : Prop where
  resolved : c.subst.Resolved
  fields : c.fields = []
  projections : c.projections = []

theorem Checker.Premiseless.returns {α : Type} {m : Check α} {Q : Substitution → α → Prop}
    {c c' : Checker} {a : α} (hc : c.Premiseless) (hm : m.Guarantees Q)
    (hkeeps : ∀ {γ : Type} {part : Checker → γ},
      (∀ c s, part { c with subst := s } = part c) → m.Keeps part)
    (hr : m.Returns c a c') : c'.Premiseless where
  resolved := (hm c a c' hr hc.resolved).1
  fields := ((hkeeps fun _ _ => rfl).returns hr).trans hc.fields
  projections := ((hkeeps fun _ _ => rfl).returns hr).trans hc.projections

theorem Checker.Premiseless.satisfies {c : Checker} (hc : c.Premiseless) : c.subst.Satisfies c :=
  satisfies_own_subst hc.resolved hc.fields hc.projections

theorem defaults_apply {site : Expr} {xs : List Nat} {c c' : Checker} {t : Ty}
    (hr : (xs.forM fun x => unifyAt site .int (.var x)).Returns c () c') (hc : c.Premiseless)
    (ht : ∀ x ∈ (c.subst.apply t).vars, x ∈ xs) :
    c'.subst.apply t = (c.subst.apply t).withInts := by
  have hints := guarantees_forM (l := xs) (R := fun x s => s.apply .int = s.apply (.var x))
    fun x _ => guarantees_unifyAt site .int (.var x)
  have hc' : c'.Premiseless := hc.returns hints
    (fun hpart => keeps_forM fun x _ => keeps_unifyAt _ _ _ hpart) hr
  obtain ⟨hback, hvars⟩ := (hints c () c' hr hc.resolved).2 c'.subst hc'.satisfies
  rw [← hback.absorbs t]
  exact Ty.apply_eq_withInts fun x hx => (hvars x (ht x hx)).symm

theorem demandField_returns {p : FieldPremise} {t : Ty} {c : Checker}
    (ht : fieldValid p.tag t = true) : (demandField p t).Returns c () c := by
  rw [demandField, if_pos ht]
  exact returns_pure_iff.mpr ⟨rfl, rfl⟩

theorem settleField_returns {p : FieldPremise} {c : Checker} (hc : c.Premiseless)
    (hp : fieldValid p.tag (c.subst.apply p.ty).withInts = true) :
    ∃ c', (settleField p).Returns c () c' ∧ c.SameWithInts c' := by
  by_cases hopen : fieldValidity p.tag (c.subst.apply p.ty) = none
  · have hxs : ∀ x ∈ (c.subst.apply p.ty).vars.eraseDups,
        (c.subst.apply (.var x)).withInts = .int := fun x hx => by
      -- A variable of a resolved type is not bound, so it stands for itself.
      have hunbound := hc.resolved.unbound_of_mem_vars (List.mem_eraseDups.mp hx)
      rw [Substitution.apply_var_of_unbound hunbound, Ty.withInts]
    obtain ⟨c', hr, hsame⟩ := defaults_return p.site hxs
    have hground := defaults_apply hr hc fun x hx => List.mem_eraseDups.mpr hx
    have hdemand : (demandField p (c'.subst.apply p.ty)).Returns c' () c' :=
      demandField_returns (hground ▸ hp)
    refine ⟨c', returns_bind_iff.mpr ⟨_, c, returns_resolve_iff.mpr ⟨rfl, rfl⟩, ?_⟩, hsame⟩
    rw [if_pos hopen]
    refine returns_bind_iff.mpr ⟨(), c', hr, ?_⟩
    refine returns_bind_iff.mpr ⟨_, c', returns_resolve_iff.mpr ⟨rfl, rfl⟩, ?_⟩
    exact returns_bind_iff.mpr ⟨(), c', returns_emit_iff.mpr rfl, hdemand⟩
  · have hvalid : fieldValid p.tag (c.subst.apply p.ty) = true := fieldValid_of_withInts hp hopen
    refine ⟨c, returns_bind_iff.mpr ⟨_, c, returns_resolve_iff.mpr ⟨rfl, rfl⟩, ?_⟩, fun _ => rfl⟩
    rw [if_neg hopen]
    exact demandField_returns hvalid

/-- Fields that can all be valid are settled one after the other. -/
theorem settleField_forM_returns {ps : List FieldPremise} {c : Checker} (hc : c.Premiseless)
    (hps : ∀ p ∈ ps, fieldValid p.tag (c.subst.apply p.ty).withInts = true) :
    ∃ c', (ps.forM settleField).Returns c () c' := by
  induction ps generalizing c with
  | nil => exact ⟨c, returns_pure_iff.mpr ⟨rfl, rfl⟩⟩
  | cons p ps ih =>
    obtain ⟨hhead, htail⟩ := List.forall_mem_cons.mp hps
    obtain ⟨d, hr, hsame⟩ := settleField_returns hc hhead
    have hd : d.Premiseless :=
      hc.returns (settleField_guarantees p) (fun hpart => keeps_settleField p hpart) hr
    obtain ⟨c', hrest⟩ := ih hd fun q hq => by
      rw [hsame]
      exact htail q hq
    exact ⟨c', returns_bind_iff.mpr ⟨(), d, hr, hrest⟩⟩

theorem settleFields_returns {c : Checker} (hc : c.subst.Resolved) (hnop : c.projections = [])
    (hp : ∀ p ∈ c.fields, fieldValid p.tag (c.subst.apply p.ty).withInts = true) :
    ∃ c', settleFields.Returns c () c' := by
  obtain ⟨c', hr⟩ := settleField_forM_returns (c := { c with fields := [] }) ⟨hc, rfl, hnop⟩ hp
  exact ⟨c', returns_settleFields_iff.mpr hr⟩

end CellCalculus
