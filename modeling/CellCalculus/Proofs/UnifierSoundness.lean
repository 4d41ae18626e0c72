import CellCalculus.Proofs.ResolvedSubstitution

/-!
# What the unifier returns

A substitution solves equations when it makes both sides of each one equal. `solve` returns a
solution, and one that is resolved and touches no variable but those of the equations.
-/

namespace CellCalculus

open Substitution

def Substitution.Solves (s : Substitution) (eqs : List Equation) : Prop :=
  ∀ eq ∈ eqs, s.apply eq.1 = s.apply eq.2

@[simp] theorem solves_nil (s : Substitution) : s.Solves [] := by simp [Solves]

@[simp] theorem solves_cons (s : Substitution) (a b : Ty) (eqs : List Equation) :
    s.Solves ((a, b) :: eqs) ↔ s.apply a = s.apply b ∧ s.Solves eqs := by
  simp [Solves]

theorem solves_append (s : Substitution) (l m : List Equation) :
    s.Solves (l ++ m) ↔ s.Solves l ∧ s.Solves m := by
  simp [Solves, or_imp, forall_and]

theorem solves_applyEquations (outer inner : Substitution) (eqs : List Equation) :
    outer.Solves (inner.applyEquations eqs) ↔ (outer.compose inner).Solves eqs := by
  simp only [Solves, applyEquations, List.forall_mem_map, apply_compose]

theorem solves_components {a b : Ty} {eqs : List Equation} (s : Substitution)
    (hc : componentEquations? a b = some eqs) : s.Solves eqs ↔ s.apply a = s.apply b := by
  unfold componentEquations? at hc
  split at hc
  case h_2 =>
    split at hc <;> cases hc
    simp_all [apply]
  case h_5 => cases hc
  all_goals cases hc; simp [apply]

theorem apply_single_of_notMem {x : Nat} {t u : Ty} (hx : x ∉ u.vars) :
    (single x t).apply u = u := by
  apply apply_eq_self
  intro y hy
  have hyx : y ≠ x := fun h => hx (h ▸ hy)
  simp [hyx]

theorem binding_sides_equal {a b t : Ty} {x : Nat} (hb : binding? a b = some (x, t))
    (s : Substitution) : s.apply a = s.apply b ↔ s.apply (.var x) = s.apply t := by
  rcases binding?_eq_some hb with ⟨rfl, rfl⟩ | ⟨rfl, rfl⟩
  · rfl
  · exact eq_comm

theorem binding_mem_vars {a b t : Ty} {x : Nat} (hb : binding? a b = some (x, t)) :
    x ∈ a.vars ++ b.vars ∧ ∀ y ∈ t.vars, y ∈ a.vars ++ b.vars := by
  rcases binding?_eq_some hb with ⟨rfl, rfl⟩ | ⟨rfl, rfl⟩ <;> simp +contextual [Ty.vars]

theorem mem_equationVars_cons (a b : Ty) (eqs : List Equation) (x : Nat) :
    x ∈ equationVars ((a, b) :: eqs) ↔ x ∈ a.vars ++ b.vars ∨ x ∈ equationVars eqs := by
  simp [equationVars, or_assoc]

/-- The substitution found for the equations left after an elimination solves those before it. -/
theorem solves_of_eliminated {a b t : Ty} {x : Nat} {rest : List Equation} {s : Substitution}
    (hb : binding? a b = some (x, t)) (hx : x ∉ t.vars)
    (hs : s.Solves ((single x t).applyEquations rest)) :
    (s.compose (single x t)).Solves ((a, b) :: rest) := by
  have hvar : (single x t).apply (.var x) = t := by simp [apply]
  have ht : (single x t).apply t = t := apply_single_of_notMem hx
  rw [solves_cons, binding_sides_equal hb, apply_compose, apply_compose, hvar, ht]
  exact ⟨rfl, (solves_applyEquations _ _ _).mp hs⟩

theorem solve_solves {eqs : List Equation} {s : Substitution} (hs : solve eqs = .ok s) :
    s.Solves eqs := by
  fun_induction solve eqs generalizing s with
  | case1 => exact solves_nil s
  | case2 a rest ih => exact (solves_cons s a a rest).mpr ⟨rfl, ih hs⟩
  | case3 => cases hs
  | case4 a b rest hab x t hb hx s' hs' ih =>
    cases hs
    exact solves_of_eliminated hb hx (ih hs')
  | case5 => cases hs
  | case6 a b rest hab hb eqs hc ih =>
    have happ := (solves_append s eqs rest).mp (ih hs)
    exact (solves_cons s a b rest).mpr ⟨(solves_components s hc).mp happ.1, happ.2⟩
  | case7 => cases hs

theorem solve_resolved_within {eqs : List Equation} {s : Substitution} (hs : solve eqs = .ok s) :
    s.Resolved ∧ s.Within (equationVars eqs) := by
  fun_induction solve eqs generalizing s with
  | case1 =>
    cases hs
    exact ⟨resolved_empty, within_empty _⟩
  | case2 a rest ih =>
    obtain ⟨hres, hin⟩ := ih hs
    exact ⟨hres, hin.mono fun x hx => (mem_equationVars_cons a a rest x).mpr (.inr hx)⟩
  | case3 => cases hs
  | case4 a b rest hab x t hb hx s' hs' ih =>
    cases hs
    obtain ⟨hres, hin⟩ := ih hs'
    obtain ⟨hxab, htab⟩ := binding_mem_vars hb
    have hmem : ∀ y ∈ a.vars ++ b.vars, y ∈ equationVars ((a, b) :: rest) :=
      fun y hy => (mem_equationVars_cons a b rest y).mpr (.inl hy)
    have hsub : ∀ y ∈ equationVars ((single x t).applyEquations rest),
        y ∈ equationVars ((a, b) :: rest) := by
      intro y hy
      rcases (mem_equationVars_eliminate hx hy).2 with hy | hy
      · exact (mem_equationVars_cons a b rest y).mpr (.inr hy)
      · exact hmem y (htab y hy)
    refine ⟨hres.compose (resolved_single hx) hin fun y hy => ?_, ?_⟩
    · simp [(mem_equationVars_eliminate hx hy).1]
    · exact (hin.mono hsub).compose (within_single (hmem x hxab) fun y hy => hmem y (htab y hy))
  | case5 => cases hs
  | case6 a b rest hab hb eqs hc ih =>
    obtain ⟨hres, hin⟩ := ih hs
    refine ⟨hres, hin.mono fun x hx => ?_⟩
    rw [equationVars_append, List.mem_append, mem_equationVars_components hc] at hx
    exact (mem_equationVars_cons a b rest x).mpr hx
  | case7 => cases hs

theorem unify_sound {a b : Ty} {s : Substitution} (hs : unify a b = .ok s) :
    s.apply a = s.apply b ∧ s.Resolved ∧ s.Within (a.vars ++ b.vars) := by
  obtain ⟨hres, hin⟩ := solve_resolved_within hs
  have hvars : ∀ x ∈ equationVars [(a, b)], x ∈ a.vars ++ b.vars := by simp [equationVars]
  exact ⟨((solves_cons s a b []).mp (solve_solves hs)).1, hres, hin.mono hvars⟩

/-- The unifier is given resolved types, so what it binds is not bound yet. -/
theorem unify_compose_resolved {r s : Substitution} {a b : Ty} (hr : r.Resolved)
    (hs : unify (r.apply a) (r.apply b) = .ok s) : (s.compose r).Resolved := by
  obtain ⟨-, hres, hin⟩ := unify_sound hs
  refine hres.compose hr hin fun x hx => ?_
  rcases List.mem_append.mp hx with hx | hx
  · exact hr.unbound_of_mem_vars hx
  · exact hr.unbound_of_mem_vars hx

end CellCalculus
