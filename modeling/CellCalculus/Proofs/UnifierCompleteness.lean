import CellCalculus.Proofs.UnifierSoundness

/-!
# Completeness of the unifier

A substitution absorbs another one when applying the other one first makes no difference. Every
solution of the equations absorbs what `solve` returns, so that is a most general solution, and
equations with a solution are solved.
-/

namespace CellCalculus

open Substitution

def Substitution.Absorbs (s r : Substitution) : Prop := ∀ t, s.apply (r.apply t) = s.apply t

namespace Substitution

/-- It is enough to look at the variables. -/
theorem absorbs_of_vars {s r : Substitution}
    (h : ∀ x t, r.lookup? x = some t → s.apply (.var x) = s.apply t) : s.Absorbs r := by
  intro t
  induction t with
  | var x =>
    cases hx : r.lookup? x with
    | none => rw [apply_var_of_unbound hx]
    | some u => rw [apply_var_of_bound hx, h x u hx]
  | pair tag a b iha ihb => simp only [apply, iha, ihb]
  | record a b iha ihb => simp only [apply, iha, ihb]
  | arrow a b iha ihb => simp only [apply, iha, ihb]
  | ref t ih => simp only [apply, ih]
  | int | bool | unit => rfl

theorem absorbs_single {s : Substitution} {x : Nat} {t : Ty} (h : s.apply (.var x) = s.apply t) :
    s.Absorbs (single x t) := by
  refine absorbs_of_vars fun y u hy => ?_
  rw [lookup?_single] at hy
  split at hy
  · next hyx =>
    cases hy
    rw [hyx, h]
  · cases hy

theorem Absorbs.compose {s outer inner : Substitution} (ho : s.Absorbs outer)
    (hi : s.Absorbs inner) : s.Absorbs (outer.compose inner) := by
  intro t
  rw [apply_compose, ho, hi]

/-- What a solution makes of the equations left after an elimination is what it made of them. -/
theorem Solves.applyEquations {s r : Substitution} {eqs : List Equation} (hs : s.Solves eqs)
    (h : s.Absorbs r) : s.Solves (r.applyEquations eqs) := by
  rw [solves_applyEquations]
  intro eq heq
  rw [apply_compose, apply_compose, h, h, hs eq heq]

theorem size_apply_var_le {s : Substitution} {t : Ty} {x : Nat} (hx : x ∈ t.vars) :
    (s.apply (.var x)).size ≤ (s.apply t).size := by
  induction t with
  | int | bool | unit => cases hx
  | var y =>
    obtain rfl := List.mem_singleton.mp hx
    exact Nat.le_refl _
  | ref u ih => exact Nat.le_succ_of_le (ih hx)
  | pair tag a b iha ihb | record a b iha ihb | arrow a b iha ihb =>
    have hsub := (List.mem_append.mp hx).imp iha ihb
    rw [apply, Ty.size]
    omega

/-- A type is larger than a variable inside it, whatever the variables stand for. -/
theorem size_apply_var_lt {s : Substitution} {t : Ty} {x : Nat} (hx : x ∈ t.vars)
    (ht : t ≠ .var x) : (s.apply (.var x)).size < (s.apply t).size := by
  cases t with
  | int | bool | unit => cases hx
  | var y =>
    obtain rfl := List.mem_singleton.mp hx
    exact absurd rfl ht
  | ref u => exact Nat.lt_succ_of_le (size_apply_var_le (t := u) hx)
  | pair tag a b | record a b | arrow a b =>
    have hsub : (s.apply (.var x)).size ≤ (s.apply a).size ∨
        (s.apply (.var x)).size ≤ (s.apply b).size :=
      (List.mem_append.mp hx).imp size_apply_var_le size_apply_var_le
    rw [apply, Ty.size]
    omega

end Substitution

theorem apply_ne_of_mismatch {a b : Ty} (s : Substitution) (hab : a ≠ b) (hb : binding? a b = none)
    (hc : componentEquations? a b = none) : s.apply a ≠ s.apply b := by
  cases a <;> cases b <;> simp_all [binding?, componentEquations?, apply]

/-- The type cannot be that of a variable inside it. -/
theorem notMem_vars_of_binding {a b t : Ty} {x : Nat} {s : Substitution} (hab : a ≠ b)
    (hb : binding? a b = some (x, t)) (hs : s.apply a = s.apply b) : x ∉ t.vars := by
  intro hx
  have hne : t ≠ .var x := by
    rintro rfl
    rcases binding?_eq_some hb with ⟨rfl, rfl⟩ | ⟨rfl, rfl⟩ <;> exact hab rfl
  have heq := (binding_sides_equal hb s).mp hs
  have hlt := size_apply_var_lt (s := s) hx hne
  rw [heq] at hlt
  exact Nat.lt_irrefl _ hlt

theorem solve_absorbs {eqs : List Equation} {s r : Substitution} (hr : solve eqs = .ok r)
    (hs : s.Solves eqs) : s.Absorbs r := by
  fun_induction solve eqs generalizing r with
  | case1 =>
    cases hr
    exact fun t => by rw [apply_empty]
  | case2 a rest ih => exact ih hr ((solves_cons s a a rest).mp hs).2
  | case3 => cases hr
  | case4 a b rest hab x t hb hx r' hr' ih =>
    cases hr
    obtain ⟨hhead, hrest⟩ := (solves_cons s a b rest).mp hs
    have hsingle : s.Absorbs (single x t) :=
      absorbs_single ((binding_sides_equal hb s).mp hhead)
    exact (ih hr' (hrest.applyEquations hsingle)).compose hsingle
  | case5 => cases hr
  | case6 a b rest hab hb eqs hc ih =>
    obtain ⟨hhead, hrest⟩ := (solves_cons s a b rest).mp hs
    exact ih hr ((solves_append s eqs rest).mpr ⟨(solves_components s hc).mpr hhead, hrest⟩)
  | case7 => cases hr

theorem solve_complete {eqs : List Equation} {s : Substitution} (hs : s.Solves eqs) :
    ∃ r, solve eqs = .ok r := by
  fun_induction solve eqs with
  | case1 => exact ⟨_, rfl⟩
  | case2 a rest ih => exact ih ((solves_cons s a a rest).mp hs).2
  | case3 a b rest hab x t hb hx =>
    exact absurd hx (notMem_vars_of_binding hab hb ((solves_cons s a b rest).mp hs).1)
  | case4 => exact ⟨_, rfl⟩
  | case5 a b rest hab x t hb hx err herr ih =>
    obtain ⟨hhead, hrest⟩ := (solves_cons s a b rest).mp hs
    have hsingle : s.Absorbs (single x t) :=
      absorbs_single ((binding_sides_equal hb s).mp hhead)
    obtain ⟨r, hr⟩ := ih (hrest.applyEquations hsingle)
    rw [herr] at hr
    cases hr
  | case6 a b rest hab hb eqs hc ih =>
    obtain ⟨hhead, hrest⟩ := (solves_cons s a b rest).mp hs
    exact ih ((solves_append s eqs rest).mpr ⟨(solves_components s hc).mpr hhead, hrest⟩)
  | case7 a b rest hab hb hc =>
    exact absurd ((solves_cons s a b rest).mp hs).1 (apply_ne_of_mismatch s hab hb hc)

/-- Types with a common instance are unified, and the instance is one of what they become. -/
theorem unify_complete {a b : Ty} {s : Substitution} (hs : s.apply a = s.apply b) :
    ∃ r, unify a b = .ok r ∧ s.Absorbs r := by
  have hsolves : s.Solves [(a, b)] := (solves_cons s a b []).mpr ⟨hs, solves_nil s⟩
  obtain ⟨r, hr⟩ := solve_complete hsolves
  exact ⟨r, hr, solve_absorbs hr hsolves⟩

end CellCalculus
