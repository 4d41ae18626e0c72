import CellCalculus.Unification

/-!
# Resolved substitutions

A substitution is resolved when no variable that it binds occurs in a type it maps to. Applying a
resolved substitution twice is applying it once. The composition of two resolved substitutions is
resolved as soon as the outer one stays clear of the variables of the inner one, which is how the
checker comes by every substitution it holds.
-/

namespace CellCalculus.Substitution

def Resolved (s : Substitution) : Prop :=
  ∀ x t, s.lookup? x = some t → ∀ y ∈ t.vars, s.lookup? y = none

/-- All variables that the substitution binds or mentions are among `l`. -/
def Within (s : Substitution) (l : List Nat) : Prop :=
  ∀ x t, s.lookup? x = some t → x ∈ l ∧ ∀ y ∈ t.vars, y ∈ l

theorem resolved_empty : empty.Resolved := by
  intro x t hx
  simp at hx

theorem resolved_single {x : Nat} {t : Ty} (hx : x ∉ t.vars) : (single x t).Resolved := by
  intro y u hy z hz
  simp only [lookup?_single] at hy ⊢
  split at hy
  · cases hy
    have hzx : z ≠ x := fun h => hx (h ▸ hz)
    rw [if_neg hzx]
  · cases hy

theorem Within.mono {s : Substitution} {l m : List Nat} (hs : s.Within l) (hlm : ∀ x ∈ l, x ∈ m) :
    s.Within m := by
  intro x t hx
  obtain ⟨hxl, htl⟩ := hs x t hx
  exact ⟨hlm x hxl, fun y hy => hlm y (htl y hy)⟩

theorem within_empty (l : List Nat) : empty.Within l := by
  intro x t hx
  simp at hx

theorem within_single {x : Nat} {t : Ty} {l : List Nat} (hx : x ∈ l) (ht : ∀ y ∈ t.vars, y ∈ l) :
    (single x t).Within l := by
  intro y u hy
  rw [lookup?_single] at hy
  split at hy
  · next hyx =>
    cases hy
    exact ⟨hyx ▸ hx, ht⟩
  · cases hy

theorem apply_var_of_unbound {s : Substitution} {x : Nat} (hx : s.lookup? x = none) :
    s.apply (.var x) = .var x := by
  simp [apply, hx]

theorem apply_var_of_bound {s : Substitution} {x : Nat} {t : Ty} (hx : s.lookup? x = some t) :
    s.apply (.var x) = t := by
  simp [apply, hx]

theorem apply_eq_self {s : Substitution} {t : Ty} (ht : ∀ x ∈ t.vars, s.lookup? x = none) :
    s.apply t = t := by
  induction t with
  | var x => exact apply_var_of_unbound (ht x (by simp [Ty.vars]))
  | _ => simp_all [apply, Ty.vars]

theorem apply_ground {t : Ty} (ht : t.vars = []) (s : Substitution) : s.apply t = t :=
  apply_eq_self (by simp [ht])

theorem Resolved.unbound_of_mem_vars {s : Substitution} (hs : s.Resolved) {t : Ty} {x : Nat}
    (hx : x ∈ (s.apply t).vars) : s.lookup? x = none := by
  obtain ⟨y, _, hxy⟩ := mem_vars_apply.mp hx
  cases hy : s.lookup? y with
  | none =>
    rw [apply_var_of_unbound hy] at hxy
    have hxy' : x = y := by simpa [Ty.vars] using hxy
    exact hxy' ▸ hy
  | some u =>
    rw [apply_var_of_bound hy] at hxy
    exact hs y u hy x hxy

theorem Resolved.apply_apply {s : Substitution} (hs : s.Resolved) (t : Ty) :
    s.apply (s.apply t) = s.apply t :=
  apply_eq_self fun _ hx => hs.unbound_of_mem_vars hx

theorem mem_of_mem_vars_apply {s : Substitution} {l : List Nat} (hs : s.Within l) {t : Ty}
    (ht : ∀ x ∈ t.vars, x ∈ l) {x : Nat} (hx : x ∈ (s.apply t).vars) : x ∈ l := by
  obtain ⟨y, hy, hxy⟩ := mem_vars_apply.mp hx
  cases hb : s.lookup? y with
  | none =>
    rw [apply_var_of_unbound hb] at hxy
    have hxy' : x = y := by simpa [Ty.vars] using hxy
    exact hxy' ▸ ht y hy
  | some u =>
    rw [apply_var_of_bound hb] at hxy
    exact (hs y u hb).2 x hxy

theorem Within.compose {outer inner : Substitution} {l : List Nat} (ho : outer.Within l)
    (hi : inner.Within l) : (outer.compose inner).Within l := by
  intro x t hx
  rw [lookup?_compose] at hx
  split at hx
  · next u hu =>
    cases hx
    exact ⟨(hi x u hu).1, fun y hy => mem_of_mem_vars_apply ho (hi x u hu).2 hy⟩
  · exact ho x t hx

/-- The outer substitution may not touch what the inner one binds. -/
theorem Resolved.compose {outer inner : Substitution} (ho : outer.Resolved) (hi : inner.Resolved)
    {l : List Nat} (hl : outer.Within l) (hfree : ∀ x ∈ l, inner.lookup? x = none) :
    (outer.compose inner).Resolved := by
  have hunbound : ∀ y, inner.lookup? y = none → outer.lookup? y = none →
      (outer.compose inner).lookup? y = none := by
    intro y hiy hoy
    rw [lookup?_compose, hiy]
    exact hoy
  intro x t hx y hy
  rw [lookup?_compose] at hx
  split at hx
  · next u hu =>
    cases hx
    have hoy : outer.lookup? y = none := ho.unbound_of_mem_vars hy
    obtain ⟨z, hz, hyz⟩ := mem_vars_apply.mp hy
    have hiz : inner.lookup? z = none := hi x u hu z hz
    cases hoz : outer.lookup? z with
    | none =>
      rw [apply_var_of_unbound hoz] at hyz
      have hyz' : y = z := by simpa [Ty.vars] using hyz
      exact hunbound y (hyz' ▸ hiz) hoy
    | some w =>
      rw [apply_var_of_bound hoz] at hyz
      exact hunbound y (hfree y ((hl z w hoz).2 y hyz)) hoy
  · exact hunbound y (hfree y ((hl x t hx).2 y hy)) (ho x t hx y hy)

end CellCalculus.Substitution
