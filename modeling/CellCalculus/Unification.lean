import CellCalculus.DistinctCount
import CellCalculus.TypeSubstitution

/-!
# Unification

A list of equations is solved from the left. An equation between equal types is dropped, one between
types of the same shape is replaced by those between their components, and a variable on either side
is eliminated: it is bound to the other side, which must not mention it, and replaced in the
equations that are left. Elimination lowers the number of variables, and the other moves the size of
the equations.
-/

namespace CellCalculus

abbrev Equation := Ty × Ty

inductive UnifyError where
  | mismatch (expected found : Ty)
  | occursCheck (x : Nat) (t : Ty)
  deriving DecidableEq

def UnifyError.message : UnifyError → String
  | .mismatch expected found =>
      "type mismatch: expected " ++ expected.text ++ ", found " ++ found.text
  | .occursCheck x t =>
      "occurs check: cannot construct infinite type " ++ (Ty.var x).text ++ " = " ++ t.text

/-- A variable on one side with the type on the other; of two variables the left one. -/
def binding? : Ty → Ty → Option (Nat × Ty)
  | .var x, t => some (x, t)
  | t, .var x => some (x, t)
  | _, _ => none

/-- The equations between the components of two types of the same shape. -/
def componentEquations? : Ty → Ty → Option (List Equation)
  | .ref a, .ref b => some [(a, b)]
  | .pair s a₁ a₂, .pair t b₁ b₂ => if s = t then some [(a₁, b₁), (a₂, b₂)] else none
  | .record a₁ a₂, .record b₁ b₂ => some [(a₁, b₁), (a₂, b₂)]
  | .arrow a₁ a₂, .arrow b₁ b₂ => some [(a₁, b₁), (a₂, b₂)]
  | _, _ => none

def equationVars (eqs : List Equation) : List Nat :=
  eqs.flatMap fun eq => eq.1.vars ++ eq.2.vars

def equationSize : List Equation → Nat
  | [] => 0
  | (a, b) :: rest => a.size + b.size + equationSize rest

def Substitution.applyEquations (s : Substitution) (eqs : List Equation) : List Equation :=
  eqs.map fun eq => (s.apply eq.1, s.apply eq.2)

theorem binding?_eq_some {a b t : Ty} {x : Nat} (h : binding? a b = some (x, t)) :
    (a = .var x ∧ b = t) ∨ (a = t ∧ b = .var x) := by
  cases a <;> cases b <;> simp_all [binding?]

theorem equationSize_append (l m : List Equation) :
    equationSize (l ++ m) = equationSize l + equationSize m := by
  induction l with
  | nil => rw [List.nil_append, equationSize, Nat.zero_add]
  | cons eq l ih =>
    rw [List.cons_append, equationSize, equationSize, ih]
    omega

theorem equationVars_append (l m : List Equation) :
    equationVars (l ++ m) = equationVars l ++ equationVars m := by
  simp [equationVars]

theorem equationSize_components {a b : Ty} {eqs : List Equation}
    (h : componentEquations? a b = some eqs) : equationSize eqs < a.size + b.size := by
  unfold componentEquations? at h
  split at h
  case h_2 => split at h <;> cases h; simp [equationSize, Ty.size]; omega
  case h_5 => cases h
  all_goals cases h; simp [equationSize, Ty.size]; omega

theorem mem_equationVars_components {a b : Ty} {eqs : List Equation}
    (h : componentEquations? a b = some eqs) {x : Nat} :
    x ∈ equationVars eqs ↔ x ∈ a.vars ++ b.vars := by
  unfold componentEquations? at h
  split at h
  case h_1 => cases h; simp [equationVars, Ty.vars]
  case h_2 => split at h <;> cases h; simp [equationVars, Ty.vars]; grind
  case h_5 => cases h
  all_goals cases h; simp [equationVars, Ty.vars]; grind

/-- Binding a variable to a type without it eliminates the variable. -/
theorem mem_vars_apply_single {x y : Nat} {t u : Ty} (hx : x ∉ t.vars)
    (hy : y ∈ ((Substitution.single x t).apply u).vars) :
    y ≠ x ∧ (y ∈ u.vars ∨ y ∈ t.vars) := by
  obtain ⟨z, hz, hyz⟩ := Substitution.mem_vars_apply.mp hy
  by_cases hzx : z = x
  · have hyt : y ∈ t.vars := by simpa [Substitution.apply, hzx] using hyz
    exact ⟨fun hyx => hx (hyx ▸ hyt), Or.inr hyt⟩
  · have hyz' : y = z := by simpa [Substitution.apply, hzx, Ty.vars] using hyz
    exact ⟨hyz' ▸ hzx, Or.inl (hyz' ▸ hz)⟩

theorem mem_equationVars_eliminate {x y : Nat} {t : Ty} {eqs : List Equation} (hx : x ∉ t.vars)
    (hy : y ∈ equationVars ((Substitution.single x t).applyEquations eqs)) :
    y ≠ x ∧ (y ∈ equationVars eqs ∨ y ∈ t.vars) := by
  simp only [equationVars, Substitution.applyEquations, List.mem_flatMap, List.mem_map] at hy
  obtain ⟨_, ⟨eq, heq, rfl⟩, hy⟩ := hy
  have hside : ∀ u : Ty, (∀ z ∈ u.vars, z ∈ equationVars eqs) →
      y ∈ ((Substitution.single x t).apply u).vars →
      y ≠ x ∧ (y ∈ equationVars eqs ∨ y ∈ t.vars) := by
    intro u hu hyu
    obtain ⟨hyx, hyut⟩ := mem_vars_apply_single hx hyu
    exact ⟨hyx, hyut.imp_left (hu y)⟩
  rcases List.mem_append.mp hy with hy | hy
  · exact hside eq.1 (fun z hz => List.mem_flatMap.mpr ⟨eq, heq, List.mem_append_left _ hz⟩) hy
  · exact hside eq.2 (fun z hz => List.mem_flatMap.mpr ⟨eq, heq, List.mem_append_right _ hz⟩) hy

theorem distinctCount_eliminate {a b t : Ty} {x : Nat} {rest : List Equation}
    (hb : binding? a b = some (x, t)) (hx : x ∉ t.vars) :
    distinctCount (equationVars ((Substitution.single x t).applyEquations rest)) <
      distinctCount (equationVars ((a, b) :: rest)) := by
  have hab : ∀ y, y ∈ a.vars ++ b.vars ↔ y = x ∨ y ∈ t.vars := by
    rcases binding?_eq_some hb with ⟨rfl, rfl⟩ | ⟨rfl, rfl⟩ <;> intro y <;> simp [Ty.vars, or_comm]
  refine distinctCount_lt_of_subset (x := x) (fun y hy => ?_) ?_
    fun h => (mem_equationVars_eliminate hx h).1 rfl
  · rcases (mem_equationVars_eliminate hx hy).2 with h | h
    · exact List.mem_append_right _ h
    · exact List.mem_append_left _ ((hab y).mpr (Or.inr h))
  · exact List.mem_append_left _ ((hab x).mpr (Or.inl rfl))

/-- Solves the equations, or reports the first one without a solution after those before it. -/
def solve : List Equation → Except UnifyError Substitution
  | [] => .ok .empty
  | (a, b) :: rest =>
      if a = b then solve rest
      else
        match _hb : binding? a b with
        | some (x, t) =>
            if _hx : x ∈ t.vars then .error (.occursCheck x t)
            else
              match solve ((Substitution.single x t).applyEquations rest) with
              | .ok s => .ok (s.compose (.single x t))
              | .error err => .error err
        | none =>
            match _hc : componentEquations? a b with
            | some eqs => solve (eqs ++ rest)
            | none => .error (.mismatch a b)
termination_by eqs => (distinctCount (equationVars eqs), equationSize eqs)
decreasing_by
  · refine distinctCount_lex_of_subset (fun y hy => List.mem_append_right _ hy) ?_
    have := a.size_pos
    simp only [equationSize]
    omega
  · exact .left _ _ (distinctCount_eliminate _hb _hx)
  · refine distinctCount_lex_of_subset (fun y hy => ?_) ?_
    · rw [equationVars_append, List.mem_append] at hy
      exact hy.elim
        (fun h => List.mem_append_left _ ((mem_equationVars_components _hc).mp h))
        (fun h => List.mem_append_right _ h)
    · have h := equationSize_components _hc
      rw [equationSize_append]
      simp only [equationSize] at h ⊢
      omega

theorem solve_cons_self (a : Ty) (rest : List Equation) : solve ((a, a) :: rest) = solve rest := by
  rw [solve, if_pos rfl]

theorem solve_cons_binding {a b t : Ty} {x : Nat} (rest : List Equation) (hab : a ≠ b)
    (hb : binding? a b = some (x, t)) : solve ((a, b) :: rest) =
      if x ∈ t.vars then .error (.occursCheck x t)
      else (solve ((Substitution.single x t).applyEquations rest)).map
        fun s => s.compose (.single x t) := by
  rw [solve, if_neg hab]
  split
  · next y u hy =>
    obtain ⟨rfl, rfl⟩ := Prod.mk.inj (Option.some.inj (hb.symm.trans hy))
    by_cases hx : x ∈ t.vars
    · rw [dif_pos hx, if_pos hx]
    · rw [dif_neg hx, if_neg hx]
      cases solve ((Substitution.single x t).applyEquations rest) <;> rfl
  · next hnone => simp [hb] at hnone

theorem solve_cons_components {a b : Ty} (rest : List Equation) (hab : a ≠ b)
    (hb : binding? a b = none) : solve ((a, b) :: rest) =
      match componentEquations? a b with
      | some eqs => solve (eqs ++ rest)
      | none => .error (.mismatch a b) := by
  rw [solve, if_neg hab]
  split
  · next hsome => simp [hb] at hsome
  · split <;> simp_all

def unify (a b : Ty) : Except UnifyError Substitution := solve [(a, b)]

end CellCalculus
