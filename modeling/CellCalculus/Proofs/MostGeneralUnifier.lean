import CellCalculus.Proofs.UnifierCompleteness

/-!
# Most general unifiers

Two types can also be unified by recursion on them: their components are unified from the left to
the right, and what the first ones gave is applied to the second ones. `UnifiesTo` holds of what
such a recursion ends in. It always ends, although the second components may have grown by then,
since that takes a variable away; and it ends in what `unify` answers. `unify_mostGeneral` puts
together what that answer is.
-/

namespace CellCalculus

open Substitution

namespace Substitution

theorem eq_of_entries {r s : Substitution} (h : r.entries = s.entries) : r = s := by
  cases r
  cases s
  exact congrArg mk h

theorem entries_compose (outer inner : Substitution) : (outer.compose inner).entries =
    inner.entries.map (fun entry => (entry.1, outer.apply entry.2)) ++
      outer.entries.filter fun entry => (inner.lookup? entry.1).isNone := rfl

@[simp] theorem empty_compose (s : Substitution) : empty.compose s = s := by
  refine eq_of_entries ?_
  simp only [entries_compose, apply_empty, List.map_id']
  exact List.append_nil _

@[simp] theorem compose_empty (s : Substitution) : s.compose empty = s :=
  eq_of_entries (List.filter_eq_self.mpr fun _ _ => rfl)

theorem isNone_lookup?_compose (outer inner : Substitution) (x : Nat) :
    ((outer.compose inner).lookup? x).isNone =
      ((inner.lookup? x).isNone && (outer.lookup? x).isNone) := by
  rw [lookup?_compose]
  cases inner.lookup? x <;> rfl

theorem compose_assoc (r s t : Substitution) :
    (r.compose s).compose t = r.compose (s.compose t) := by
  refine eq_of_entries ?_
  simp only [entries_compose, isNone_lookup?_compose, apply_compose, List.map_append,
    List.map_map, List.filter_append, List.filter_map, List.filter_filter, Function.comp_def,
    List.append_assoc]

theorem applyEquations_append (s : Substitution) (l m : List Equation) :
    s.applyEquations (l ++ m) = s.applyEquations l ++ s.applyEquations m :=
  List.map_append

theorem applyEquations_compose (r s : Substitution) (eqs : List Equation) :
    (r.compose s).applyEquations eqs = r.applyEquations (s.applyEquations eqs) := by
  simp only [applyEquations, apply_compose, List.map_map, Function.comp_def]

@[simp] theorem applyEquations_empty (eqs : List Equation) : empty.applyEquations eqs = eqs := by
  simp [applyEquations]

end Substitution

/-- Goes on with further equations once `s` solves those before them. -/
def solveFrom (s : Substitution) (eqs : List Equation) : Except UnifyError Substitution :=
  (solve (s.applyEquations eqs)).map fun r => r.compose s

@[simp] theorem solveFrom_empty (eqs : List Equation) : solveFrom empty eqs = solve eqs := by
  rw [solveFrom, applyEquations_empty]
  cases solve eqs with
  | error err => rfl
  | ok r => exact congrArg Except.ok r.compose_empty

/-- Solving after a composition is solving after its outer part and adding its inner part. -/
theorem solveFrom_compose (r s : Substitution) (eqs : List Equation) :
    solveFrom (r.compose s) eqs =
      (solveFrom r (s.applyEquations eqs)).map fun q => q.compose s := by
  rw [solveFrom, solveFrom, applyEquations_compose]
  cases solve (r.applyEquations (s.applyEquations eqs)) with
  | error err => rfl
  | ok q => exact congrArg Except.ok (q.compose_assoc r s).symm

/-- Solves the equations of the second list after those of the first one. -/
theorem solve_append (l m : List Equation) :
    solve (l ++ m) = solve l >>= fun s => solveFrom s m := by
  fun_induction solve l generalizing m with
  | case1 => exact (solveFrom_empty m).symm
  | case2 a rest ih => rw [List.cons_append, solve_cons_self, ih]
  | case3 a b rest hab x t hb hx =>
    rw [List.cons_append, solve_cons_binding _ hab hb, if_pos hx]
    rfl
  | case4 a b rest hab x t hb hx s hs ih =>
    rw [hs] at ih
    rw [List.cons_append, solve_cons_binding _ hab hb, if_neg hx, applyEquations_append, ih]
    exact (solveFrom_compose s _ m).symm
  | case5 a b rest hab x t hb hx err herr ih =>
    rw [herr] at ih
    rw [List.cons_append, solve_cons_binding _ hab hb, if_neg hx, applyEquations_append, ih]
    rfl
  | case6 a b rest hab hb eqs hc ih =>
    rw [List.cons_append, solve_cons_components _ hab hb, hc, ← ih, List.append_assoc]
  | case7 a b rest hab hb hc =>
    rw [List.cons_append, solve_cons_components _ hab hb, hc]
    rfl

theorem unify_self (a : Ty) : unify a a = .ok empty := by
  rw [unify, solve_cons_self, solve]

theorem unify_of_binding {a b t : Ty} {x : Nat} (hab : a ≠ b) (hb : binding? a b = some (x, t)) :
    unify a b = if x ∈ t.vars then .error (.occursCheck x t) else .ok (single x t) := by
  have hnil : solve ((single x t).applyEquations []) = .ok empty := by
    rw [applyEquations, List.map_nil, solve]
  rw [unify, solve_cons_binding _ hab hb, hnil]
  split
  · rfl
  · exact congrArg Except.ok (empty_compose (single x t))

theorem unify_of_components {a b : Ty} {eqs : List Equation}
    (hc : componentEquations? a b = some eqs) : unify a b = solve eqs := by
  by_cases hab : a = b
  · subst hab
    rw [unify_self]
    cases a <;> simp only [componentEquations?, reduceCtorEq, if_true, Option.some.injEq] at hc <;>
      subst hc <;> simp only [solve_cons_self, solve]
  · have hb : binding? a b = none := by
      cases a <;> cases b <;> first | rfl | cases hc
    rw [unify, solve_cons_components _ hab hb, hc]
    exact congrArg solve (List.append_nil eqs)

theorem unify_of_mismatch {a b : Ty} (hab : a ≠ b) (hb : binding? a b = none)
    (hc : componentEquations? a b = none) : unify a b = .error (.mismatch a b) := by
  rw [unify, solve_cons_components _ hab hb, hc]

theorem solve_both (a₁ b₁ a₂ b₂ : Ty) : solve [(a₁, b₁), (a₂, b₂)] = unify a₁ b₁ >>= fun s =>
    (unify (s.apply a₂) (s.apply b₂)).map fun r => r.compose s :=
  solve_append [(a₁, b₁)] [(a₂, b₂)]

/-- What the recursion on two types ends in, with the components of types of the same shape unified
from the left to the right. -/
inductive UnifiesTo : Ty → Ty → Except UnifyError Substitution → Prop
  | same {a} : componentEquations? a a = none → UnifiesTo a a (.ok empty)
  | bind {a b t x} : a ≠ b → binding? a b = some (x, t) → x ∉ t.vars →
      UnifiesTo a b (.ok (single x t))
  | occurs {a b t x} : a ≠ b → binding? a b = some (x, t) → x ∈ t.vars →
      UnifiesTo a b (.error (.occursCheck x t))
  | one {a b a₁ b₁ answer} : componentEquations? a b = some [(a₁, b₁)] →
      UnifiesTo a₁ b₁ answer → UnifiesTo a b answer
  | first {a b a₁ b₁ a₂ b₂ err} : componentEquations? a b = some [(a₁, b₁), (a₂, b₂)] →
      UnifiesTo a₁ b₁ (.error err) → UnifiesTo a b (.error err)
  | both {a b a₁ b₁ a₂ b₂ s answer} : componentEquations? a b = some [(a₁, b₁), (a₂, b₂)] →
      UnifiesTo a₁ b₁ (.ok s) → UnifiesTo (s.apply a₂) (s.apply b₂) answer →
      UnifiesTo a b (answer.map fun r => r.compose s)
  | mismatch {a b} : a ≠ b → binding? a b = none → componentEquations? a b = none →
      UnifiesTo a b (.error (.mismatch a b))

theorem UnifiesTo.unify_eq {a b : Ty} {answer : Except UnifyError Substitution}
    (h : UnifiesTo a b answer) : unify a b = answer := by
  induction h with
  | same _ => exact unify_self _
  | bind hab hb hx => rw [unify_of_binding hab hb, if_neg hx]
  | occurs hab hb hx => rw [unify_of_binding hab hb, if_pos hx]
  | one hc _ ih => exact (unify_of_components hc).trans ih
  | first hc _ ih =>
    rw [unify_of_components hc, solve_both, ih]
    rfl
  | both hc _ _ ih₁ ih₂ =>
    rw [unify_of_components hc, solve_both, ih₁, ← ih₂]
    rfl
  | mismatch hab hb hc => exact unify_of_mismatch hab hb hc

/-- Applying what was found either changes nothing or takes a variable away. -/
theorem apply_eq_self_or_distinctCount_lt {s : Substitution} {l : List Nat} {a b : Ty}
    (hs : s.Resolved) (hl : s.Within l) (hab : ∀ x ∈ a.vars ++ b.vars, x ∈ l) :
    (∀ t, s.apply t = t) ∨
      distinctCount ((s.apply a).vars ++ (s.apply b).vars) < distinctCount l := by
  by_cases hbound : ∃ x t, s.lookup? x = some t
  · obtain ⟨x, t, hx⟩ := hbound
    obtain ⟨ha, hb⟩ := List.forall_mem_append.mp hab
    have hsub : ∀ y ∈ (s.apply a).vars ++ (s.apply b).vars, y ∈ l :=
      List.forall_mem_append.mpr
        ⟨fun y => mem_of_mem_vars_apply hl ha, fun y => mem_of_mem_vars_apply hl hb⟩
    have hgone : ∀ y ∈ (s.apply a).vars ++ (s.apply b).vars, s.lookup? y = none :=
      List.forall_mem_append.mpr ⟨fun y => hs.unbound_of_mem_vars, fun y => hs.unbound_of_mem_vars⟩
    refine .inr (distinctCount_lt_of_subset hsub (hl x t hx).1 fun hmem => ?_)
    rw [hgone x hmem] at hx
    cases hx
  · refine .inl fun t => apply_eq_self fun x _ => ?_
    cases hx : s.lookup? x with
    | none => rfl
    | some u => exact absurd ⟨x, u, hx⟩ hbound

theorem componentEquations?_one_or_two {a b : Ty} {eqs : List Equation}
    (hc : componentEquations? a b = some eqs) :
    (∃ eq, eqs = [eq]) ∨ ∃ eq₁ eq₂, eqs = [eq₁, eq₂] := by
  unfold componentEquations? at hc
  split at hc
  case h_1 => exact .inl ⟨_, (Option.some.inj hc).symm⟩
  case h_2 =>
    split at hc <;> cases hc
    exact .inr ⟨_, _, rfl⟩
  case h_5 => cases hc
  all_goals exact .inr ⟨_, _, (Option.some.inj hc).symm⟩

/-- The recursion ends. -/
theorem exists_unifiesTo (a b : Ty) : ∃ answer, UnifiesTo a b answer := by
  cases hc : componentEquations? a b with
  | none =>
    by_cases hab : a = b
    · subst hab
      exact ⟨_, .same hc⟩
    cases hb : binding? a b with
    | none => exact ⟨_, .mismatch hab hb hc⟩
    | some p =>
      obtain ⟨x, t⟩ := p
      by_cases hx : x ∈ t.vars
      · exact ⟨_, .occurs hab hb hx⟩
      · exact ⟨_, .bind hab hb hx⟩
  | some eqs =>
    have hsize := equationSize_components hc
    have hvars : ∀ x ∈ equationVars eqs, x ∈ a.vars ++ b.vars :=
      fun x => (mem_equationVars_components hc).mp
    rcases componentEquations?_one_or_two hc with ⟨⟨a₁, b₁⟩, rfl⟩ | ⟨⟨a₁, b₁⟩, ⟨a₂, b₂⟩, rfl⟩
    · obtain ⟨answer, h⟩ := exists_unifiesTo a₁ b₁
      exact ⟨answer, .one hc h⟩
    · obtain ⟨err | s, h₁⟩ := exists_unifiesTo a₁ b₁
      · exact ⟨_, .first hc h₁⟩
      · obtain ⟨-, hres, hin⟩ := unify_sound h₁.unify_eq
        obtain ⟨answer, h₂⟩ := exists_unifiesTo (s.apply a₂) (s.apply b₂)
        exact ⟨_, .both hc h₁ h₂⟩
termination_by (distinctCount (a.vars ++ b.vars), a.size + b.size)
decreasing_by
  · refine distinctCount_lex_of_subset (fun x hx => hvars x ?_) ?_
    · simpa [equationVars] using hx
    · simpa [equationSize] using hsize
  · refine distinctCount_lex_of_subset (fun x hx => hvars x ?_) ?_
    · exact (mem_equationVars_cons a₁ b₁ _ x).mpr (.inl hx)
    · simp only [equationSize] at hsize
      omega
  · have hin' : s.Within (a.vars ++ b.vars) :=
      hin.mono fun x hx => hvars x ((mem_equationVars_cons a₁ b₁ _ x).mpr (.inl hx))
    have hvars₂ : ∀ x ∈ a₂.vars ++ b₂.vars, x ∈ a.vars ++ b.vars := fun x hx =>
      hvars x ((mem_equationVars_cons a₁ b₁ _ x).mpr (.inr (by simpa [equationVars] using hx)))
    rcases apply_eq_self_or_distinctCount_lt hres hin' hvars₂ with hself | hlt
    · rw [hself, hself]
      refine distinctCount_lex_of_subset hvars₂ ?_
      simp only [equationSize] at hsize
      omega
    · exact .left _ _ hlt

/-- `s` makes the two types equal, applying it once is enough, it touches no variable but theirs,
and every substitution that makes them equal goes through it. -/
structure MostGeneralUnifier (a b : Ty) (s : Substitution) : Prop where
  equal : s.apply a = s.apply b
  once : ∀ t, s.apply (s.apply t) = s.apply t
  within : s.Within (a.vars ++ b.vars)
  absorbed : ∀ r : Substitution, r.apply a = r.apply b → r.Absorbs s

theorem mostGeneralUnifier_of_unify {a b : Ty} {s : Substitution} (hs : unify a b = .ok s) :
    MostGeneralUnifier a b s := by
  obtain ⟨hequal, hres, hin⟩ := unify_sound hs
  refine ⟨hequal, hres.apply_apply, hin, fun r hr => ?_⟩
  obtain ⟨s', hs', habs⟩ := unify_complete hr
  cases hs.symm.trans hs'
  exact habs

/-- The recursion on any two types ends in the answer, which is an error exactly when no
substitution makes them equal, and a most general unifier otherwise. -/
theorem unify_mostGeneral (a b : Ty) :
    UnifiesTo a b (unify a b) ∧
      ((∃ err, unify a b = .error err) ↔ ∀ s : Substitution, s.apply a ≠ s.apply b) ∧
      ∀ s, unify a b = .ok s → MostGeneralUnifier a b s := by
  refine ⟨?_, ⟨?_, fun hnone => ?_⟩, fun s => mostGeneralUnifier_of_unify⟩
  · obtain ⟨answer, h⟩ := exists_unifiesTo a b
    rwa [h.unify_eq]
  · rintro ⟨err, herr⟩ s hs
    obtain ⟨r, hr, -⟩ := unify_complete hs
    cases herr.symm.trans hr
  · cases h : unify a b with
    | error err => exact ⟨err, rfl⟩
    | ok s => exact absurd (mostGeneralUnifier_of_unify h).equal (hnone s)

/-- The type `('t0 * 't0)`. -/
def repeatedPair : Ty := .pair .plain (.var 0) (.var 0)

/-- The type `('t1 -> 't1 * Int -> 't2)`. -/
def pairOfFunctions : Ty := .pair .plain (.arrow (.var 1) (.var 1)) (.arrow .int (.var 2))

/-- When it is the turn of the second components, one of them has grown from `'t0` to
`'t1 -> 't1`. -/
theorem repeatedPair_unified :
    ∃ s, unify repeatedPair pairOfFunctions = .ok s ∧
      MostGeneralUnifier repeatedPair pairOfFunctions s ∧
      s.apply repeatedPair = .pair .plain (.arrow .int .int) (.arrow .int .int) := by
  have hs : ∃ s, unify repeatedPair pairOfFunctions = .ok s ∧
      s.apply repeatedPair = .pair .plain (.arrow .int .int) (.arrow .int .int) := by
    simp [unify, repeatedPair, pairOfFunctions, solve, binding?, componentEquations?, Ty.vars,
      applyEquations, apply, lookup?_compose]
  obtain ⟨s, hs, happly⟩ := hs
  exact ⟨s, hs, (unify_mostGeneral repeatedPair pairOfFunctions).2.2 s hs, happly⟩

end CellCalculus
