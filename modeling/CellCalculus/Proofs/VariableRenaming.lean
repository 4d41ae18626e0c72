import Mathlib.Logic.Function.Basic
import Mathlib.Data.List.Basic
import CellCalculus.FieldValidity
import CellCalculus.TypeError

/-!
# Renaming type variables

The numbers of type variables carry no meaning. Renaming them by an injection commutes with
everything that is done to types: a renamed substitution does to renamed types what the substitution
did to the types, the unifier answers renamed equations with its answer renamed, and a field stays
as valid as it was. `solve_rename` is the main statement.
-/

namespace CellCalculus

open Function

/-- The type with its variables renamed. -/
def Ty.rename (f : Nat → Nat) : Ty → Ty
  | .int => .int
  | .bool => .bool
  | .unit => .unit
  | .pair tag a b => .pair tag (a.rename f) (b.rename f)
  | .record a b => .record (a.rename f) (b.rename f)
  | .ref t => .ref (t.rename f)
  | .arrow a b => .arrow (a.rename f) (b.rename f)
  | .var x => .var (f x)

theorem eraseDups_map {f : Nat → Nat} (hf : Injective f) (l : List Nat) :
    (l.map f).eraseDups = l.eraseDups.map f := by
  induction hn : l.length using Nat.strongRecOn generalizing l with
  | ind n ih =>
    cases l with
    | nil => rfl
    | cons x l =>
      have hshorter : (l.filter fun y => !y == x).length < n := by
        have hle := List.length_filter_le (fun y => !y == x) l
        simp only [List.length_cons] at hn
        omega
      have hsame : ((fun y => !y == f x) ∘ f) = fun y => !y == x := by
        funext y
        rw [Bool.eq_iff_iff]
        simp [hf.eq_iff]
      rw [List.map_cons, List.eraseDups_cons, List.eraseDups_cons, List.filter_map, hsame,
        List.map_cons, ih _ hshorter _ rfl]

namespace Ty

attribute [local simp] rename vars

variable {f g : Nat → Nat} {t : Ty}

theorem vars_rename (f : Nat → Nat) (t : Ty) : (t.rename f).vars = t.vars.map f := by
  induction t with
  | int | bool | unit | var _ => rfl
  | ref t ih => exact ih
  | pair _ a b iha ihb | record a b iha ihb | arrow a b iha ihb =>
    rw [rename, vars, vars, iha, ihb, List.map_append]

theorem rename_congr (h : ∀ x ∈ t.vars, f x = g x) : t.rename f = t.rename g := by
  induction t with
  | int | bool | unit => rfl
  | var x => rw [rename, rename, h x (List.mem_singleton.mpr rfl)]
  | ref t ih => rw [rename, rename, ih h]
  | pair _ a b iha ihb | record a b iha ihb | arrow a b iha ihb =>
    obtain ⟨ha, hb⟩ := List.forall_mem_append.mp h
    rw [rename, rename, iha ha, ihb hb]

theorem rename_id (t : Ty) : t.rename id = t := by
  induction t <;> simp_all

theorem rename_eq_self (h : ∀ x ∈ t.vars, f x = x) : t.rename f = t :=
  (rename_congr h).trans t.rename_id

theorem rename_ground (f : Nat → Nat) (ht : t.vars = []) : t.rename f = t :=
  rename_eq_self (by simp [ht])

theorem rename_injective (hf : Injective f) : Injective (Ty.rename f) := by
  intro t u h
  induction t generalizing u <;> cases u <;> simp_all [hf.eq_iff] <;> grind

theorem components?_rename (f : Nat → Nat) (t : Ty) :
    (t.rename f).components? =
      t.components?.map fun components => (components.1.rename f, components.2.rename f) := by
  cases t <;> rfl

end Ty

theorem fieldValidity_rename (f : Nat → Nat) (tag : Tag) (t : Ty) :
    fieldValidity tag (t.rename f) = fieldValidity tag t := by
  induction t with
  | pair _ a b iha ihb | record a b iha ihb => simp only [Ty.rename, fieldValidity, iha, ihb]
  | ref t ih => simp only [Ty.rename, fieldValidity, ih]
  | _ => rfl

theorem fieldValid_rename (f : Nat → Nat) (tag : Tag) (t : Ty) :
    fieldValid tag (t.rename f) = fieldValid tag t := by
  rw [fieldValid, fieldValidity_rename, fieldValid]

namespace Substitution

/-- The table with the variables renamed that it binds and mentions. -/
def rename (f : Nat → Nat) (s : Substitution) : Substitution :=
  ⟨s.entries.map fun entry => (f entry.1, entry.2.rename f)⟩

theorem rename_single (f : Nat → Nat) (x : Nat) (t : Ty) :
    (single x t).rename f = single (f x) (t.rename f) := rfl

variable {f : Nat → Nat}

theorem lookup_map_rename (hf : Injective f) (x : Nat) (l : List (Nat × Ty)) :
    (l.map fun entry => (f entry.1, entry.2.rename f)).lookup (f x) =
      (l.lookup x).map (Ty.rename f) := by
  induction l with
  | nil => rfl
  | cons entry l ih =>
    obtain ⟨y, t⟩ := entry
    by_cases hxy : x = y
    · simp [hxy]
    · have hfxy : f x ≠ f y := hf.ne hxy
      simp [List.lookup_cons, beq_false_of_ne hxy, beq_false_of_ne hfxy, ih]

theorem lookup?_rename (hf : Injective f) (s : Substitution) (x : Nat) :
    (s.rename f).lookup? (f x) = (s.lookup? x).map (Ty.rename f) :=
  lookup_map_rename hf x s.entries

/-- A renamed table binds no variable but renamed ones. -/
theorem lookup?_rename_of_ne (s : Substitution) {y : Nat} (hy : ∀ x, f x ≠ y) :
    (s.rename f).lookup? y = none := by
  refine List.lookup_eq_none_iff.mpr fun entry hentry => ?_
  obtain ⟨⟨x, t⟩, -, rfl⟩ := List.mem_map.mp hentry
  exact bne_iff_ne.mpr (hy x).symm

theorem apply_rename (hf : Injective f) (s : Substitution) (t : Ty) :
    (s.rename f).apply (t.rename f) = (s.apply t).rename f := by
  induction t with
  | var x =>
    rw [Ty.rename, apply, apply, lookup?_rename hf]
    cases s.lookup? x <;> rfl
  | _ => simp_all [Ty.rename, apply]

theorem compose_rename (hf : Injective f) (outer inner : Substitution) :
    (outer.compose inner).rename f = (outer.rename f).compose (inner.rename f) := by
  have hunbound : ∀ x, ((inner.rename f).lookup? (f x)).isNone = (inner.lookup? x).isNone := by
    intro x
    rw [lookup?_rename hf]
    cases inner.lookup? x <;> rfl
  have happlied : (inner.entries.map fun entry => (f entry.1, (outer.apply entry.2).rename f)) =
      inner.entries.map fun entry => (f entry.1, (outer.rename f).apply (entry.2.rename f)) :=
    List.map_congr_left fun entry _ => by rw [apply_rename hf]
  simp only [compose, rename, List.map_append, List.map_map, List.filter_map, Function.comp_def]
  rw [happlied]
  simp only [← hunbound]
  rfl

end Substitution

def renameEquations (f : Nat → Nat) (eqs : List Equation) : List Equation :=
  eqs.map fun eq => (eq.1.rename f, eq.2.rename f)

theorem renameEquations_cons (f : Nat → Nat) (a b : Ty) (eqs : List Equation) :
    renameEquations f ((a, b) :: eqs) = (a.rename f, b.rename f) :: renameEquations f eqs := rfl

theorem renameEquations_append (f : Nat → Nat) (l m : List Equation) :
    renameEquations f (l ++ m) = renameEquations f l ++ renameEquations f m :=
  List.map_append

def UnifyError.rename (f : Nat → Nat) : UnifyError → UnifyError
  | .mismatch expected found => .mismatch (expected.rename f) (found.rename f)
  | .occursCheck x t => .occursCheck (f x) (t.rename f)

variable {f : Nat → Nat}

theorem binding?_rename (f : Nat → Nat) (a b : Ty) :
    binding? (a.rename f) (b.rename f) = (binding? a b).map fun p => (f p.1, p.2.rename f) := by
  cases a <;> cases b <;> rfl

theorem componentEquations?_rename (f : Nat → Nat) (a b : Ty) :
    componentEquations? (a.rename f) (b.rename f) =
      (componentEquations? a b).map (renameEquations f) := by
  cases a <;> cases b <;> try rfl
  case pair.pair s _ _ t _ _ =>
    by_cases hst : s = t <;> simp [componentEquations?, Ty.rename, renameEquations, hst]

theorem applyEquations_rename (hf : Injective f) (s : Substitution) (eqs : List Equation) :
    (s.rename f).applyEquations (renameEquations f eqs) =
      renameEquations f (s.applyEquations eqs) := by
  simp [Substitution.applyEquations, renameEquations, Function.comp_def,
    Substitution.apply_rename hf]

theorem mem_vars_rename_iff (hf : Injective f) {x : Nat} {t : Ty} :
    f x ∈ (t.rename f).vars ↔ x ∈ t.vars := by
  simp [Ty.vars_rename, hf.eq_iff]

/-- The unifier does not look at the numbers of variables. -/
theorem solve_rename (hf : Injective f) (eqs : List Equation) :
    solve (renameEquations f eqs) =
      ((solve eqs).map (Substitution.rename f)).mapError (UnifyError.rename f) := by
  have hne : ∀ {a b : Ty}, a ≠ b → a.rename f ≠ b.rename f := (Ty.rename_injective hf).ne
  have hbinding : ∀ {a b t : Ty} {x : Nat}, binding? a b = some (x, t) →
      binding? (a.rename f) (b.rename f) = some (f x, t.rename f) := by
    intro a b t x hb
    rw [binding?_rename, hb, Option.map_some]
  have hnobinding : ∀ {a b : Ty}, binding? a b = none →
      binding? (a.rename f) (b.rename f) = none := by
    intro a b hb
    rw [binding?_rename, hb, Option.map_none]
  fun_induction solve eqs with
  | case1 => rw [renameEquations, List.map_nil, solve]; rfl
  | case2 a rest ih => rw [renameEquations_cons, solve_cons_self, ih]
  | case3 a b rest hab x t hb hx =>
    have hfx : f x ∈ (t.rename f).vars := (mem_vars_rename_iff hf).mpr hx
    rw [renameEquations_cons, solve_cons_binding _ (hne hab) (hbinding hb), if_pos hfx]
    rfl
  | case4 a b rest hab x t hb hx s hs ih =>
    have hfx : f x ∉ (t.rename f).vars := fun h => hx ((mem_vars_rename_iff hf).mp h)
    rw [hs] at ih
    rw [renameEquations_cons, solve_cons_binding _ (hne hab) (hbinding hb), if_neg hfx,
      ← Substitution.rename_single, applyEquations_rename hf, ih]
    exact congrArg Except.ok (Substitution.compose_rename hf s _).symm
  | case5 a b rest hab x t hb hx err herr ih =>
    have hfx : f x ∉ (t.rename f).vars := fun h => hx ((mem_vars_rename_iff hf).mp h)
    rw [herr] at ih
    rw [renameEquations_cons, solve_cons_binding _ (hne hab) (hbinding hb), if_neg hfx,
      ← Substitution.rename_single, applyEquations_rename hf, ih]
    rfl
  | case6 a b rest hab hb eqs hc ih =>
    have hfc : componentEquations? (a.rename f) (b.rename f) = some (renameEquations f eqs) := by
      rw [componentEquations?_rename, hc, Option.map_some]
    rw [renameEquations_append] at ih
    rw [renameEquations_cons, solve_cons_components _ (hne hab) (hnobinding hb), hfc]
    exact ih
  | case7 a b rest hab hb hc =>
    have hfc : componentEquations? (a.rename f) (b.rename f) = none := by
      rw [componentEquations?_rename, hc, Option.map_none]
    rw [renameEquations_cons, solve_cons_components _ (hne hab) (hnobinding hb), hfc]
    rfl

theorem unify_rename (hf : Injective f) (a b : Ty) :
    unify (a.rename f) (b.rename f) =
      ((unify a b).map (Substitution.rename f)).mapError (UnifyError.rename f) :=
  solve_rename hf [(a, b)]

def TypeFault.rename (f : Nat → Nat) : TypeFault → TypeFault
  | .unboundVariable x => .unboundVariable x
  | .mismatch expected found => .mismatch (expected.rename f) (found.rename f)
  | .notAFunction t => .notAFunction (t.rename f)
  | .invalidField t tag => .invalidField (t.rename f) tag
  | .notAnAggregate t => .notAnAggregate (t.rename f)
  | .illegalReference => .illegalReference
  | .untypable => .untypable
  | .occursCheck x t => .occursCheck (f x) (t.rename f)

theorem TypeFault.rename_ofUnifyError (f : Nat → Nat) (err : UnifyError) :
    (TypeFault.ofUnifyError err).rename f = .ofUnifyError (err.rename f) := by
  cases err <;> rfl

/-- The blamed expression has no type variables in it. -/
def TypeError.rename (f : Nat → Nat) (err : TypeError) : TypeError :=
  ⟨err.expr, err.fault.rename f⟩

end CellCalculus
