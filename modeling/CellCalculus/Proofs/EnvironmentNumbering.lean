import Mathlib
import CellCalculus.Proofs.MirroredSettling

/-!
# The numbering of the variables of an environment

The checker numbers the variables it makes from zero on, whichever ones the environment mentions. So
one of these may be taken for another variable that the checker makes later, and how the variables
of the environment are numbered can decide whether an expression is accepted. A renaming that
leaves alone what the checker takes for its own, and renames nothing to such a variable, changes
nothing but the names.
-/

namespace CellCalculus

open Function

def TypeEnv.Mentions (env : TypeEnv) (x : Nat) : Prop :=
  ∃ y t, env.lookup? y = some t ∧ x ∈ t.vars

/-- How many variables the checker makes on the way. -/
def variablesMade (env : TypeEnv) (e : Expr) : Nat := (check env e {}).checker.nextVar

theorem TypeEnv.Mentions.mem_vars {env : TypeEnv} {x : Nat} (hx : env.Mentions x) :
    x ∈ env.bindings.flatMap fun binding => binding.2.vars := by
  obtain ⟨y, t, hy, hx⟩ := hx
  obtain ⟨l, l', hl, -⟩ := List.lookup_eq_some_iff.mp hy
  exact List.mem_flatMap.mpr ⟨(y, t), by simp [hl], hx⟩

theorem TypeEnv.finite_mentions (env : TypeEnv) : {x | env.Mentions x}.Finite :=
  (List.finite_toSet _).subset fun _ hx => hx.mem_vars

theorem TypeEnv.renamed_map {env : TypeEnv} {f p : Nat → Nat}
    (hf : ∀ x, env.Mentions x → f x = p x) : env.Renamed f (env.map (Ty.rename p)) := by
  intro x
  rw [lookup?_map]
  cases hx : env.lookup? x with
  | none => rfl
  | some t =>
    exact congrArg some (Ty.rename_congr fun y hy => (hf y ⟨x, t, hx, hy⟩).symm)

/-- A renaming of some variables that is apart from the first `k` numbers or leaves them alone is
part of a permutation that leaves all of these alone. -/
theorem exists_perm_extending {s : Set Nat} {p : Nat → Nat} {k : Nat} (hs : s.Finite)
    (hp : Set.InjOn p s) (hapart : ∀ x ∈ s, x < k ∨ p x < k → p x = x) :
    ∃ ρ : Equiv.Perm Nat, (∀ x ∈ s, ρ x = p x) ∧ ∀ x < k, ρ x = x := by
  have hfinite : Finite ↥(s ∪ {x | x < k}) := (hs.union (Set.finite_lt_nat k)).to_subtype
  let image (x : ↥(s ∪ {x | x < k})) : Nat := if x.1 < k then x.1 else p x.1
  have hmem : ∀ x : ↥(s ∪ {x | x < k}), ¬x.1 < k → x.1 ∈ s := fun x hx => x.2.resolve_right hx
  have hinjective : Injective image := by
    rintro x y hxy
    by_cases hx : x.1 < k <;> by_cases hy : y.1 < k <;>
      simp only [image, hx, hy, if_true, if_false] at hxy
    · exact Subtype.ext hxy
    · have := hapart y (hmem y hy) (.inr (hxy ▸ hx))
      omega
    · have := hapart x (hmem x hx) (.inr (hxy ▸ hy))
      omega
    · exact Subtype.ext (hp (hmem x hx) (hmem y hy) hxy)
  obtain ⟨ρ, hρ⟩ :=
    Equiv.Perm.exists_extending_pair Subtype.val image Subtype.val_injective hinjective
  refine ⟨ρ, fun x hx => ?_, fun x hx => ?_⟩
  · have himage := hρ ⟨x, .inl hx⟩
    by_cases hxk : x < k
    · simpa [image, hxk, hapart x hx (.inl hxk)] using himage
    · simpa [image, hxk] using himage
  · simpa [image, hx] using hρ ⟨x, .inr hx⟩

/-- An expression is typed alike under environments that differ by the numbers of their variables,
unless one of these is a number that the checker hands out itself. -/
theorem typeOf_map_rename {env : TypeEnv} {e : Expr} {p : Nat → Nat}
    (hp : Set.InjOn p {x | env.Mentions x})
    (hapart : ∀ x, env.Mentions x →
      x < variablesMade env e ∨ p x < variablesMade env e → p x = x) :
    ∃ ρ : Equiv.Perm Nat, (∀ x, env.Mentions x → ρ x = p x) ∧
      typeOf (env.map (Ty.rename p)) e = renameAnswer ρ (Ty.rename ρ) (typeOf env e) := by
  obtain ⟨ρ, hρp, hρ⟩ := exists_perm_extending env.finite_mentions hp hapart
  have hsupplies : Check.Supplies ρ {} (check env e {}).checker {} := fun x _ hx =>
    congrArg (· + 0) (hρ x hx)
  have hmirrored := check_mirrored ρ.injective (TypeEnv.renamed_map hρp) e
  exact ⟨ρ, hρp, (hmirrored.run {} {} (Checker.copies_start ρ) hsupplies).1⟩

/-- One variable is renamed, and the one that the checker makes as well keeps its number. -/
theorem constantFunction_typeOf_rename :
    (let env := TypeEnv.ofList [("x", .var 7), ("z", .var 0)]
     let e := Expr.lam "y" (.var "x")
     let p := fun n => if n = 7 then 3 else n
     Set.InjOn p {x | env.Mentions x} ∧
       (∀ x, env.Mentions x → x < variablesMade env e ∨ p x < variablesMade env e → p x = x) ∧
       typeOf env e = .ok (.arrow (.var 0) (.var 7)) ∧
       ∃ ρ : Equiv.Perm Nat, (∀ x, env.Mentions x → ρ x = p x) ∧
         typeOf (env.map (Ty.rename p)) e = renameAnswer ρ (Ty.rename ρ) (typeOf env e)) := by
  intro env e p
  have hmade : variablesMade env e = 1 := by cbv
  have hmentions : ∀ x, env.Mentions x → x = 7 ∨ x = 0 := by
    intro x hx
    simpa [env, TypeEnv.ofList, Ty.vars, or_comm] using hx.mem_vars
  have hp : Set.InjOn p {x | env.Mentions x} := by
    intro x hx y hy hxy
    rcases hmentions x hx with rfl | rfl <;> rcases hmentions y hy with rfl | rfl <;>
      simp_all [p]
  have hapart : ∀ x, env.Mentions x →
      x < variablesMade env e ∨ p x < variablesMade env e → p x = x := by
    intro x hx hlow
    rcases hmentions x hx with rfl | rfl <;> simp_all [p]
  exact ⟨hp, hapart, by cbv, typeOf_map_rename hp hapart⟩

/-- `λy. x y`. The parameter and the result of the application are the variables 0 and 1. -/
def callOfFreeName : Expr := .lam "y" (.app (.var "x") (.var "y"))

/-- A function `x` of an unknown type is applied, but as soon as its type has the number that the
parameter `y` gets as well, it would have to be a function on itself. -/
theorem callOfFreeName_captured :
    Set.InjOn (fun _ => 0) {x | (TypeEnv.ofList [("x", .var 7)]).Mentions x} ∧
      typeOf (.ofList [("x", .var 7)]) callOfFreeName = .ok (.arrow (.var 0) (.var 1)) ∧
      typeOf ((TypeEnv.ofList [("x", .var 7)]).map (Ty.rename fun _ => 0)) callOfFreeName =
        .error ⟨.app (.var "x") (.var "y"), .occursCheck 0 (.arrow (.var 0) (.var 1))⟩ := by
  refine ⟨fun x hx y hy _ => ?_, by cbv, by cbv⟩
  have hx := TypeEnv.Mentions.mem_vars hx
  have hy := TypeEnv.Mentions.mem_vars hy
  simp_all [TypeEnv.ofList, Ty.vars]

end CellCalculus
