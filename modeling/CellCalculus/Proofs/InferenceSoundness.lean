import Mathlib
import CellCalculus.Proofs.PremiseGuarantees

/-!
# Soundness of inference

A successful check ends in a state without open premises, which its own substitution satisfies. What
the computation guarantees therefore holds of that substitution: the expression has the answered type
by the rules alone, under the environment it was checked in with the substitution applied.
-/

namespace CellCalculus

open Check

theorem satisfies_own_subst {c : Checker} (hc : c.subst.Resolved) (hf : c.fields = [])
    (hp : c.projections = []) : c.subst.Satisfies c where
  absorbs := hc.apply_apply
  fields := by simp [hf]
  projections := by simp [hp]

/-- The stages of a check, which answers what its last state makes of the inferred type. -/
theorem returns_check_iff {env : TypeEnv} {e : Expr} {t : Ty} {c c' : Checker} :
    (check env e).Returns c t c' ↔ ∃ u c₁ c₂, (infer env e).Returns c u c₁ ∧
      settleProjections.Returns c₁ () c₂ ∧ settleFields.Returns c₂ () c' ∧
        t = c'.subst.apply u := by
  constructor
  · intro hr
    obtain ⟨u, c₁, hinfer, hr⟩ := returns_bind_iff.mp hr
    obtain ⟨_, c₂, hprojections, hr⟩ := returns_bind_iff.mp hr
    obtain ⟨_, c₃, hfields, hr⟩ := returns_bind_iff.mp hr
    obtain ⟨w, c₄, hresolve, hr⟩ := returns_bind_iff.mp hr
    obtain ⟨rfl, rfl⟩ := returns_resolve_iff.mp hresolve
    obtain ⟨_, c₅, hemit, hr⟩ := returns_bind_iff.mp hr
    obtain rfl := returns_emit_iff.mp hemit
    obtain ⟨rfl, rfl⟩ := returns_pure_iff.mp hr
    exact ⟨u, c₁, c₂, hinfer, hprojections, hfields, rfl⟩
  · rintro ⟨u, c₁, c₂, hinfer, hprojections, hfields, rfl⟩
    refine returns_bind_iff.mpr ⟨u, c₁, hinfer, ?_⟩
    refine returns_bind_iff.mpr ⟨(), c₂, hprojections, ?_⟩
    refine returns_bind_iff.mpr ⟨(), c', hfields, ?_⟩
    refine returns_bind_iff.mpr ⟨_, c', returns_resolve_iff.mpr ⟨rfl, rfl⟩, ?_⟩
    exact returns_bind_iff.mpr ⟨(), c', returns_emit_iff.mpr rfl, returns_pure_iff.mpr ⟨rfl, rfl⟩⟩

theorem check_leaves_none {env : TypeEnv} {e : Expr} {t : Ty} {c c' : Checker}
    (hr : (check env e).Returns c t c') : c'.fields = [] ∧ c'.projections = [] := by
  obtain ⟨u, c₁, c₂, -, hprojections, hfields, -⟩ := returns_check_iff.mp hr
  obtain ⟨hnof, hkept⟩ := settleFields_leaves_none hfields
  exact ⟨hnof, hkept.trans (settleProjections_leaves_none hprojections)⟩

theorem check_sound {env : TypeEnv} {e : Expr} {t : Ty} {c c' : Checker}
    (hr : (check env e).Returns c t c') (hc : c.subst.Resolved) :
    HasType (c'.subst.applyEnv env) e t := by
  obtain ⟨hnof, hnop⟩ := check_leaves_none hr
  obtain ⟨u, c₁, c₂, hinfer, hprojections, hfields, rfl⟩ := returns_check_iff.mp hr
  obtain ⟨hc₁, hsat₁⟩ := infer_guarantees env e c u c₁ hinfer hc
  obtain ⟨hc₂, hsat₂⟩ := settleProjections_guarantees c₁ () c₂ hprojections hc₁
  obtain ⟨hc', hsat₃⟩ := settleFields_guarantees c₂ () c' hfields hc₂
  have hown : c'.subst.Satisfies c' := satisfies_own_subst hc' hnof hnop
  have hfirst : c'.subst.Satisfies c₁ := (hsat₂ _ (hsat₃ _ hown).1).1
  exact (hsat₁ c'.subst hfirst).2

/-- An answered type is a type by the rules alone, for some reading of the type variables in the
environment. -/
theorem typeOf_sound {env : TypeEnv} {e : Expr} {t : Ty} (ht : typeOf env e = .ok t) :
    ∃ s : Substitution, HasType (s.applyEnv env) e t :=
  ⟨(check env e {}).checker.subst, check_sound ⟨ht, rfl⟩ Substitution.resolved_empty⟩

/-- The environment's variable is the one the checker makes up for the parameter, and the
projection is settled only after the walk. -/
theorem typeOf_sound_shared_variable :
    typeOf (.ofList [("y", .var 0)]) (.lam "p" (.pair .plain (.fst (.var "p")) (.var "y"))) =
        .ok (.arrow (.pair .plain .int .int)
          (.pair .plain .int (.pair .plain .int .int))) ∧
      ∃ s : Substitution, HasType (s.applyEnv (.ofList [("y", .var 0)]))
        (.lam "p" (.pair .plain (.fst (.var "p")) (.var "y")))
        (.arrow (.pair .plain .int .int) (.pair .plain .int (.pair .plain .int .int))) := by
  have h : typeOf (.ofList [("y", .var 0)])
      (.lam "p" (.pair .plain (.fst (.var "p")) (.var "y"))) =
        .ok (.arrow (.pair .plain .int .int)
          (.pair .plain .int (.pair .plain .int .int))) := by
    cbv
  exact ⟨h, typeOf_sound h⟩

theorem typeOf_empty_sound {e : Expr} {t : Ty} (ht : typeOf .empty e = .ok t) :
    HasType .empty e t := by
  have hr : (check .empty e).Returns {} t (check .empty e {}).checker := ⟨ht, rfl⟩
  exact check_sound hr Substitution.resolved_empty

end CellCalculus
