import CellCalculus.PremiseSettling
import CellCalculus.Proofs.MirroredInference

/-!
# Settling in mirrored runs

Settling premises treats types alike whatever their variables are called, so renamed premises are
settled by a mirrored run. A state is a copy of another one when it also holds the same premises
with their variables renamed. From a copy the whole check is mirrored, and `check_mirrored` needs no
more than that the renaming takes the variables made by one check to those made by the other.
-/

namespace CellCalculus

open Check Function

variable {f : Nat → Nat} {R : Checker → Checker → Prop}

theorem settleProjection_mirrored (hR : Correspondence f R) (p : ProjectionPremise) (t : Ty) :
    Mirrored f R id (settleProjection p t) (settleProjection (p.rename f) (t.rename f)) := by
  unfold settleProjection
  rw [Ty.components?_rename]
  cases t.components? with
  | none => exact mirrored_fail id p.site (.notAnAggregate t)
  | some components =>
    have hunify := mirrored_unifyAt hR p.site p.result (p.side.pick components)
    have hpick : (p.side.pick components).rename f =
        p.side.pick (components.1.rename f, components.2.rename f) := by
      cases p.side <;> rfl
    rw [hpick] at hunify
    exact hunify

theorem settlePass_mirrored (hR : Correspondence f R) (ps : List ProjectionPremise) :
    Mirrored f R (List.map (·.rename f)) (settlePass ps) (settlePass (ps.map (·.rename f))) := by
  induction ps with
  | nil => exact mirrored_pure f R _ []
  | cons p ps ih =>
    refine (mirrored_resolve hR p.operand).bind fun known => ?_
    cases known with
    | var x => exact ih.bind fun rest => mirrored_pure f R _ (p :: rest)
    | _ => exact (settleProjection_mirrored hR p _).bind fun _ => ih

theorem defaultOperand_mirrored (hR : Correspondence f R) (p : ProjectionPremise) :
    Mirrored f R id (defaultOperand p) (defaultOperand (p.rename f)) :=
  (mirrored_fresh hR).bind fun a => (mirrored_fresh hR).bind fun b =>
    (mirrored_requireField hR p.site .plain a).bind fun _ =>
      (mirrored_requireField hR p.site .plain b).bind fun _ => Mirrored.emit_bind
        (mirrored_unifyAt hR p.site (.pair .plain a b) p.operand) _ _

theorem settlePasses_mirrored (hR : Correspondence f R) (n : Nat) (ps : List ProjectionPremise) :
    Mirrored f R (List.map (·.rename f)) (settlePasses n ps)
      (settlePasses n (ps.map (·.rename f))) := by
  induction n generalizing ps with
  | zero => cases ps <;> exact mirrored_pure f R _ _
  | succ n ih =>
    cases ps with
    | nil => exact mirrored_pure f R _ []
    | cons p ps =>
      refine (settlePass_mirrored hR (p :: ps)).bind fun waiting => ?_
      cases waiting with
      | nil => exact mirrored_pure f R _ []
      | cons oldest others =>
        simp only [List.map_cons, List.length_map]
        split
        · exact (defaultOperand_mirrored hR oldest).bind fun _ => ih (oldest :: others)
        · exact ih (oldest :: others)

theorem demandField_mirrored (f : Nat → Nat) (p : FieldPremise) (t : Ty) :
    Mirrored f R id (demandField p t) (demandField (p.rename f) (t.rename f)) := by
  unfold demandField
  rw [show (p.rename f).tag = p.tag from rfl, fieldValid_rename]
  split
  · exact mirrored_pure f R id ()
  · exact mirrored_fail id p.site (.invalidField t p.tag)

theorem settleField_mirrored (hR : Correspondence f R) (p : FieldPremise) :
    Mirrored f R id (settleField p) (settleField (p.rename f)) := by
  refine (mirrored_resolve hR p.ty).bind fun known => ?_
  rw [show (p.rename f).tag = p.tag from rfl, fieldValidity_rename]
  split
  · rw [Ty.vars_rename, eraseDups_map hR.injective]
    refine (mirrored_forM fun x _ => mirrored_unifyAt hR p.site .int (.var x)).bind fun _ => ?_
    refine (mirrored_resolve hR p.ty).bind fun t => Mirrored.emit_bind ?_ _ _
    exact demandField_mirrored f p t
  · exact demandField_mirrored f p known

/-- The state with its variables renamed, but for its counter. -/
structure Checker.Copies (f : Nat → Nat) (c d : Checker) : Prop where
  mirrors : c.Mirrors f d
  fields : d.fields = c.fields.map (·.rename f)
  projections : d.projections = c.projections.map (·.rename f)

/-- Nothing is recorded at the start, and nothing is known of any variable. -/
theorem Checker.copies_start (f : Nat → Nat) : Copies f {} {} where
  mirrors t := by rw [Substitution.apply_empty, Substitution.apply_empty]
  fields := rfl
  projections := rfl

theorem correspondence_copies (hf : Injective f) : Correspondence f (Checker.Copies f) where
  injective := hf
  mirrors hcd := hcd.mirrors
  fresh hcd := ⟨hcd.mirrors, hcd.fields, hcd.projections⟩
  unify s hcd := ⟨hcd.mirrors.unify hf s, hcd.fields, hcd.projections⟩
  field p hcd := ⟨hcd.mirrors, by simp [hcd.fields], hcd.projections⟩
  projection p hcd := ⟨hcd.mirrors, hcd.fields, by simp [hcd.projections]⟩

theorem takeFields_mirrored (f : Nat → Nat) :
    Mirrored f (Checker.Copies f) (List.map (·.rename f)) takeFields takeFields where
  grows _ := Nat.le_refl _
  run _ _ hcd _ := ⟨congrArg Except.ok hcd.fields, ⟨hcd.mirrors, rfl, hcd.projections⟩, rfl⟩

theorem takeProjections_mirrored (f : Nat → Nat) :
    Mirrored f (Checker.Copies f) (List.map (·.rename f)) takeProjections takeProjections where
  grows _ := Nat.le_refl _
  run _ _ hcd _ := ⟨congrArg Except.ok hcd.projections, ⟨hcd.mirrors, hcd.fields, rfl⟩, rfl⟩

theorem settleProjections_mirrored (hR : Correspondence f R)
    (htake : Mirrored f R (List.map (·.rename f)) takeProjections takeProjections) :
    Mirrored f R id settleProjections settleProjections := by
  refine htake.bind fun recorded => ?_
  rw [List.length_map]
  exact (settlePasses_mirrored hR (2 * recorded.length) recorded).bind fun _ =>
    mirrored_pure f R id ()

theorem settleFields_mirrored (hf : Injective f) :
    Mirrored f (Checker.Copies f) id settleFields settleFields :=
  (takeFields_mirrored f).bind fun _ =>
    mirrored_forM fun p _ => settleField_mirrored (correspondence_copies hf) p

/-- What the checker is asked with renamed variables it answers with renamed variables. -/
theorem check_mirrored (hf : Injective f) {env env' : TypeEnv} (henv : env.Renamed f env')
    (e : Expr) : Mirrored f (Checker.Copies f) (Ty.rename f) (check env e) (check env' e) := by
  have hR := correspondence_copies hf
  refine (infer_mirrored hR henv e).bind fun t => ?_
  refine (settleProjections_mirrored hR (takeProjections_mirrored f)).bind fun _ => ?_
  refine (settleFields_mirrored hf).bind fun _ => ?_
  refine (mirrored_resolve hR t).bind fun t => ?_
  exact (mirrored_pure f _ (Ty.rename f) t).emit_bind _ _

end CellCalculus
