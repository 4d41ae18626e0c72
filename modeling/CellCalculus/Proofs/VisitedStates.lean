import Mathlib
import CellCalculus.Proofs.LeftoverPremises
import CellCalculus.Proofs.UnifierCompleteness

/-!
# The states on the way of a check

A check is put together from single steps of the checker, and `Visits` lists the states before and
after each of them, whether the check succeeds or not. A single step leaves the substitution as it
is or composes it with what the unifier returned, so on the way of any computation that starts with
a resolved substitution it stays resolved, and each substitution absorbs the one at the start.
-/

namespace CellCalculus

open Substitution

/-- The substitution of the first checker is resolved and takes that of the second one further. -/
structure Checker.Refines (d c : Checker) : Prop where
  resolved : d.subst.Resolved
  absorbs : d.subst.Absorbs c.subst

namespace Checker.Refines

variable {b c d : Checker}

theorem of_resolved (hc : c.subst.Resolved) : c.Refines c := ⟨hc, hc.apply_apply⟩

theorem trans (hd : d.Refines c) (hc : c.Refines b) : d.Refines b where
  resolved := hd.resolved
  absorbs t := by rw [← hd.absorbs (b.subst.apply t), hc.absorbs, hd.absorbs]

theorem of_subst_eq (hc : c.subst.Resolved) (hd : d.subst = c.subst) : d.Refines c := by
  refine ⟨hd ▸ hc, fun t => ?_⟩
  rw [hd, hc.apply_apply]

theorem of_unify {a b : Ty} {s : Substitution} (hc : c.subst.Resolved)
    (hs : unify (c.subst.apply a) (c.subst.apply b) = .ok s)
    (hd : d.subst = s.compose c.subst) : d.Refines c := by
  refine ⟨hd ▸ unify_compose_resolved hc hs, fun t => ?_⟩
  rw [hd, apply_compose, apply_compose, hc.apply_apply]

end Checker.Refines

namespace Check

/-- The single steps that the computations of the checker are made of. -/
inductive Single : {α : Type} → Check α → Prop
  | pure {α : Type} (a : α) : Single (pure a : Check α)
  | fail {α : Type} (site : Expr) (fault : TypeFault) : Single (fail site fault : Check α)
  | emit (ev : Event) : Single (emit ev)
  | fresh : Single fresh
  | resolve (t : Ty) : Single (resolve t)
  | unifyAt (site : Expr) (a b : Ty) : Single (unifyAt site a b)
  | recordField (p : FieldPremise) : Single (recordField p)
  | recordProjection (p : ProjectionPremise) : Single (recordProjection p)
  | takeFields : Single takeFields
  | takeProjections : Single takeProjections

/-- Started in `c` and taken apart into single steps, the computation goes through these states. -/
inductive Visits : {α : Type} → Check α → Checker → List Checker → Prop
  | single {α : Type} {m : Check α} {c : Checker} : m.Single → Visits m c [c, (m c).checker]
  | goesOn {α β : Type} {m : Check α} {f : α → Check β} {c : Checker} {a : α}
      {states later : List Checker} : Visits m c states → (m c).answer = .ok a →
      Visits (f a) (m c).checker later → Visits (m >>= f) c (states ++ later)
  | stops {α β : Type} {m : Check α} {f : α → Check β} {c : Checker} {err : TypeError}
      {states : List Checker} : Visits m c states → (m c).answer = .error err →
      Visits (m >>= f) c states

/-- The computation can be taken apart into single steps, wherever it starts. -/
def Composed {α : Type} (m : Check α) : Prop := ∀ c, ∃ states, m.Visits c states

variable {α β : Type} {m : Check α} {c : Checker} {states : List Checker}

theorem Single.refines (hm : m.Single) (hc : c.subst.Resolved) : (m c).checker.Refines c := by
  cases hm with
  | unifyAt site a b =>
    rw [unifyAt_apply]
    cases hs : unify (c.subst.apply a) (c.subst.apply b) with
    | ok s => exact .of_unify hc hs rfl
    | error err => exact .of_resolved hc
  | _ => exact .of_subst_eq hc rfl

/-- The state that the computation leaves behind comes last. -/
theorem Visits.getLast? (hm : m.Visits c states) : states.getLast? = some (m c).checker := by
  induction hm with
  | single _ => rfl
  | goesOn _ ha _ _ ih => rw [List.getLast?_append, ih, bind_of_ok ha, Option.some_or]
  | stops _ herr ih => rw [ih, bind_of_error herr]

theorem Visits.refines (hm : m.Visits c states) (hc : c.subst.Resolved) :
    ∀ d ∈ states, d.Refines c := by
  induction hm with
  | single hm =>
    intro d hd
    rcases List.mem_pair.mp hd with rfl | rfl
    · exact .of_resolved hc
    · exact hm.refines hc
  | goesOn hm _ _ ihm ihf =>
    have hmid := ihm hc _ (List.mem_of_getLast? hm.getLast?)
    intro d hd
    rcases List.mem_append.mp hd with hd | hd
    · exact ihm hc d hd
    · exact (ihf hmid.resolved d hd).trans hmid
  | stops _ _ ih => exact ih hc

theorem Composed.refines (hm : m.Composed) (hc : c.subst.Resolved) : (m c).checker.Refines c := by
  obtain ⟨states, hstates⟩ := hm c
  exact hstates.refines hc _ (List.mem_of_getLast? hstates.getLast?)

theorem Composed.refines_of_result {d : Checker} {answer : Except TypeError α} (hm : m.Composed)
    (hr : m.result c = (answer, d)) (hc : c.subst.Resolved) : d.Refines c := by
  obtain ⟨-, rfl⟩ := Prod.mk.inj hr
  exact hm.refines hc

theorem Composed.bind {f : α → Check β} (hm : m.Composed) (hf : ∀ a, (f a).Composed) :
    (m >>= f).Composed := by
  intro c
  obtain ⟨states, hstates⟩ := hm c
  cases ha : (m c).answer with
  | error err => exact ⟨states, .stops hstates ha⟩
  | ok a =>
    obtain ⟨later, hlater⟩ := hf a (m c).checker
    exact ⟨states ++ later, .goesOn hstates ha hlater⟩

theorem Single.composed (hm : m.Single) : m.Composed := fun _ => ⟨_, .single hm⟩

theorem Single.bind {f : α → Check β} (hm : m.Single) (hf : ∀ a, (f a).Composed) :
    (m >>= f).Composed :=
  hm.composed.bind hf

theorem composed_pure (a : α) : (pure a : Check α).Composed := (Single.pure a).composed

theorem composed_fail (site : Expr) (fault : TypeFault) : (fail site fault : Check α).Composed :=
  (Single.fail site fault).composed

theorem composed_unifyAt (site : Expr) (a b : Ty) : (unifyAt site a b).Composed :=
  (Single.unifyAt site a b).composed

theorem composed_forM {l : List α} {f : α → Check Unit} (hf : ∀ a, (f a).Composed) :
    (l.forM f).Composed := by
  induction l with
  | nil => exact composed_pure ()
  | cons a l ih => exact (hf a).bind fun _ => ih

theorem composed_requireField (site : Expr) (tag : Tag) (t : Ty) :
    (requireField site tag t).Composed := by
  unfold requireField
  split
  · exact composed_pure ()
  · exact composed_fail _ _
  · exact (Single.recordField _).composed

end Check

open Check

section Rules

theorem variableRule_composed (env : TypeEnv) (x : String) : (variableRule env x).Composed := by
  refine (Single.emit _).bind fun _ => ?_
  split
  · exact (Single.resolve _).composed
  · exact composed_fail _ _

theorem referenceRule_composed (env : TypeEnv) (e : Expr) : (referenceRule env e).Composed := by
  unfold referenceRule
  split
  · exact (variableRule_composed env _).bind fun _ => composed_pure _
  · exact composed_fail _ _

theorem functionRule_composed {env : TypeEnv} {param : Binder} {body : TypeEnv → Check Ty}
    (hbody : ∀ env, (body env).Composed) : (functionRule env param body).Composed :=
  Single.fresh.bind fun _ => (hbody _).bind fun _ => (Single.resolve _).bind fun _ =>
    composed_pure _

theorem applicationRule_composed (site : Expr) (func arg : Ty) :
    (applicationRule site func arg).Composed := by
  refine (Single.resolve _).bind fun known => ?_
  split
  · exact (composed_unifyAt _ _ _).bind fun _ => (Single.resolve _).composed
  · exact Single.fresh.bind fun _ => (composed_unifyAt _ _ _).bind fun _ =>
      (Single.resolve _).composed
  · exact composed_fail _ _

theorem aggregateRule_composed (site : Expr) (tag : Tag) (first second : Ty) :
    (aggregateRule site tag first second).Composed :=
  (Single.resolve _).bind fun _ => (Single.resolve _).bind fun _ =>
    (composed_requireField _ _ _).bind fun _ => (composed_requireField _ _ _).bind fun _ =>
      composed_pure _

theorem projectionRule_composed (site : Expr) (side : Side) (operand : Ty) :
    (projectionRule site side operand).Composed := by
  refine (Single.resolve _).bind fun known => ?_
  split
  · exact composed_pure _
  · exact composed_pure _
  · exact Single.fresh.bind fun _ => (Single.emit _).bind fun _ =>
      (Single.recordProjection _).bind fun _ => composed_pure _
  · exact composed_fail _ _

/-- The two components are inferred, checked as fields and put together by `mk`. -/
theorem aggregate_composed {m₁ m₂ : Check Ty} (h₁ : m₁.Composed) (h₂ : m₂.Composed) (site : Expr)
    (tag : Tag) (mk : Ty → Ty → Ty) : Composed (do
      let a ← m₁
      let b ← m₂
      let (a, b) ← aggregateRule site tag a b
      return mk a b) :=
  h₁.bind fun _ => h₂.bind fun _ => (aggregateRule_composed _ _ _ _).bind fun _ => composed_pure _

mutual

theorem inferVal_composed (env : TypeEnv) : (v : Val) → (inferVal env v).Composed
  | .lit (.int _) | .lit (.bool _) | .lit .unit => by
    rw [inferVal]
    exact composed_pure _
  | .lit (.loc l) => by
    rw [inferVal]
    exact composed_fail _ _
  | .closure self param body => by
    rw [inferVal]
    exact functionRule_composed fun env => infer_composed env body
  | .pair tag v w => by
    rw [inferVal]
    exact aggregate_composed (inferVal_composed env v) (inferVal_composed env w) _ _ _

/-- By recursion on the expression, whose parts come between the steps of its own rule. -/
theorem infer_composed (env : TypeEnv) : (e : Expr) → (infer env e).Composed
  | .val v => by
    rw [infer]
    exact (Single.emit _).bind fun _ => inferVal_composed env v
  | .var x => by
    rw [infer]
    exact variableRule_composed env x
  | .fn self param body => by
    rw [infer]
    exact (Single.emit _).bind fun _ => functionRule_composed fun env => infer_composed env body
  | .app e₁ e₂ => by
    rw [infer]
    exact (Single.emit _).bind fun _ => (infer_composed env e₁).bind fun _ =>
      (infer_composed env e₂).bind fun _ => applicationRule_composed _ _ _
  | .unop op e => by
    rw [infer]
    exact (Single.emit _).bind fun _ => (infer_composed env e).bind fun _ =>
      (composed_unifyAt _ _ _).bind fun _ => composed_pure _
  | .binop op e₁ e₂ => by
    rw [infer]
    refine (Single.emit _).bind fun _ => ?_
    split
    · exact composed_fail _ _
    · exact (infer_composed env e₁).bind fun _ => (infer_composed env e₂).bind fun _ =>
        (composed_unifyAt _ _ _).bind fun _ => (composed_unifyAt _ _ _).bind fun _ =>
          composed_pure _
  | .ite c t f => by
    rw [infer]
    exact (Single.emit _).bind fun _ => (infer_composed env c).bind fun _ =>
      (composed_unifyAt _ _ _).bind fun _ => (infer_composed env t).bind fun _ =>
        (infer_composed env f).bind fun _ => (composed_unifyAt _ _ _).bind fun _ =>
          (Single.resolve _).composed
  | .pair tag e₁ e₂ => by
    rw [infer]
    exact (Single.emit _).bind fun _ =>
      aggregate_composed (infer_composed env e₁) (infer_composed env e₂) _ _ _
  | .record e₁ e₂ => by
    rw [infer]
    exact (Single.emit _).bind fun _ =>
      aggregate_composed (infer_composed env e₁) (infer_composed env e₂) _ _ _
  | .fst e | .snd e => by
    rw [infer]
    exact (Single.emit _).bind fun _ => (infer_composed env e).bind fun _ =>
      projectionRule_composed _ _ _
  | .ref e => by
    rw [infer]
    exact (Single.emit _).bind fun _ => referenceRule_composed env e
  | .alloc _ _ | .free _ | .load _ | .store _ _ => by
    rw [infer]
    exact (Single.emit _).bind fun _ => composed_fail _ _

end

end Rules

section Settling

theorem settleProjection_composed (p : ProjectionPremise) (t : Ty) :
    (settleProjection p t).Composed := by
  unfold settleProjection
  split
  · exact composed_unifyAt _ _ _
  · exact composed_fail _ _

theorem settlePass_composed (ps : List ProjectionPremise) : (settlePass ps).Composed := by
  induction ps with
  | nil => exact composed_pure _
  | cons p ps ih =>
    refine (Single.resolve _).bind fun known => ?_
    split
    · exact ih.bind fun _ => composed_pure _
    · exact (settleProjection_composed p _).bind fun _ => ih

theorem defaultOperand_composed (p : ProjectionPremise) : (defaultOperand p).Composed :=
  Single.fresh.bind fun _ => Single.fresh.bind fun _ =>
    (composed_requireField _ _ _).bind fun _ => (composed_requireField _ _ _).bind fun _ =>
      (Single.emit _).bind fun _ => composed_unifyAt _ _ _

theorem settlePasses_composed (n : Nat) (ps : List ProjectionPremise) :
    (settlePasses n ps).Composed := by
  induction n generalizing ps with
  | zero => cases ps <;> exact composed_pure _
  | succ n ih =>
    cases ps with
    | nil => exact composed_pure _
    | cons p ps =>
      refine (settlePass_composed (p :: ps)).bind fun waiting => ?_
      split
      · exact composed_pure _
      · next oldest others =>
        split
        · exact (defaultOperand_composed oldest).bind fun _ => ih (oldest :: others)
        · exact ih (oldest :: others)

theorem settleProjections_composed : settleProjections.Composed :=
  Single.takeProjections.bind fun _ => (settlePasses_composed _ _).bind fun _ => composed_pure _

theorem demandField_composed (p : FieldPremise) (t : Ty) : (demandField p t).Composed := by
  unfold demandField
  split
  · exact composed_pure _
  · exact composed_fail _ _

theorem settleField_composed (p : FieldPremise) : (settleField p).Composed := by
  refine (Single.resolve _).bind fun known => ?_
  split
  · exact (composed_forM fun _ => composed_unifyAt _ _ _).bind fun _ =>
      (Single.resolve _).bind fun _ => (Single.emit _).bind fun _ => demandField_composed p _
  · exact demandField_composed p known

theorem settleFields_composed : settleFields.Composed :=
  Single.takeFields.bind fun _ => composed_forM settleField_composed

end Settling

theorem check_composed (env : TypeEnv) (e : Expr) : (check env e).Composed :=
  (infer_composed env e).bind fun _ => settleProjections_composed.bind fun _ =>
    settleFields_composed.bind fun _ => (Single.resolve _).bind fun _ =>
      (Single.emit _).bind fun _ => composed_pure _

/-- A checker that has been asked all this, whatever it answered. -/
def Checker.asked (questions : List (TypeEnv × Expr)) : Checker :=
  questions.foldl (fun c question => (check question.1 question.2 c).checker) {}

/-- What every check keeps, every sequence of checks keeps. -/
theorem Checker.asked_resolved (questions : List (TypeEnv × Expr)) :
    (asked questions).subst.Resolved := by
  refine List.foldlRecOn (motive := fun c : Checker => c.subst.Resolved) questions _
    resolved_empty fun c hc question _ => ?_
  exact ((check_composed question.1 question.2).refines hc).resolved

/-- However often a checker has been asked, under whatever environments and with whatever answers:
in each state that another check goes through, no variable that the substitution binds is left in a
type that it maps to, nor in any type that is resolved. -/
theorem Checker.resolved_throughout (questions : List (TypeEnv × Expr)) (env : TypeEnv) (e : Expr) :
    (∃ states, (check env e).Visits (asked questions) states) ∧
      ∀ states, (check env e).Visits (asked questions) states → ∀ c ∈ states,
        c.subst.Resolved ∧ ∀ t, c.subst.apply (c.subst.apply t) = c.subst.apply t ∧
          ∀ x ∈ (c.subst.apply t).vars, c.subst.lookup? x = none := by
  refine ⟨check_composed env e _, fun states hstates c hc => ?_⟩
  have hres : c.subst.Resolved := (hstates.refines (asked_resolved questions) c hc).resolved
  exact ⟨hres, fun t => ⟨hres.apply_apply t, fun x hx => hres.unbound_of_mem_vars hx⟩⟩

/-- `-(fst x)`. -/
def negatedComponent : Expr := .unop .minus (.fst (.var "x"))

/-- The variable in the environment is the one that the failed check made for its parameter, so both
checks project from it. The first result is bound to the component of a plain pair, and turns into
an integer when the second one, which is negated, is bound to that component as well. -/
theorem negatedComponent_resolved_throughout :
    (check .empty projectionBesideUnbound {}).answer = .error ⟨.var "y", .unboundVariable "y"⟩ ∧
      (check (.ofList [("x", .var 0)]) negatedComponent
        (Checker.asked [(.empty, projectionBesideUnbound)])).answer = .ok .int ∧
      (check (.ofList [("x", .var 0)]) negatedComponent
        (Checker.asked [(.empty, projectionBesideUnbound)])).checker.subst.apply
          (.arrow (.var 0) (.var 1)) = .arrow (.pair .plain .int .int) .int ∧
      ∃ states, (check (.ofList [("x", .var 0)]) negatedComponent).Visits
        (Checker.asked [(.empty, projectionBesideUnbound)]) states ∧
          ∀ c ∈ states, c.subst.Resolved := by
  refine ⟨by cbv, by cbv, by cbv, ?_⟩
  obtain ⟨⟨states, hstates⟩, hresolved⟩ := Checker.resolved_throughout
    [(.empty, projectionBesideUnbound)] (.ofList [("x", .var 0)]) negatedComponent
  exact ⟨states, hstates, fun c hc => (hresolved states hstates c hc).1⟩

end CellCalculus
