import Mathlib
import CellCalculus.Proofs.BlamedExpressions

/-!
# Where type errors point

A check that is alike to itself when nothing but the parts of the expression may be blamed blames a
part of the expression, be it on the walk or while the premises are settled. That a variable is
unbound is found out on the walk alone: the error blames the variable, the environment does not bind
it, and no parameter on the way to it does either.
-/

namespace CellCalculus

open Check

mutual

/-- Whether the variable occurs under no parameter of its name. Self-names do not count, as the
checker does not bind them. -/
def Val.looksUp (x : String) : Val → Bool
  | .lit _ => false
  | .closure _ param body => !param.binds x && body.looksUp x
  | .pair _ v w => v.looksUp x || w.looksUp x

def Expr.looksUp (x : String) : Expr → Bool
  | .val v => v.looksUp x
  | .var y => y == x
  | .fn _ param body => !param.binds x && body.looksUp x
  | .app e₁ e₂ | .binop _ e₁ e₂ | .pair _ e₁ e₂ | .record e₁ e₂ | .alloc e₁ e₂ | .store e₁ e₂ =>
      e₁.looksUp x || e₂.looksUp x
  | .ite c t f => c.looksUp x || t.looksUp x || f.looksUp x
  | .unop _ e | .fst e | .snd e | .free e | .load e | .ref e => e.looksUp x

end

namespace Check

variable {α β : Type} {m : Check α} {U V : String → Prop}

/-- A variable that the computation finds unbound is blamed itself, and is one of `U`. -/
def FindsUnbound (U : String → Prop) (m : Check α) : Prop :=
  ∀ c d x, (m c).answer = .error ⟨d, .unboundVariable x⟩ → d = .var x ∧ U x

theorem FindsUnbound.mono (hm : m.FindsUnbound U) (hUV : ∀ x, U x → V x) : m.FindsUnbound V :=
  fun c d x herr => (hm c d x herr).imp_right (hUV x)

/-- What a part looks up, the whole looks up. -/
theorem FindsUnbound.inWhole {env : TypeEnv} {part whole : String → Bool}
    (hm : m.FindsUnbound fun x => env.lookup? x = none ∧ part x = true)
    (hpart : ∀ x, part x = true → whole x = true) :
    m.FindsUnbound fun x => env.lookup? x = none ∧ whole x = true :=
  hm.mono fun x => And.imp_right (hpart x)

theorem FindsUnbound.bind {k : α → Check β} (hm : m.FindsUnbound U)
    (hk : ∀ a, (k a).FindsUnbound U) : (m >>= k).FindsUnbound U := by
  intro c d x herr
  cases ha : (m c).answer with
  | ok a =>
    rw [bind_of_ok ha] at herr
    exact hk a _ d x herr
  | error err =>
    rw [bind_of_error ha] at herr
    obtain rfl : err = ⟨d, .unboundVariable x⟩ := Except.error.inj herr
    exact hm c d x ha

theorem findsUnbound_of_answers (hm : ∀ c, ∃ a, (m c).answer = .ok a) : m.FindsUnbound U := by
  intro c d x herr
  obtain ⟨a, ha⟩ := hm c
  cases ha.symm.trans herr

theorem findsUnbound_fail {site : Expr} {fault : TypeFault}
    (hfault : ∀ x, fault ≠ .unboundVariable x) :
    (fail site fault : Check α).FindsUnbound U := by
  intro c d x herr
  cases herr
  exact absurd rfl (hfault x)

theorem findsUnbound_untypable (site : Expr) :
    (fail site .untypable : Check α).FindsUnbound U :=
  findsUnbound_fail nofun

theorem FindsUnbound.emit_bind (hm : m.FindsUnbound U) (ev : Event) :
    (emit ev >>= fun _ => m).FindsUnbound U :=
  (findsUnbound_of_answers fun _ => ⟨(), rfl⟩).bind fun _ => hm

theorem findsUnbound_pure (a : α) : (pure a : Check α).FindsUnbound U :=
  findsUnbound_of_answers fun _ => ⟨a, rfl⟩

theorem findsUnbound_fresh : fresh.FindsUnbound U := findsUnbound_of_answers fun _ => ⟨_, rfl⟩

theorem findsUnbound_resolve (t : Ty) : (resolve t).FindsUnbound U :=
  findsUnbound_of_answers fun _ => ⟨_, rfl⟩

theorem findsUnbound_unifyAt (site : Expr) (a b : Ty) : (unifyAt site a b).FindsUnbound U := by
  intro c d x herr
  rw [unifyAt_apply] at herr
  split at herr
  · cases herr
  · next cause _ => cases cause <;> cases herr

theorem findsUnbound_requireField (site : Expr) (tag : Tag) (t : Ty) :
    (requireField site tag t).FindsUnbound U := by
  unfold requireField
  split
  · exact findsUnbound_pure ()
  · exact findsUnbound_fail nofun
  · exact findsUnbound_of_answers fun _ => ⟨(), rfl⟩

theorem findsUnbound_forM {l : List α} {f : α → Check Unit} (hf : ∀ a, (f a).FindsUnbound U) :
    (l.forM f).FindsUnbound U := by
  induction l with
  | nil => exact findsUnbound_pure ()
  | cons a l ih => exact (hf a).bind fun _ => ih

end Check

section Walk

variable {U : String → Prop}

theorem variableRule_findsUnbound (env : TypeEnv) (x : String) :
    (variableRule env x).FindsUnbound fun y => env.lookup? y = none ∧ y = x := by
  apply FindsUnbound.emit_bind
  cases hx : env.lookup? x with
  | some t => exact findsUnbound_resolve t
  | none =>
    rintro c d y herr
    cases herr
    exact ⟨rfl, hx, rfl⟩

theorem functionRule_findsUnbound {env : TypeEnv} {param : Binder} {body : TypeEnv → Check Ty}
    {P : String → Prop}
    (hbody : ∀ env : TypeEnv, (body env).FindsUnbound fun x => env.lookup? x = none ∧ P x) :
    (functionRule env param body).FindsUnbound fun x =>
      env.lookup? x = none ∧ param.binds x = false ∧ P x := by
  refine findsUnbound_fresh.bind fun t => ((hbody (env.extend param t)).mono ?_).bind fun _ =>
    (findsUnbound_resolve t).bind fun _ => findsUnbound_pure _
  rintro x ⟨hx, hP⟩
  rw [TypeEnv.lookup?_extend] at hx
  split at hx
  · cases hx
  · next hb => exact ⟨hx, Bool.eq_false_iff.mpr hb, hP⟩

theorem applicationRule_findsUnbound (site : Expr) (func arg : Ty) :
    (applicationRule site func arg).FindsUnbound U := by
  refine (findsUnbound_resolve func).bind fun known => ?_
  split
  · exact (findsUnbound_unifyAt _ _ _).bind fun _ => findsUnbound_resolve _
  · exact findsUnbound_fresh.bind fun _ =>
      (findsUnbound_unifyAt _ _ _).bind fun _ => findsUnbound_resolve _
  · exact findsUnbound_fail nofun

theorem aggregateRule_findsUnbound (site : Expr) (tag : Tag) (first second : Ty) :
    (aggregateRule site tag first second).FindsUnbound U :=
  (findsUnbound_resolve first).bind fun a => (findsUnbound_resolve second).bind fun b =>
    (findsUnbound_requireField site tag a).bind fun _ =>
      (findsUnbound_requireField site tag b).bind fun _ => findsUnbound_pure (a, b)

theorem projectionRule_findsUnbound (site : Expr) (side : Side) (operand : Ty) :
    (projectionRule site side operand).FindsUnbound U := by
  refine (findsUnbound_resolve operand).bind fun known => ?_
  split
  · exact findsUnbound_pure _
  · exact findsUnbound_pure _
  · exact findsUnbound_fresh.bind fun result => FindsUnbound.emit_bind
      ((findsUnbound_of_answers fun _ => ⟨(), rfl⟩).bind fun _ => findsUnbound_pure result) _
  · exact findsUnbound_fail nofun

theorem referenceRule_findsUnbound (env : TypeEnv) (e : Expr) :
    (referenceRule env e).FindsUnbound fun x => env.lookup? x = none ∧ e.looksUp x = true := by
  cases e with
  | var y =>
    refine ((variableRule_findsUnbound env y).mono ?_).bind fun t => findsUnbound_pure (Ty.ref t)
    rintro x ⟨hx, rfl⟩
    exact ⟨hx, beq_self_eq_true x⟩
  | _ => exact findsUnbound_fail nofun

mutual

theorem inferVal_findsUnbound (env : TypeEnv) : (v : Val) →
    (inferVal env v).FindsUnbound fun x => env.lookup? x = none ∧ v.looksUp x = true
  | .lit (.int _) | .lit (.bool _) | .lit .unit => findsUnbound_pure _
  | .lit (.loc _) => findsUnbound_untypable _
  | .closure _ param body => by
    rw [inferVal]
    refine (functionRule_findsUnbound fun env => infer_findsUnbound env body).mono ?_
    rintro x ⟨hx, hparam, hbody⟩
    exact ⟨hx, by simp [Val.looksUp, hparam, hbody]⟩
  | .pair _ v w => by
    rw [inferVal]
    refine ((inferVal_findsUnbound env v).inWhole fun x hv => ?_).bind fun a =>
      ((inferVal_findsUnbound env w).inWhole fun x hw => ?_).bind fun b =>
        (aggregateRule_findsUnbound _ _ a b).bind fun _ => findsUnbound_pure _
    · simp [Val.looksUp, hv]
    · simp [Val.looksUp, hw]

theorem infer_findsUnbound (env : TypeEnv) : (e : Expr) →
    (infer env e).FindsUnbound fun x => env.lookup? x = none ∧ e.looksUp x = true
  | .val v => by
    rw [infer]
    exact (inferVal_findsUnbound env v).emit_bind _
  | .var y => by
    rw [infer]
    refine (variableRule_findsUnbound env y).mono ?_
    rintro x ⟨hx, rfl⟩
    exact ⟨hx, beq_self_eq_true x⟩
  | .fn _ param body => by
    rw [infer]
    refine FindsUnbound.emit_bind ?_ _
    refine (functionRule_findsUnbound fun env => infer_findsUnbound env body).mono ?_
    rintro x ⟨hx, hparam, hbody⟩
    exact ⟨hx, by simp [Expr.looksUp, hparam, hbody]⟩
  | .app e₁ e₂ => by
    rw [infer]
    refine FindsUnbound.emit_bind ?_ _
    refine ((infer_findsUnbound env e₁).inWhole fun x h₁ => ?_).bind fun func =>
      ((infer_findsUnbound env e₂).inWhole fun x h₂ => ?_).bind fun arg =>
        applicationRule_findsUnbound _ func arg
    · simp [Expr.looksUp, h₁]
    · simp [Expr.looksUp, h₂]
  | .unop op e => by
    rw [infer]
    exact FindsUnbound.emit_bind ((infer_findsUnbound env e).bind fun t =>
      (findsUnbound_unifyAt _ _ t).bind fun _ => findsUnbound_pure _) _
  | .binop op e₁ e₂ => by
    rw [infer]
    refine FindsUnbound.emit_bind ?_ _
    split
    · exact findsUnbound_untypable _
    · refine ((infer_findsUnbound env e₁).inWhole fun x h₁ => ?_).bind fun a =>
        ((infer_findsUnbound env e₂).inWhole fun x h₂ => ?_).bind fun b =>
          (findsUnbound_unifyAt _ _ a).bind fun _ => (findsUnbound_unifyAt _ _ b).bind fun _ =>
            findsUnbound_pure _
      · simp [Expr.looksUp, h₁]
      · simp [Expr.looksUp, h₂]
  | .ite c t f => by
    rw [infer]
    refine FindsUnbound.emit_bind ?_ _
    refine ((infer_findsUnbound env c).inWhole fun x hc => ?_).bind fun cond =>
      (findsUnbound_unifyAt _ _ cond).bind fun _ =>
        ((infer_findsUnbound env t).inWhole fun x ht => ?_).bind fun a =>
          ((infer_findsUnbound env f).inWhole fun x hf => ?_).bind fun b =>
            (findsUnbound_unifyAt _ a b).bind fun _ => findsUnbound_resolve a
    · simp [Expr.looksUp, hc]
    · simp [Expr.looksUp, ht]
    · simp [Expr.looksUp, hf]
  | .pair _ e₁ e₂ | .record e₁ e₂ => by
    rw [infer]
    refine FindsUnbound.emit_bind ?_ _
    refine ((infer_findsUnbound env e₁).inWhole fun x h₁ => ?_).bind fun a =>
      ((infer_findsUnbound env e₂).inWhole fun x h₂ => ?_).bind fun b =>
        (aggregateRule_findsUnbound _ _ a b).bind fun _ => findsUnbound_pure _
    · simp [Expr.looksUp, h₁]
    · simp [Expr.looksUp, h₂]
  | .fst e | .snd e => by
    rw [infer]
    exact FindsUnbound.emit_bind ((infer_findsUnbound env e).bind fun t =>
      projectionRule_findsUnbound _ _ t) _
  | .ref e => by
    rw [infer]
    exact (referenceRule_findsUnbound env e).emit_bind _
  | .alloc _ _ | .free _ | .load _ | .store _ _ => by
    rw [infer]
    exact (findsUnbound_untypable _).emit_bind _

end

end Walk

section Settling

variable {U : String → Prop}

theorem settleProjection_findsUnbound (p : ProjectionPremise) (t : Ty) :
    (settleProjection p t).FindsUnbound U := by
  unfold settleProjection
  split
  · exact findsUnbound_unifyAt _ _ _
  · exact findsUnbound_fail nofun

theorem settlePass_findsUnbound (ps : List ProjectionPremise) : (settlePass ps).FindsUnbound U := by
  induction ps with
  | nil => exact findsUnbound_pure _
  | cons p ps ih =>
    refine (findsUnbound_resolve p.operand).bind fun known => ?_
    split
    · exact ih.bind fun _ => findsUnbound_pure _
    · exact (settleProjection_findsUnbound p _).bind fun _ => ih

theorem defaultOperand_findsUnbound (p : ProjectionPremise) : (defaultOperand p).FindsUnbound U :=
  findsUnbound_fresh.bind fun a => findsUnbound_fresh.bind fun b =>
    (findsUnbound_requireField p.site .plain a).bind fun _ =>
      (findsUnbound_requireField p.site .plain b).bind fun _ =>
        (findsUnbound_unifyAt _ _ _).emit_bind _

theorem settlePasses_findsUnbound (n : Nat) (ps : List ProjectionPremise) :
    (settlePasses n ps).FindsUnbound U := by
  induction n generalizing ps with
  | zero => cases ps <;> exact findsUnbound_pure _
  | succ n ih =>
    cases ps with
    | nil => exact findsUnbound_pure _
    | cons p ps =>
      refine (settlePass_findsUnbound (p :: ps)).bind fun waiting => ?_
      split
      · exact findsUnbound_pure _
      · next oldest others =>
        split
        · exact (defaultOperand_findsUnbound oldest).bind fun _ => ih (oldest :: others)
        · exact ih (oldest :: others)

theorem settleProjections_findsUnbound : settleProjections.FindsUnbound U :=
  (findsUnbound_of_answers fun _ => ⟨_, rfl⟩).bind fun recorded =>
    (settlePasses_findsUnbound _ recorded).bind fun _ => findsUnbound_pure _

theorem demandField_findsUnbound (p : FieldPremise) (t : Ty) :
    (demandField p t).FindsUnbound U := by
  unfold demandField
  split
  · exact findsUnbound_pure _
  · exact findsUnbound_fail nofun

theorem settleField_findsUnbound (p : FieldPremise) : (settleField p).FindsUnbound U := by
  refine (findsUnbound_resolve p.ty).bind fun known => ?_
  split
  · exact (findsUnbound_forM fun x => findsUnbound_unifyAt _ _ _).bind fun _ =>
      (findsUnbound_resolve p.ty).bind fun t => (demandField_findsUnbound p t).emit_bind _
  · exact demandField_findsUnbound p known

theorem settleFields_findsUnbound : settleFields.FindsUnbound U :=
  (findsUnbound_of_answers fun _ => ⟨_, rfl⟩).bind fun _ =>
    findsUnbound_forM settleField_findsUnbound

end Settling

theorem check_findsUnbound (env : TypeEnv) (e : Expr) :
    (check env e).FindsUnbound fun x => env.lookup? x = none ∧ e.looksUp x = true :=
  (infer_findsUnbound env e).bind fun t => settleProjections_findsUnbound.bind fun _ =>
    settleFields_findsUnbound.bind fun _ => (findsUnbound_resolve t).bind fun _ =>
      (findsUnbound_pure _).emit_bind _

/-- The same expression, which is among the given ones. -/
def Among (l : List Expr) (d d' : Expr) : Prop := d ∈ l ∧ d = d'

/-- A type error blames a part of the expression that is checked. If it says that a variable is
unbound, it blames the variable, which neither the environment nor a parameter around it binds. -/
theorem typeOf_error_site {env : TypeEnv} {e : Expr} {err : TypeError}
    (herr : typeOf env e = .error err) :
    err.expr ∈ e.parts ∧ ∀ x, err.fault = .unboundVariable x →
      err.expr = .var x ∧ env.lookup? x = none ∧ e.looksUp x = true := by
  constructor
  · have hwalk : Alike (Among e.parts) Eq (infer env e) (infer env e) :=
      alike_infer env e fun d hd => ⟨hd, rfl⟩
    have hanswer := (alike_check hwalk {} {} (Checker.reblamed_start _)).1
    rw [← typeOf, herr] at hanswer
    cases hanswer with
    | error hsite => exact hsite.1
  · intro x hx
    obtain ⟨d, fault⟩ := err
    obtain rfl : fault = .unboundVariable x := hx
    exact check_findsUnbound env e {} d x herr

/-- The parameter of the closure is only known to be projected from, so that it is taken to be a
plain pair, and then it would hold a ref-struct. -/
def projectingPair : Val :=
  .pair .plain (.int 0) <| .closure .anon (.named "p") <|
    .ite (.bool true) (.fst (.var "p")) (.pair .ref (.int 1) (.int 2))

/-- The projection is blamed once the premises are settled, and the call of a function by its
self-name at once. -/
theorem typeOf_error_site_projectingPair :
    (typeOf .empty (.val projectingPair) =
        .error ⟨.fst (.var "p"), .invalidField (.pair .ref .int .int) .plain⟩ ∧
      .fst (.var "p") ∈ projectingPair.parts) ∧
    typeOf .empty (.fn (.named "f") (.named "x") (.app (.var "f") (.var "x"))) =
        .error ⟨.var "f", .unboundVariable "f"⟩ ∧
      (Expr.fn (.named "f") (.named "x") (.app (.var "f") (.var "x"))).looksUp "f" = true := by
  have hfield : typeOf .empty (.val projectingPair) =
      .error ⟨.fst (.var "p"), .invalidField (.pair .ref .int .int) .plain⟩ := by
    cbv
  have hself : typeOf .empty (.fn (.named "f") (.named "x") (.app (.var "f") (.var "x"))) =
      .error ⟨.var "f", .unboundVariable "f"⟩ := by cbv
  exact ⟨⟨hfield, (typeOf_error_site hfield).1⟩, hself, ((typeOf_error_site hself).2 "f" rfl).2.2⟩

end CellCalculus
