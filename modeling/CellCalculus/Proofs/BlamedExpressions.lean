import Mathlib.Data.List.Forall2
import CellCalculus.PremiseSettling
import CellCalculus.Proofs.ExpressionParts

/-!
# The expressions to blame

What a rule blames goes into premises and errors, and nothing looks at it there. So computations
that do the same but for what they blame make the same variables, find out the same of them and
leave the same premises behind, up to the expressions that these blame. They answer the same, or
fail for the same reason.
-/

namespace CellCalculus

open Check

variable {R : Expr → Expr → Prop} {α β : Type}

/-- The same premise, blamed on a related expression. -/
structure FieldPremise.Reblamed (R : Expr → Expr → Prop) (p q : FieldPremise) : Prop where
  ty : q.ty = p.ty
  tag : q.tag = p.tag
  site : R p.site q.site

structure ProjectionPremise.Reblamed (R : Expr → Expr → Prop) (p q : ProjectionPremise) :
    Prop where
  operand : q.operand = p.operand
  result : q.result = p.result
  side : q.side = p.side
  site : R p.site q.site

/-- The states differ by what their premises blame. -/
structure Checker.Reblamed (R : Expr → Expr → Prop) (c d : Checker) : Prop where
  counter : d.nextVar = c.nextVar
  subst : d.subst = c.subst
  fields : List.Forall₂ (FieldPremise.Reblamed R) c.fields d.fields
  projections : List.Forall₂ (ProjectionPremise.Reblamed R) c.projections d.projections

theorem Checker.reblamed_start (R : Expr → Expr → Prop) : Reblamed R {} {} :=
  ⟨rfl, rfl, .nil, .nil⟩

/-- Either both succeed with what `S` relates, or both fail for the same reason. -/
inductive AnswersAlike (R : Expr → Expr → Prop) (S : α → α → Prop) :
    Except TypeError α → Except TypeError α → Prop
  | ok {a b} : S a b → AnswersAlike R S (.ok a) (.ok b)
  | error {e e' fault} : R e e' → AnswersAlike R S (.error ⟨e, fault⟩) (.error ⟨e', fault⟩)

theorem AnswersAlike.ok_of_ok {x y : Except TypeError α} {a : α} (h : AnswersAlike R Eq x y)
    (hx : x = .ok a) : y = .ok a := by
  cases h with
  | ok hab => exact hab ▸ hx
  | error _ => cases hx

namespace Check

/-- From states that differ by what is blamed the two computations answer alike and leave such
states behind. -/
def Alike (R : Expr → Expr → Prop) (S : α → α → Prop) (m m' : Check α) : Prop :=
  ∀ c d, c.Reblamed R d →
    AnswersAlike R S (m c).answer (m' d).answer ∧ (m c).checker.Reblamed R (m' d).checker

variable {S : α → α → Prop} {T : β → β → Prop} {m m' : Check α} {site site' : Expr}

theorem Alike.bindRelated {k k' : α → Check β} (hm : Alike R S m m')
    (hk : ∀ a b, S a b → Alike R T (k a) (k' b)) : Alike R T (m >>= k) (m' >>= k') := by
  intro c d hcd
  obtain ⟨hanswer, hstate⟩ := hm c d hcd
  generalize ha : (m c).answer = a at hanswer
  generalize hb : (m' d).answer = b at hanswer
  cases hanswer with
  | ok hab =>
    rw [bind_of_ok ha, bind_of_ok hb]
    exact hk _ _ hab _ _ hstate
  | error hblame =>
    rw [bind_of_error ha, bind_of_error hb]
    exact ⟨.error hblame, hstate⟩

theorem Alike.bind {k k' : α → Check β} (hm : Alike R Eq m m')
    (hk : ∀ a, Alike R T (k a) (k' a)) : Alike R T (m >>= k) (m' >>= k') :=
  hm.bindRelated fun a _ hab => hab ▸ hk a

theorem alike_pure {a b : α} (hab : S a b) : Alike R S (pure a) (pure b) :=
  fun _ _ hcd => ⟨.ok hab, hcd⟩

theorem alike_fail (h : R site site') (fault : TypeFault) :
    Alike R S (fail site fault) (fail site' fault) :=
  fun _ _ hcd => ⟨.error h, hcd⟩

theorem Alike.emit_bind (hm : Alike R S m m') (ev ev' : Event) :
    Alike R S (emit ev >>= fun _ => m) (emit ev' >>= fun _ => m') :=
  have hemit : Alike R Eq (emit ev) (emit ev') := fun _ _ hcd => ⟨.ok rfl, hcd⟩
  hemit.bind fun _ => hm

theorem alike_fresh : Alike R Eq fresh fresh := fun _ _ hcd =>
  ⟨.ok (congrArg Ty.var hcd.counter.symm),
    congrArg (· + 1) hcd.counter, hcd.subst, hcd.fields, hcd.projections⟩

theorem alike_resolve (t : Ty) : Alike R Eq (resolve t) (resolve t) := fun _ _ hcd =>
  ⟨.ok (congrArg (·.apply t) hcd.subst.symm), hcd⟩

theorem alike_unifyAt (h : R site site') (a b : Ty) :
    Alike R Eq (unifyAt site a b) (unifyAt site' a b) := by
  intro c d hcd
  rw [unifyAt_apply, unifyAt_apply, hcd.subst]
  split
  · exact ⟨.ok rfl, hcd.counter, rfl, hcd.fields, hcd.projections⟩
  · exact ⟨.error h, hcd⟩

theorem alike_recordField {p q : FieldPremise} (h : p.Reblamed R q) :
    Alike R Eq (recordField p) (recordField q) := fun _ _ hcd =>
  ⟨.ok rfl, hcd.counter, hcd.subst, List.rel_append hcd.fields (.cons h .nil), hcd.projections⟩

theorem alike_recordProjection {p q : ProjectionPremise} (h : p.Reblamed R q) :
    Alike R Eq (recordProjection p) (recordProjection q) := fun _ _ hcd =>
  ⟨.ok rfl, hcd.counter, hcd.subst, hcd.fields, List.rel_append hcd.projections (.cons h .nil)⟩

theorem alike_takeFields :
    Alike R (List.Forall₂ (FieldPremise.Reblamed R)) takeFields takeFields := fun _ _ hcd =>
  ⟨.ok hcd.fields, hcd.counter, hcd.subst, .nil, hcd.projections⟩

theorem alike_takeProjections :
    Alike R (List.Forall₂ (ProjectionPremise.Reblamed R)) takeProjections takeProjections :=
  fun _ _ hcd => ⟨.ok hcd.projections, hcd.counter, hcd.subst, hcd.fields, .nil⟩

theorem alike_requireField (h : R site site') (tag : Tag) (t : Ty) :
    Alike R Eq (requireField site tag t) (requireField site' tag t) := by
  unfold requireField
  split
  · exact alike_pure rfl
  · exact alike_fail h (.invalidField t tag)
  · exact alike_recordField ⟨rfl, rfl, h⟩

theorem alike_forM {l l' : List α} {k k' : α → Check Unit} (hl : List.Forall₂ S l l')
    (hk : ∀ a b, S a b → Alike R Eq (k a) (k' b)) : Alike R Eq (l.forM k) (l'.forM k') := by
  induction hl with
  | nil => exact alike_pure rfl
  | cons hab _ ih => exact (hk _ _ hab).bind fun _ => ih

end Check

section Rules

variable {site site' : Expr}

theorem alike_variableRule {x : String} (h : R (.var x) (.var x)) (env : TypeEnv) :
    Alike R Eq (variableRule env x) (variableRule env x) := by
  refine Alike.emit_bind ?_ _ _
  split
  · exact alike_resolve _
  · exact alike_fail h (.unboundVariable x)

theorem alike_referenceRule {e : Expr} (hsite : R (.ref e) (.ref e)) (h : R e e) (env : TypeEnv) :
    Alike R Eq (referenceRule env e) (referenceRule env e) := by
  cases e with
  | var x => exact (alike_variableRule h env).bind fun t => alike_pure rfl
  | _ => exact alike_fail hsite .illegalReference

theorem alike_functionRule {body body' : TypeEnv → Check Ty} (env : TypeEnv) (param : Binder)
    (hbody : ∀ env, Alike R Eq (body env) (body' env)) :
    Alike R Eq (functionRule env param body) (functionRule env param body') :=
  alike_fresh.bind fun t => (hbody (env.extend param t)).bind fun _ =>
    (alike_resolve t).bind fun _ => alike_pure rfl

theorem alike_applicationRule (h : R site site') (func arg : Ty) :
    Alike R Eq (applicationRule site func arg) (applicationRule site' func arg) := by
  refine (alike_resolve func).bind fun known => ?_
  cases known with
  | arrow param result => exact (alike_unifyAt h param arg).bind fun _ => alike_resolve result
  | var x =>
    exact alike_fresh.bind fun result =>
      (alike_unifyAt h (.arrow arg result) func).bind fun _ => alike_resolve result
  | _ => exact alike_fail h (.notAFunction _)

theorem alike_aggregateRule (h : R site site') (tag : Tag) (first second : Ty) :
    Alike R Eq (aggregateRule site tag first second) (aggregateRule site' tag first second) :=
  (alike_resolve first).bind fun a => (alike_resolve second).bind fun b =>
    (alike_requireField h tag a).bind fun _ => (alike_requireField h tag b).bind fun _ =>
      alike_pure rfl

theorem alike_projectionRule (h : R site site') (side : Side) (operand : Ty) :
    Alike R Eq (projectionRule site side operand) (projectionRule site' side operand) := by
  refine (alike_resolve operand).bind fun known => ?_
  cases known with
  | pair _ _ _ | record _ _ => exact alike_pure rfl
  | var x =>
    refine alike_fresh.bind fun result => Alike.emit_bind ?_ _ _
    have hrecord : Alike R Eq (recordProjection ⟨.var x, result, side, site⟩)
        (recordProjection ⟨.var x, result, side, site'⟩) :=
      alike_recordProjection ⟨rfl, rfl, rfl, h⟩
    exact hrecord.bind fun _ => alike_pure rfl
  | _ => exact alike_fail h (.notAnAggregate _)

end Rules

section Operands

variable {R : Expr → Expr → Prop} {env : TypeEnv} {e e' e₁ e₁' e₂ e₂' : Expr}

-- Generates the equations of the two functions once, before the proofs below rewrite by them.
attribute [local simp] infer inferVal

theorem alike_app (hsite : R (.app e₁ e₂) (.app e₁' e₂'))
    (h₁ : Alike R Eq (infer env e₁) (infer env e₁'))
    (h₂ : Alike R Eq (infer env e₂) (infer env e₂')) :
    Alike R Eq (infer env (.app e₁ e₂)) (infer env (.app e₁' e₂')) := by
  rw [infer, infer]
  refine Alike.emit_bind ?_ _ _
  exact h₁.bind fun func => h₂.bind fun arg => alike_applicationRule hsite func arg

theorem alike_unop {op : UnaryOp} (hsite : R (.unop op e) (.unop op e'))
    (h : Alike R Eq (infer env e) (infer env e')) :
    Alike R Eq (infer env (.unop op e)) (infer env (.unop op e')) := by
  rw [infer, infer]
  refine Alike.emit_bind ?_ _ _
  exact h.bind fun t => (alike_unifyAt hsite op.type t).bind fun _ => alike_pure rfl

theorem alike_binop {op : BinaryOp} (hsite : R (.binop op e₁ e₂) (.binop op e₁' e₂'))
    (h₁ : Alike R Eq (infer env e₁) (infer env e₁'))
    (h₂ : Alike R Eq (infer env e₂) (infer env e₂')) :
    Alike R Eq (infer env (.binop op e₁ e₂)) (infer env (.binop op e₁' e₂')) := by
  rw [infer, infer]
  refine Alike.emit_bind ?_ _ _
  split
  · exact alike_fail hsite .untypable
  · next sig _ =>
    refine h₁.bind fun a => h₂.bind fun b => ?_
    exact (alike_unifyAt hsite sig.left a).bind fun _ =>
      (alike_unifyAt hsite sig.right b).bind fun _ => alike_pure rfl

theorem alike_ite {t f : Expr} (hsite : R (.ite e t f) (.ite e' t f))
    (h : Alike R Eq (infer env e) (infer env e'))
    (ht : Alike R Eq (infer env t) (infer env t)) (hf : Alike R Eq (infer env f) (infer env f)) :
    Alike R Eq (infer env (.ite e t f)) (infer env (.ite e' t f)) := by
  rw [infer, infer]
  refine Alike.emit_bind ?_ _ _
  refine h.bind fun cond => (alike_unifyAt hsite .bool cond).bind fun _ => ?_
  refine ht.bind fun a => hf.bind fun b => ?_
  exact (alike_unifyAt hsite a b).bind fun _ => alike_resolve a

/-- The two components are inferred, checked as fields and put together by `mk`. -/
theorem alike_aggregate {m₁ m₁' m₂ m₂' : Check Ty} {site site' : Expr} {tag : Tag}
    {mk : Ty → Ty → Ty} (hsite : R site site') (h₁ : Alike R Eq m₁ m₁')
    (h₂ : Alike R Eq m₂ m₂') :
    Alike R Eq
      (do
        let a ← m₁
        let b ← m₂
        let (a, b) ← aggregateRule site tag a b
        return mk a b)
      (do
        let a ← m₁'
        let b ← m₂'
        let (a, b) ← aggregateRule site' tag a b
        return mk a b) :=
  h₁.bind fun a => h₂.bind fun b => (alike_aggregateRule hsite tag a b).bind fun _ =>
    alike_pure rfl

theorem alike_pair {tag : Tag} (hsite : R (.pair tag e₁ e₂) (.pair tag e₁' e₂'))
    (h₁ : Alike R Eq (infer env e₁) (infer env e₁'))
    (h₂ : Alike R Eq (infer env e₂) (infer env e₂')) :
    Alike R Eq (infer env (.pair tag e₁ e₂)) (infer env (.pair tag e₁' e₂')) := by
  rw [infer, infer]
  exact (alike_aggregate hsite h₁ h₂).emit_bind _ _

theorem alike_record (hsite : R (.record e₁ e₂) (.record e₁' e₂'))
    (h₁ : Alike R Eq (infer env e₁) (infer env e₁'))
    (h₂ : Alike R Eq (infer env e₂) (infer env e₂')) :
    Alike R Eq (infer env (.record e₁ e₂)) (infer env (.record e₁' e₂')) := by
  rw [infer, infer]
  exact (alike_aggregate hsite h₁ h₂).emit_bind _ _

theorem alike_fst (hsite : R (.fst e) (.fst e')) (h : Alike R Eq (infer env e) (infer env e')) :
    Alike R Eq (infer env (.fst e)) (infer env (.fst e')) := by
  rw [infer, infer]
  exact (h.bind fun t => alike_projectionRule hsite .first t).emit_bind _ _

theorem alike_snd (hsite : R (.snd e) (.snd e')) (h : Alike R Eq (infer env e) (infer env e')) :
    Alike R Eq (infer env (.snd e)) (infer env (.snd e')) := by
  rw [infer, infer]
  exact (h.bind fun t => alike_projectionRule hsite .second t).emit_bind _ _

end Operands

mutual

theorem alike_inferVal (env : TypeEnv) : (v : Val) → (∀ d ∈ v.parts, R d d) →
    Alike R Eq (inferVal env v) (inferVal env v)
  | .lit (.int _), _ | .lit (.bool _), _ | .lit .unit, _ => alike_pure rfl
  | .lit (.loc _), h => alike_fail (h _ List.mem_cons_self) .untypable
  | .closure _ param body, h => by
    rw [inferVal]
    obtain ⟨-, hbody⟩ := List.forall_mem_cons.mp h
    exact alike_functionRule env param fun env => alike_infer env body hbody
  | .pair _ v w, h => by
    rw [inferVal]
    obtain ⟨hsite, hparts⟩ := List.forall_mem_cons.mp h
    obtain ⟨hv, hw⟩ := List.forall_mem_append.mp hparts
    exact alike_aggregate hsite (alike_inferVal env v hv) (alike_inferVal env w hw)

/-- What is inferred and how does not depend on what the premises so far blame, and what is blamed
on the way is an expression inside the given one. -/
theorem alike_infer (env : TypeEnv) : (e : Expr) → (∀ d ∈ e.parts, R d d) →
    Alike R Eq (infer env e) (infer env e)
  | .val v, h => by
    rw [infer]
    exact (alike_inferVal env v h).emit_bind _ _
  | .var x, h => by
    rw [infer]
    exact alike_variableRule (h _ List.mem_cons_self) env
  | .fn _ param body, h => by
    rw [infer]
    obtain ⟨-, hbody⟩ := List.forall_mem_cons.mp h
    exact (alike_functionRule env param fun env => alike_infer env body hbody).emit_bind _ _
  | .app e₁ e₂, h => by
    obtain ⟨hsite, hparts⟩ := List.forall_mem_cons.mp h
    obtain ⟨h₁, h₂⟩ := List.forall_mem_append.mp hparts
    exact alike_app hsite (alike_infer env e₁ h₁) (alike_infer env e₂ h₂)
  | .unop _ e, h => by
    obtain ⟨hsite, he⟩ := List.forall_mem_cons.mp h
    exact alike_unop hsite (alike_infer env e he)
  | .binop _ e₁ e₂, h => by
    obtain ⟨hsite, hparts⟩ := List.forall_mem_cons.mp h
    obtain ⟨h₁, h₂⟩ := List.forall_mem_append.mp hparts
    exact alike_binop hsite (alike_infer env e₁ h₁) (alike_infer env e₂ h₂)
  | .ite c t f, h => by
    obtain ⟨hsite, hparts⟩ := List.forall_mem_cons.mp h
    obtain ⟨hct, hf⟩ := List.forall_mem_append.mp hparts
    obtain ⟨hc, ht⟩ := List.forall_mem_append.mp hct
    exact alike_ite hsite (alike_infer env c hc) (alike_infer env t ht) (alike_infer env f hf)
  | .pair _ e₁ e₂, h => by
    obtain ⟨hsite, hparts⟩ := List.forall_mem_cons.mp h
    obtain ⟨h₁, h₂⟩ := List.forall_mem_append.mp hparts
    exact alike_pair hsite (alike_infer env e₁ h₁) (alike_infer env e₂ h₂)
  | .record e₁ e₂, h => by
    obtain ⟨hsite, hparts⟩ := List.forall_mem_cons.mp h
    obtain ⟨h₁, h₂⟩ := List.forall_mem_append.mp hparts
    exact alike_record hsite (alike_infer env e₁ h₁) (alike_infer env e₂ h₂)
  | .fst e, h => by
    obtain ⟨hsite, he⟩ := List.forall_mem_cons.mp h
    exact alike_fst hsite (alike_infer env e he)
  | .snd e, h => by
    obtain ⟨hsite, he⟩ := List.forall_mem_cons.mp h
    exact alike_snd hsite (alike_infer env e he)
  | .ref e, h => by
    rw [infer]
    obtain ⟨hsite, he⟩ := List.forall_mem_cons.mp h
    exact (alike_referenceRule hsite (he e e.mem_parts_self) env).emit_bind _ _
  | .alloc _ _, h | .free _, h | .load _, h | .store _ _, h => by
    rw [infer]
    exact (alike_fail (h _ List.mem_cons_self) .untypable).emit_bind _ _

end

section Settling

theorem alike_settleProjection {p q : ProjectionPremise} (h : p.Reblamed R q) (t : Ty) :
    Alike R Eq (settleProjection p t) (settleProjection q t) := by
  unfold settleProjection
  rw [h.side, h.result]
  split
  · exact alike_unifyAt h.site _ _
  · exact alike_fail h.site _

theorem alike_settlePass {ps qs : List ProjectionPremise}
    (h : List.Forall₂ (ProjectionPremise.Reblamed R) ps qs) :
    Alike R (List.Forall₂ (ProjectionPremise.Reblamed R)) (settlePass ps) (settlePass qs) := by
  induction h with
  | nil => exact alike_pure .nil
  | @cons p q _ _ hpq _ ih =>
    rw [settlePass, settlePass, hpq.operand]
    refine (alike_resolve p.operand).bind fun known => ?_
    cases known with
    | var x => exact ih.bindRelated fun _ _ hrest => alike_pure (.cons hpq hrest)
    | _ => exact (alike_settleProjection hpq _).bind fun _ => ih

theorem alike_defaultOperand {p q : ProjectionPremise} (h : p.Reblamed R q) :
    Alike R Eq (defaultOperand p) (defaultOperand q) := by
  unfold defaultOperand
  rw [h.operand]
  exact alike_fresh.bind fun a => alike_fresh.bind fun b =>
    (alike_requireField h.site .plain a).bind fun _ =>
      (alike_requireField h.site .plain b).bind fun _ =>
        (alike_unifyAt h.site (.pair .plain a b) p.operand).emit_bind _ _

theorem alike_settlePasses (n : Nat) {ps qs : List ProjectionPremise}
    (h : List.Forall₂ (ProjectionPremise.Reblamed R) ps qs) :
    Alike R (List.Forall₂ (ProjectionPremise.Reblamed R)) (settlePasses n ps)
      (settlePasses n qs) := by
  induction n generalizing ps qs with
  | zero => cases h with
    | nil => exact alike_pure .nil
    | cons hpq hrest => exact alike_pure (.cons hpq hrest)
  | succ n ih =>
    cases h with
    | nil => exact alike_pure .nil
    | cons hpq hrest =>
      refine (alike_settlePass (.cons hpq hrest)).bindRelated fun waiting waiting' hwaiting => ?_
      cases hwaiting with
      | nil => exact alike_pure .nil
      | cons holdest hothers =>
        dsimp only
        rw [hothers.length_eq, hrest.length_eq]
        split
        · exact (alike_defaultOperand holdest).bind fun _ => ih (.cons holdest hothers)
        · exact ih (.cons holdest hothers)

theorem alike_settleProjections : Alike R Eq settleProjections settleProjections := by
  refine alike_takeProjections.bindRelated fun recorded recorded' h => ?_
  rw [h.length_eq]
  exact (alike_settlePasses _ h).bindRelated fun _ _ _ => alike_pure rfl

theorem alike_demandField {p q : FieldPremise} (h : p.Reblamed R q) (t : Ty) :
    Alike R Eq (demandField p t) (demandField q t) := by
  unfold demandField
  rw [h.tag]
  split
  · exact alike_pure rfl
  · exact alike_fail h.site _

theorem alike_settleField {p q : FieldPremise} (h : p.Reblamed R q) :
    Alike R Eq (settleField p) (settleField q) := by
  unfold settleField
  rw [h.ty, h.tag]
  refine (alike_resolve p.ty).bind fun known => ?_
  split
  · refine (alike_forM (S := Eq) (List.forall₂_refl _) fun x _ hx =>
      hx ▸ alike_unifyAt h.site .int (.var x)).bind fun _ => ?_
    exact (alike_resolve p.ty).bind fun t => (alike_demandField h t).emit_bind _ _
  · exact alike_demandField h known

theorem alike_settleFields : Alike R Eq settleFields settleFields :=
  alike_takeFields.bindRelated fun _ _ h => alike_forM h fun _ _ hpq => alike_settleField hpq

/-- What is inferred alike is checked alike. -/
theorem alike_check {env : TypeEnv} {e e' : Expr} (h : Alike R Eq (infer env e) (infer env e')) :
    Alike R Eq (check env e) (check env e') :=
  h.bind fun t => alike_settleProjections.bind fun _ => alike_settleFields.bind fun _ =>
    (alike_resolve t).bind fun _ => (alike_pure rfl).emit_bind _ _

end Settling

end CellCalculus
