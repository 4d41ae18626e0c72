import CellCalculus.EvaluationContext
import CellCalculus.Proofs.BlamedExpressions

/-!
# Administrative steps

A function steps to its closure and a pair of values to a pair value, and nothing is computed by
that. Both sides are inferred by the same rule from the same components, so they leave the same
state of the checker behind, and under any evaluation context the same is inferred from there on.
`typeOf_fill_administrative` says that the whole check comes out the same, but for the expressions
around the hole when they are blamed.
-/

namespace CellCalculus

open Check

/-- The one expression stands where the other one does, or both are what an inner part of the
context makes of `r` and of `r'`. -/
inductive Replaced (K : Context) (r r' : Expr) : Expr → Expr → Prop
  | same (e) : Replaced K r r' e e
  | around {P} : P <+: K → Replaced K r r' (Context.fill P r) (Context.fill P r')

section Contexts

variable {R : Expr → Expr → Prop} {env : TypeEnv} {e e' : Expr}

/-- Whatever stands in the hole of a frame, the rest of the frame is inferred as before. -/
theorem alike_frame (hR : ∀ e, R e e) (F : Frame) (hsite : R (F.fill e) (F.fill e'))
    (h : Alike R Eq (infer env e) (infer env e')) :
    Alike R Eq (infer env (F.fill e)) (infer env (F.fill e')) := by
  have hself := fun e => alike_infer env e fun d _ => hR d
  cases F with
  | appL v => exact alike_app hsite h (hself _)
  | appR e₁ => exact alike_app hsite (hself _) h
  | unop op => exact alike_unop hsite h
  | binopL op v => exact alike_binop hsite h (hself _)
  | binopR op e₁ => exact alike_binop hsite (hself _) h
  | ite t f => exact alike_ite hsite h (hself _) (hself _)
  | pairL tag v => exact alike_pair hsite h (hself _)
  | pairR tag e₁ => exact alike_pair hsite (hself _) h
  | recordL v => exact alike_record hsite h (hself _)
  | recordR e₁ => exact alike_record hsite (hself _) h
  | fst => exact alike_fst hsite h
  | snd => exact alike_snd hsite h
  | allocL _ | allocR _ | free | load | storeL _ | storeR _ =>
    rw [Frame.fill, Frame.fill, infer, infer]
    exact (alike_fail hsite .untypable).emit_bind _ _

/-- By induction on the context, from the hole outwards. -/
theorem alike_context (hR : ∀ e, R e e) (K : Context)
    (hsite : ∀ P, P <+: K → R (Context.fill P e) (Context.fill P e'))
    (h : Alike R Eq (infer env e) (infer env e')) :
    Alike R Eq (infer env (K.fill e)) (infer env (K.fill e')) := by
  induction K generalizing e e' with
  | nil => exact h
  | cons F K ih =>
    have hframe : R (F.fill e) (F.fill e') := hsite [F] ⟨K, rfl⟩
    exact ih (fun P hP => hsite (F :: P) (List.cons_prefix_cons.mpr ⟨rfl, hP⟩))
      (alike_frame hR F hframe h)

/-- What is inferred alike may be replaced in any context. -/
theorem typeOf_fill_alike (K : Context) {r r' : Expr}
    (h : Alike (Replaced K r r') Eq (infer env r) (infer env r')) :
    AnswersAlike (Replaced K r r') Eq (typeOf env (K.fill r)) (typeOf env (K.fill r')) :=
  (alike_check (alike_context .same K (fun _ => .around) h) _ _ (Checker.reblamed_start _)).1

end Contexts

section Administrative

variable {R : Expr → Expr → Prop}

/-- A function is inferred as its closure is. -/
theorem alike_closure (hR : ∀ e, R e e) (env : TypeEnv) (self param : Binder) (body : Expr) :
    Alike R Eq (infer env (.fn self param body)) (infer env (.val (.closure self param body))) := by
  have hself := alike_infer env (.fn self param body) fun d _ => hR d
  rw [infer] at hself
  rw [infer, infer, inferVal]
  exact hself

/-- The components of a pair value are values of their own, as those of a pair of values are. -/
theorem alike_pairValue (hR : ∀ e, R e e) (env : TypeEnv) {tag : Tag} {v w : Val}
    (hsite : R (.pair tag (.val v) (.val w)) (.val (.pair tag v w))) :
    Alike R Eq (infer env (.pair tag (.val v) (.val w))) (infer env (.val (.pair tag v w))) := by
  have hvalue : ∀ u, Alike R Eq (infer env (.val u)) (inferVal env u) := by
    intro u
    have hself := alike_infer env (.val u) fun d _ => hR d
    rw [infer] at hself ⊢
    exact hself
  rw [infer, infer, inferVal]
  exact (alike_aggregate hsite (hvalue v) (hvalue w)).emit_bind _ _

/-- In every context a function may be replaced by its closure, and a pair of values by the pair
value: the check answers the same type, with the same variables, or fails for the same reason. -/
theorem typeOf_fill_administrative (env : TypeEnv) (K : Context) :
    (∀ self param body,
      AnswersAlike (Replaced K (.fn self param body) (.val (.closure self param body))) Eq
        (typeOf env (K.fill (.fn self param body)))
        (typeOf env (K.fill (.val (.closure self param body))))) ∧
    ∀ tag v w,
      AnswersAlike (Replaced K (.pair tag (.val v) (.val w)) (.val (.pair tag v w))) Eq
        (typeOf env (K.fill (.pair tag (.val v) (.val w))))
        (typeOf env (K.fill (.val (.pair tag v w)))) :=
  ⟨fun self param body => typeOf_fill_alike K (alike_closure .same env self param body),
    fun _ _ _ => typeOf_fill_alike K (alike_pairValue .same env (.around List.nil_prefix))⟩

/-- A plain pair is no field of a ref-struct, and each of the two is blamed for it itself. -/
example :
    typeOf .empty (.pair .ref (.val .unit) (.val (.pair .plain .unit .unit))) =
        .error ⟨.pair .ref (.val .unit) (.val (.pair .plain .unit .unit)),
          .invalidField (.pair .plain .unit .unit) .ref⟩ ∧
      typeOf .empty (.val (.pair .ref .unit (.pair .plain .unit .unit))) =
        .error ⟨.val (.pair .ref .unit (.pair .plain .unit .unit)),
          .invalidField (.pair .plain .unit .unit) .ref⟩ :=
  ⟨rfl, rfl⟩

end Administrative

end CellCalculus
