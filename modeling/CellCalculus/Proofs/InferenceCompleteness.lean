import Mathlib
import CellCalculus.Proofs.IntegerDefaults
import CellCalculus.Proofs.PremiseFreePrograms
import CellCalculus.Proofs.StateReadings

/-!
# Completeness of inference without projections

Each typing rule of the checker attains what its counterpart among the rules alone derives: from a
state that can be read so that the environment gives names the types of a derivation, inference
succeeds with a type that is read as the derived one. The fields recorded on the way can be valid
then, so settling them succeeds. Without aggregates nothing is recorded, no variable is set to an
integer, and the types of an expression are the instances of the answered one.
-/

namespace CellCalculus

open Check

variable {w : Reading} {env env' : TypeEnv} {u : Ty}

theorem variableRule_attains (henv : w.ReadsEnv env env') {x : String}
    (hx : env'.lookup? x = some u) :
    (variableRule env x).Attains w fun t w' => w'.Reads t u := by
  obtain ⟨t, ht, hread⟩ := henv x u hx
  refine Attains.emit_bind ?_ _
  rw [ht]
  exact attains_resolve hread

theorem functionRule_attains {param : Binder} {body : TypeEnv → Check Ty} {a b : Ty}
    (henv : w.ReadsEnv env env')
    (hbody : ∀ env w', w'.ReadsEnv env (env'.extend param a) →
      (body env).Attains w' fun t w' => w'.Reads t b) :
    (functionRule env param body).Attains w fun t w' => w'.Reads t (.arrow a b) := by
  refine (attains_fresh w a).bind fun t w₁ hw₁ ht => ?_
  refine (hbody _ w₁ ((henv.mono hw₁).extend param ht)).bind fun result w₂ hw₂ hresult => ?_
  refine (attains_resolve (ht.mono hw₂)).bind fun v w₃ hw₃ hv => attains_pure ?_
  exact hv.arrow (hresult.mono hw₃)

theorem applicationRule_attains {site : Expr} {func arg a b : Ty}
    (hfunc : w.Reads func (.arrow a b)) (harg : w.Reads arg a) :
    (applicationRule site func arg).Attains w fun t w' => w'.Reads t b := by
  refine (attains_resolve hfunc).bind fun known w₁ hw₁ hknown => ?_
  rcases hknown.arrow_or_var with ⟨param, result, rfl⟩ | ⟨x, rfl⟩
  · obtain ⟨hparam, hresult⟩ := hknown.of_arrow
    refine (attains_unifyAt hparam (harg.mono hw₁)).bind fun _ w₂ hw₂ _ => ?_
    exact attains_resolve (hresult.mono hw₂)
  · refine (attains_fresh w₁ b).bind fun result w₂ hw₂ hresult => ?_
    have hw := hw₂.trans hw₁
    have harrow := (harg.mono hw).arrow hresult
    refine (attains_unifyAt harrow (hfunc.mono hw)).bind fun _ w₃ hw₃ _ => ?_
    exact attains_resolve (hresult.mono hw₃)

theorem aggregateRule_attains {site : Expr} {tag : Tag} {first second a b : Ty}
    (hfirst : w.Reads first a) (hsecond : w.Reads second b) (ha : fieldValid tag a = true)
    (hb : fieldValid tag b = true) :
    (aggregateRule site tag first second).Attains w fun ab w' =>
      w'.Reads ab.1 a ∧ w'.Reads ab.2 b := by
  refine (attains_resolve hfirst).bind fun t₁ w₁ hw₁ ht₁ => ?_
  refine (attains_resolve (hsecond.mono hw₁)).bind fun t₂ w₂ hw₂ ht₂ => ?_
  refine (attains_requireField (ht₁.mono hw₂) ha).bind fun _ w₃ hw₃ _ => ?_
  refine (attains_requireField (ht₂.mono hw₃) hb).bind fun _ w₄ hw₄ _ => attains_pure ?_
  exact ⟨ht₁.mono (hw₄.trans (hw₃.trans hw₂)), ht₂.mono (hw₄.trans hw₃)⟩

/-- The two components are inferred, checked as fields and put together by `mk`. -/
theorem aggregate_attains {m₁ m₂ : Check Ty} {site : Expr} {tag : Tag} {mk : Ty → Ty → Ty}
    {a b : Ty} (hmk : ∀ {w : Reading} {t₁ t₂}, w.Reads t₁ a → w.Reads t₂ b →
      w.Reads (mk t₁ t₂) (mk a b))
    (h₁ : m₁.Attains w fun t w' => w'.Reads t a)
    (h₂ : ∀ w', w'.Extends w → m₂.Attains w' fun t w'' => w''.Reads t b)
    (ha : fieldValid tag a = true) (hb : fieldValid tag b = true) :
    Attains (do
      let a ← m₁
      let b ← m₂
      let (a, b) ← aggregateRule site tag a b
      return mk a b) w fun t w' => w'.Reads t (mk a b) := by
  refine h₁.bind fun t₁ w₁ hw₁ ht₁ => (h₂ w₁ hw₁).bind fun t₂ w₂ hw₂ ht₂ => ?_
  refine (aggregateRule_attains (ht₁.mono hw₂) ht₂ ha hb).bind fun ab w₃ hw₃ hab => ?_
  exact attains_pure (hmk hab.1 hab.2)

mutual

theorem inferVal_attains {w : Reading} {env env' : TypeEnv} {u : Ty} (henv : w.ReadsEnv env env') :
    (v : Val) → (Expr.val v).projectionFree = true → HasType env' (.val v) u →
      (inferVal env v).Attains w fun t w' => w'.Reads t u
  | .lit (.int n), _, h => by
    cases h
    exact attains_pure (Reading.reads_ground rfl)
  | .lit (.bool b), _, h => by
    cases h
    exact attains_pure (Reading.reads_ground rfl)
  | .lit .unit, _, h => by
    cases h
    exact attains_pure (Reading.reads_ground rfl)
  | .lit (.loc l), _, h => nomatch h
  | .closure self param body, he, h => by
    simp only [Expr.projectionFree, Expr.everywhere, Val.everywhere, Bool.and_eq_true] at he
    cases h with
    | closure hbody =>
      rw [inferVal]
      exact functionRule_attains henv fun env w' henv' => infer_attains henv' body he.2 hbody
  | .pair tag v₁ v₂, he, h => by
    simp only [Expr.projectionFree, Expr.everywhere, Val.everywhere, Bool.and_eq_true] at he
    cases h with
    | pairVal h₁ h₂ hva hvb =>
      rw [inferVal]
      exact aggregate_attains .pair (inferVal_attains henv v₁ he.1.2 h₁)
        (fun w' hw' => inferVal_attains (henv.mono hw') v₂ he.2 h₂) hva hvb

/-- By recursion on the expression, whose derivation in the environment read off the state ends in
the rule for its construct. -/
theorem infer_attains {w : Reading} {env env' : TypeEnv} {u : Ty} (henv : w.ReadsEnv env env') :
    (e : Expr) → e.projectionFree = true → HasType env' e u →
      (infer env e).Attains w fun t w' => w'.Reads t u
  | .val v, he, h => by
    rw [infer]
    exact (inferVal_attains henv v he h).emit_bind _
  | .var x, _, h => by
    cases h with
    | var hx =>
      rw [infer]
      exact variableRule_attains henv hx
  | .fn self param body, he, h => by
    simp only [Expr.projectionFree, Expr.everywhere, Bool.and_eq_true] at he
    cases h with
    | fn hbody =>
      rw [infer]
      refine Attains.emit_bind (functionRule_attains henv fun env w' henv' => ?_) _
      exact infer_attains henv' body he.2 hbody
  | .app e₁ e₂, he, h => by
    simp only [Expr.projectionFree, Expr.everywhere, Bool.and_eq_true] at he
    cases h with
    | app h₁ h₂ =>
      rw [infer]
      refine Attains.emit_bind ?_ _
      refine (infer_attains henv e₁ he.1.2 h₁).bind fun func w₁ hw₁ hfunc => ?_
      refine (infer_attains (henv.mono hw₁) e₂ he.2 h₂).bind fun arg w₂ hw₂ harg => ?_
      exact applicationRule_attains (hfunc.mono hw₂) harg
  | .unop op e, he, h => by
    simp only [Expr.projectionFree, Expr.everywhere, Bool.and_eq_true] at he
    cases h with
    | unop h =>
      have hop {w : Reading} : w.Reads op.type op.type := Reading.reads_ground op.vars_type
      rw [infer]
      refine Attains.emit_bind ((infer_attains henv e he.2 h).bind fun t w₁ hw₁ ht => ?_) _
      exact (attains_unifyAt hop ht).bind fun _ _ _ _ => attains_pure hop
  | .binop op e₁ e₂, he, h => by
    simp only [Expr.projectionFree, Expr.everywhere, Bool.and_eq_true] at he
    cases h with
    | @binop _ _ _ _ sig hsig h₁ h₂ =>
      obtain ⟨hleft, hright, hresult⟩ := BinaryOp.vars_signature hsig
      rw [infer, hsig]
      refine Attains.emit_bind ?_ _
      refine (infer_attains henv e₁ he.1.2 h₁).bind fun a w₁ hw₁ ha => ?_
      refine (infer_attains (henv.mono hw₁) e₂ he.2 h₂).bind fun b w₂ hw₂ hb => ?_
      refine (attains_unifyAt (Reading.reads_ground hleft) (ha.mono hw₂)).bind fun _ w₃ hw₃ _ => ?_
      refine (attains_unifyAt (Reading.reads_ground hright) (hb.mono hw₃)).bind fun _ w₄ hw₄ _ => ?_
      exact attains_pure (Reading.reads_ground hresult)
  | .ite c t f, he, h => by
    simp only [Expr.projectionFree, Expr.everywhere, Bool.and_eq_true] at he
    cases h with
    | ite hc ht hf =>
      rw [infer]
      refine Attains.emit_bind ?_ _
      refine (infer_attains henv c he.1.1.2 hc).bind fun cond w₁ hw₁ hcond => ?_
      refine (attains_unifyAt (Reading.reads_ground rfl) hcond).bind fun _ w₂ hw₂ _ => ?_
      have henv₂ := henv.mono (hw₂.trans hw₁)
      refine (infer_attains henv₂ t he.1.2 ht).bind fun a w₃ hw₃ ha => ?_
      refine (infer_attains (henv₂.mono hw₃) f he.2 hf).bind fun b w₄ hw₄ hb => ?_
      refine (attains_unifyAt (ha.mono hw₄) hb).bind fun _ w₅ hw₅ _ => ?_
      exact attains_resolve (ha.mono (hw₅.trans hw₄))
  | .pair tag e₁ e₂, he, h => by
    simp only [Expr.projectionFree, Expr.everywhere, Bool.and_eq_true] at he
    cases h with
    | pair h₁ h₂ hva hvb =>
      rw [infer]
      exact (aggregate_attains .pair (infer_attains henv e₁ he.1.2 h₁)
        (fun w' hw' => infer_attains (henv.mono hw') e₂ he.2 h₂) hva hvb).emit_bind _
  | .record e₁ e₂, he, h => by
    simp only [Expr.projectionFree, Expr.everywhere, Bool.and_eq_true] at he
    cases h with
    | record h₁ h₂ hva hvb =>
      rw [infer]
      exact (aggregate_attains .record (infer_attains henv e₁ he.1.2 h₁)
        (fun w' hw' => infer_attains (henv.mono hw') e₂ he.2 h₂) hva hvb).emit_bind _
  | .fst e, he, _ | .snd e, he, _ => by
    simp [Expr.projectionFree, Expr.everywhere, Expr.isProjection] at he
  | .ref e, _, h => by
    cases h with
    | ref hx =>
      rw [infer]
      refine Attains.emit_bind ?_ _
      exact (variableRule_attains henv hx).bind fun t w₁ _ ht => attains_pure ht.ref
  | .alloc _ _, _, h | .free _, _, h | .load _, _, h | .store _ _, _, h => nomatch h

end

theorem Check.Returns.unique {α : Type} {m : Check α} {c c₁ c₂ : Checker} {a b : α}
    (h₁ : m.Returns c a c₁) (h₂ : m.Returns c b c₂) : a = b ∧ c₁ = c₂ := by
  obtain ⟨ha, rfl⟩ := h₁
  obtain ⟨hb, rfl⟩ := h₂
  rw [ha] at hb
  exact ⟨Except.ok.inj hb, rfl⟩

theorem settleProjections_returns {c : Checker} (hc : c.projections = []) :
    settleProjections.Returns c () c := by
  obtain ⟨nextVar, subst, fields, projections⟩ := c
  obtain rfl := hc
  exact ⟨rfl, rfl⟩

theorem settleFields_returns_self {c : Checker} (hc : c.fields = []) :
    settleFields.Returns c () c := by
  obtain ⟨nextVar, subst, fields, projections⟩ := c
  obtain rfl := hc
  exact ⟨rfl, rfl⟩

/-- A walk that ends in a state whose fields can be valid ends in an answer. -/
theorem typeOf_of_infer {env : TypeEnv} {e : Expr} {t : Ty} {w : Reading}
    (hr : (infer env e).Returns {} t w.state) : ∃ t', typeOf env e = .ok t' := by
  obtain ⟨hres, -⟩ := infer_guarantees env e {} t w.state hr Substitution.resolved_empty
  have hfields : ∀ p ∈ w.state.fields,
      fieldValid p.tag (w.state.subst.apply p.ty).withInts = true := fun p hp => by
    rw [fieldValid_withInts_iff]
    intro hno
    have hvalid := w.satisfies.fields p hp
    rw [FieldPremise.HoldsIn, ← w.satisfies.absorbs, fieldValid_iff,
      fieldValidity_apply w.values hno] at hvalid
    cases hvalid
  obtain ⟨c, hsettled⟩ := settleFields_returns hres w.noProjections hfields
  have hcheck : (check env e).Returns {} (c.subst.apply t) c := returns_check_iff.mpr
    ⟨t, w.state, w.state, hr, settleProjections_returns w.noProjections, hsettled, rfl⟩
  exact ⟨_, hcheck.1⟩

variable {e : Expr} {t : Ty}

theorem start_readsEnv (henv : ∀ x u, env.lookup? x = some u → u.vars = []) :
    Reading.start.ReadsEnv env env :=
  fun x u hx => ⟨u, hx, Reading.reads_ground (henv x u hx)⟩

theorem applyEnv_mapsTo (s : Substitution) (henv : ∀ x u, env.lookup? x = some u → u.vars = [])
    {f : Ty → Ty} (hf : ∀ u, u.vars = [] → f u = u) : (s.applyEnv env).MapsTo f env := by
  intro x u hx
  rw [Substitution.lookup?_applyEnv] at hx
  obtain ⟨v, hv, rfl⟩ := Option.map_eq_some_iff.mp hx
  have hground := henv x v hv
  rw [Substitution.apply_ground hground, hf v hground, hv]

theorem hasGroundType_of_typeOf (henv : ∀ x u, env.lookup? x = some u → u.vars = [])
    (ht : typeOf env e = .ok t) : HasGroundType env e t.withInts := by
  obtain ⟨s, hs⟩ := typeOf_sound ht
  exact hs.ground (applyEnv_mapsTo s henv fun _ => Ty.withInts_eq_self)

/-- Without aggregates nothing happens behind the walk. -/
theorem reading_of_typeOf (henv : ∀ x u, env.lookup? x = some u → u.vars = [])
    (he : e.projectionFree = true) (hagg : e.aggregateFree = true) (ht : typeOf env e = .ok t)
    (h : HasType env e u) : ∃ (w : Reading) (v : Ty), (infer env e).Returns {} v w.state ∧
      w.Reads v u ∧ w.state.fields = [] ∧ t = w.state.subst.apply v := by
  obtain ⟨v, w, hinfer, -, hread⟩ := infer_attains (start_readsEnv henv) e he h
  have hnof : w.state.fields = [] := (keeps_infer_fields env e hagg).returns hinfer
  have hr : (check env e).Returns {} t (check env e {}).checker := ⟨ht, rfl⟩
  obtain ⟨v', c₁, c₂, hinfer', hprojections, hfields, hanswer⟩ := returns_check_iff.mp hr
  obtain ⟨rfl, rfl⟩ := Returns.unique hinfer' hinfer
  obtain ⟨-, rfl⟩ := Returns.unique hprojections (settleProjections_returns w.noProjections)
  obtain ⟨-, hend⟩ := Returns.unique hfields (settleFields_returns_self hnof)
  exact ⟨w, v', hinfer, hread, hnof, by rw [hanswer, hend]⟩

/-- The types of an expression without projections and aggregates are the instances of the answered
one. -/
theorem hasType_iff_instance (henv : ∀ x u, env.lookup? x = some u → u.vars = [])
    (he : e.projectionFree = true) (hagg : e.aggregateFree = true) (ht : typeOf env e = .ok t) :
    HasType env e u ↔ ∃ s : Substitution, s.apply t = u := by
  constructor
  · intro h
    obtain ⟨w, v, -, hread, -, rfl⟩ := reading_of_typeOf henv he hagg ht h
    exact ⟨w.values, hread.resolve.value⟩
  · rintro ⟨s, rfl⟩
    have hground : HasType env e t.withInts := (hasGroundType_of_typeOf henv ht).hasType
    obtain ⟨w, v, hinfer, -, hnof, rfl⟩ := reading_of_typeOf henv he hagg ht hground
    obtain ⟨hres, hsat⟩ := infer_guarantees env e {} v w.state hinfer Substitution.resolved_empty
    -- A state without premises asks for no more than an instance of what has been found.
    have hsatisfies : (s.compose w.state.subst).Satisfies w.state :=
      { absorbs := fun u => by
          rw [Substitution.apply_compose, Substitution.apply_compose, hres.apply_apply]
        fields := by simp [hnof]
        projections := by simp [w.noProjections] }
    have h : HasType ((s.compose w.state.subst).applyEnv env) e
        ((s.compose w.state.subst).apply v) := (hsat _ hsatisfies).2
    rw [Substitution.apply_compose] at h
    exact h.of_mapsTo (applyEnv_mapsTo _ henv fun _ _ => rfl)

/-- An expression without projections is accepted exactly when it has a type by the rules whose
parameter types have no variables. Without aggregates the answered type is principal. -/
theorem typeOf_complete {env : TypeEnv} {e : Expr}
    (henv : ∀ x u, env.lookup? x = some u → u.vars = []) (he : e.projectionFree = true) :
    ((∃ t, typeOf env e = .ok t) ↔ ∃ u, HasGroundType env e u) ∧
      (e.aggregateFree = true → ∀ t, typeOf env e = .ok t →
        ∀ u, HasType env e u ↔ ∃ s : Substitution, s.apply t = u) := by
  refine ⟨⟨?_, ?_⟩, fun hagg t ht u => hasType_iff_instance henv he hagg ht⟩
  · rintro ⟨t, ht⟩
    exact ⟨t.withInts, hasGroundType_of_typeOf henv ht⟩
  · rintro ⟨u, hu⟩
    obtain ⟨t, w, hr, -, -⟩ := infer_attains (start_readsEnv henv) e he hu.hasType
    exact typeOf_of_infer hr

/-- `λf. λx. if b then f x else x`. -/
def conditionalCall : Expr :=
  .lam "f" (.lam "x" (.ite (.var "b") (.app (.var "f") (.var "x")) (.var "x")))

/-- The answered type has a variable left, and any type may stand for it. -/
theorem conditionalCall_principal :
    (∀ x u, (TypeEnv.ofList [("b", .bool)]).lookup? x = some u → u.vars = []) ∧
      conditionalCall.projectionFree = true ∧ conditionalCall.aggregateFree = true ∧
      typeOf (.ofList [("b", .bool)]) conditionalCall =
        .ok (.arrow (.arrow (.var 1) (.var 1)) (.arrow (.var 1) (.var 1))) ∧
      (∃ u, HasGroundType (.ofList [("b", .bool)]) conditionalCall u) ∧
      ∀ u, HasType (.ofList [("b", .bool)]) conditionalCall u ↔
        ∃ s : Substitution,
          s.apply (.arrow (.arrow (.var 1) (.var 1)) (.arrow (.var 1) (.var 1))) = u := by
  have henv : ∀ x u, (TypeEnv.ofList [("b", .bool)]).lookup? x = some u → u.vars = [] := by
    intro x u hx
    by_cases hxb : x = "b"
    · subst hxb
      cases hx
      rfl
    · simp [TypeEnv.ofList, TypeEnv.lookup?, List.lookup_cons, beq_false_of_ne hxb] at hx
  have ht : typeOf (.ofList [("b", .bool)]) conditionalCall =
      .ok (.arrow (.arrow (.var 1) (.var 1)) (.arrow (.var 1) (.var 1))) := by
    cbv
  have he : conditionalCall.projectionFree = true := rfl
  obtain ⟨haccepted, hprincipal⟩ := typeOf_complete henv he
  exact ⟨henv, he, rfl, ht, haccepted.mp ⟨_, ht⟩, hprincipal rfl _ ht⟩

end CellCalculus
