import CellCalculus.Inference
import CellCalculus.Proofs.CheckerGuarantees

/-!
# What inference guarantees

One guarantee for each typing rule of the checker, and from them, by recursion on the expression,
`infer_guarantees`: in every substitution that satisfies the state left behind, the expression has
the inferred type by the rules alone.
-/

namespace CellCalculus

open Check

variable {α : Type}

theorem guarantees_requireField (site : Expr) (tag : Tag) (t : Ty) :
    (requireField site tag t).Guarantees fun s _ => fieldValid tag (s.apply t) = true := by
  unfold requireField
  split
  · next h =>
    exact guarantees_pure fun s => fieldValid_apply s (fieldValid_iff.mpr h)
  · exact guarantees_fail
  · exact guarantees_recordField ⟨t, tag, site⟩

theorem variableRule_guarantees (env : TypeEnv) (x : String) :
    (variableRule env x).Guarantees fun s t => (s.applyEnv env).lookup? x = some (s.apply t) := by
  apply Guarantees.emit_bind
  cases hx : env.lookup? x with
  | none => exact guarantees_fail
  | some t =>
    refine (guarantees_resolve t).mono fun s u hu => ?_
    rw [Substitution.lookup?_applyEnv, hx, Option.map_some, hu]

theorem functionRule_guarantees {env : TypeEnv} {param : Binder} {body : TypeEnv → Check Ty}
    {e : Expr} (hbody : ∀ env, (body env).Guarantees fun s t => HasType (s.applyEnv env) e (s.apply t)) :
    (functionRule env param body).Guarantees fun s t =>
      ∃ a b, s.apply t = .arrow a b ∧ HasType ((s.applyEnv env).extend param a) e b := by
  refine (guarantees_fresh.bind fun t => (hbody (env.extend param t)).bind fun result =>
    (guarantees_resolve t).bind fun u => guarantees_return (Ty.arrow u result)).mono ?_
  rintro s w ⟨t, -, result, hresult, u, hu, rfl⟩
  rw [Substitution.applyEnv_extend] at hresult
  exact ⟨s.apply t, s.apply result, by rw [Substitution.apply, hu], hresult⟩

theorem applicationRule_guarantees (site : Expr) (func arg : Ty) :
    (applicationRule site func arg).Guarantees fun s t =>
      s.apply func = .arrow (s.apply arg) (s.apply t) := by
  refine guarantees_resolve_bind fun known => ?_
  split
  · next param result =>
    refine ((guarantees_unifyAt site param arg).bind fun _ => guarantees_resolve result).mono ?_
    rintro s t ⟨_, harg, ht⟩ hfunc
    rw [← hfunc, Substitution.apply, harg, ht]
  · refine (guarantees_fresh.bind fun result =>
      (guarantees_unifyAt site (.arrow arg result) func).bind fun _ =>
        guarantees_resolve result).mono ?_
    rintro s t ⟨result, -, _, hfunc, ht⟩ _
    rw [← hfunc, Substitution.apply, ht]
  · exact guarantees_fail

theorem aggregateRule_guarantees (site : Expr) (tag : Tag) (first second : Ty) :
    (aggregateRule site tag first second).Guarantees fun s ab =>
      s.apply ab.1 = s.apply first ∧ s.apply ab.2 = s.apply second ∧
        fieldValid tag (s.apply first) = true ∧ fieldValid tag (s.apply second) = true := by
  refine ((guarantees_resolve first).bind fun a => (guarantees_resolve second).bind fun b =>
    (guarantees_requireField site tag a).bind fun _ =>
      (guarantees_requireField site tag b).bind fun _ =>
        guarantees_return (a, b)).mono ?_
  rintro s _ ⟨a, ha, b, hb, _, hva, _, hvb, rfl⟩
  exact ⟨ha, hb, ha ▸ hva, hb ▸ hvb⟩

/-- The two components are inferred, checked as fields and put together by `mk`. -/
theorem aggregate_guarantees {m₁ m₂ : Check Ty} {P₁ P₂ : Substitution → Ty → Prop} {site : Expr}
    {tag : Tag} {mk : Ty → Ty → Ty}
    (hmk : ∀ (s : Substitution) a b, s.apply (mk a b) = mk (s.apply a) (s.apply b))
    (h₁ : m₁.Guarantees fun s a => P₁ s (s.apply a))
    (h₂ : m₂.Guarantees fun s b => P₂ s (s.apply b)) :
    Guarantees (do
      let a ← m₁
      let b ← m₂
      let (a, b) ← aggregateRule site tag a b
      return mk a b) fun s t => ∃ a b, s.apply t = mk a b ∧ P₁ s a ∧ P₂ s b ∧
        fieldValid tag a = true ∧ fieldValid tag b = true := by
  refine (h₁.bind fun a => h₂.bind fun b => (aggregateRule_guarantees site tag a b).bind fun ab =>
    guarantees_return (mk ab.1 ab.2)).mono ?_
  rintro s _ ⟨a, ha, b, hb, ab, ⟨hab₁, hab₂, hva, hvb⟩, rfl⟩
  exact ⟨s.apply a, s.apply b, by rw [hmk, hab₁, hab₂], ha, hb, hva, hvb⟩

/-- What is put off is recorded with the type the operand has by then. -/
theorem projectionRule_guarantees (site : Expr) (side : Side) (operand : Ty) :
    (projectionRule site side operand).Guarantees fun s t =>
      ∃ components, (s.apply operand).components? = some components ∧
        s.apply t = side.pick components := by
  refine guarantees_resolve_bind fun known => ?_
  split
  · next tag a b =>
    refine guarantees_pure fun s hknown => ⟨(s.apply a, s.apply b), ?_, by cases side <;> rfl⟩
    rw [← hknown]
    rfl
  · next a b =>
    refine guarantees_pure fun s hknown => ⟨(s.apply a, s.apply b), ?_, by cases side <;> rfl⟩
    rw [← hknown]
    rfl
  · next x =>
    refine (guarantees_fresh.bind fun result => Guarantees.emit_bind
      ((guarantees_recordProjection ⟨.var x, result, side, site⟩).bind fun _ =>
        guarantees_return result) _).mono ?_
    rintro s _ ⟨result, -, _, ⟨components, hc, hpick⟩, rfl⟩ hknown
    exact ⟨components, hknown ▸ hc, hpick⟩
  · exact guarantees_fail

theorem referenceRule_guarantees (env : TypeEnv) (e : Expr) :
    (referenceRule env e).Guarantees fun s t => HasType (s.applyEnv env) (.ref e) (s.apply t) := by
  unfold referenceRule
  split
  · next x =>
    refine ((variableRule_guarantees env x).bind fun t => guarantees_return (Ty.ref t)).mono ?_
    rintro s _ ⟨t, ht, rfl⟩
    exact HasType.ref ht
  · exact guarantees_fail

mutual

theorem inferVal_guarantees (env : TypeEnv) : (v : Val) → (inferVal env v).Guarantees fun s t =>
    HasType (s.applyEnv env) (.val v) (s.apply t)
  | .lit (.int n) => guarantees_pure fun _ => .int
  | .lit (.bool b) => guarantees_pure fun _ => .bool
  | .lit .unit => guarantees_pure fun _ => .unit
  | .lit (.loc l) => guarantees_fail
  | .closure self param body => by
    rw [inferVal]
    refine (functionRule_guarantees fun env => infer_guarantees env body).mono ?_
    rintro s t ⟨a, b, ht, hbody⟩
    rw [ht]
    exact .closure hbody
  | .pair tag v w => by
    rw [inferVal]
    refine (aggregate_guarantees (fun _ _ _ => rfl) (inferVal_guarantees env v)
      (inferVal_guarantees env w)).mono ?_
    rintro s t ⟨a, b, ht, ha, hb, hva, hvb⟩
    rw [ht]
    exact .pairVal ha hb hva hvb

/-- By recursion on the expression; an operator, a construct with two operands and a projection
each combine what their operands guarantee with what their own rule does. -/
theorem infer_guarantees (env : TypeEnv) : (e : Expr) → (infer env e).Guarantees fun s t =>
    HasType (s.applyEnv env) e (s.apply t)
  | .val v => by
    rw [infer]
    exact (inferVal_guarantees env v).emit_bind _
  | .var x => by
    rw [infer]
    exact (variableRule_guarantees env x).mono fun _ _ ht => .var ht
  | .fn self param body => by
    rw [infer]
    refine (Guarantees.emit_bind
      (functionRule_guarantees fun env => infer_guarantees env body) _).mono ?_
    rintro s t ⟨a, b, ht, hbody⟩
    rw [ht]
    exact .fn hbody
  | .app e₁ e₂ => by
    rw [infer]
    refine (Guarantees.emit_bind ((infer_guarantees env e₁).bind fun func =>
      (infer_guarantees env e₂).bind fun arg =>
        applicationRule_guarantees (.app e₁ e₂) func arg) _).mono ?_
    rintro s t ⟨func, hfunc, arg, harg, ht⟩
    exact .app (ht ▸ hfunc) harg
  | .unop op e => by
    rw [infer]
    refine (Guarantees.emit_bind ((infer_guarantees env e).bind fun t =>
      (guarantees_unifyAt (.unop op e) op.type t).bind fun _ =>
        guarantees_return op.type) _).mono ?_
    rintro s _ ⟨t, ht, _, heq, rfl⟩
    rw [Substitution.apply_ground op.vars_type] at heq ⊢
    exact .unop (heq ▸ ht)
  | .binop op e₁ e₂ => by
    rw [infer]
    apply Guarantees.emit_bind
    split
    · exact guarantees_fail
    · next sig hsig =>
      refine ((infer_guarantees env e₁).bind fun a => (infer_guarantees env e₂).bind fun b =>
        (guarantees_unifyAt (.binop op e₁ e₂) sig.left a).bind fun _ =>
          (guarantees_unifyAt (.binop op e₁ e₂) sig.right b).bind fun _ =>
            guarantees_return sig.result).mono ?_
      rintro s _ ⟨a, ha, b, hb, _, hleft, _, hright, rfl⟩
      obtain ⟨hsl, hsr, hss⟩ := BinaryOp.vars_signature hsig
      rw [Substitution.apply_ground hsl] at hleft
      rw [Substitution.apply_ground hsr] at hright
      rw [Substitution.apply_ground hss]
      exact .binop hsig (hleft ▸ ha) (hright ▸ hb)
  | .ite c t f => by
    rw [infer]
    refine (Guarantees.emit_bind ((infer_guarantees env c).bind fun cond =>
      (guarantees_unifyAt (.ite c t f) .bool cond).bind fun _ =>
        (infer_guarantees env t).bind fun a => (infer_guarantees env f).bind fun b =>
          (guarantees_unifyAt (.ite c t f) a b).bind fun _ => guarantees_resolve a) _).mono ?_
    rintro s u ⟨cond, hcond, _, hbool, a, ha, b, hb, _, hab, hu⟩
    rw [← hbool] at hcond
    rw [← hab] at hb
    rw [hu]
    exact .ite hcond ha hb
  | .pair tag e₁ e₂ => by
    rw [infer]
    refine (Guarantees.emit_bind (aggregate_guarantees (fun _ _ _ => rfl)
      (infer_guarantees env e₁) (infer_guarantees env e₂)) _).mono ?_
    rintro s t ⟨a, b, ht, ha, hb, hva, hvb⟩
    rw [ht]
    exact .pair ha hb hva hvb
  | .record e₁ e₂ => by
    rw [infer]
    refine (Guarantees.emit_bind (aggregate_guarantees (fun _ _ _ => rfl)
      (infer_guarantees env e₁) (infer_guarantees env e₂)) _).mono ?_
    rintro s t ⟨a, b, ht, ha, hb, hva, hvb⟩
    rw [ht]
    exact .record ha hb hva hvb
  | .fst e => by
    rw [infer]
    refine (Guarantees.emit_bind ((infer_guarantees env e).bind fun t =>
      projectionRule_guarantees (.fst e) .first t) _).mono ?_
    rintro s u ⟨t, ht, components, hc, hu⟩
    rw [hu]
    exact .fst ht hc
  | .snd e => by
    rw [infer]
    refine (Guarantees.emit_bind ((infer_guarantees env e).bind fun t =>
      projectionRule_guarantees (.snd e) .second t) _).mono ?_
    rintro s u ⟨t, ht, components, hc, hu⟩
    rw [hu]
    exact .snd ht hc
  | .ref e => by
    rw [infer]
    exact (referenceRule_guarantees env e).emit_bind _
  | .alloc _ _ | .free _ | .load _ | .store _ _ => by
    rw [infer]
    exact guarantees_fail.emit_bind _

end

end CellCalculus
