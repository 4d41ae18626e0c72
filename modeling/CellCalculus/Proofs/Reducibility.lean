import CellCalculus.Proofs.ClosingSubstitution
import CellCalculus.Proofs.DeclarativeTyping
import CellCalculus.Proofs.EndingRuns

/-!
# Reducibility

`Reducible t v` says by recursion on the type what a value of type `t` is good for: a function takes
every reducible argument to an expression that ends in a reducible result, a reference is its value,
and no value has a bare variable for its type. `ends_close` is the fundamental property: a typed
expression without self-names, closed with reducible values, ends in a reducible value.
-/

namespace CellCalculus

def Reducible : Ty → Val → Prop
  | .int, v => ∃ n, v = .int n
  | .bool, v => ∃ b, v = .bool b
  | .unit, v => v = .unit
  | .pair tag a b, v => ∃ v₁ v₂, v = .pair tag v₁ v₂ ∧ Reducible a v₁ ∧ Reducible b v₂
  | .record a b, v => ∃ v₁ v₂, v = .pair .plain v₁ v₂ ∧ Reducible a v₁ ∧ Reducible b v₂
  | .ref t, v => Reducible t v
  | .arrow a b, v => (∃ self param body, v = .closure self param body) ∧
      ∀ w, Reducible a w → ∃ e, v.apply w = .ok e ∧ Ends (Reducible b) e
  | .var _, _ => False

theorem reducible_components {t a b : Ty} {v : Val} (ht : t.components? = some (a, b))
    (hv : Reducible t v) : ∃ tag v₁ v₂, v = .pair tag v₁ v₂ ∧ Reducible a v₁ ∧ Reducible b v₂ := by
  rcases Ty.components?_eq_some ht with ⟨tag, rfl⟩ | rfl
  · obtain ⟨v₁, v₂, hpair, ha, hb⟩ := hv
    exact ⟨tag, v₁, v₂, hpair, ha, hb⟩
  · obtain ⟨v₁, v₂, hpair, ha, hb⟩ := hv
    exact ⟨.plain, v₁, v₂, hpair, ha, hb⟩

theorem unaryOp_eval_reducible {op : UnaryOp} {v : Val} (hv : Reducible op.type v) :
    ∃ u, op.eval v = .ok u ∧ Reducible op.type u := by
  cases op with
  | neg =>
    obtain ⟨b, rfl⟩ := hv
    exact ⟨.bool !b, rfl, !b, rfl⟩
  | minus =>
    obtain ⟨n, rfl⟩ := hv
    exact ⟨.int (-n), rfl, -n, rfl⟩

/-- An operator on operands of its signature has a result of its signature, unless it is a partial
one. -/
theorem binaryOp_eval_reducible {op : BinaryOp} {sig : Signature} {v w : Val}
    (hop : op.signature? = some sig) (hv : Reducible sig.left v) (hw : Reducible sig.right w) :
    (∃ u, op.eval v w = .ok u ∧ Reducible sig.result u) ∨
      ∃ err, op.eval v w = .error err ∧ err.isPartialFault = true := by
  cases op with
  | plus | minus | mult | le | lt =>
    cases hop
    obtain ⟨m, rfl⟩ := hv
    obtain ⟨n, rfl⟩ := hw
    exact .inl ⟨_, rfl, _, rfl⟩
  | and | or | xor | eq =>
    cases hop
    obtain ⟨b, rfl⟩ := hv
    obtain ⟨c, rfl⟩ := hw
    exact .inl ⟨_, rfl, _, rfl⟩
  | quot | rem =>
    cases hop
    obtain ⟨m, rfl⟩ := hv
    obtain ⟨n, rfl⟩ := hw
    by_cases hd : BinaryOp.Divides m n
    · exact .inl ⟨_, BinaryOp.eval_of_onInts_eq_some (if_pos hd), _, rfl⟩
    · exact .inr ⟨_, BinaryOp.eval_of_onInts_eq_none (if_neg hd), rfl⟩
  | shiftL | shiftR =>
    cases hop
    obtain ⟨m, rfl⟩ := hv
    obtain ⟨n, rfl⟩ := hw
    by_cases hb : BinaryOp.Shifts n
    · exact .inl ⟨_, BinaryOp.eval_of_onInts_eq_some (if_pos hb), _, rfl⟩
    · exact .inr ⟨_, BinaryOp.eval_of_onInts_eq_none (if_neg hb), rfl⟩
  | offset => cases hop

/-- Every variable of the environment has a reducible value of its type. -/
def Valuation.Models (g : Valuation) (env : TypeEnv) : Prop :=
  ∀ x t, env.lookup? x = some t → ∃ v, g x = some v ∧ Reducible t v

theorem Valuation.models_empty : Valuation.empty.Models .empty := by
  intro x t hx
  cases hx

theorem Valuation.Models.bind {g : Valuation} {env : TypeEnv} {b : Binder} {t : Ty} {v : Val}
    (hg : g.Models env) (hv : Reducible t v) : (g.bind b v).Models (env.extend b t) := by
  intro x u hx
  rw [TypeEnv.lookup?_extend] at hx
  split at hx
  · next hb =>
    cases hx
    exact ⟨v, by simp [Valuation.bind, hb], hv⟩
  · next hb => simpa [Valuation.bind, hb] using hg x u hx

/-- By induction on the typing. The self-name of a function is not substituted, so its body meets
nothing but the argument. -/
theorem ends_close {env : TypeEnv} {e : Expr} {t : Ty} {g : Valuation} (ht : HasType env e t)
    (he : e.selfNameFree = true) (hg : g.Models env) : Ends (Reducible t) (e.close g) := by
  induction ht generalizing g with
  | int => exact .value ⟨_, rfl⟩
  | bool => exact .value ⟨_, rfl⟩
  | unit => exact .value rfl
  | closure _ _ => cases he
  | pairVal _ _ _ _ ihv ihw =>
    simp only [Expr.selfNameFree, Val.closureFree, Bool.and_eq_true] at he
    exact .value ⟨_, _, rfl, (ihv he.1 hg).of_val, (ihw he.2 hg).of_val⟩
  | var hx =>
    obtain ⟨v, hv, hr⟩ := hg _ _ hx
    rw [Expr.close, hv]
    exact .value hr
  | @fn env self param body a b _ ih =>
    simp only [Expr.selfNameFree, Bool.and_eq_true, Bool.not_eq_true'] at he
    have hcall : ∀ w, Reducible a w → Ends (Reducible b) (body.close (g.bind param w)) :=
      fun w hw => ih he.2 (hg.bind hw)
    have hfun : Reducible (.arrow a b)
        (.closure self param (body.close ((g.without self).without param))) :=
      ⟨⟨self, param, _, rfl⟩, fun w hw => ⟨_, Val.apply_close w he.1, hcall w hw⟩⟩
    exact .of_contract rfl rfl (.value hfun)
  | app _ _ ih₁ ih₂ =>
    simp only [Expr.selfNameFree, Bool.and_eq_true] at he
    have hfun := ih₁ he.1 hg
    have harg := ih₂ he.2 hg
    refine Ends.bind₂ (F := .appR _) (G := .appL) harg hfun (fun _ => rfl) fun v w hv hw => ?_
    obtain ⟨e, happ, hends⟩ := hv.2 w hw
    refine .of_contract rfl ?_ hends
    rw [Frame.fill, contract_app, happ]
    rfl
  | @unop env op e _ ih =>
    refine Ends.bind (F := .unop op) (ih he hg) fun v hv => ?_
    obtain ⟨u, heval, hu⟩ := unaryOp_eval_reducible hv
    refine .of_contract rfl ?_ (.value hu)
    rw [Frame.fill, contract_unop, heval]
    rfl
  | @binop env op e₁ e₂ sig hop _ _ ih₁ ih₂ =>
    simp only [Expr.selfNameFree, Bool.and_eq_true] at he
    have hleft := ih₁ he.1 hg
    have hright := ih₂ he.2 hg
    refine Ends.bind₂ (F := .binopR op _) (G := .binopL op) hright hleft (fun _ => rfl)
      fun v w hv hw => ?_
    obtain ⟨u, heval, hu⟩ | ⟨err, heval, herr⟩ := binaryOp_eval_reducible hop hv hw
    · refine .of_contract rfl ?_ (.value hu)
      rw [Frame.fill, contract_binop, heval]
      rfl
    · refine .of_contract_error rfl ?_ herr
      rw [Frame.fill, contract_binop, heval]
      rfl
  | ite _ _ _ ihc iht ihf =>
    simp only [Expr.selfNameFree, Bool.and_eq_true] at he
    refine Ends.bind (F := .ite _ _) (ihc he.1.1 hg) fun v hv => ?_
    obtain ⟨b, rfl⟩ := hv
    cases b with
    | true => exact .of_contract rfl rfl (iht he.1.2 hg)
    | false => exact .of_contract rfl rfl (ihf he.2 hg)
  | pair _ _ _ _ ih₁ ih₂ =>
    simp only [Expr.selfNameFree, Bool.and_eq_true] at he
    have hfirst := ih₁ he.1 hg
    have hsecond := ih₂ he.2 hg
    refine Ends.bind₂ (F := .pairR _ _) (G := .pairL _) hsecond hfirst (fun _ => rfl)
      fun v w hv hw => ?_
    exact .of_contract rfl rfl (.value ⟨v, w, rfl, hv, hw⟩)
  | record _ _ _ _ ih₁ ih₂ =>
    simp only [Expr.selfNameFree, Bool.and_eq_true] at he
    have hfirst := ih₁ he.1 hg
    have hsecond := ih₂ he.2 hg
    refine Ends.bind₂ (F := .recordR _) (G := .recordL) hsecond hfirst (fun _ => rfl)
      fun v w hv hw => ?_
    exact .of_contract rfl rfl (.value ⟨v, w, rfl, hv, hw⟩)
  | fst _ hparts ih =>
    refine Ends.bind (F := .fst) (ih he hg) fun v hv => ?_
    obtain ⟨tag, v₁, v₂, rfl, hfirst, _⟩ := reducible_components hparts hv
    exact .of_contract rfl rfl (.value hfirst)
  | snd _ hparts ih =>
    refine Ends.bind (F := .snd) (ih he hg) fun v hv => ?_
    obtain ⟨tag, v₁, v₂, rfl, _, hsecond⟩ := reducible_components hparts hv
    exact .of_contract rfl rfl (.value hsecond)
  | ref hx =>
    -- The variable is a value by now, so the reference is erased in one step.
    obtain ⟨v, hv, hr⟩ := hg _ _ hx
    rw [Expr.close, Expr.close, hv]
    exact .of_contract rfl rfl (.value hr)

end CellCalculus
