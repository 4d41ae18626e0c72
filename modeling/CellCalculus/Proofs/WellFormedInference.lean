import Mathlib
import CellCalculus.Proofs.InferenceSoundness
import CellCalculus.Proofs.WellFormedTypes

/-!
# Inference keeps to well-formed types

Whether the types the checker works with are well formed is only decided in the end, by a
substitution `s` that satisfies the last state. `Builds s P m Q` says of a computation that `s`
satisfies the state it starts from if it satisfies the one it leaves behind, and that in this case,
given `P`, types well formed in `s` are all that is put into the state, and the answer has `Q`. The
fields of a new aggregate are valid in `s` because they have been demanded by then.
-/

namespace CellCalculus

open Check

def ProjectionPremise.WellFormedIn (s : Substitution) (p : ProjectionPremise) : Prop :=
  p.operand.WellFormedIn s ∧ p.result.WellFormedIn s

structure Checker.WellFormedIn (s : Substitution) (c : Checker) : Prop where
  subst : ∀ x t, c.subst.lookup? x = some t → t.WellFormedIn s
  projections : ∀ p ∈ c.projections, p.WellFormedIn s

def TypeEnv.WellFormedIn (s : Substitution) (env : TypeEnv) : Prop :=
  ∀ x t, env.lookup? x = some t → t.WellFormedIn s

theorem TypeEnv.WellFormedIn.extend {s : Substitution} {env : TypeEnv} {t : Ty}
    (henv : env.WellFormedIn s) (b : Binder) (ht : t.WellFormedIn s) :
    (env.extend b t).WellFormedIn s := by
  intro x u hx
  rw [lookup?_extend] at hx
  split at hx
  · cases hx
    exact ht
  · exact henv x u hx

namespace Check

variable {α β : Type} {s : Substitution} {P : Prop}

def Builds (s : Substitution) (P : Prop) (m : Check α) (Q : α → Prop) : Prop :=
  ∀ c a c', m.Returns c a c' → c.subst.Resolved → c'.subst.Resolved ∧
    (s.Satisfies c' → s.Satisfies c ∧
      (P → c.WellFormedIn s → c'.WellFormedIn s ∧ Q a))

variable {m : Check α} {Q : α → Prop}

theorem Builds.bind {f : α → Check β} {R : β → Prop} (hm : Builds s P m Q)
    (hf : ∀ a, Builds s (P ∧ Q a) (f a) R) : Builds s P (m >>= f) R := by
  intro c b c' hr hc
  obtain ⟨a, d, hr₁, hr₂⟩ := returns_bind_iff.mp hr
  obtain ⟨hd, hback₁⟩ := hm c a d hr₁ hc
  obtain ⟨hc', hback₂⟩ := hf a d b c' hr₂ hd
  refine ⟨hc', fun hs => ?_⟩
  obtain ⟨hsd, hforth₂⟩ := hback₂ hs
  obtain ⟨hsc, hforth₁⟩ := hback₁ hsd
  refine ⟨hsc, fun hP hwf => ?_⟩
  obtain ⟨hwfd, hQ⟩ := hforth₁ hP hwf
  exact hforth₂ ⟨hP, hQ⟩ hwfd

theorem Builds.pre {P' : Prop} (hm : Builds s P m Q) (hP : P' → P) : Builds s P' m Q := by
  intro c a c' hr hc
  obtain ⟨hc', hback⟩ := hm c a c' hr hc
  exact ⟨hc', fun hs => (hback hs).imp_right fun hforth hP' => hforth (hP hP')⟩

theorem Builds.post {R : α → Prop} (hm : Builds s P m Q) (hQ : ∀ a, Q a → R a) :
    Builds s P m R := by
  intro c a c' hr hc
  obtain ⟨hc', hback⟩ := hm c a c' hr hc
  exact ⟨hc', fun hs => (hback hs).imp_right fun hforth hP hwf =>
    (hforth hP hwf).imp_right (hQ a)⟩

/-- A guarantee leads from the state left behind to the first one, so only the way back is left. -/
theorem Guarantees.builds {G : Substitution → α → Prop} (hm : m.Guarantees G)
    (hforth : ∀ c a c', m.Returns c a c' → s.Satisfies c' → s.Satisfies c → G s a → P →
      c.WellFormedIn s → c'.WellFormedIn s ∧ Q a) : Builds s P m Q := by
  intro c a c' hr hc
  obtain ⟨hc', hback⟩ := hm c a c' hr hc
  refine ⟨hc', fun hs => ?_⟩
  obtain ⟨hsc, hG⟩ := hback s hs
  exact ⟨hsc, hforth c a c' hr hs hsc hG⟩

theorem builds_pure {a : α} (hQ : P → Q a) : Builds s P (pure a) Q :=
  (guarantees_return a).builds fun c b c' hr _ _ _ hP hwf => by
    obtain ⟨rfl, rfl⟩ := returns_pure_iff.mp hr
    exact ⟨hwf, hQ hP⟩

theorem builds_fail {site : Expr} {fault : TypeFault} :
    Builds s P (fail site fault : Check α) Q := by
  intro c a c' hr
  exact absurd hr not_returns_fail

theorem Guarantees.builds_of_keeps {G : Substitution → α → Prop} (hm : m.Guarantees G)
    (hsubst : m.Keeps Checker.subst) (hprojections : m.Keeps Checker.projections) :
    Builds s P m fun a => G s a :=
  hm.builds fun _ _ _ hr _ _ hG _ hwf => by
    refine ⟨⟨?_, ?_⟩, hG⟩
    · rw [hsubst.returns hr]
      exact hwf.subst
    · rw [hprojections.returns hr]
      exact hwf.projections

theorem Builds.emit_bind (hm : Builds s P m Q) (ev : Event) :
    Builds s P (emit ev >>= fun _ => m) Q :=
  ((guarantees_emit ev).builds_of_keeps (keeps_emit ev _) (keeps_emit ev _)).bind fun _ =>
    hm.pre And.left

theorem builds_fresh : Builds s P fresh fun t => t.WellFormedIn s :=
  guarantees_fresh.builds fun _ _ _ hr _ _ _ _ hwf => by
    obtain ⟨rfl, rfl⟩ := returns_fresh_iff.mp hr
    exact ⟨⟨hwf.subst, hwf.projections⟩, Ty.wellFormedIn_var _⟩

theorem builds_resolve {t : Ty} (ht : P → t.WellFormedIn s) :
    Builds s P (resolve t) fun u => u.WellFormedIn s :=
  (guarantees_resolve t).builds fun _ _ _ hr _ hsc _ hP hwf => by
    obtain ⟨rfl, rfl⟩ := returns_resolve_iff.mp hr
    exact ⟨hwf, (ht hP).apply hsc.absorbs hwf.subst⟩

theorem builds_unifyAt {site : Expr} {a b : Ty} (ha : P → a.WellFormedIn s)
    (hb : P → b.WellFormedIn s) : Builds s P (unifyAt site a b) fun _ => True := by
  refine (guarantees_unifyAt site a b).builds fun c u c' hr hs hsc heq hP hwf => ?_
  obtain ⟨r, hunify, rfl⟩ := returns_unifyAt_iff.mp hr
  -- What satisfies the state left behind solves the equation that led there.
  have hsolves : s.Solves [(c.subst.apply a, c.subst.apply b)] := by
    rw [solves_cons, hsc.absorbs, hsc.absorbs]
    exact ⟨heq, solves_nil s⟩
  have hrwf := solve_wellFormedIn hunify hsolves <| List.forall_mem_singleton.mpr
    ⟨(ha hP).apply hsc.absorbs hwf.subst, (hb hP).apply hsc.absorbs hwf.subst⟩
  refine ⟨⟨fun x t hx => ?_, hwf.projections⟩, trivial⟩
  rw [Substitution.lookup?_compose] at hx
  split at hx
  · next w hw =>
    cases hx
    exact (hwf.subst x w hw).apply (solve_absorbs hunify hsolves) hrwf
  · exact hrwf x t hx

theorem builds_requireField (site : Expr) (tag : Tag) (t : Ty) :
    Builds s P (requireField site tag t) fun _ => fieldValid tag (s.apply t) = true :=
  (guarantees_requireField site tag t).builds_of_keeps
    (keeps_requireField site tag t fun _ _ => rfl) (keeps_requireField site tag t fun _ _ => rfl)

theorem builds_recordProjection {p : ProjectionPremise} (hp : P → p.WellFormedIn s) :
    Builds s P (recordProjection p) fun _ => True := by
  refine (guarantees_recordProjection p).builds fun c u c' hr _ _ _ hP hwf => ?_
  obtain rfl := returns_recordProjection_iff.mp hr
  refine ⟨⟨hwf.subst, ?_⟩, trivial⟩
  exact List.forall_mem_append.mpr ⟨hwf.projections, List.forall_mem_singleton.mpr (hp hP)⟩

theorem builds_forM {l : List β} {f : β → Check Unit}
    (hf : ∀ b ∈ l, Builds s P (f b) fun _ => True) : Builds s P (l.forM f) fun _ => True := by
  induction l with
  | nil => exact builds_pure fun _ => trivial
  | cons b l ih =>
    exact (hf b List.mem_cons_self).bind fun _ =>
      (ih fun b' hb' => hf b' (List.mem_cons_of_mem b hb')).pre And.left

end Check

variable {s : Substitution} {P : Prop}

theorem variableRule_builds {env : TypeEnv} (henv : P → env.WellFormedIn s) (x : String) :
    Builds s P (variableRule env x) fun t => t.WellFormedIn s := by
  refine Builds.emit_bind ?_ _
  split
  · next t hx => exact builds_resolve fun hP => henv hP x t hx
  · exact builds_fail

theorem referenceRule_builds {env : TypeEnv} (henv : P → env.WellFormedIn s) (e : Expr) :
    Builds s P (referenceRule env e) fun t => t.WellFormedIn s := by
  unfold referenceRule
  split
  · next x => exact (variableRule_builds henv x).bind fun t => builds_pure fun h => h.2
  · exact builds_fail

theorem functionRule_builds {env : TypeEnv} {param : Binder} {body : TypeEnv → Check Ty}
    (henv : P → env.WellFormedIn s) (hbody : ∀ {env : TypeEnv} {P : Prop},
      (P → env.WellFormedIn s) → Builds s P (body env) fun t => t.WellFormedIn s) :
    Builds s P (functionRule env param body) fun t => t.WellFormedIn s := by
  refine builds_fresh.bind fun t => ?_
  refine (hbody fun h => (henv h.1).extend param h.2).bind fun result => ?_
  refine (builds_resolve fun h => h.1.2).bind fun u => ?_
  exact builds_pure fun h => Ty.wellFormedIn_arrow_iff.mpr ⟨h.2, h.1.2⟩

theorem applicationRule_builds {site : Expr} {func arg : Ty} (hfunc : P → func.WellFormedIn s)
    (harg : P → arg.WellFormedIn s) :
    Builds s P (applicationRule site func arg) fun t => t.WellFormedIn s := by
  refine (builds_resolve hfunc).bind fun known => ?_
  split
  · next param result =>
    have hknown : P ∧ (Ty.arrow param result).WellFormedIn s →
        param.WellFormedIn s ∧ result.WellFormedIn s :=
      fun h => Ty.wellFormedIn_arrow_iff.mp h.2
    refine (builds_unifyAt (fun h => (hknown h).1) fun h => harg h.1).bind fun _ => ?_
    exact builds_resolve fun h => (hknown h.1).2
  · refine builds_fresh.bind fun result => ?_
    refine (builds_unifyAt (fun h => ?_) fun h => hfunc h.1.1).bind fun _ => ?_
    · exact Ty.wellFormedIn_arrow_iff.mpr ⟨harg h.1.1, h.2⟩
    · exact builds_resolve fun h => h.1.2
  · exact builds_fail

theorem aggregateRule_builds {site : Expr} {tag : Tag} {first second : Ty}
    (hfirst : P → first.WellFormedIn s) (hsecond : P → second.WellFormedIn s) :
    Builds s P (aggregateRule site tag first second) fun ab =>
      fieldValid tag (s.apply ab.1) = true ∧ fieldValid tag (s.apply ab.2) = true ∧
        ab.1.WellFormedIn s ∧ ab.2.WellFormedIn s := by
  refine (builds_resolve hfirst).bind fun a => ?_
  refine (builds_resolve fun h => hsecond h.1).bind fun b => ?_
  refine (builds_requireField site tag a).bind fun _ => ?_
  refine (builds_requireField site tag b).bind fun _ => builds_pure ?_
  rintro ⟨⟨⟨⟨-, ha⟩, hb⟩, hva⟩, hvb⟩
  exact ⟨hva, hvb, ha, hb⟩

/-- The two components are inferred, checked as fields and put together by `mk`. -/
theorem aggregate_builds {m₁ m₂ : Check Ty} {site : Expr} {tag : Tag} {mk : Ty → Ty → Ty}
    (hmk : ∀ a b, fieldValid tag (s.apply a) = true ∧ fieldValid tag (s.apply b) = true ∧
      a.WellFormedIn s ∧ b.WellFormedIn s → (mk a b).WellFormedIn s)
    (h₁ : Builds s P m₁ fun t => t.WellFormedIn s)
    (h₂ : Builds s P m₂ fun t => t.WellFormedIn s) :
    Builds s P (do
      let a ← m₁
      let b ← m₂
      let (a, b) ← aggregateRule site tag a b
      return mk a b) fun t => t.WellFormedIn s := by
  refine h₁.bind fun a => (h₂.pre And.left).bind fun b => ?_
  refine (aggregateRule_builds (fun h => h.1.2) fun h => h.2).bind fun ab => ?_
  exact builds_pure fun h => hmk ab.1 ab.2 h.2

theorem projectionRule_builds {site : Expr} {side : Side} {operand : Ty}
    (hoperand : P → operand.WellFormedIn s) :
    Builds s P (projectionRule site side operand) fun t => t.WellFormedIn s := by
  refine (builds_resolve hoperand).bind fun known => ?_
  split
  · next tag a b =>
    refine builds_pure fun h => ?_
    obtain ⟨ha, hb⟩ := (Ty.wellFormedIn_pair_iff.mp h.2).2.2
    cases side <;> assumption
  · next a b =>
    refine builds_pure fun h => ?_
    obtain ⟨ha, hb⟩ := (Ty.wellFormedIn_record_iff.mp h.2).2.2
    cases side <;> assumption
  · next x =>
    refine builds_fresh.bind fun result => Builds.emit_bind ?_ _
    refine (builds_recordProjection fun h => ⟨Ty.wellFormedIn_var x, h.2⟩).bind fun _ => ?_
    exact builds_pure fun h => h.1.2
  · exact builds_fail

theorem signature_wellFormedIn {op : BinaryOp} {sig : Signature} (h : op.signature? = some sig) :
    sig.left.WellFormedIn s ∧ sig.right.WellFormedIn s ∧ sig.result.WellFormedIn s := by
  cases op <;> cases h <;> simp [Ty.WellFormedIn, Ty.fields]

theorem UnaryOp.wellFormedIn_type (op : UnaryOp) : op.type.WellFormedIn s := by
  cases op <;> simp [UnaryOp.type, Ty.WellFormedIn, Ty.fields]

mutual

theorem inferVal_builds {env : TypeEnv} {P : Prop} (henv : P → env.WellFormedIn s) :
    (v : Val) → Builds s P (inferVal env v) fun t => t.WellFormedIn s
  | .lit (.int n) => builds_pure fun _ => Ty.wellFormedIn_int
  | .lit (.bool b) => builds_pure fun _ => Ty.wellFormedIn_bool
  | .lit .unit => builds_pure fun _ => Ty.wellFormedIn_unit
  | .lit (.loc l) => builds_fail
  | .closure self param body => by
    rw [inferVal]
    exact functionRule_builds henv fun h => infer_builds h body
  | .pair tag v w => by
    rw [inferVal]
    exact aggregate_builds (fun _ _ => Ty.wellFormedIn_pair_iff.mpr) (inferVal_builds henv v)
      (inferVal_builds henv w)

theorem infer_builds {env : TypeEnv} {P : Prop} (henv : P → env.WellFormedIn s) :
    (e : Expr) → Builds s P (infer env e) fun t => t.WellFormedIn s
  | .val v => by
    rw [infer]
    exact (inferVal_builds henv v).emit_bind _
  | .var x => by
    rw [infer]
    exact variableRule_builds henv x
  | .fn self param body => by
    rw [infer]
    exact (functionRule_builds henv fun h => infer_builds h body).emit_bind _
  | .app e₁ e₂ => by
    rw [infer]
    refine Builds.emit_bind ((infer_builds henv e₁).bind fun func => ?_) _
    refine ((infer_builds henv e₂).pre And.left).bind fun arg => ?_
    exact applicationRule_builds (fun h => h.1.2) fun h => h.2
  | .unop op e => by
    rw [infer]
    refine Builds.emit_bind ((infer_builds henv e).bind fun t => ?_) _
    refine (builds_unifyAt (fun _ => op.wellFormedIn_type) fun h => h.2).bind fun _ => ?_
    exact builds_pure fun _ => op.wellFormedIn_type
  | .binop op e₁ e₂ => by
    rw [infer]
    apply Builds.emit_bind
    split
    · exact builds_fail
    · next sig hsig =>
      obtain ⟨hleft, hright, hresult⟩ := signature_wellFormedIn hsig
      refine (infer_builds henv e₁).bind fun a => ?_
      refine ((infer_builds henv e₂).pre And.left).bind fun b => ?_
      refine (builds_unifyAt (fun _ => hleft) fun h => h.1.2).bind fun _ => ?_
      refine (builds_unifyAt (fun _ => hright) fun h => h.1.2).bind fun _ => ?_
      exact builds_pure fun _ => hresult
  | .ite c t f => by
    rw [infer]
    refine Builds.emit_bind ((infer_builds henv c).bind fun cond => ?_) _
    refine (builds_unifyAt (fun _ => Ty.wellFormedIn_bool) fun h => h.2).bind fun _ => ?_
    refine ((infer_builds henv t).pre fun h => h.1.1).bind fun a => ?_
    refine ((infer_builds henv f).pre fun h => h.1.1.1).bind fun b => ?_
    refine (builds_unifyAt (fun h => h.1.2) fun h => h.2).bind fun _ => ?_
    exact builds_resolve fun h => h.1.1.2
  | .pair tag e₁ e₂ => by
    rw [infer]
    exact (aggregate_builds (fun _ _ => Ty.wellFormedIn_pair_iff.mpr) (infer_builds henv e₁)
      (infer_builds henv e₂)).emit_bind _
  | .record e₁ e₂ => by
    rw [infer]
    exact (aggregate_builds (fun _ _ => Ty.wellFormedIn_record_iff.mpr) (infer_builds henv e₁)
      (infer_builds henv e₂)).emit_bind _
  | .fst e => by
    rw [infer]
    refine Builds.emit_bind ((infer_builds henv e).bind fun t => ?_) _
    exact projectionRule_builds fun h => h.2
  | .snd e => by
    rw [infer]
    refine Builds.emit_bind ((infer_builds henv e).bind fun t => ?_) _
    exact projectionRule_builds fun h => h.2
  | .ref e => by
    rw [infer]
    exact (referenceRule_builds henv e).emit_bind _
  | .alloc _ _ | .free _ | .load _ | .store _ _ => by
    rw [infer]
    exact builds_fail.emit_bind _

end

theorem settleProjection_builds {p : ProjectionPremise} {t : Ty} (hp : P → p.WellFormedIn s)
    (ht : P → t.WellFormedIn s) : Builds s P (settleProjection p t) fun _ => True := by
  unfold settleProjection
  split
  · next components hc =>
    refine builds_unifyAt (fun hP => (hp hP).2) fun hP => ?_
    obtain ⟨ha, hb⟩ := Ty.wellFormedIn_of_components? (ht hP) hc
    cases p.side <;> assumption
  · exact builds_fail

theorem settlePass_builds {P : Prop} {ps : List ProjectionPremise}
    (hps : P → ∀ p ∈ ps, p.WellFormedIn s) :
    Builds s P (settlePass ps) fun rest => ∀ p ∈ rest, p.WellFormedIn s := by
  induction ps generalizing P with
  | nil => exact builds_pure fun _ => by simp
  | cons p ps ih =>
    have hhead : P → p.WellFormedIn s := fun hP => hps hP p List.mem_cons_self
    have htail : P → ∀ q ∈ ps, q.WellFormedIn s :=
      fun hP q hq => hps hP q (List.mem_cons_of_mem p hq)
    refine (builds_resolve fun hP => (hhead hP).1).bind fun known => ?_
    split
    · refine (ih fun h => htail h.1).bind fun rest => builds_pure fun h => ?_
      exact List.forall_mem_cons.mpr ⟨hhead h.1.1, h.2⟩
    · refine (settleProjection_builds (fun h => hhead h.1) fun h => h.2).bind fun _ => ?_
      exact ih fun h => htail h.1.1

/-- The pair that the operand is taken to be has its fields demanded first. -/
theorem defaultOperand_builds {p : ProjectionPremise} (hp : P → p.WellFormedIn s) :
    Builds s P (defaultOperand p) fun _ => True := by
  refine builds_fresh.bind fun a => builds_fresh.bind fun b => ?_
  refine (builds_requireField p.site .plain a).bind fun _ => ?_
  refine (builds_requireField p.site .plain b).bind fun _ => Builds.emit_bind ?_ _
  refine builds_unifyAt ?_ fun h => (hp h.1.1.1.1).1
  rintro ⟨⟨⟨⟨-, ha⟩, hb⟩, hva⟩, hvb⟩
  exact Ty.wellFormedIn_pair_iff.mpr ⟨hva, hvb, ha, hb⟩

theorem settlePasses_builds {P : Prop} (n : Nat) {ps : List ProjectionPremise}
    (hps : P → ∀ p ∈ ps, p.WellFormedIn s) : Builds s P (settlePasses n ps) fun _ => True := by
  induction n generalizing P ps with
  | zero => cases ps <;> exact builds_pure fun _ => trivial
  | succ n ih =>
    cases ps with
    | nil => exact builds_pure fun _ => trivial
    | cons p ps =>
      refine (settlePass_builds hps).bind fun waiting => ?_
      split
      · exact builds_pure fun _ => trivial
      · next oldest others =>
        split
        · refine (defaultOperand_builds fun h => h.2 oldest List.mem_cons_self).bind fun _ => ?_
          exact ih fun h => h.1.2
        · exact ih fun h => h.2

/-- The passes run on a state from which the projections are gone, and are handed them instead. -/
theorem settleProjections_builds : Builds s P settleProjections fun _ => True := by
  intro c u c' hr hc
  obtain ⟨hc', hsat⟩ := settleProjections_guarantees c u c' hr hc
  obtain ⟨rest, hpasses⟩ := returns_settleProjections_iff.mp hr
  refine ⟨hc', fun hs => ⟨(hsat s hs).1, fun _ hwf => ?_⟩⟩
  have hpassesBuild : Builds s True (settlePasses (2 * c.projections.length) c.projections)
      fun _ => True := settlePasses_builds _ fun _ => hwf.projections
  have hforth := (hpassesBuild _ _ _ hpasses hc).2 hs
  exact hforth.2 trivial ⟨hwf.subst, by simp⟩

theorem demandField_builds (p : FieldPremise) (t : Ty) :
    Builds s P (demandField p t) fun _ => True :=
  ((demandField_guarantees p t).builds_of_keeps (keeps_demandField p t _)
    (keeps_demandField p t _)).post fun _ _ => trivial

/-- What is known of the field is only looked at; the variables in it become integers. -/
theorem settleField_builds (p : FieldPremise) : Builds s P (settleField p) fun _ => True := by
  have hresolve {P : Prop} : Builds s P (resolve p.ty) fun u => s.apply u = s.apply p.ty :=
    (guarantees_resolve p.ty).builds_of_keeps (keeps_resolve _ _) (keeps_resolve _ _)
  refine hresolve.bind fun known => ?_
  split
  · refine (builds_forM fun x _ => ?_).bind fun _ => hresolve.bind fun t => ?_
    · exact builds_unifyAt (fun _ => Ty.wellFormedIn_int) fun _ => Ty.wellFormedIn_var x
    · exact (demandField_builds p t).emit_bind _
  · exact demandField_builds p known

theorem settleFields_builds : Builds s P settleFields fun _ => True := by
  intro c u c' hr hc
  obtain ⟨hc', hsat⟩ := settleFields_guarantees c u c' hr hc
  rw [returns_settleFields_iff] at hr
  refine ⟨hc', fun hs => ⟨(hsat s hs).1, fun _ hwf => ?_⟩⟩
  have hfields : Builds s True (c.fields.forM settleField) fun _ => True :=
    builds_forM fun p _ => settleField_builds p
  have hforth := (hfields _ _ _ hr hc).2 hs
  exact hforth.2 trivial ⟨hwf.subst, hwf.projections⟩

theorem check_builds {env : TypeEnv} (henv : P → env.WellFormedIn s) (e : Expr) :
    Builds s P (check env e) fun t => t.WellFormedIn s := by
  refine (infer_builds henv e).bind fun t => settleProjections_builds.bind fun _ => ?_
  refine settleFields_builds.bind fun _ => (builds_resolve fun h => h.1.1.2).bind fun u => ?_
  exact (builds_pure fun h => h.2).emit_bind _

/-- Every aggregate in an answered type has valid fields at any depth, and below a field, down to
the next arrow, there is nothing but what suits the tag of the aggregate. -/
theorem typeOf_wellFormed {env : TypeEnv} {e : Expr} {t : Ty}
    (henv : ∀ x u, env.lookup? x = some u → u.vars = [] ∧ u.WellFormed)
    (ht : typeOf env e = .ok t) :
    t.WellFormed ∧ ∀ f ∈ t.fields, ∀ u ∈ f.2.exposed, u.suits f.1 = true := by
  have hr : (check env e).Returns {} t (check env e {}).checker := ⟨ht, rfl⟩
  generalize (check env e {}).checker = c at hr
  have henv' : env.WellFormedIn c.subst := fun x u hx => by
    obtain ⟨hvars, hu⟩ := henv x u hx
    exact (Ty.wellFormedIn_iff (by simp [hvars])).mpr hu
  have hstart : Checker.WellFormedIn c.subst {} := ⟨fun _ _ hx => (nomatch hx), by simp⟩
  obtain ⟨hc, hback⟩ := check_builds (P := True) (fun _ => henv') e _ _ _ hr
    Substitution.resolved_empty
  obtain ⟨hnof, hnop⟩ := check_leaves_none hr
  have htIn : t.WellFormedIn c.subst :=
    ((hback (satisfies_own_subst hc hnof hnop)).2 trivial hstart).2
  have hwf : t.WellFormed := by
    obtain ⟨u, -, -, -, -, -, rfl⟩ := returns_check_iff.mp hr
    exact (Ty.wellFormedIn_iff fun x hx => hc.unbound_of_mem_vars hx).mp htIn
  exact ⟨hwf, fun f hf u hu => suits_of_exposed (hwf f hf) hu⟩

/-- The fields are the projection of a parameter only then taken to be a pair, and a record from the
environment. -/
theorem typeOf_wellFormed_defaultedOperand :
    (∀ x u, (TypeEnv.ofList [("r", .record .int .bool)]).lookup? x = some u →
      u.vars = [] ∧ u.WellFormed) ∧
    typeOf (.ofList [("r", .record .int .bool)])
        (.lam "p" (.pair .plain (.fst (.var "p")) (.var "r"))) =
      .ok (.arrow (.pair .plain .int .int) (.pair .plain .int (.record .int .bool))) ∧
    (Ty.arrow (.pair .plain .int .int) (.pair .plain .int (.record .int .bool))).WellFormed ∧
    ∀ f ∈ (Ty.arrow (.pair .plain .int .int) (.pair .plain .int (.record .int .bool))).fields,
      ∀ u ∈ f.2.exposed, u.suits f.1 = true := by
  have henv : ∀ x u, (TypeEnv.ofList [("r", .record .int .bool)]).lookup? x = some u →
      u.vars = [] ∧ u.WellFormed := by
    intro x u hx
    by_cases hxr : x = "r"
    · subst hxr
      cases hx
      decide
    · simp [TypeEnv.ofList, TypeEnv.lookup?, List.lookup_cons, beq_false_of_ne hxr] at hx
  have ht : typeOf (.ofList [("r", .record .int .bool)])
      (.lam "p" (.pair .plain (.fst (.var "p")) (.var "r"))) =
        .ok (.arrow (.pair .plain .int .int) (.pair .plain .int (.record .int .bool))) := by
    cbv
  exact ⟨henv, ht, typeOf_wellFormed henv ht⟩

end CellCalculus
