import CellCalculus.Proofs.RedexSteps

/-!
# What a redex contracts to

`Contracts` lists the contractions one by one, with the values that each of them is about, and
`Refuses` the redexes that have none, so that a proof about a step is a proof about each of these. A
head step goes on where a contraction asks nothing of the heap or the heap answers its call, and it
is stuck where there is no contraction or the heap refuses.
-/

namespace CellCalculus

theorem UnaryOp.eval_ok {op : UnaryOp} {v u : Val} (h : op.eval v = .ok u) :
    (∃ n, u = .int n) ∨ ∃ b, u = .bool b := by
  unfold UnaryOp.eval at h
  split at h <;> cases h
  · exact .inr ⟨_, rfl⟩
  · exact .inl ⟨_, rfl⟩
  · exact .inl ⟨_, rfl⟩

theorem UnaryOp.exists_lit_of_eval_ok {op : UnaryOp} {v u : Val} (h : op.eval v = .ok u) :
    ∃ l, u = .lit l := by
  obtain ⟨n, rfl⟩ | ⟨b, rfl⟩ := eval_ok h <;> exact ⟨_, rfl⟩

theorem UnaryOp.eval_error {op : UnaryOp} {v : Val} {err : StuckError}
    (h : op.eval v = .error err) : err = .unaryMismatch op v := by
  unfold UnaryOp.eval at h
  split at h <;> cases h
  rfl

namespace BinaryOp

variable {op : BinaryOp} {u : Val}

theorem onInts_eq_some {a b : Int64} (h : op.onInts a b = some u) :
    (∃ n, u = .int n) ∨ ∃ c, u = .bool c := by
  cases op <;> simp only [onInts, Option.ite_none_right_eq_some, Option.some.injEq,
    reduceCtorEq] at h <;> grind

theorem onBools_eq_some {a b : Bool} (h : op.onBools a b = some u) : ∃ c, u = .bool c := by
  cases op <;> simp only [onBools, Option.some.injEq, reduceCtorEq] at h <;> exact ⟨_, h.symm⟩

theorem onLits_eq_some {a b : Lit} (h : op.onLits a b = some u) :
    (∃ n, u = .int n) ∨ (∃ c, u = .bool c) ∨ op = .offset ∧ ∃ l, u = .loc l := by
  cases a with
  | int a =>
    cases b with
    | int b => exact (onInts_eq_some h).imp_right .inl
    | bool _ | unit | loc _ => cases h
  | bool a =>
    cases b with
    | bool b => exact .inr (.inl (onBools_eq_some h))
    | int _ | unit | loc _ => cases h
  | unit =>
    cases b with
    | unit =>
      have hu := Option.ite_none_right_eq_some.mp h
      exact .inr (.inl ⟨true, (Option.some.inj hu.2).symm⟩)
    | int _ | bool _ | loc _ => cases h
  | loc l =>
    cases b with
    | loc k =>
      have hu := Option.ite_none_right_eq_some.mp h
      exact .inr (.inl ⟨_, (Option.some.inj hu.2).symm⟩)
    | int n =>
      obtain ⟨hop, hu⟩ := Option.ite_none_right_eq_some.mp h
      obtain ⟨k, -, rfl⟩ := Option.map_eq_some_iff.mp hu
      exact .inr (.inr ⟨hop, k, rfl⟩)
    | bool _ | unit => cases h

/-- The result of an operator is a number or a truth value, and otherwise a moved address. -/
theorem eval_ok {v w : Val} (h : op.eval v w = .ok u) :
    (∃ n, u = .int n) ∨ (∃ c, u = .bool c) ∨ op = .offset ∧ ∃ l, u = .loc l := by
  unfold eval at h
  split at h <;> cases h
  next hu =>
    cases v with
    | lit a =>
      cases w with
      | lit b => exact onLits_eq_some hu
      | closure _ _ _ | pair _ _ _ => cases hu
    | closure _ _ _ | pair _ _ _ => cases hu

theorem exists_lit_of_eval_ok {v w : Val} (h : op.eval v w = .ok u) : ∃ l, u = .lit l := by
  obtain ⟨n, rfl⟩ | ⟨c, rfl⟩ | ⟨-, l, rfl⟩ := eval_ok h <;> exact ⟨_, rfl⟩

theorem eval_error {v w : Val} {err : StuckError} (h : op.eval v w = .error err) :
    err = .binaryMismatch op v w := by
  unfold eval at h
  split at h <;> cases h
  rfl

end BinaryOp

/-- What each redex contracts to. -/
inductive Contracts : Expr → Contractum → Prop
  | fn {self param body} :
      Contracts (.fn self param body) (.expr (.val (.closure self param body)))
  | app {self param body v} : Contracts (.app (.val (.closure self param body)) (.val v))
      (.expr ((body.substBinder self (.closure self param body)).substBinder param v))
  | unop {op v u} : op.eval v = .ok u → Contracts (.unop op (.val v)) (.expr (.val u))
  | binop {op v w u} : op.eval v w = .ok u →
      Contracts (.binop op (.val v) (.val w)) (.expr (.val u))
  | thenE {t f} : Contracts (.ite (.val (.bool true)) t f) (.expr t)
  | elseE {t f} : Contracts (.ite (.val (.bool false)) t f) (.expr f)
  | pair {tag v w} : Contracts (.pair tag (.val v) (.val w)) (.expr (.val (.pair tag v w)))
  | record {v w} : Contracts (.record (.val v) (.val w)) (.expr (.val (.pair .plain v w)))
  | fst {tag v w} : Contracts (.fst (.val (.pair tag v w))) (.expr (.val v))
  | snd {tag v w} : Contracts (.snd (.val (.pair tag v w))) (.expr (.val w))
  | alloc {n v} : Contracts (.alloc (.val (.int n)) (.val v)) (.call (.allocate n v))
  | free {l} : Contracts (.free (.val (.loc l))) (.call (.free l))
  | load {l} : Contracts (.load (.val (.loc l))) (.call (.load l))
  | store {l v} : Contracts (.store (.val (.loc l)) (.val v)) (.call (.store l v))
  | ref {v} : Contracts (.ref (.val v)) (.expr (.val v))

/-- The ways in which a redex that has run its operands has no rule. -/
inductive Refuses : Expr → StuckError → Prop
  | var {x} : Refuses (.var x) (.freeVariable x)
  | app {func v} : (∀ self param body, func ≠ .closure self param body) →
      Refuses (.app (.val func) (.val v)) (.notAFunction func)
  | unop {op v} : op.eval v = .error (.unaryMismatch op v) →
      Refuses (.unop op (.val v)) (.unaryMismatch op v)
  | binop {op v w} : op.eval v w = .error (.binaryMismatch op v w) →
      Refuses (.binop op (.val v) (.val w)) (.binaryMismatch op v w)
  | ite {v t f} : v.toBool? = none → Refuses (.ite (.val v) t f) (.notABoolean v)
  | fst {v} : (∀ tag u w, v ≠ .pair tag u w) → Refuses (.fst (.val v)) (.notAPair v)
  | snd {v} : (∀ tag u w, v ≠ .pair tag u w) → Refuses (.snd (.val v)) (.notAPair v)
  | alloc {v w} : v.toInt? = none → Refuses (.alloc (.val v) (.val w)) (.invalidSize v)
  | free {v} : v.toLoc? = none → Refuses (.free (.val v)) (.invalidAddress v)
  | load {v} : v.toLoc? = none → Refuses (.load (.val v)) (.invalidAddress v)
  | store {v w} : v.toLoc? = none → Refuses (.store (.val v) (.val w)) (.invalidAddress v)
  | refVar {x} : Refuses (.ref (.var x)) (.freeVariable x)
  | ref {e} : e.isValue = false → (∀ x, e ≠ .var x) →
      Refuses (.ref e) (.malformedReference (.ref e))

theorem contracts_of_contract {r : Expr} {c : Contractum} (hr : r.isRedex = true)
    (hc : contract r = .ok c) : Contracts r c := by
  cases r with
  | val v => cases hr
  | var x => cases hc
  | fn self param body =>
    cases hc
    exact .fn
  | app e₁ e₂ =>
    obtain ⟨func, v, rfl, rfl⟩ := Expr.values_of_both hr
    cases func with
    | closure self param body =>
      cases hc
      exact .app
    | lit _ | pair _ _ _ => cases hc
  | unop op e =>
    obtain ⟨v, rfl⟩ := Expr.isValue_iff.mp hr
    rw [contract_unop] at hc
    cases hu : op.eval v <;> rw [hu] at hc <;> cases hc
    exact .unop hu
  | binop op e₁ e₂ =>
    obtain ⟨v, w, rfl, rfl⟩ := Expr.values_of_both hr
    rw [contract_binop] at hc
    cases hu : op.eval v w <;> rw [hu] at hc <;> cases hc
    exact .binop hu
  | ite e t f =>
    obtain ⟨v, rfl⟩ := Expr.isValue_iff.mp hr
    rcases v with (_ | (_ | _) | _ | _) | _ | _ <;> cases hc
    · exact .elseE
    · exact .thenE
  | pair tag e₁ e₂ =>
    obtain ⟨v, w, rfl, rfl⟩ := Expr.values_of_both hr
    cases hc
    exact .pair
  | record e₁ e₂ =>
    obtain ⟨v, w, rfl, rfl⟩ := Expr.values_of_both hr
    cases hc
    exact .record
  | fst e =>
    obtain ⟨v, rfl⟩ := Expr.isValue_iff.mp hr
    cases v <;> cases hc
    exact .fst
  | snd e =>
    obtain ⟨v, rfl⟩ := Expr.isValue_iff.mp hr
    cases v <;> cases hc
    exact .snd
  | alloc e₁ e₂ =>
    obtain ⟨v, w, rfl, rfl⟩ := Expr.values_of_both hr
    rcases v with (_ | _ | _ | _) | _ | _ <;> cases hc
    exact .alloc
  | free e =>
    obtain ⟨v, rfl⟩ := Expr.isValue_iff.mp hr
    rcases v with (_ | _ | _ | _) | _ | _ <;> cases hc
    exact .free
  | load e =>
    obtain ⟨v, rfl⟩ := Expr.isValue_iff.mp hr
    rcases v with (_ | _ | _ | _) | _ | _ <;> cases hc
    exact .load
  | store e₁ e₂ =>
    obtain ⟨v, w, rfl, rfl⟩ := Expr.values_of_both hr
    rcases v with (_ | _ | _ | _) | _ | _ <;> cases hc
    exact .store
  | ref e =>
    cases e <;> cases hc
    exact .ref

theorem Contracts.contract_eq {r : Expr} {c : Contractum} (hr : Contracts r c) :
    contract r = .ok c := by
  cases hr with
  | unop hu =>
    rw [contract_unop, hu]
    rfl
  | binop hu =>
    rw [contract_binop, hu]
    rfl
  | _ => rfl

theorem Contracts.isRedex {r : Expr} {c : Contractum} (hr : Contracts r c) : r.isRedex = true := by
  cases hr <;> rfl

theorem Refuses.isRedex {r : Expr} {err : StuckError} (hr : Refuses r err) : r.isRedex = true := by
  cases hr <;> rfl

theorem refuses_of_contract {r : Expr} {err : StuckError} (hr : r.isRedex = true)
    (hc : contract r = .error err) : Refuses r err := by
  cases r with
  | val v => cases hr
  | var x =>
    cases hc
    exact .var
  | fn self param body => cases hc
  | app e₁ e₂ =>
    obtain ⟨func, v, rfl, rfl⟩ := Expr.values_of_both hr
    cases func with
    | closure self param body => cases hc
    | lit _ | pair _ _ _ =>
      cases hc
      exact .app nofun
  | unop op e =>
    obtain ⟨v, rfl⟩ := Expr.isValue_iff.mp hr
    rw [contract_unop] at hc
    cases hu : op.eval v <;> rw [hu] at hc <;> cases hc
    obtain rfl := UnaryOp.eval_error hu
    exact .unop hu
  | binop op e₁ e₂ =>
    obtain ⟨v, w, rfl, rfl⟩ := Expr.values_of_both hr
    rw [contract_binop] at hc
    cases hu : op.eval v w <;> rw [hu] at hc <;> cases hc
    obtain rfl := BinaryOp.eval_error hu
    exact .binop hu
  | ite e t f =>
    obtain ⟨v, rfl⟩ := Expr.isValue_iff.mp hr
    rcases v with (_ | (_ | _) | _ | _) | _ | _ <;> cases hc <;> exact .ite rfl
  | pair tag e₁ e₂ | record e₁ e₂ =>
    obtain ⟨v, w, rfl, rfl⟩ := Expr.values_of_both hr
    cases hc
  | fst e =>
    obtain ⟨v, rfl⟩ := Expr.isValue_iff.mp hr
    cases v <;> cases hc <;> exact .fst nofun
  | snd e =>
    obtain ⟨v, rfl⟩ := Expr.isValue_iff.mp hr
    cases v <;> cases hc <;> exact .snd nofun
  | alloc e₁ e₂ =>
    obtain ⟨v, w, rfl, rfl⟩ := Expr.values_of_both hr
    rcases v with (_ | _ | _ | _) | _ | _ <;> cases hc <;> exact .alloc rfl
  | free e =>
    obtain ⟨v, rfl⟩ := Expr.isValue_iff.mp hr
    rcases v with (_ | _ | _ | _) | _ | _ <;> cases hc <;> exact .free rfl
  | load e =>
    obtain ⟨v, rfl⟩ := Expr.isValue_iff.mp hr
    rcases v with (_ | _ | _ | _) | _ | _ <;> cases hc <;> exact .load rfl
  | store e₁ e₂ =>
    obtain ⟨v, w, rfl, rfl⟩ := Expr.values_of_both hr
    rcases v with (_ | _ | _ | _) | _ | _ <;> cases hc <;> exact .store rfl
  | ref e =>
    cases e <;> cases hc
    · exact .refVar
    all_goals exact .ref rfl nofun

theorem Refuses.contract_eq {r : Expr} {err : StuckError} (hr : Refuses r err) :
    contract r = .error err := by
  cases hr with
  | @app func v hfunc =>
    rw [contract_app]
    cases func with
    | closure self param body => exact absurd rfl (hfunc self param body)
    | lit _ | pair _ _ _ => rfl
  | unop hu =>
    rw [contract_unop, hu]
    rfl
  | binop hu =>
    rw [contract_binop, hu]
    rfl
  | @fst v hv | @snd v hv =>
    cases v with
    | pair tag u w => exact absurd rfl (hv tag u w)
    | lit _ | closure _ _ _ => rfl
  | @ite v _ _ hv | @alloc v _ hv | @free v hv | @load v hv | @store v _ hv =>
    rcases v with (_ | _ | _ | _) | _ | _ <;> first | rfl | cases hv
  | @ref e he hvar =>
    cases e with
    | val v => cases he
    | var x => exact absurd rfl (hvar x)
    | _ => rfl
  | var | refVar => rfl

/-- A head step that is stuck has no rule for the redex, or the heap refuses the call it makes. -/
theorem refuses_of_headStep {r : Expr} {h h' : Heap} {err : StuckError} (hr : r.isRedex = true)
    (hs : headStep r h = (.error err, h')) : Refuses r err ∨
      ∃ c cause, Contracts r (.call c) ∧ h.perform c = (.error cause, h') ∧
        err = .ofHeapError cause := by
  unfold headStep at hs
  split at hs
  · next hc =>
    cases hs
    exact .inl (refuses_of_contract hr hc)
  · cases hs
  · next c hc =>
    split at hs <;> cases hs
    next hp => exact .inr ⟨c, _, contracts_of_contract hr hc, hp, rfl⟩

theorem refuses_of_step_stuck {e e' : Expr} {h : Heap} {err : StuckError}
    (hs : (step e h).1 = .stuck e' err) :
    ∃ K r, decompose e = .redex K r ∧ (Refuses r err ∨
      ∃ c cause, Contracts r (.call c) ∧ h.perform c = (.error cause, (step e h).2) ∧
        err = .ofHeapError cause) := by
  obtain ⟨K, r, hd, hr⟩ := contracts_of_step_stuck (Prod.ext hs rfl)
  exact ⟨K, r, hd, refuses_of_headStep (isRedex_of_decompose hd) hr⟩

/-- A head step that goes on contracts by itself, or the heap answers the call it makes. -/
theorem contracts_of_headStep {r e : Expr} {h h' : Heap} (hr : r.isRedex = true)
    (hs : headStep r h = (.ok e, h')) : (Contracts r (.expr e) ∧ h' = h) ∨
      ∃ c v, Contracts r (.call c) ∧ h.perform c = (.ok v, h') ∧ e = .val v := by
  unfold headStep at hs
  split at hs
  · cases hs
  · next hc =>
    cases hs
    exact .inl ⟨contracts_of_contract hr hc, rfl⟩
  · next c hc =>
    split at hs <;> cases hs
    next hp => exact .inr ⟨c, _, contracts_of_contract hr hc, hp, rfl⟩

end CellCalculus
