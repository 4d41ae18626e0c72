import CellCalculus.Proofs.Contractions
import CellCalculus.Proofs.Reducibility
import CellCalculus.Proofs.SelfNameCapture

/-!
# Typing at run time

Steps do not keep the types that the checker assigns: a record becomes a plain pair, and a reference
becomes the value it refers to. They do keep the types that are left when records are read as plain
pairs and references as what they refer to. `HasRunType` is typing with these types. It takes a
closure as the closed value it is at run time, and it has functions that do not use their self-names
only. `HasRunType.step` is its preservation by one step and `HasRunType.configAfter` by a run.
-/

namespace CellCalculus

namespace Ty

/-- What is left of the type at run time. -/
def erase : Ty → Ty
  | .int => .int
  | .bool => .bool
  | .unit => .unit
  | .pair tag a b => .pair tag a.erase b.erase
  | .record a b => .pair .plain a.erase b.erase
  | .ref t => t.erase
  | .arrow a b => .arrow a.erase b.erase
  | .var x => .var x

theorem erase_of_components? {t a b : Ty} (h : t.components? = some (a, b)) :
    ∃ tag, t.erase = .pair tag a.erase b.erase := by
  rcases components?_eq_some h with ⟨tag, rfl⟩ | rfl
  · exact ⟨tag, rfl⟩
  · exact ⟨.plain, rfl⟩

end Ty

theorem fieldValid_erase {tag : Tag} {t : Ty} (h : fieldValid tag t = true) :
    fieldValid tag t.erase = true := by
  induction t with
  | int | bool | unit | arrow _ _ _ _ => rfl
  | var x => exact absurd h not_fieldValid_var
  | ref t ih => exact ih (fieldValid_ref_iff.mp h).2
  | pair inner a b iha ihb =>
    obtain ⟨htag, ha, hb⟩ := fieldValid_pair_iff.mp h
    exact fieldValid_pair_iff.mpr ⟨htag, iha ha, ihb hb⟩
  | record a b iha ihb =>
    obtain ⟨htag, ha, hb⟩ := fieldValid_record_iff.mp h
    exact fieldValid_pair_iff.mpr ⟨htag.symm, iha ha, ihb hb⟩

inductive HasRunType : TypeEnv → Expr → Ty → Prop
  | int {env n} : HasRunType env (.val (.lit (.int n))) .int
  | bool {env b} : HasRunType env (.val (.lit (.bool b))) .bool
  | unit {env} : HasRunType env (.val (.lit .unit)) .unit
  | closure {env self param body a b} : self.occursIn body = false →
      HasRunType (TypeEnv.empty.extend param a) body b →
      HasRunType env (.val (.closure self param body)) (.arrow a b)
  | pairVal {env tag v w a b} : HasRunType env (.val v) a → HasRunType env (.val w) b →
      fieldValid tag a = true → fieldValid tag b = true →
      HasRunType env (.val (.pair tag v w)) (.pair tag a b)
  | var {env x t} : env.lookup? x = some t → HasRunType env (.var x) t
  | fn {env self param body a b} : self.occursIn body = false →
      HasRunType (env.extend param a) body b → HasRunType env (.fn self param body) (.arrow a b)
  | app {env e₁ e₂ a b} : HasRunType env e₁ (.arrow a b) → HasRunType env e₂ a →
      HasRunType env (.app e₁ e₂) b
  | unop {env op e} : HasRunType env e op.type → HasRunType env (.unop op e) op.type
  | binop {env op e₁ e₂} {sig : Signature} : op.signature? = some sig →
      HasRunType env e₁ sig.left → HasRunType env e₂ sig.right →
      HasRunType env (.binop op e₁ e₂) sig.result
  | ite {env c t f a} : HasRunType env c .bool → HasRunType env t a → HasRunType env f a →
      HasRunType env (.ite c t f) a
  | pair {env tag e₁ e₂ a b} : HasRunType env e₁ a → HasRunType env e₂ b →
      fieldValid tag a = true → fieldValid tag b = true →
      HasRunType env (.pair tag e₁ e₂) (.pair tag a b)
  | record {env e₁ e₂ a b} : HasRunType env e₁ a → HasRunType env e₂ b →
      fieldValid .plain a = true → fieldValid .plain b = true →
      HasRunType env (.record e₁ e₂) (.pair .plain a b)
  | fst {env tag e a b} : HasRunType env e (.pair tag a b) → HasRunType env (.fst e) a
  | snd {env tag e a b} : HasRunType env e (.pair tag a b) → HasRunType env (.snd e) b
  | ref {env e t} : HasRunType env e t → HasRunType env (.ref e) t

theorem HasType.erase {env : TypeEnv} {e : Expr} {t : Ty} (ht : HasType env e t)
    (he : e.selfNameFree = true) : HasRunType (env.map Ty.erase) e t.erase := by
  induction ht with
  | int => exact .int
  | bool => exact .bool
  | unit => exact .unit
  | closure _ _ => cases he
  | pairVal _ _ hva hvb ihv ihw =>
    simp only [Expr.selfNameFree, Val.closureFree, Bool.and_eq_true] at he
    exact .pairVal (ihv he.1) (ihw he.2) (fieldValid_erase hva) (fieldValid_erase hvb)
  | var hx =>
    refine .var ?_
    rw [TypeEnv.lookup?_map, hx, Option.map_some]
  | fn _ ih =>
    simp only [Expr.selfNameFree, Bool.and_eq_true, Bool.not_eq_true'] at he
    have hbody := ih he.2
    rw [TypeEnv.map_extend] at hbody
    exact .fn he.1 hbody
  | app _ _ ih₁ ih₂ =>
    simp only [Expr.selfNameFree, Bool.and_eq_true] at he
    exact .app (ih₁ he.1) (ih₂ he.2)
  | @unop env op e _ ih =>
    have hop : op.type.erase = op.type := by cases op <;> rfl
    rw [hop] at ih ⊢
    exact .unop (ih he)
  | @binop env op e₁ e₂ sig hop _ _ ih₁ ih₂ =>
    simp only [Expr.selfNameFree, Bool.and_eq_true] at he
    have hsig : sig.left.erase = sig.left ∧ sig.right.erase = sig.right ∧
        sig.result.erase = sig.result := by
      cases op <;> cases hop <;> exact ⟨rfl, rfl, rfl⟩
    rw [hsig.1] at ih₁
    rw [hsig.2.1] at ih₂
    rw [hsig.2.2]
    exact .binop hop (ih₁ he.1) (ih₂ he.2)
  | ite _ _ _ ihc iht ihf =>
    simp only [Expr.selfNameFree, Bool.and_eq_true] at he
    exact .ite (ihc he.1.1) (iht he.1.2) (ihf he.2)
  | pair _ _ hva hvb ih₁ ih₂ =>
    simp only [Expr.selfNameFree, Bool.and_eq_true] at he
    exact .pair (ih₁ he.1) (ih₂ he.2) (fieldValid_erase hva) (fieldValid_erase hvb)
  | record _ _ hva hvb ih₁ ih₂ =>
    simp only [Expr.selfNameFree, Bool.and_eq_true] at he
    exact .record (ih₁ he.1) (ih₂ he.2) (fieldValid_erase hva) (fieldValid_erase hvb)
  | fst _ hparts ih =>
    obtain ⟨tag, ht⟩ := Ty.erase_of_components? hparts
    exact .fst (ht ▸ ih he)
  | snd _ hparts ih =>
    obtain ⟨tag, ht⟩ := Ty.erase_of_components? hparts
    exact .snd (ht ▸ ih he)
  | ref hx =>
    refine .ref (.var ?_)
    rw [TypeEnv.lookup?_map, hx, Option.map_some]
    rfl

namespace HasRunType

variable {env env' : TypeEnv} {e : Expr} {t : Ty}

/-- Each free variable has a value of its type put in, or keeps its type in the new environment. -/
def Closes (g : Valuation) (env env' : TypeEnv) (e : Expr) : Prop :=
  ∀ x t, e.occursFree x = true → env.lookup? x = some t →
    (∃ v, g x = some v ∧ HasRunType .empty (.val v) t) ∨ (g x = none ∧ env'.lookup? x = some t)

theorem Closes.part {g : Valuation} {e₁ : Expr} (hg : Closes g env env' e)
    (hpart : ∀ x, e₁.occursFree x = true → e.occursFree x = true) : Closes g env env' e₁ :=
  fun x t hx => hg x t (hpart x hx)

/-- Under a function the parameter keeps its type, and the self-name does not occur. -/
theorem Closes.body {g : Valuation} {self param : Binder} {body : Expr} {a : Ty}
    (hg : Closes g env env' (.fn self param body)) (hself : self.occursIn body = false) :
    Closes ((g.without self).without param) (env.extend param a) (env'.extend param a) body := by
  intro x t hx hlook
  have hselfx : self.binds x = false := Binder.not_binds_of_occursFree hself hx
  cases hparam : param.binds x with
  | true =>
    rw [TypeEnv.lookup?_extend, if_pos hparam] at hlook ⊢
    exact .inr ⟨by simp [Valuation.without, hparam], hlook⟩
  | false =>
    rw [TypeEnv.lookup?_extend_of_not_binds _ hparam] at hlook ⊢
    have hfree : (Expr.fn self param body).occursFree x = true := by
      simp [Expr.occursFree, hselfx, hparam, hx]
    simpa [Valuation.without, hselfx, hparam] using hg x t hfree hlook

/-- A value is typed by itself, whatever the environment. -/
theorem val_of_val {v : Val} (hv : HasRunType env (.val v) t) : HasRunType env' (.val v) t := by
  generalize he : Expr.val v = e at hv
  induction hv generalizing v with
  | int => exact .int
  | bool => exact .bool
  | unit => exact .unit
  | closure hself hbody _ => exact .closure hself hbody
  | pairVal _ _ hva hvb ihv ihw => exact .pairVal (ihv rfl) (ihw rfl) hva hvb
  | _ => cases he

theorem close (ht : HasRunType env e t) {g : Valuation} (hg : Closes g env env' e) :
    HasRunType env' (e.close g) t := by
  induction ht generalizing g env' with
  | int => exact .int
  | bool => exact .bool
  | unit => exact .unit
  | closure hself hbody _ => exact .closure hself hbody
  | pairVal hv hw hva hvb _ _ => exact .pairVal (val_of_val hv) (val_of_val hw) hva hvb
  | @var env x t hx =>
    rw [Expr.close]
    rcases hg x t (by simp [Expr.occursFree]) hx with ⟨v, hv, htv⟩ | ⟨hnone, hx'⟩
    · rw [hv]
      exact val_of_val htv
    · rw [hnone]
      exact .var hx'
  | fn hself _ ih => exact .fn (Binder.occursIn_close _ hself) (ih (hg.body hself))
  | app _ _ ih₁ ih₂ =>
    exact .app (ih₁ (hg.part fun x hx => by simp [Expr.occursFree, hx]))
      (ih₂ (hg.part fun x hx => by simp [Expr.occursFree, hx]))
  | unop _ ih => exact .unop (ih hg)
  | binop hop _ _ ih₁ ih₂ =>
    exact .binop hop (ih₁ (hg.part fun x hx => by simp [Expr.occursFree, hx]))
      (ih₂ (hg.part fun x hx => by simp [Expr.occursFree, hx]))
  | ite _ _ _ ihc iht ihf =>
    exact .ite (ihc (hg.part fun x hx => by simp [Expr.occursFree, hx]))
      (iht (hg.part fun x hx => by simp [Expr.occursFree, hx]))
      (ihf (hg.part fun x hx => by simp [Expr.occursFree, hx]))
  | pair _ _ hva hvb ih₁ ih₂ =>
    exact .pair (ih₁ (hg.part fun x hx => by simp [Expr.occursFree, hx]))
      (ih₂ (hg.part fun x hx => by simp [Expr.occursFree, hx])) hva hvb
  | record _ _ hva hvb ih₁ ih₂ =>
    exact .record (ih₁ (hg.part fun x hx => by simp [Expr.occursFree, hx]))
      (ih₂ (hg.part fun x hx => by simp [Expr.occursFree, hx])) hva hvb
  | fst _ ih => exact .fst (ih hg)
  | snd _ ih => exact .snd (ih hg)
  | ref _ ih => exact .ref (ih hg)

/-- The body of a closed function, with an argument of its type for the parameter. -/
theorem apply {func v : Val} {a b : Ty} {e : Expr} (hf : HasRunType .empty (.val func) (.arrow a b))
    (hv : HasRunType .empty (.val v) a) (he : func.apply v = .ok e) : HasRunType .empty e b := by
  cases hf with
  | @closure _ self param body _ _ hself hbody =>
    have happ : (Val.closure self param body).apply v =
        .ok (body.close (Valuation.empty.bind param v)) := by
      rw [← Val.apply_close v hself, Valuation.without_empty, Valuation.without_empty,
        Expr.close_empty]
    rw [he] at happ
    obtain rfl := Except.ok.inj happ
    refine hbody.close fun x t hx hlook => ?_
    cases hparam : param.binds x with
    | true =>
      rw [TypeEnv.lookup?_extend, if_pos hparam] at hlook
      cases hlook
      exact .inl ⟨v, by simp [Valuation.bind, hparam], hv⟩
    | false =>
      rw [TypeEnv.lookup?_extend_of_not_binds _ hparam] at hlook
      cases hlook

/-- Any expression of the type of the hole may stand in a frame. -/
theorem frame {F : Frame} (ht : HasRunType env (F.fill e) t) :
    ∃ u, HasRunType env e u ∧ ∀ e', HasRunType env e' u → HasRunType env (F.fill e') t := by
  cases F with
  | appL v => cases ht with | app h₁ h₂ => exact ⟨_, h₁, fun _ he => .app he h₂⟩
  | appR e₁ => cases ht with | app h₁ h₂ => exact ⟨_, h₂, fun _ he => .app h₁ he⟩
  | unop op => cases ht with | unop h => exact ⟨_, h, fun _ he => .unop he⟩
  | binopL op v => cases ht with | binop hop h₁ h₂ => exact ⟨_, h₁, fun _ he => .binop hop he h₂⟩
  | binopR op e₁ => cases ht with | binop hop h₁ h₂ => exact ⟨_, h₂, fun _ he => .binop hop h₁ he⟩
  | ite t f => cases ht with | ite hc ht hf => exact ⟨_, hc, fun _ he => .ite he ht hf⟩
  | pairL tag v =>
    cases ht with | pair h₁ h₂ hva hvb => exact ⟨_, h₁, fun _ he => .pair he h₂ hva hvb⟩
  | pairR tag e₁ =>
    cases ht with | pair h₁ h₂ hva hvb => exact ⟨_, h₂, fun _ he => .pair h₁ he hva hvb⟩
  | recordL v =>
    cases ht with | record h₁ h₂ hva hvb => exact ⟨_, h₁, fun _ he => .record he h₂ hva hvb⟩
  | recordR e₁ =>
    cases ht with | record h₁ h₂ hva hvb => exact ⟨_, h₂, fun _ he => .record h₁ he hva hvb⟩
  | fst => cases ht with | fst h => exact ⟨_, h, fun _ he => .fst he⟩
  | snd => cases ht with | snd h => exact ⟨_, h, fun _ he => .snd he⟩
  | allocL | allocR | free | load | storeL | storeR => cases ht

theorem fill {K : Context} (ht : HasRunType env (K.fill e) t) :
    ∃ u, HasRunType env e u ∧
      ∀ e', HasRunType env e' u → HasRunType env (Context.fill K e') t := by
  induction K generalizing e with
  | nil => exact ⟨t, ht, fun _ he => he⟩
  | cons F K ih =>
    obtain ⟨w, hw, houter⟩ := ih ht
    obtain ⟨u, hu, hinner⟩ := hw.frame
    exact ⟨u, hu, fun e' he => houter _ (hinner e' he)⟩

/-- On the types that operators work on, a value has the type when it is of that kind. -/
theorem val_iff_reducible {v : Val} (ht : t = .int ∨ t = .bool) :
    HasRunType env (.val v) t ↔ Reducible t v := by
  rcases ht with rfl | rfl
  · constructor
    · intro hv
      cases hv with | int => exact ⟨_, rfl⟩
    · rintro ⟨n, rfl⟩
      exact .int
  · constructor
    · intro hv
      cases hv with | bool => exact ⟨_, rfl⟩
    · rintro ⟨b, rfl⟩
      exact .bool

theorem unop_eval {op : UnaryOp} {v u : Val} (hv : HasRunType env (.val v) op.type)
    (hu : op.eval v = .ok u) : HasRunType env (.val u) op.type := by
  have hop : op.type = .int ∨ op.type = .bool := by cases op <;> simp [UnaryOp.type]
  obtain ⟨u', hu', hr⟩ := unaryOp_eval_reducible ((val_iff_reducible hop).mp hv)
  obtain rfl := Except.ok.inj (hu.symm.trans hu')
  exact (val_iff_reducible hop).mpr hr

theorem binop_eval {op : BinaryOp} {sig : Signature} {v w u : Val} (hop : op.signature? = some sig)
    (hv : HasRunType env (.val v) sig.left) (hw : HasRunType env (.val w) sig.right)
    (hu : op.eval v w = .ok u) : HasRunType env (.val u) sig.result := by
  have hsig : (sig.left = .int ∨ sig.left = .bool) ∧ (sig.right = .int ∨ sig.right = .bool) ∧
      (sig.result = .int ∨ sig.result = .bool) := by
    cases op <;> cases hop <;> simp
  rw [val_iff_reducible hsig.1] at hv
  rw [val_iff_reducible hsig.2.1] at hw
  rw [val_iff_reducible hsig.2.2]
  rcases binaryOp_eval_reducible hop hv hw with ⟨u', hu', hr⟩ | ⟨err, herr, -⟩
  · obtain rfl := Except.ok.inj (hu.symm.trans hu')
    exact hr
  · rw [hu] at herr
    cases herr

/-- A redex of a type asks nothing of the heap and contracts to an expression of the type. -/
theorem contract {r : Expr} {c : Contractum} (ht : HasRunType .empty r t) (hr : Contracts r c) :
    ∃ e, c = .expr e ∧ HasRunType .empty e t := by
  cases hr with
  | fn => cases ht with | fn hself hbody => exact ⟨_, rfl, .closure hself hbody⟩
  | app => cases ht with | app h₁ h₂ => exact ⟨_, rfl, h₁.apply h₂ rfl⟩
  | unop hu => cases ht with | unop h => exact ⟨_, rfl, h.unop_eval hu⟩
  | binop hu => cases ht with | binop hop h₁ h₂ => exact ⟨_, rfl, binop_eval hop h₁ h₂ hu⟩
  | thenE => cases ht with | ite _ ht _ => exact ⟨_, rfl, ht⟩
  | elseE => cases ht with | ite _ _ hf => exact ⟨_, rfl, hf⟩
  | pair => cases ht with | pair h₁ h₂ hva hvb => exact ⟨_, rfl, .pairVal h₁ h₂ hva hvb⟩
  | record => cases ht with | record h₁ h₂ hva hvb => exact ⟨_, rfl, .pairVal h₁ h₂ hva hvb⟩
  | fst =>
    cases ht with | fst h => cases h with | pairVal h₁ _ _ _ => exact ⟨_, rfl, h₁⟩
  | snd =>
    cases ht with | snd h => cases h with | pairVal _ h₂ _ _ => exact ⟨_, rfl, h₂⟩
  | ref => cases ht with | ref h => exact ⟨_, rfl, h⟩
  | alloc | free | load | store => cases ht

/-- A step keeps the type and leaves the heap alone. -/
theorem step {e' : Expr} {h h' : Heap} (ht : HasRunType .empty e t)
    (hs : CellCalculus.step e h = (.next e', h')) : h' = h ∧ HasRunType .empty e' t := by
  obtain ⟨K, r, e₁, hd, hhead, rfl⟩ := contracts_of_step_next hs
  rw [← fill_decompose hd] at ht
  obtain ⟨u, hr, houter⟩ := ht.fill
  rcases contracts_of_headStep (isRedex_of_decompose hd) hhead with ⟨hc, rfl⟩ | ⟨c, v, hc, -, -⟩
  · obtain ⟨e₂, heq, he₂⟩ := hr.contract hc
    cases heq
    exact ⟨rfl, houter _ he₂⟩
  · obtain ⟨e₂, heq, -⟩ := hr.contract hc
    cases heq

theorem configAfter {n : Nat} {e' : Expr} {h h' : Heap} (ht : HasRunType .empty e t)
    (hc : CellCalculus.configAfter n e h = some (e', h')) : h' = h ∧ HasRunType .empty e' t :=
  configAfter_keeps (J := fun d k => k = h ∧ HasRunType .empty d t)
    (fun hJ hs => ⟨(hJ.2.step hs).1.trans hJ.1, (hJ.2.step hs).2⟩) ⟨rfl, ht⟩ hc

end HasRunType

end CellCalculus
