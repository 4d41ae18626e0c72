import CellCalculus.Proofs.Contractions
import CellCalculus.Proofs.ExpressionParts
import CellCalculus.Proofs.HeapCells
import CellCalculus.Proofs.UniqueDecomposition

/-!
# Moving addresses

`relocate f` puts `f l` for every address `l` in anything the machine handles. The search for the
redex and the contraction itself see an address only where two are compared and where one is moved
by an offset, so with an injective `f` and no offset a relocated redex contracts to what the redex
contracts to, relocated.
-/

namespace CellCalculus

section Definitions

variable (f : Loc → Loc)

def Lit.relocate : Lit → Lit
  | .loc l => .loc (f l)
  | l => l

mutual

def Val.relocate : Val → Val
  | .lit l => .lit (l.relocate f)
  | .closure self param body => .closure self param body.relocate
  | .pair tag v w => .pair tag v.relocate w.relocate

def Expr.relocate : Expr → Expr
  | .val v => .val v.relocate
  | .var x => .var x
  | .fn self param body => .fn self param body.relocate
  | .app e₁ e₂ => .app e₁.relocate e₂.relocate
  | .unop op e => .unop op e.relocate
  | .binop op e₁ e₂ => .binop op e₁.relocate e₂.relocate
  | .ite c t e => .ite c.relocate t.relocate e.relocate
  | .pair tag e₁ e₂ => .pair tag e₁.relocate e₂.relocate
  | .record e₁ e₂ => .record e₁.relocate e₂.relocate
  | .fst e => .fst e.relocate
  | .snd e => .snd e.relocate
  | .alloc e₁ e₂ => .alloc e₁.relocate e₂.relocate
  | .free e => .free e.relocate
  | .load e => .load e.relocate
  | .store e₁ e₂ => .store e₁.relocate e₂.relocate
  | .ref e => .ref e.relocate

end

def Frame.relocate : Frame → Frame
  | .appL v => .appL (v.relocate f)
  | .appR e => .appR (e.relocate f)
  | .binopL op v => .binopL op (v.relocate f)
  | .binopR op e => .binopR op (e.relocate f)
  | .ite t e => .ite (t.relocate f) (e.relocate f)
  | .pairL tag v => .pairL tag (v.relocate f)
  | .pairR tag e => .pairR tag (e.relocate f)
  | .recordL v => .recordL (v.relocate f)
  | .recordR e => .recordR (e.relocate f)
  | .allocL v => .allocL (v.relocate f)
  | .allocR e => .allocR (e.relocate f)
  | .storeL v => .storeL (v.relocate f)
  | .storeR e => .storeR (e.relocate f)
  | F => F

def HeapCall.relocate : HeapCall → HeapCall
  | .allocate size init => .allocate size (init.relocate f)
  | .free l => .free (f l)
  | .load l => .load (f l)
  | .store l v => .store (f l) (v.relocate f)

def HeapError.relocate : HeapError → HeapError
  | .invalidAddress l => .invalidAddress (f l)
  | .nonPositiveSize n => .nonPositiveSize n

def StuckError.relocate : StuckError → StuckError
  | .invalidAddress v => .invalidAddress (v.relocate f)
  | .unaryMismatch op v => .unaryMismatch op (v.relocate f)
  | .binaryMismatch op v w => .binaryMismatch op (v.relocate f) (w.relocate f)
  | .notAFunction v => .notAFunction (v.relocate f)
  | .notABoolean v => .notABoolean (v.relocate f)
  | .notAPair v => .notAPair (v.relocate f)
  | .invalidSize v => .invalidSize (v.relocate f)
  | .freeVariable x => .freeVariable x
  | .malformedReference e => .malformedReference (e.relocate f)
  | .notARedex e => .notARedex (e.relocate f)

def Contractum.relocate : Contractum → Contractum
  | .expr e => .expr (e.relocate f)
  | .call c => .call (c.relocate f)

def Step.relocate : Step → Step
  | .next e => .next (e.relocate f)
  | .value v => .value (v.relocate f)
  | .stuck e err => .stuck (e.relocate f) (err.relocate f)

end Definitions

variable {f : Loc → Loc}

theorem StuckError.relocate_ofHeapError (err : HeapError) :
    (ofHeapError err).relocate f = ofHeapError (err.relocate f) := by
  cases err <;> rfl

namespace Expr

@[simp] theorem isValue_relocate (e : Expr) : (e.relocate f).isValue = e.isValue := by
  cases e <;> rfl

theorem relocate_subst (x : String) (v : Val) (e : Expr) :
    (e.subst x v).relocate f = (e.relocate f).subst x (v.relocate f) := by
  induction e with
  | val w => rfl
  | var y =>
    rw [subst, relocate, subst]
    split <;> rfl
  | fn self param body ih =>
    rw [subst, relocate, subst, ← ih]
    split <;> rfl
  | app _ _ ih₁ ih₂ | binop _ _ _ ih₁ ih₂ | pair _ _ _ ih₁ ih₂ | record _ _ ih₁ ih₂
  | alloc _ _ ih₁ ih₂ | store _ _ ih₁ ih₂ => rw [subst, relocate, relocate, subst, ih₁, ih₂]
  | ite _ _ _ ihc iht ihf => rw [subst, relocate, relocate, subst, ihc, iht, ihf]
  | unop _ _ ih | fst _ ih | snd _ ih | free _ ih | load _ ih | ref _ ih =>
    rw [subst, relocate, relocate, subst, ih]

theorem relocate_substBinder (b : Binder) (v : Val) (e : Expr) :
    (e.substBinder b v).relocate f = (e.relocate f).substBinder b (v.relocate f) := by
  cases b with
  | anon => rfl
  | named x => exact relocate_subst x v e

theorem isRedex_relocate (r : Expr) : (r.relocate f).isRedex = r.isRedex := by
  cases r <;> simp [relocate, isRedex]

end Expr

mutual

/-- What holds no address stays as it is. -/
theorem Val.relocate_eq_self {p : Expr → Bool} (hp : ∀ l, p (.val (.loc l)) = false) :
    (v : Val) → v.everywhere p = true → v.relocate f = v
  | .lit (.loc l), hv => absurd ((hp l).symm.trans hv) Bool.false_ne_true
  | .lit (.int _), _ | .lit (.bool _), _ | .lit .unit, _ => rfl
  | .closure _ _ body, hv => by
    rw [Val.everywhere, Bool.and_eq_true] at hv
    rw [Val.relocate, Expr.relocate_eq_self hp body hv.2]
  | .pair _ v w, hv => by
    simp only [Val.everywhere, Bool.and_eq_true] at hv
    rw [Val.relocate, Val.relocate_eq_self hp v hv.1.2, Val.relocate_eq_self hp w hv.2]

theorem Expr.relocate_eq_self {p : Expr → Bool} (hp : ∀ l, p (.val (.loc l)) = false) :
    (e : Expr) → e.everywhere p = true → e.relocate f = e
  | .val v, he => congrArg Expr.val (Val.relocate_eq_self hp v he)
  | .var _, _ => rfl
  | .app e₁ e₂, he | .binop _ e₁ e₂, he | .pair _ e₁ e₂, he | .record e₁ e₂, he
  | .alloc e₁ e₂, he | .store e₁ e₂, he => by
    simp only [Expr.everywhere, Bool.and_eq_true] at he
    rw [Expr.relocate, Expr.relocate_eq_self hp e₁ he.1.2, Expr.relocate_eq_self hp e₂ he.2]
  | .ite c t e, he => by
    simp only [Expr.everywhere, Bool.and_eq_true] at he
    rw [Expr.relocate, Expr.relocate_eq_self hp c he.1.1.2, Expr.relocate_eq_self hp t he.1.2,
      Expr.relocate_eq_self hp e he.2]
  | .fn _ _ e, he | .unop _ e, he | .fst e, he | .snd e, he | .free e, he | .load e, he
  | .ref e, he => by
    rw [Expr.everywhere, Bool.and_eq_true] at he
    rw [Expr.relocate, Expr.relocate_eq_self hp e he.2]

end

mutual

theorem Val.everywhere_relocate (p : Expr → Bool) :
    (v : Val) → (v.relocate f).everywhere p = v.everywhere fun d => p (d.relocate f)
  | .lit _ => rfl
  | .closure _ _ body => by
    rw [Val.relocate, Val.everywhere, Val.everywhere, Expr.everywhere_relocate p body]
    rfl
  | .pair _ v w => by
    rw [Val.relocate, Val.everywhere, Val.everywhere, Val.everywhere_relocate p v,
      Val.everywhere_relocate p w]
    rfl

theorem Expr.everywhere_relocate (p : Expr → Bool) :
    (e : Expr) → (e.relocate f).everywhere p = e.everywhere fun d => p (d.relocate f)
  | .val v => Val.everywhere_relocate p v
  | .var _ => rfl
  | .app e₁ e₂ | .binop _ e₁ e₂ | .pair _ e₁ e₂ | .record e₁ e₂ | .alloc e₁ e₂
  | .store e₁ e₂ => by
    rw [Expr.relocate, Expr.everywhere, Expr.everywhere, Expr.everywhere_relocate p e₁,
      Expr.everywhere_relocate p e₂]
    rfl
  | .ite c t e => by
    rw [Expr.relocate, Expr.everywhere, Expr.everywhere, Expr.everywhere_relocate p c,
      Expr.everywhere_relocate p t, Expr.everywhere_relocate p e]
    rfl
  | .fn _ _ e | .unop _ e | .fst e | .snd e | .free e | .load e | .ref e => by
    rw [Expr.relocate, Expr.everywhere, Expr.everywhere, Expr.everywhere_relocate p e]
    rfl

end

theorem Frame.relocate_fill (F : Frame) (e : Expr) :
    (F.fill e).relocate f = (F.relocate f).fill (e.relocate f) := by
  cases F <;> rfl

theorem Context.relocate_fill (K : Context) (e : Expr) :
    (K.fill e).relocate f = Context.fill (K.map (·.relocate f)) (e.relocate f) :=
  K.map_fill Frame.relocate_fill e

theorem decompose_relocate {e r : Expr} {K : Context} (hd : decompose e = .redex K r) :
    decompose (e.relocate f) = .redex (K.map (·.relocate f)) (r.relocate f) :=
  decompose_map Frame.relocate_fill hd (r.isRedex_relocate.trans (isRedex_of_decompose hd))

namespace Val

theorem toBool?_relocate (v : Val) : (v.relocate f).toBool? = v.toBool? := by
  rcases v with (_ | _ | _ | _) | _ | _ <;> rfl

theorem toInt?_relocate (v : Val) : (v.relocate f).toInt? = v.toInt? := by
  rcases v with (_ | _ | _ | _) | _ | _ <;> rfl

theorem toLoc?_relocate (v : Val) : (v.relocate f).toLoc? = v.toLoc?.map f := by
  rcases v with (_ | _ | _ | _) | _ | _ <;> rfl

theorem relocate_ne_closure {v : Val} (hv : ∀ self param body, v ≠ .closure self param body)
    (self param : Binder) (body : Expr) : v.relocate f ≠ .closure self param body := by
  cases v with
  | closure self param body => exact absurd rfl (hv self param body)
  | lit _ | pair _ _ _ => exact nofun

theorem relocate_ne_pair {v : Val} (hv : ∀ tag u w, v ≠ .pair tag u w) (tag : Tag) (u w : Val) :
    v.relocate f ≠ .pair tag u w := by
  cases v with
  | pair tag u w => exact absurd rfl (hv tag u w)
  | lit _ | closure _ _ _ => exact nofun

end Val

theorem UnaryOp.eval_relocate (op : UnaryOp) (v : Val) :
    op.eval (v.relocate f) = ((op.eval v).map (·.relocate f)).mapError (·.relocate f) := by
  cases op <;> rcases v with (_ | _ | _ | _) | _ | _ <;> rfl

namespace BinaryOp

/-- An operator looks at addresses only to compare them and gives none back, offsets apart. -/
theorem onLits_relocate (hf : f.Injective) {op : BinaryOp} (hop : op ≠ .offset) (a b : Lit) :
    op.onLits (a.relocate f) (b.relocate f) = (op.onLits a b).map (·.relocate f) := by
  have hresult : (op.onLits a b).map (·.relocate f) = op.onLits a b := by
    cases hu : op.onLits a b with
    | none => rfl
    | some u =>
      obtain ⟨n, rfl⟩ | ⟨c, rfl⟩ | ⟨hoffset, -⟩ := onLits_eq_some hu
      · rfl
      · rfl
      · exact absurd hoffset hop
  rw [hresult]
  cases a with
  | loc l =>
    cases b with
    | loc k =>
      have heq : decide (f l = f k) = decide (l = k) := decide_eq_decide.mpr hf.eq_iff
      exact congrArg (fun b => if op = .eq then some (Val.bool b) else none) heq
    | int n => exact (if_neg hop).trans (if_neg hop).symm
    | bool _ | unit => rfl
  | int _ | bool _ | unit => cases b <;> rfl

theorem eval_relocate (hf : f.Injective) {op : BinaryOp} (hop : op ≠ .offset) (v w : Val) :
    op.eval (v.relocate f) (w.relocate f) =
      ((op.eval v w).map (·.relocate f)).mapError (·.relocate f) := by
  have hresult : op.result? (v.relocate f) (w.relocate f) =
      (op.result? v w).map (·.relocate f) := by
    cases v <;> cases w <;> first | exact onLits_relocate hf hop _ _ | rfl
  rw [eval, eval, hresult]
  cases op.result? v w <;> rfl

end BinaryOp

theorem Contracts.relocate (hf : f.Injective) {r : Expr} {c : Contractum} (hr : Contracts r c)
    (hoffset : ∀ {op d₁ d₂}, r = .binop op d₁ d₂ → op ≠ .offset) :
    Contracts (r.relocate f) (c.relocate f) := by
  cases hr with
  | app =>
    rw [Contractum.relocate, Expr.relocate_substBinder, Expr.relocate_substBinder]
    exact .app
  | unop hu =>
    refine .unop ?_
    rw [UnaryOp.eval_relocate, hu]
    rfl
  | binop hu =>
    refine .binop ?_
    rw [BinaryOp.eval_relocate hf (hoffset rfl), hu]
    rfl
  | fn => exact .fn
  | thenE => exact .thenE
  | elseE => exact .elseE
  | pair => exact .pair
  | record => exact .record
  | fst => exact .fst
  | snd => exact .snd
  | alloc => exact .alloc
  | free => exact .free
  | load => exact .load
  | store => exact .store
  | ref => exact .ref

theorem Refuses.relocate (hf : f.Injective) {r : Expr} {err : StuckError} (hr : Refuses r err)
    (hoffset : ∀ {op d₁ d₂}, r = .binop op d₁ d₂ → op ≠ .offset) :
    Refuses (r.relocate f) (err.relocate f) := by
  cases hr with
  | app hfunc => exact .app (Val.relocate_ne_closure hfunc)
  | unop hu =>
    refine .unop ?_
    rw [UnaryOp.eval_relocate, hu]
    rfl
  | binop hu =>
    refine .binop ?_
    rw [BinaryOp.eval_relocate hf (hoffset rfl), hu]
    rfl
  | ite hv => exact .ite ((Val.toBool?_relocate _).trans hv)
  | fst hv => exact .fst (Val.relocate_ne_pair hv)
  | snd hv => exact .snd (Val.relocate_ne_pair hv)
  | alloc hv => exact .alloc ((Val.toInt?_relocate _).trans hv)
  | free hv => exact .free (by rw [Val.toLoc?_relocate, hv, Option.map_none])
  | load hv => exact .load (by rw [Val.toLoc?_relocate, hv, Option.map_none])
  | store hv => exact .store (by rw [Val.toLoc?_relocate, hv, Option.map_none])
  | var => exact .var
  | refVar => exact .refVar
  | @ref e he hvar =>
    refine .ref (e.isValue_relocate.trans he) ?_
    cases e with
    | var x => exact absurd rfl (hvar x)
    | _ => exact nofun

end CellCalculus
