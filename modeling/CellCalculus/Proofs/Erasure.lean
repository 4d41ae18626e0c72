import CellCalculus.Proofs.StepSimulation

/-!
# What a run does not look at

Erasing the tags makes every aggregate a plain pair, and erasing the references puts what they are
over in their place, in closures and in other values as well. Substitution, the frames around a
redex and the heap take no part in it. A redex that is there after the erasure contracts to the
erasure of what it contracted to before, so the step of the erased configuration is the erased step.
-/

namespace CellCalculus

/-- What is erased. -/
inductive Erasure where
  | tags
  | refs

namespace Erasure

def tag : Erasure → Tag → Tag
  | .tags, _ => .plain
  | .refs, tag => tag

def record : Erasure → Expr → Expr → Expr
  | .tags => .pair .plain
  | .refs => .record

def ref : Erasure → Expr → Expr
  | .tags, e => .ref e
  | .refs, e => e

end Erasure

section Definitions

variable (k : Erasure)

mutual

def Val.erase : Val → Val
  | .lit l => .lit l
  | .closure self param body => .closure self param body.erase
  | .pair tag v w => .pair (k.tag tag) v.erase w.erase

def Expr.erase : Expr → Expr
  | .val v => .val v.erase
  | .var x => .var x
  | .fn self param body => .fn self param body.erase
  | .app e₁ e₂ => .app e₁.erase e₂.erase
  | .unop op e => .unop op e.erase
  | .binop op e₁ e₂ => .binop op e₁.erase e₂.erase
  | .ite c t e => .ite c.erase t.erase e.erase
  | .pair tag e₁ e₂ => .pair (k.tag tag) e₁.erase e₂.erase
  | .record e₁ e₂ => k.record e₁.erase e₂.erase
  | .fst e => .fst e.erase
  | .snd e => .snd e.erase
  | .alloc e₁ e₂ => .alloc e₁.erase e₂.erase
  | .free e => .free e.erase
  | .load e => .load e.erase
  | .store e₁ e₂ => .store e₁.erase e₂.erase
  | .ref e => k.ref e.erase

end

def Frame.erase : Frame → Frame
  | .appL v => .appL (v.erase k)
  | .appR e => .appR (e.erase k)
  | .binopL op v => .binopL op (v.erase k)
  | .binopR op e => .binopR op (e.erase k)
  | .ite t e => .ite (t.erase k) (e.erase k)
  | .pairL tag v => .pairL (k.tag tag) (v.erase k)
  | .pairR tag e => .pairR (k.tag tag) (e.erase k)
  | .recordL v =>
      match k with
      | .tags => .pairL .plain (v.erase k)
      | .refs => .recordL (v.erase k)
  | .recordR e =>
      match k with
      | .tags => .pairR .plain (e.erase k)
      | .refs => .recordR (e.erase k)
  | .allocL v => .allocL (v.erase k)
  | .allocR e => .allocR (e.erase k)
  | .storeL v => .storeL (v.erase k)
  | .storeR e => .storeR (e.erase k)
  | F => F

def Heap.erase (h : Heap) : Heap := { cells := h.cells.map (Option.map (·.erase k)) }

def HeapCall.erase : HeapCall → HeapCall
  | .allocate size init => .allocate size (init.erase k)
  | .store l v => .store l (v.erase k)
  | c => c

def StuckError.erase : StuckError → StuckError
  | .invalidAddress v => .invalidAddress (v.erase k)
  | .unaryMismatch op v => .unaryMismatch op (v.erase k)
  | .binaryMismatch op v w => .binaryMismatch op (v.erase k) (w.erase k)
  | .notAFunction v => .notAFunction (v.erase k)
  | .notABoolean v => .notABoolean (v.erase k)
  | .notAPair v => .notAPair (v.erase k)
  | .invalidSize v => .invalidSize (v.erase k)
  | .freeVariable x => .freeVariable x
  | .malformedReference e => .malformedReference (e.erase k)
  | .notARedex e => .notARedex (e.erase k)

def Contractum.erase : Contractum → Contractum
  | .expr e => .expr (e.erase k)
  | .call c => .call (c.erase k)

def Step.erase : Step → Step
  | .next e => .next (e.erase k)
  | .value v => .value (v.erase k)
  | .stuck e err => .stuck (e.erase k) (err.erase k)

end Definitions

variable {k : Erasure}

theorem StuckError.erase_ofHeapError (err : HeapError) :
    (ofHeapError err).erase k = ofHeapError err := by
  cases err <;> rfl

theorem Val.sameShape_erase (v : Val) : v.SameShape (v.erase k) := by
  cases v with
  | lit l => exact .lit
  | closure self param body => exact .closure
  | pair tag v w => exact .pair

namespace Expr

theorem erase_subst (x : String) (v : Val) (e : Expr) :
    (e.subst x v).erase k = (e.erase k).subst x (v.erase k) := by
  induction e with
  | val w => rfl
  | var y =>
    rw [subst, erase, subst]
    split <;> rfl
  | fn self param body ih =>
    rw [subst, erase, subst, ← ih]
    split <;> rfl
  | app _ _ ih₁ ih₂ | binop _ _ _ ih₁ ih₂ | pair _ _ _ ih₁ ih₂ | alloc _ _ ih₁ ih₂
  | store _ _ ih₁ ih₂ => rw [subst, erase, erase, subst, ih₁, ih₂]
  | record _ _ ih₁ ih₂ =>
    rw [subst, erase, erase, ih₁, ih₂]
    cases k <;> rfl
  | ite _ _ _ ihc iht ihf => rw [subst, erase, erase, subst, ihc, iht, ihf]
  | unop _ _ ih | fst _ ih | snd _ ih | free _ ih | load _ ih => rw [subst, erase, erase, subst, ih]
  | ref _ ih =>
    rw [subst, erase, erase, ih]
    cases k <;> rfl

theorem erase_substBinder (b : Binder) (v : Val) (e : Expr) :
    (e.substBinder b v).erase k = (e.erase k).substBinder b (v.erase k) := by
  cases b with
  | anon => rfl
  | named x => exact erase_subst x v e

end Expr

theorem Frame.erase_fill (F : Frame) (e : Expr) :
    (F.fill e).erase k = (F.erase k).fill (e.erase k) := by
  cases F <;> first | rfl | cases k <;> rfl

theorem Context.erase_fill (K : Context) (e : Expr) :
    (K.fill e).erase k = Context.fill (K.map (·.erase k)) (e.erase k) :=
  K.map_fill Frame.erase_fill e

namespace Heap

theorem nextFree_erase (h : Heap) : (h.erase k).nextFree = h.nextFree := by
  simp [nextFree, erase]

theorem read?_erase (h : Heap) (l : Loc) : (h.erase k).read? l = (h.read? l).map (·.erase k) := by
  rw [read?, read?, erase, Array.getElem?_map]
  rcases h.cells[l.addr.toNat]? with _ | _ | v <;> rfl

theorem isLive_erase (h : Heap) (l : Loc) : (h.erase k).isLive l = h.isLive l := by
  rw [isLive, isLive, read?_erase, Option.isSome_map]

theorem write_erase (h : Heap) (l : Loc) (c : Option Val) :
    (h.erase k).write l (c.map (·.erase k)) = (h.write l c).erase k :=
  congrArg Heap.mk Array.map_setIfInBounds.symm

theorem extended_erase (h : Heap) (n : Nat) (init : Val) :
    (h.erase k).extended n (init.erase k) = (h.extended n init).erase k := by
  simp [extended, erase]

/-- The heap moves values without looking at them. -/
theorem perform_erase (h : Heap) (c : HeapCall) :
    (h.erase k).perform (c.erase k) =
      ((h.perform c).1.map (·.erase k), (h.perform c).2.erase k) := by
  cases c with
  | allocate size init =>
    have hext := extended_erase (k := k) h size.toInt.toNat init
    simp only [HeapCall.erase, perform, allocate, nextFree_erase]
    split
    · rfl
    · exact Prod.ext rfl hext
  | free l =>
    simp only [HeapCall.erase, perform, free, isLive_erase]
    split
    · exact Prod.ext rfl (h.write_erase l none)
    · rfl
  | load l =>
    simp only [HeapCall.erase, perform, load, read?_erase]
    cases h.read? l <;> rfl
  | store l v =>
    simp only [HeapCall.erase, perform, store, isLive_erase]
    split
    · exact Prod.ext rfl (h.write_erase l (some v))
    · rfl

end Heap

/-- Whether a redex is still there after the erasure; what goes with the references is a reference
to anything but a variable. -/
def Erasure.Keeps (k : Erasure) (r : Expr) : Prop := k = .refs → ∀ a, r = .ref a → ∃ x, a = .var x

theorem Contracts.erase {r : Expr} {c : Contractum} (hr : Contracts r c) (hk : k.Keeps r) :
    Contracts (r.erase k) (c.erase k) := by
  cases hr with
  | app =>
    rw [Contractum.erase, Expr.erase_substBinder, Expr.erase_substBinder]
    exact .app
  | @unop op v u hu =>
    obtain ⟨l, rfl⟩ := UnaryOp.exists_lit_of_eval_ok hu
    exact .unop (v.sameShape_erase.unop_ok hu)
  | @binop op v w u hu =>
    obtain ⟨l, rfl⟩ := BinaryOp.exists_lit_of_eval_ok hu
    exact .binop (v.sameShape_erase.binop_ok w.sameShape_erase hu)
  | record =>
    cases k with
    | tags => exact .pair
    | refs => exact .record
  | ref =>
    cases k with
    | tags => exact .ref
    | refs =>
      obtain ⟨x, hx⟩ := hk rfl _ rfl
      cases hx
  | fn => exact .fn
  | thenE => exact .thenE
  | elseE => exact .elseE
  | pair => exact .pair
  | fst => exact .fst
  | snd => exact .snd
  | alloc => exact .alloc
  | free => exact .free
  | load => exact .load
  | store => exact .store

theorem Refuses.erase {r : Expr} {err : StuckError} (hr : Refuses r err) (hk : k.Keeps r) :
    Refuses (r.erase k) (err.erase k) := by
  cases hr with
  | @app func _ hfunc => exact .app (func.sameShape_erase.ne_closure hfunc)
  | @unop _ v hu => exact .unop (v.sameShape_erase.unop_error hu)
  | @binop _ v w hu => exact .binop (v.sameShape_erase.binop_error w.sameShape_erase hu)
  | @ite v _ _ hv => exact .ite (v.sameShape_erase.toBool?_eq.trans hv)
  | @fst v hv => exact .fst (v.sameShape_erase.ne_pair hv)
  | @snd v hv => exact .snd (v.sameShape_erase.ne_pair hv)
  | @alloc v _ hv => exact .alloc (v.sameShape_erase.toInt?_eq.trans hv)
  | @free v hv => exact .free (v.sameShape_erase.toLoc?_eq.trans hv)
  | @load v hv => exact .load (v.sameShape_erase.toLoc?_eq.trans hv)
  | @store v _ hv => exact .store (v.sameShape_erase.toLoc?_eq.trans hv)
  | var => exact .var
  | refVar =>
    cases k with
    | tags => exact .refVar
    | refs => exact .var
  | @ref e he hvar =>
    cases k with
    | tags =>
      refine .ref ?_ ?_
      · cases e <;> first | rfl | cases he
      · cases e <;> first | exact absurd rfl (hvar _) | exact nofun
    | refs =>
      obtain ⟨x, rfl⟩ := hk rfl e rfl
      exact absurd rfl (hvar x)

theorem headStep_erase {r : Expr} (h : Heap) (hr : r.isRedex = true) (hk : k.Keeps r) :
    (r.erase k).isRedex = true ∧ headStep (r.erase k) (h.erase k) =
      (((headStep r h).1.map (·.erase k)).mapError (·.erase k), (headStep r h).2.erase k) := by
  cases hc : contract r with
  | error err =>
    have herased := (refuses_of_contract hr hc).erase hk
    rw [headStep_stuck hc, headStep_stuck herased.contract_eq]
    exact ⟨herased.isRedex, rfl⟩
  | ok c =>
    have herased := (contracts_of_contract hr hc).erase hk
    refine ⟨herased.isRedex, ?_⟩
    have hcontract := herased.contract_eq
    cases c with
    | expr e =>
      rw [headStep_expr hc, headStep_expr hcontract]
      rfl
    | call c =>
      rw [Contractum.erase] at hcontract
      simp only [headStep, hc, hcontract, Heap.perform_erase]
      rcases h.perform c with ⟨err | v, h'⟩
      · exact Prod.ext (congrArg Except.error (StuckError.erase_ofHeapError err).symm) rfl
      · rfl

theorem step_erase {e : Expr} (h : Heap) (hk : ∀ K r, decompose e = .redex K r → k.Keeps r) :
    step (e.erase k) (h.erase k) = ((step e h).1.erase k, (step e h).2.erase k) := by
  cases hv : e.isValue with
  | true =>
    obtain ⟨v, rfl⟩ := Expr.isValue_iff.mp hv
    rfl
  | false =>
    have hd := decompose_of_not_isValue hv
    obtain ⟨hredex, hhead⟩ := headStep_erase h (isRedex_of_decompose hd) (hk _ _ hd)
    simp only [step, hd, decompose_map Frame.erase_fill hd hredex, hhead]
    rcases headStep (focus [] e).2 h with ⟨err | e₁, h₁⟩
    · exact Prod.ext (congrArg (Step.stuck · _) (Context.erase_fill _ _).symm) rfl
    · exact Prod.ext (congrArg Step.next (Context.erase_fill _ _).symm) rfl

end CellCalculus
