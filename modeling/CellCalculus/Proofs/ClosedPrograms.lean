import CellCalculus.Proofs.StepInvariants

/-!
# Closed programs

An expression is closed when the functions and closures around each variable bind it. Substitution
never enters a value, so a closure in the body of a function is left as it is when the function is
applied, and what the function binds stays unbound in it. Where every value is closed by itself too,
the step from a closed configuration leads to one, and no run comes to a free variable.
-/

namespace CellCalculus

mutual

/-- Whether each variable is bound, by the scope or by a function or closure inside the value. -/
def Val.closedIn (scope : List Binder) : Val → Bool
  | .lit _ => true
  | .closure self param body => body.closedIn (self :: param :: scope)
  | .pair _ v w => v.closedIn scope && w.closedIn scope

def Expr.closedIn (scope : List Binder) : Expr → Bool
  | .val v => v.closedIn scope
  | .var x => scope.any (·.binds x)
  | .fn self param body => body.closedIn (self :: param :: scope)
  | .app e₁ e₂ | .binop _ e₁ e₂ | .pair _ e₁ e₂ | .record e₁ e₂ | .alloc e₁ e₂ | .store e₁ e₂ =>
      e₁.closedIn scope && e₂.closedIn scope
  | .ite c t f => c.closedIn scope && t.closedIn scope && f.closedIn scope
  | .unop _ e | .fst e | .snd e | .free e | .load e | .ref e => e.closedIn scope

end

def Val.closed (v : Val) : Bool := v.closedIn []

def Expr.closed (e : Expr) : Bool := e.closedIn []

/-- The parameter of the outer function has its name in the inner one, which is a closure already
when the outer one is applied. -/
def capturedParameter : Expr :=
  .app (.app (.lam "x" (.val (.closure .anon (.named "y") (.var "x")))) (.int 1)) (.int 2)

/-- That an expression and the cells are closed does not keep a run from a free variable. -/
theorem capturedParameter_freeVariable :
    capturedParameter.closed = true ∧ (Heap.empty.All fun v => v.closed = true) ∧
      configAfter 2 capturedParameter .empty =
        some (.app (.val (.closure .anon (.named "y") (.var "x"))) (.int 2), .empty) ∧
      (Expr.app (.val (.closure .anon (.named "y") (.var "x"))) (.int 2)).closed = false ∧
      configAfter 3 capturedParameter .empty = some (.var "x", .empty) ∧
      step (.var "x") .empty = (.stuck (.var "x") (.freeVariable "x"), .empty) :=
  ⟨by decide, Heap.All.empty, by decide, by decide, by decide, by decide⟩

/-- Whether a value is closed; of anything else nothing is asked. -/
def Expr.closedValue : Expr → Bool
  | .val v => v.closed
  | _ => true

/-- Whether every value inside is closed by itself, whatever functions it stands in. -/
def Expr.valuesClosed (e : Expr) : Bool := e.everywhere Expr.closedValue

/-- Closed, and so is every value inside, whatever functions it stands in. -/
def Expr.Sealed (e : Expr) : Prop := e.closed = true ∧ e.valuesClosed = true

/-- All live cells hold closed values, in which every value is closed. -/
def Heap.Sealed (h : Heap) : Prop := h.All fun v => (Expr.val v).Sealed

theorem shallow_closedValue : Shallow Expr.closedValue where
  fill F d d' := by cases F <;> rfl
  subst {d} x v hd hne := by
    cases hv : (d.subst x v).isValue with
    | true =>
      rw [Expr.isValue_subst hne] at hv
      obtain ⟨w, rfl⟩ := Expr.isValue_iff.mp hv
      exact hd
    | false => cases h : d.subst x v <;> simp_all [Expr.closedValue, Expr.isValue]

/-- What is asked everywhere of a value is asked of the value itself. -/
theorem Val.closed_of_valuesClosed {v : Val} (hv : (Expr.val v).valuesClosed = true) :
    v.closed = true := by
  cases v with
  | lit l => rfl
  | closure self param body => exact (Bool.and_eq_true_iff.mp hv).1
  | pair tag v w => exact (Bool.and_eq_true_iff.mp (Bool.and_eq_true_iff.mp hv).1).1

/-- Whether everything that the first scope binds is bound by the second one. -/
def ScopeLE (scope scope' : List Binder) : Prop :=
  ∀ x, scope.any (·.binds x) = true → scope'.any (·.binds x) = true

theorem ScopeLE.cons {scope scope' : List Binder} (h : ScopeLE scope scope') (b : Binder) :
    ScopeLE (b :: scope) (b :: scope') := by
  intro x hx
  rw [List.any_cons, Bool.or_eq_true] at hx ⊢
  exact hx.imp_right (h x)

mutual

/-- More in scope leaves less unbound. -/
theorem Val.closedIn_mono {scope scope' : List Binder} (hscope : ScopeLE scope scope') :
    (v : Val) → v.closedIn scope = true → v.closedIn scope' = true
  | .lit _, _ => rfl
  | .closure self param body, hv => Expr.closedIn_mono ((hscope.cons param).cons self) body hv
  | .pair _ v w, hv => by
    rw [Val.closedIn, Bool.and_eq_true] at hv ⊢
    exact ⟨Val.closedIn_mono hscope v hv.1, Val.closedIn_mono hscope w hv.2⟩

theorem Expr.closedIn_mono {scope scope' : List Binder} (hscope : ScopeLE scope scope') :
    (e : Expr) → e.closedIn scope = true → e.closedIn scope' = true
  | .val v, he => Val.closedIn_mono hscope v he
  | .var x, he => hscope x he
  | .fn self param body, he => Expr.closedIn_mono ((hscope.cons param).cons self) body he
  | .app e₁ e₂, he | .binop _ e₁ e₂, he | .pair _ e₁ e₂, he | .record e₁ e₂, he
  | .alloc e₁ e₂, he | .store e₁ e₂, he => by
    rw [Expr.closedIn, Bool.and_eq_true] at he ⊢
    exact ⟨Expr.closedIn_mono hscope e₁ he.1, Expr.closedIn_mono hscope e₂ he.2⟩
  | .ite c t f, he => by
    simp only [Expr.closedIn, Bool.and_eq_true] at he ⊢
    exact ⟨⟨Expr.closedIn_mono hscope c he.1.1, Expr.closedIn_mono hscope t he.1.2⟩,
      Expr.closedIn_mono hscope f he.2⟩
  | .unop _ e, he | .fst e, he | .snd e, he | .free e, he | .load e, he | .ref e, he =>
    Expr.closedIn_mono hscope e he

end

theorem Val.closedIn_of_closed {v : Val} (hv : v.closed = true) (scope : List Binder) :
    v.closedIn scope = true :=
  closedIn_mono (fun _ hx => Bool.noConfusion hx) v hv

/-- A closed value put in for `x` leaves what is open without `x` in scope. -/
theorem Expr.closedIn_subst {e : Expr} {x : String} {v : Val} {scope scope' : List Binder}
    (he : e.closedIn scope = true) (hvals : e.valuesClosed = true) (hv : v.closed = true)
    (hscope : ScopeLE scope (.named x :: scope')) : (e.subst x v).closedIn scope' = true := by
  induction e generalizing scope scope' with
  | val w =>
    -- Substitution stays outside of `w`, so it has to be closed before.
    have hw : w.closed = true := Val.closed_of_valuesClosed hvals
    exact Val.closedIn_of_closed hw scope'
  | var y =>
    have hy := hscope y he
    rw [subst]
    split
    · exact Val.closedIn_of_closed hv scope'
    · next hne => simpa [closedIn, Ne.symm hne] using hy
  | fn self param body ih =>
    have hbody : body.valuesClosed = true := hvals
    have hinner : ScopeLE (self :: param :: scope) (self :: param :: .named x :: scope') :=
      (hscope.cons param).cons self
    rw [subst]
    split
    · next hb =>
      -- Nothing is put in here, and the body needs no `x` from outside: the function binds one.
      refine closedIn_mono (fun y hy => ?_) body he
      have hy' := hinner y hy
      by_cases hyx : x = y
      · subst hyx
        rw [List.any_cons, List.any_cons, ← Bool.or_assoc, hb, Bool.true_or]
      · simp_all
    · refine ih he hbody fun y hy => ?_
      have hy' := hinner y hy
      by_cases hyx : x = y <;> simp_all
  | app _ _ ih₁ ih₂ | binop _ _ _ ih₁ ih₂ | pair _ _ _ ih₁ ih₂ | record _ _ ih₁ ih₂
  | alloc _ _ ih₁ ih₂ | store _ _ ih₁ ih₂ =>
    simp only [closedIn, valuesClosed, everywhere, closedValue, Bool.true_and,
      Bool.and_eq_true] at he hvals
    rw [subst, closedIn, ih₁ he.1 hvals.1 hscope, ih₂ he.2 hvals.2 hscope]
    rfl
  | ite _ _ _ ihc iht ihf =>
    simp only [closedIn, valuesClosed, everywhere, closedValue, Bool.true_and,
      Bool.and_eq_true] at he hvals
    rw [subst, closedIn, ihc he.1.1 hvals.1.1 hscope, iht he.1.2 hvals.1.2 hscope,
      ihf he.2 hvals.2 hscope]
    rfl
  | unop _ _ ih | fst _ ih | snd _ ih | free _ ih | load _ ih | ref _ ih =>
    exact ih he hvals hscope

theorem Expr.closedIn_substBinder {e : Expr} {b : Binder} {v : Val} {scope : List Binder}
    (he : e.closedIn (b :: scope) = true) (hvals : e.valuesClosed = true)
    (hv : v.closed = true) : (e.substBinder b v).closedIn scope = true := by
  cases b with
  | anon =>
    have hscope : ScopeLE (.anon :: scope) scope := fun _ hx => hx
    exact closedIn_mono hscope e he
  | named x => exact closedIn_subst he hvals hv fun _ hx => hx

theorem framewise_closed : Framewise fun e => e.closed = true where
  unit := rfl
  frame F d := by
    have hunit : Val.unit.closedIn [] = true := rfl
    cases F <;> simp only [Frame.fill, Expr.closed, Expr.closedIn, Bool.and_eq_true] <;> grind

theorem framewise_sealed : Framewise Expr.Sealed :=
  framewise_closed.and (shallow_closedValue.framewise rfl)

namespace Expr

theorem sealed_val_iff {v : Val} : (Expr.val v).Sealed ↔ (Expr.val v).valuesClosed = true :=
  ⟨fun h => h.2, fun h => ⟨Val.closed_of_valuesClosed h, h⟩⟩

theorem sealed_lit (l : Lit) : (Expr.val (.lit l)).Sealed := ⟨rfl, rfl⟩

theorem sealed_pairVal_iff {tag : Tag} {v w : Val} :
    (Expr.val (.pair tag v w)).Sealed ↔ (Expr.val v).Sealed ∧ (Expr.val w).Sealed := by
  simp only [sealed_val_iff]
  constructor
  · intro h
    simp only [valuesClosed, everywhere, Val.everywhere, Bool.and_eq_true] at h ⊢
    exact ⟨h.1.2, h.2⟩
  · rintro ⟨hv, hw⟩
    have hclosed : (Val.pair tag v w).closed = true :=
      Bool.and_eq_true_iff.mpr ⟨Val.closed_of_valuesClosed hv, Val.closed_of_valuesClosed hw⟩
    simp only [valuesClosed, everywhere, Val.everywhere, closedValue, hclosed] at hv hw ⊢
    rw [hv, hw]
    rfl

/-- The body of a function, with closed values for its self-name and its parameter. -/
theorem Sealed.apply {self param : Binder} {body : Expr} {v : Val}
    (hfunc : (Expr.val (.closure self param body)).Sealed) (hv : (Expr.val v).Sealed) :
    ((body.substBinder self (.closure self param body)).substBinder param v).Sealed := by
  have hbody : body.valuesClosed = true := (Bool.and_eq_true_iff.mp hfunc.2).2
  have hself : (body.substBinder self (.closure self param body)).valuesClosed = true :=
    shallow_closedValue.everywhere_substBinder hbody hfunc.2
  have hscope : (body.substBinder self (.closure self param body)).closedIn [param] = true :=
    closedIn_substBinder hfunc.1 hbody hfunc.1
  exact ⟨closedIn_substBinder hscope hself hv.1,
    shallow_closedValue.everywhere_substBinder hself hv.2⟩

end Expr

/-- That every value is closed is kept by each contraction, wherever the cells are. -/
theorem stepInvariant_sealed : StepInvariant fun _ => Expr.Sealed where
  mono _ h := h
  framewise _ := framewise_sealed
  closure {n self param body} h := by
    have hbody : body.valuesClosed = true := h.2
    have hclosed : (Val.closure self param body).closed = true := h.1
    exact Expr.sealed_val_iff.mpr (Bool.and_eq_true_iff.mpr ⟨hclosed, hbody⟩)
  apply := Expr.Sealed.apply
  unop hu := by
    obtain ⟨l, rfl⟩ := UnaryOp.exists_lit_of_eval_ok hu
    exact Expr.sealed_lit l
  binop _ hu := by
    obtain ⟨l, rfl⟩ := BinaryOp.exists_lit_of_eval_ok hu
    exact Expr.sealed_lit l
  branches {n c t f} h := by
    obtain ⟨hclosed, hvals⟩ := h
    obtain ⟨ht, hf⟩ := Expr.everywhere_branches hvals
    simp only [Expr.closed, Expr.closedIn, Bool.and_eq_true] at hclosed
    exact ⟨⟨hclosed.1.2, ht⟩, ⟨hclosed.2, hf⟩⟩
  reference h := h
  pair := Expr.sealed_pairVal_iff
  address _ := Expr.sealed_lit _

/-- Only a variable is stuck for being free, bare or in a reference. -/
theorem not_closed_of_freeVariable {r : Expr} {x : String} (hr : Refuses r (.freeVariable x)) :
    r.closed = false := by
  cases hr <;> rfl

theorem step_ne_freeVariable {e e' : Expr} (he : e.closed = true) (h : Heap) (x : String) :
    (step e h).1 ≠ .stuck e' (.freeVariable x) := by
  intro hs
  obtain ⟨K, r, hd, hr | ⟨c, cause, -, -, hcause⟩⟩ := refuses_of_step_stuck hs
  · have hclosed : r.closed = true := framewise_closed.redex hd he
    rw [not_closed_of_freeVariable hr] at hclosed
    cases hclosed
  · cases cause <;> cases hcause

/-- What the search for a redex finds has run all its operands, so a rule is there for it or some
operand is not what the rule is for. -/
theorem step_ne_notARedex (e : Expr) (h : Heap) (e' d : Expr) :
    (step e h).1 ≠ .stuck e' (.notARedex d) := by
  intro hs
  obtain ⟨K, r, hd, hr | ⟨c, cause, -, -, hcause⟩⟩ := refuses_of_step_stuck hs
  · cases hr
  · cases cause <;> cases hcause

theorem Expr.Sealed.configAfter {n : Nat} {e e' : Expr} {h h' : Heap} (he : e.Sealed)
    (hh : h.Sealed) (hc : CellCalculus.configAfter n e h = some (e', h')) :
    e'.Sealed ∧ h'.Sealed :=
  stepInvariant_sealed.configAfter he hh hc

/-- A run in which every value is closed stays so, and no step of it comes to a free variable. What
the search for a redex finds is one in any run whatsoever. -/
theorem sealed_run (e : Expr) (h : Heap) :
    (e.Sealed → h.Sealed → ∀ n e' h', configAfter n e h = some (e', h') →
      e'.Sealed ∧ h'.Sealed ∧ ∀ s x, (step e' h').1 ≠ .stuck s (.freeVariable x)) ∧
    ∀ s d, (step e h).1 ≠ .stuck s (.notARedex d) := by
  refine ⟨fun he hh n e' h' hc => ?_, step_ne_notARedex e h⟩
  obtain ⟨he', hh'⟩ := he.configAfter hh hc
  exact ⟨he', hh', fun s => step_ne_freeVariable he'.1 h'⟩

/-- A function that is stored, loaded and applied. -/
def storedIdentity : Expr :=
  .letIn "f" (.new (.lam "x" (.var "x"))) (.app (.load (.var "f")) (.int 1))

theorem storedIdentity_sealed_run :
    storedIdentity.Sealed ∧ Heap.empty.Sealed ∧
      configAfter 5 storedIdentity .empty =
        some (.app (.val (.closure .anon (.named "x") (.var "x"))) (.int 1),
          ⟨#[some (.closure .anon (.named "x") (.var "x"))]⟩) ∧
      (Expr.app (.val (.closure .anon (.named "x") (.var "x"))) (.int 1)).Sealed ∧
      Heap.Sealed ⟨#[some (.closure .anon (.named "x") (.var "x"))]⟩ := by
  have he : storedIdentity.Sealed := ⟨by decide, by decide⟩
  have hh : Heap.empty.Sealed := Heap.All.empty
  have hc : configAfter 5 storedIdentity .empty =
      some (.app (.val (.closure .anon (.named "x") (.var "x"))) (.int 1),
        ⟨#[some (.closure .anon (.named "x") (.var "x"))]⟩) := by decide
  obtain ⟨he', hh', -⟩ := (sealed_run storedIdentity .empty).1 he hh 5 _ _ hc
  exact ⟨he, hh, hc, he', hh'⟩

end CellCalculus
