import CellCalculus.Proofs.StepInvariants
import CellCalculus.Proofs.UniqueDecomposition

/-!
# Runs in lockstep

A relation between expressions is one between values too, since values are expressions, and extends
to errors and to heaps cell by cell. It is a simulation when related expressions have related parts
in their frames and related redexes contract to related results, ask the heap for the same or fail
for related reasons. What is asked of contractions may rest on an invariant of the first run. The
runs of related configurations are then related at every step.
-/

namespace CellCalculus

/-- The same literal, two functions or two pairs: what operators and rules can tell apart. -/
inductive Val.SameShape : Val → Val → Prop
  | lit {l} : SameShape (.lit l) (.lit l)
  | closure {self self' param param' body body'} :
      SameShape (.closure self param body) (.closure self' param' body')
  | pair {tag tag' v v' w w'} : SameShape (.pair tag v w) (.pair tag' v' w')

namespace Val.SameShape

variable {v v' w w' u : Val}

theorem toBool?_eq (h : v.SameShape v') : v'.toBool? = v.toBool? := by cases h <;> rfl

theorem toInt?_eq (h : v.SameShape v') : v'.toInt? = v.toInt? := by cases h <;> rfl

theorem toLoc?_eq (h : v.SameShape v') : v'.toLoc? = v.toLoc? := by cases h <;> rfl

theorem ne_closure (h : v.SameShape v') (hv : ∀ self param body, v ≠ .closure self param body)
    (self param : Binder) (body : Expr) : v' ≠ .closure self param body := by
  cases h with
  | closure => exact absurd rfl (hv _ _ _)
  | lit | pair => exact nofun

theorem ne_pair (h : v.SameShape v') (hv : ∀ tag u w, v ≠ .pair tag u w) (tag : Tag) (u w : Val) :
    v' ≠ .pair tag u w := by
  cases h with
  | pair => exact absurd rfl (hv _ _ _)
  | lit | closure => exact nofun

theorem unop_ok (h : v.SameShape v') {op : UnaryOp} (hu : op.eval v = .ok u) :
    op.eval v' = .ok u := by
  cases h with
  | lit => exact hu
  | closure | pair => cases op <;> cases hu

theorem unop_error (h : v.SameShape v') {op : UnaryOp}
    (hu : op.eval v = .error (.unaryMismatch op v)) :
    op.eval v' = .error (.unaryMismatch op v') := by
  cases h with
  | lit => exact hu
  | closure | pair => cases op <;> rfl

theorem result?_eq (hv : v.SameShape v') (hw : w.SameShape w') (op : BinaryOp) :
    op.result? v' w' = op.result? v w := by
  cases hv <;> cases hw <;> rfl

theorem binop_ok (hv : v.SameShape v') (hw : w.SameShape w') {op : BinaryOp}
    (hu : op.eval v w = .ok u) : op.eval v' w' = .ok u := by
  rw [BinaryOp.eval] at hu ⊢
  rw [hv.result?_eq hw]
  cases hr : op.result? v w with
  | none =>
    rw [hr] at hu
    cases hu
  | some u₁ =>
    rw [hr] at hu
    exact hu

theorem binop_error (hv : v.SameShape v') (hw : w.SameShape w') {op : BinaryOp}
    (hu : op.eval v w = .error (.binaryMismatch op v w)) :
    op.eval v' w' = .error (.binaryMismatch op v' w') := by
  rw [BinaryOp.eval] at hu ⊢
  rw [hv.result?_eq hw]
  cases hr : op.result? v w with
  | none => rfl
  | some u =>
    rw [hr] at hu
    cases hu

end Val.SameShape

section Definitions

variable (R : Expr → Expr → Prop)

/-- Errors of the same kind over related contents. -/
inductive StuckError.Related : StuckError → StuckError → Prop
  | invalidAddress {v v'} : R (.val v) (.val v') → Related (.invalidAddress v) (.invalidAddress v')
  | unaryMismatch {op v v'} : R (.val v) (.val v') →
      Related (.unaryMismatch op v) (.unaryMismatch op v')
  | binaryMismatch {op v v' w w'} : R (.val v) (.val v') → R (.val w) (.val w') →
      Related (.binaryMismatch op v w) (.binaryMismatch op v' w')
  | notAFunction {v v'} : R (.val v) (.val v') → Related (.notAFunction v) (.notAFunction v')
  | notABoolean {v v'} : R (.val v) (.val v') → Related (.notABoolean v) (.notABoolean v')
  | notAPair {v v'} : R (.val v) (.val v') → Related (.notAPair v) (.notAPair v')
  | invalidSize {v v'} : R (.val v) (.val v') → Related (.invalidSize v) (.invalidSize v')
  | freeVariable {x} : Related (.freeVariable x) (.freeVariable x)
  | malformedReference {e e'} : R e e' → Related (.malformedReference e) (.malformedReference e')
  | notARedex {e e'} : R e e' → Related (.notARedex e) (.notARedex e')

inductive Step.Related : Step → Step → Prop
  | next {e e'} : R e e' → Related (.next e) (.next e')
  | value {v v'} : R (.val v) (.val v') → Related (.value v) (.value v')
  | stuck {e e' err err'} : R e e' → StuckError.Related R err err' →
      Related (.stuck e err) (.stuck e' err')

/-- Calls for the same at the same addresses, with related values. -/
inductive HeapCall.Related : HeapCall → HeapCall → Prop
  | allocate {size v v'} : R (.val v) (.val v') → Related (.allocate size v) (.allocate size v')
  | free {l} : Related (.free l) (.free l)
  | load {l} : Related (.load l) (.load l)
  | store {l v v'} : R (.val v) (.val v') → Related (.store l v) (.store l v')

/-- The same addresses issued, the same of them live, with related values in their cells. -/
def Heap.Related (h h' : Heap) : Prop := ∀ i : Nat,
  Option.Rel (Option.Rel fun v v' => R (.val v) (.val v')) h.cells[i]? h'.cells[i]?

/-- Answers of a head step: related expressions, or related errors. -/
inductive HeadRelated : Except StuckError Expr → Except StuckError Expr → Prop
  | ok {e e'} : R e e' → HeadRelated (.ok e) (.ok e')
  | error {err err'} : StuckError.Related R err err' → HeadRelated (.error err) (.error err')

/-- Related configurations whose next steps are of one kind and related. -/
structure ConfigRelated (c c' : Expr × Heap) : Prop where
  expr : R c.1 c'.1
  heap : c.2.Related R c'.2
  step : Step.Related R (step c.1 c.2).1 (step c'.1 c'.2).1
  heapAfter : (CellCalculus.step c.1 c.2).2.Related R (CellCalculus.step c'.1 c'.2).2

structure Simulation (P : Expr → Prop) : Prop where
  invariant : StepInvariant fun _ => P
  lit : ∀ l, R (.val (.lit l)) (.val (.lit l))
  value : ∀ {v e'}, R (.val v) e' → ∃ v', e' = .val v'
  frame : ∀ {F : Frame} {d e'}, R (F.fill d) e' → ∃ (F' : Frame) (d' : Expr), e' = F'.fill d' ∧
    R d d' ∧ ∀ {c c'}, R c c' → R (F.fill c) (F'.fill c')
  contracts : ∀ {r r' e}, P r → R r r' → Contracts r (.expr e) →
    ∃ e', Contracts r' (.expr e') ∧ R e e'
  call : ∀ {r r' c}, R r r' → Contracts r (.call c) →
    ∃ c', Contracts r' (.call c') ∧ HeapCall.Related R c c'
  refuses : ∀ {r r' err}, R r r' → Refuses r err →
    ∃ err', Refuses r' err' ∧ StuckError.Related R err err'

end Definitions

variable {R : Expr → Expr → Prop} {P : Expr → Prop}

theorem isSome_of_rel {α β : Type} {r : α → β → Prop} {a : Option α} {b : Option β}
    (h : Option.Rel r a b) : a.isSome = b.isSome := by
  cases h <;> rfl

namespace Heap.Related

variable {h h' : Heap} {l : Loc}

theorem size_eq (hh : h.Related R h') : h.cells.size = h'.cells.size := by
  have hlt : ∀ i, i < h.cells.size ↔ i < h'.cells.size := fun i => by
    have hsome := isSome_of_rel (hh i)
    rwa [Bool.eq_iff_iff, isSome_getElem?, isSome_getElem?] at hsome
  exact Nat.le_antisymm (Nat.le_of_not_lt fun hi => Nat.lt_irrefl _ ((hlt _).mp hi))
    (Nat.le_of_not_lt fun hi => Nat.lt_irrefl _ ((hlt _).mpr hi))

theorem nextFree_eq (hh : h.Related R h') : h.nextFree = h'.nextFree := by
  rw [nextFree, nextFree, hh.size_eq]

theorem read? (hh : h.Related R h') (l : Loc) :
    Option.Rel (fun v v' => R (.val v) (.val v')) (h.read? l) (h'.read? l) := by
  have hl := hh l.addr.toNat
  unfold Heap.read?
  generalize h.cells[l.addr.toNat]? = c at hl ⊢
  generalize h'.cells[l.addr.toNat]? = c' at hl ⊢
  cases hl with
  | none => exact .none
  | some hc => exact hc

theorem isLive_eq (hh : h.Related R h') (l : Loc) : h.isLive l = h'.isLive l :=
  isSome_of_rel (hh.read? l)

theorem write (hh : h.Related R h') {c c' : Option Val}
    (hc : Option.Rel (fun v v' => R (.val v) (.val v')) c c') :
    (h.write l c).Related R (h'.write l c') := by
  intro i
  simp only [Heap.write, Array.getElem?_setIfInBounds, hh.size_eq]
  split
  · split
    · exact .some hc
    · exact .none
  · exact hh i

theorem extended (hh : h.Related R h') {v v' : Val} (hv : R (.val v) (.val v')) (n : Nat) :
    (h.extended n v).Related R (h'.extended n v') := by
  intro i
  simp only [Heap.extended, Array.getElem?_append, Array.getElem?_replicate, hh.size_eq]
  split
  · exact hh i
  · split
    · exact .some (.some hv)
    · exact .none

end Heap.Related

/-- Related heaps answer related calls alike, or refuse them for the same reason. -/
theorem HeapCall.Related.headRelated {c c' : HeapCall} {h h' : Heap} {r r' : Expr}
    (hlit : ∀ l, R (.val (.lit l)) (.val (.lit l))) (hr : contract r = .ok (.call c))
    (hr' : contract r' = .ok (.call c')) (hc : HeapCall.Related R c c') (hh : h.Related R h') :
    HeadRelated R (headStep r h).1 (headStep r' h').1 ∧
      (headStep r h).2.Related R (headStep r' h').2 := by
  simp only [headStep, hr, hr']
  cases hc with
  | @allocate size v v' hv =>
    by_cases hsize : size ≤ 0
    · simp only [Heap.perform, Heap.allocate, if_pos hsize]
      exact ⟨.error (.invalidSize (hlit _)), hh⟩
    · simp only [Heap.perform, Heap.allocate, if_neg hsize, hh.nextFree_eq]
      exact ⟨.ok (hlit _), hh.extended hv _⟩
  | @free l =>
    by_cases hl : h'.isLive l = true
    · simp only [Heap.perform, Heap.free, hh.isLive_eq, if_pos hl]
      exact ⟨.ok (hlit _), hh.write .none⟩
    · simp only [Heap.perform, Heap.free, hh.isLive_eq, if_neg hl]
      exact ⟨.error (.invalidAddress (hlit _)), hh⟩
  | @load l =>
    have hread := hh.read? l
    simp only [Heap.perform, Heap.load]
    generalize h.read? l = c at hread ⊢
    generalize h'.read? l = c' at hread ⊢
    cases hread with
    | none => exact ⟨.error (.invalidAddress (hlit _)), hh⟩
    | some hv => exact ⟨.ok hv, hh⟩
  | @store l v v' hv =>
    by_cases hl : h'.isLive l = true
    · simp only [Heap.perform, Heap.store, hh.isLive_eq, if_pos hl]
      exact ⟨.ok (hlit _), hh.write (.some hv)⟩
    · simp only [Heap.perform, Heap.store, hh.isLive_eq, if_neg hl]
      exact ⟨.error (.invalidAddress (hlit _)), hh⟩

namespace Simulation

variable (hR : Simulation R P) {h h' : Heap}

include hR

theorem fill {K : Context} {d e' : Expr} (he : R (K.fill d) e') :
    ∃ (K' : Context) (d' : Expr), e' = K'.fill d' ∧ R d d' ∧
      ∀ {c c'}, R c c' → R (K.fill c) (K'.fill c') := by
  induction K generalizing d with
  | nil => exact ⟨[], e', rfl, he, id⟩
  | cons F K ih =>
    obtain ⟨K', e₁, rfl, he₁, hK⟩ := ih he
    obtain ⟨F', d', rfl, hd, hF⟩ := hR.frame he₁
    exact ⟨F' :: K', d', rfl, hd, fun hc => hK (hF hc)⟩

theorem headStep {r r' : Expr} (hred : r.isRedex = true) (hp : P r) (hr : R r r')
    (hh : h.Related R h') :
    r'.isRedex = true ∧ HeadRelated R (headStep r h).1 (CellCalculus.headStep r' h').1 ∧
      (CellCalculus.headStep r h).2.Related R (CellCalculus.headStep r' h').2 := by
  cases hc : contract r with
  | error err =>
    obtain ⟨err', hrefuses, herr⟩ := hR.refuses hr (refuses_of_contract hred hc)
    rw [headStep_stuck hc, headStep_stuck hrefuses.contract_eq]
    exact ⟨hrefuses.isRedex, .error herr, hh⟩
  | ok c =>
    have hcon := contracts_of_contract hred hc
    cases c with
    | expr e =>
      obtain ⟨e', hcon', he⟩ := hR.contracts hp hr hcon
      rw [headStep_expr hc, headStep_expr hcon'.contract_eq]
      exact ⟨hcon'.isRedex, .ok he, hh⟩
    | call c =>
      obtain ⟨c', hcon', hcall⟩ := hR.call hr hcon
      exact ⟨hcon'.isRedex, hcall.headRelated hR.lit hc hcon'.contract_eq hh⟩

theorem step {e e' : Expr} (hp : P e) (he : R e e') (hh : h.Related R h') :
    Step.Related R (step e h).1 (CellCalculus.step e' h').1 ∧
      (CellCalculus.step e h).2.Related R (CellCalculus.step e' h').2 := by
  cases hv : e.isValue with
  | true =>
    obtain ⟨v, rfl⟩ := Expr.isValue_iff.mp hv
    obtain ⟨v', rfl⟩ := hR.value he
    exact ⟨.value he, hh⟩
  | false =>
    have hd := decompose_of_not_isValue hv
    have hred := isRedex_of_decompose hd
    have hpr := (hR.invariant.framewise 0).redex hd hp
    rw [← fill_decompose hd] at he
    -- The other redex stands in the related context, and what is a redex is found where it stands.
    obtain ⟨K', r', rfl, hr, hK⟩ := hR.fill he
    obtain ⟨hred', hhead, hheap⟩ := hR.headStep hred hpr hr hh
    have hd' : decompose (K'.fill r') = .redex K' r' :=
      decompose_context K' (isRedex_iff_decompose.mp hred')
    simp only [CellCalculus.step, hd, hd']
    generalize CellCalculus.headStep (focus [] e).2 h = answer at hhead hheap ⊢
    generalize CellCalculus.headStep r' h' = answer' at hhead hheap ⊢
    obtain ⟨a, h₁⟩ := answer
    obtain ⟨a', h₁'⟩ := answer'
    cases hhead with
    | ok hc => exact ⟨.next (hK hc), hheap⟩
    | error herr => exact ⟨.stuck (hK hr) herr, hheap⟩

/-- The runs of related configurations get equally far and are related everywhere. -/
theorem configAfter {e e' : Expr} (hp : P e) (hpHeap : h.All fun v => P (.val v)) (he : R e e')
    (hh : h.Related R h') (n : Nat) :
    Option.Rel (ConfigRelated R) (configAfter n e h) (CellCalculus.configAfter n e' h') := by
  induction n generalizing e e' h h' with
  | zero =>
    obtain ⟨hs, hheap⟩ := hR.step hp he hh
    exact .some ⟨he, hh, hs, hheap⟩
  | succ n ih =>
    have hrelated := hR.step hp he hh
    simp only [CellCalculus.configAfter]
    rcases hs : CellCalculus.step e h with ⟨s, h₁⟩
    rcases hs' : CellCalculus.step e' h' with ⟨s', h₁'⟩
    rw [hs, hs'] at hrelated
    obtain ⟨hstep, hheap⟩ := hrelated
    cases hstep with
    | next he₁ =>
      obtain ⟨hp₁, hpHeap₁⟩ := hR.invariant.step hp hpHeap hs
      exact ih hp₁ hpHeap₁ he₁ hheap
    | value _ | stuck _ _ => exact .none

end Simulation

end CellCalculus
