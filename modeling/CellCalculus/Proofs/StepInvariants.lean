import CellCalculus.Proofs.Contractions
import CellCalculus.Proofs.CountedRuns
import CellCalculus.Proofs.ExpressionParts
import CellCalculus.Proofs.HeapCells

/-!
# What every step keeps

A framewise predicate holds of an expression in a frame when it holds of the frame and of the
expression. Such a predicate, which may speak of the number of addresses issued so far, is kept by
every step from a heap of values with the predicate (`StepInvariant.step`) as soon as each kind of
contraction keeps it and an address that was issued has it. What every step keeps, every run keeps.
-/

namespace CellCalculus

/-- Whether to hold of a framed expression is to hold of the frame and of what stands in it. The
frame is given by a value in its hole that the predicate always holds of. -/
structure Framewise (P : Expr → Prop) : Prop where
  unit : P (.val .unit)
  frame : ∀ (F : Frame) (d : Expr), P (F.fill d) ↔ P (F.fill (.val .unit)) ∧ P d

namespace Framewise

variable {P Q : Expr → Prop}

theorem hole (hP : Framewise P) (F : Frame) {d : Expr} (h : P (F.fill d)) : P d :=
  ((hP.frame F d).mp h).2

theorem fill (hP : Framewise P) (K : Context) (d : Expr) :
    P (K.fill d) ↔ P (K.fill (.val .unit)) ∧ P d := by
  induction K generalizing d with
  | nil => exact ⟨fun h => ⟨hP.unit, h⟩, fun h => h.2⟩
  | cons F K ih =>
    rw [Context.fill_cons, Context.fill_cons, ih, ih (F.fill (.val .unit)), hP.frame F d, and_assoc]

theorem redex (hP : Framewise P) {K : Context} {e r : Expr} (hd : decompose e = .redex K r)
    (he : P e) : P r := by
  rw [← fill_decompose hd, hP.fill] at he
  exact he.2

theorem and (hP : Framewise P) (hQ : Framewise Q) : Framewise fun e => P e ∧ Q e where
  unit := ⟨hP.unit, hQ.unit⟩
  frame F d := by
    rw [hP.frame F d, hQ.frame F d]
    exact and_and_and_comm

end Framewise

theorem Shallow.framewise {p : Expr → Bool} (hp : Shallow p) (hunit : p (.val .unit) = true) :
    Framewise fun e => e.everywhere p = true where
  unit := hunit
  frame F d := by
    have hval : Val.unit.everywhere p = true := hunit
    have hnode := hp.fill F d (.val .unit)
    cases F <;> rw [Frame.fill, Frame.fill] at hnode <;>
      simp only [Frame.fill, Expr.everywhere, Bool.and_eq_true, hnode, hval, and_true] <;> grind

/-- All live cells hold values with the property. -/
def Heap.All (P : Val → Prop) (h : Heap) : Prop := ∀ l v, h.cell? l = some (some v) → P v

namespace Heap.All

variable {P Q : Val → Prop} {h : Heap}

theorem mono (hh : h.All P) (hPQ : ∀ v, P v → Q v) : h.All Q := fun l v hv => hPQ v (hh l v hv)

theorem empty : Heap.empty.All P := fun l v hv => by simp [cell?, Heap.empty] at hv

theorem single {v : Val} (hv : P v) : Heap.All P ⟨#[some v]⟩ := by
  intro l w hw
  unfold cell? at hw
  generalize l.addr.toNat = i at hw
  cases i with
  | zero =>
    cases hw
    exact hv
  | succ i => cases hw

theorem extended (hh : h.All P) {init : Val} (hinit : P init) (n : Nat) :
    (h.extended n init).All P := by
  intro l v hv
  rw [cell?_extended] at hv
  split at hv
  · obtain rfl := Option.some.inj (Option.some.inj hv)
    exact hinit
  · exact hh l v hv

theorem write (hh : h.All P) {l : Loc} (hl : h.isLive l = true) {c : Option Val}
    (hc : ∀ v, c = some v → P v) : (h.write l c).All P := by
  intro k v hv
  rw [cell?_write h (wasIssued_of_isLive hl)] at hv
  split at hv
  · exact hc v (Option.some.inj hv)
  · exact hh k v hv

end Heap.All

/-- A predicate that steps keep; the number is that of the addresses issued so far. -/
structure StepInvariant (P : Nat → Expr → Prop) : Prop where
  mono : ∀ {m n e}, m ≤ n → P m e → P n e
  framewise : ∀ n, Framewise (P n)
  closure : ∀ {n self param body}, P n (.fn self param body) → P n (.val (.closure self param body))
  apply : ∀ {n self param body v}, P n (.val (.closure self param body)) → P n (.val v) →
    P n ((body.substBinder self (.closure self param body)).substBinder param v)
  unop : ∀ {n op v u}, UnaryOp.eval op v = .ok u → P n (.val u)
  binop : ∀ {n op v w u}, P n (.binop op (.val v) (.val w)) → BinaryOp.eval op v w = .ok u →
    P n (.val u)
  branches : ∀ {n c t f}, P n (.ite c t f) → P n t ∧ P n f
  reference : ∀ {n v}, P n (.ref (.val v)) → P n (.val v)
  pair : ∀ {n tag v w}, P n (.val (.pair tag v w)) ↔ P n (.val v) ∧ P n (.val w)
  address : ∀ {n} {l : Loc}, l.addr.toNat < n → P n (.val (.loc l))

namespace StepInvariant

variable {P : Nat → Expr → Prop}

theorem contracts (hP : StepInvariant P) {n : Nat} {r e : Expr} (hr : Contracts r (.expr e))
    (h : P n r) : P n e := by
  have hole := fun (F : Frame) {d : Expr} => (hP.framewise n).hole F (d := d)
  cases hr with
  | fn => exact hP.closure h
  | app => exact hP.apply (hole (.appL _) h) (hole (.appR _) h)
  | unop hu => exact hP.unop hu
  | binop hu => exact hP.binop h hu
  | thenE => exact (hP.branches h).1
  | elseE => exact (hP.branches h).2
  | pair => exact hP.pair.mpr ⟨hole (.pairL _ _) h, hole (.pairR _ _) h⟩
  | record => exact hP.pair.mpr ⟨hole (.recordL _) h, hole (.recordR _) h⟩
  | fst => exact (hP.pair.mp (hole .fst h)).1
  | snd => exact (hP.pair.mp (hole .snd h)).2
  | ref => exact hP.reference h

/-- A heap call that is answered gives a value and leaves values with the property, when it is made
with such values of a heap of such values. -/
theorem performs (hP : StepInvariant P) {r : Expr} {c : HeapCall} {v : Val} {h h' : Heap}
    (hr : Contracts r (.call c)) (hrP : P h.cells.size r)
    (hh : h.All fun v => P h.cells.size (.val v)) (hc : h.Performs c (.ok v, h')) :
    h.cells.size ≤ h'.cells.size ∧ P h'.cells.size (.val v) ∧
      h'.All fun v => P h'.cells.size (.val v) := by
  have hole := fun (F : Frame) {d : Expr} => (hP.framewise h.cells.size).hole F (d := d)
  cases hc with
  | @allocated size init hpos =>
    cases hr
    have hcount : 0 < size.toInt.toNat := by
      have hlt : 0 < size.toInt := by simpa [Int64.lt_iff_toInt_lt] using hpos
      omega
    have hle : h.cells.size ≤ (h.extended size.toInt.toNat init).cells.size := by
      rw [Heap.size_extended]
      omega
    refine ⟨hle, hP.address ?_, ?_⟩
    · have hnext : h.nextFree.addr.toNat ≤ h.cells.size := Nat.mod_le _ _
      rw [Heap.size_extended]
      omega
    · exact (hh.mono fun _ hv => hP.mono hle hv).extended (hP.mono hle (hole (.allocR _) hrP)) _
  | freed hl =>
    rw [Heap.size_write]
    exact ⟨Nat.le_refl _, (hP.framewise _).unit, hh.write hl fun _ hv => nomatch hv⟩
  | loaded hv => exact ⟨Nat.le_refl _, hh _ _ hv, hh⟩
  | stored hl =>
    cases hr
    have hw := hole (.storeR _) hrP
    rw [Heap.size_write]
    exact ⟨Nat.le_refl _, (hP.framewise _).unit, hh.write hl fun _ hv => Option.some.inj hv ▸ hw⟩

theorem step (hP : StepInvariant P) {e e' : Expr} {h h' : Heap} (he : P h.cells.size e)
    (hh : h.All fun v => P h.cells.size (.val v)) (hs : CellCalculus.step e h = (.next e', h')) :
    P h'.cells.size e' ∧ h'.All fun v => P h'.cells.size (.val v) := by
  obtain ⟨K, r, e₁, hd, hr, rfl⟩ := contracts_of_step_next hs
  rw [← fill_decompose hd, (hP.framewise _).fill] at he
  rcases contracts_of_headStep (isRedex_of_decompose hd) hr with ⟨hc, rfl⟩ | ⟨c, v, hc, hp, rfl⟩
  · exact ⟨((hP.framewise _).fill K e₁).mpr ⟨he.1, hP.contracts hc he.2⟩, hh⟩
  · obtain ⟨hle, hv, hh'⟩ := hP.performs hc he.2 hh (hp ▸ h.performs c)
    exact ⟨((hP.framewise _).fill K _).mpr ⟨hP.mono hle he.1, hv⟩, hh'⟩

end StepInvariant

theorem StepInvariant.configAfter {P : Nat → Expr → Prop} (hP : StepInvariant P) {n : Nat}
    {e e' : Expr} {h h' : Heap} (he : P h.cells.size e)
    (hh : h.All fun v => P h.cells.size (.val v))
    (hc : CellCalculus.configAfter n e h = some (e', h')) :
    P h'.cells.size e' ∧ h'.All fun v => P h'.cells.size (.val v) :=
  configAfter_keeps (J := fun e h => P h.cells.size e ∧ h.All fun v => P h.cells.size (.val v))
    (fun hJ hs => hP.step hJ.1 hJ.2 hs) ⟨he, hh⟩ hc

end CellCalculus
