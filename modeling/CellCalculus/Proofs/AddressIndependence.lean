import CellCalculus.Proofs.HeapBeside
import CellCalculus.Proofs.StepInvariants

/-!
# Runs do not depend on where their cells are

A program that contains no address and computes none knows the addresses of the cells it allocated
and no others. Its run beside the cells of another heap is its run from the empty heap with all
addresses moved, the other cells stay as they are, and an address is invalid only once the run
itself has freed its cell.
-/

namespace CellCalculus

/-- Whether an expression that is an address is one from `lo` up to `hi`; offsets are excluded. -/
def Expr.addressWithin (lo hi : Nat) : Expr → Bool
  | .val (.lit (.loc l)) => decide (lo ≤ l.addr.toNat ∧ l.addr.toNat < hi)
  | .binop op _ _ => decide (op ≠ .offset)
  | _ => true

/-- Whether all addresses inside are among those from `lo` up to `hi`, and no offset is inside. -/
def Expr.addressesWithin (lo hi : Nat) (e : Expr) : Bool := e.everywhere (Expr.addressWithin lo hi)

/-- Whether an expression is neither an address nor an offset. -/
def Expr.notAddress : Expr → Bool
  | .val (.lit (.loc _)) => false
  | .binop op _ _ => decide (op ≠ .offset)
  | _ => true

/-- Whether there is neither an address nor an offset inside, closures and other values included. -/
def Expr.addressFree (e : Expr) : Bool := e.everywhere Expr.notAddress

theorem Expr.addressesWithin_of_addressFree {e : Expr} (he : e.addressFree = true) (lo hi : Nat) :
    e.addressesWithin lo hi = true := by
  refine Expr.everywhere_mono (fun d hd => ?_) e he
  unfold notAddress at hd
  split at hd
  · cases hd
  · exact hd
  · unfold addressWithin
    split <;> simp_all

theorem shallow_addressWithin (lo hi : Nat) : Shallow (Expr.addressWithin lo hi) where
  fill F d d' := by cases F <;> rfl
  subst {d} x v hd hne := by
    cases d with
    | var y =>
      rw [Expr.subst]
      split
      · next hyx => exact absurd (congrArg Expr.var hyx) hne
      · exact hd
    | fn self param body =>
      rw [Expr.subst]
      split <;> rfl
    | val _ | binop _ _ _ => exact hd
    | _ => rfl

/-- Without offsets, a step finds no address that was not issued. -/
theorem stepInvariant_addressesWithin :
    StepInvariant fun n e => e.addressesWithin 0 n = true where
  mono {m n e} hmn he := by
    refine Expr.everywhere_mono (fun d hd => ?_) e he
    unfold Expr.addressWithin at hd ⊢
    split at hd <;> simp_all
    omega
  framewise n := (shallow_addressWithin 0 n).framewise rfl
  closure h := h
  apply {n _ _ _ _} hfunc hv := (shallow_addressWithin 0 n).everywhere_apply hfunc hv
  unop hu := by
    obtain ⟨n, rfl⟩ | ⟨b, rfl⟩ := UnaryOp.eval_ok hu <;> rfl
  binop h hu := by
    obtain ⟨n, rfl⟩ | ⟨b, rfl⟩ | ⟨rfl, -⟩ := BinaryOp.eval_ok hu
    · rfl
    · rfl
    · cases h
  branches h := Expr.everywhere_branches h
  reference h := h
  pair := by simp [Expr.addressesWithin, Expr.everywhere, Val.everywhere, Expr.addressWithin]
  address hl := decide_eq_true ⟨Nat.zero_le _, hl⟩

theorem Contracts.within_of_loc? {r : Expr} {c : HeapCall} {l : Loc} {lo hi : Nat}
    (hr : Contracts r (.call c)) (hl : c.loc? = some l) (h : r.addressesWithin lo hi = true) :
    lo ≤ l.addr.toNat ∧ l.addr.toNat < hi := by
  cases hr with
  | alloc => cases hl
  | free | load =>
    cases hl
    exact of_decide_eq_true h
  | store =>
    cases hl
    exact of_decide_eq_true (Bool.and_eq_true_iff.mp h).1

section Lockstep

variable {base h : Heap}

theorem headStep_beside {r : Expr} (hroom : base.issuedCount + h.issuedCount ≤ UInt64.size)
    (hr : r.isRedex = true) (haddr : r.addressesWithin 0 h.issuedCount = true) :
    headStep (r.relocate (.shift base.issuedCount)) (base.beside h) =
      (((headStep r h).1.map (·.relocate (.shift base.issuedCount))).mapError
        (·.relocate (.shift base.issuedCount)), base.beside (headStep r h).2) := by
  have hf := Loc.shift_injective base.issuedCount
  -- An offset checks its result against the end of the address space, which does not move along.
  have hoffset : ∀ {op d₁ d₂}, r = .binop op d₁ d₂ → op ≠ .offset := by
    rintro op d₁ d₂ rfl rfl
    cases haddr
  cases hc : contract r with
  | error err =>
    have hrel := ((refuses_of_contract hr hc).relocate hf hoffset).contract_eq
    rw [headStep_stuck hc, headStep_stuck hrel]
    rfl
  | ok c =>
    have hcon := contracts_of_contract hr hc
    have hrel := (hcon.relocate hf hoffset).contract_eq
    cases c with
    | expr e =>
      rw [headStep_expr hc, headStep_expr hrel]
      rfl
    | call c =>
      have hp := Heap.perform_beside hroom fun l hl => (hcon.within_of_loc? hl haddr).2
      rw [Contractum.relocate] at hrel
      simp only [headStep, hc, hrel, hp]
      rcases h.perform c with ⟨err | v, h'⟩
      · exact Prod.ext (congrArg Except.error (StuckError.relocate_ofHeapError err).symm) rfl
      · rfl

theorem step_beside {e : Expr} (hroom : base.issuedCount + h.issuedCount ≤ UInt64.size)
    (haddr : e.addressesWithin 0 h.issuedCount = true) :
    step (e.relocate (.shift base.issuedCount)) (base.beside h) =
      ((step e h).1.relocate (.shift base.issuedCount), base.beside (step e h).2) := by
  cases hv : e.isValue with
  | true =>
    obtain ⟨v, rfl⟩ := Expr.isValue_iff.mp hv
    rfl
  | false =>
    have hd := decompose_of_not_isValue hv
    have hr := isRedex_of_decompose hd
    have hredex : (focus [] e).2.addressesWithin 0 h.issuedCount = true :=
      (stepInvariant_addressesWithin.framewise _).redex hd haddr
    simp only [step, hd, decompose_relocate hd, headStep_beside hroom hr hredex]
    rcases headStep (focus [] e).2 h with ⟨err | e₁, h₁⟩
    · exact Prod.ext (congrArg (Step.stuck · _) (Context.relocate_fill _ _).symm) rfl
    · exact Prod.ext (congrArg Step.next (Context.relocate_fill _ _).symm) rfl

theorem configAfter_beside (base : Heap) {n : Nat} {e : Expr}
    (haddr : e.addressesWithin 0 h.issuedCount = true)
    (hh : h.All fun v => (Expr.val v).addressesWithin 0 h.issuedCount = true)
    (hroom : ∀ m ≤ n, ∀ e' h', configAfter m (e.relocate (.shift base.issuedCount))
      (base.beside h) = some (e', h') → h'.issuedCount < UInt64.size) :
    configAfter n (e.relocate (.shift base.issuedCount)) (base.beside h) =
      (configAfter n e h).map fun c =>
        (c.1.relocate (.shift base.issuedCount), base.beside c.2) := by
  induction n generalizing e h with
  | zero => rfl
  | succ n ih =>
    -- Room at the start of the step is enough: what it allocates starts where the heap ends.
    have hcount := hroom 0 (Nat.zero_le _) _ _ rfl
    rw [Heap.issuedCount_beside] at hcount
    have hstep := step_beside (Nat.le_of_lt hcount) haddr
    rcases hs : step e h with ⟨e₁ | v | ⟨e₁, err⟩, h₁⟩ <;> rw [hs] at hstep
    · obtain ⟨haddr₁, hh₁⟩ := stepInvariant_addressesWithin.step haddr hh hs
      rw [configAfter_succ_of_step n hs, configAfter_succ_of_step n hstep]
      refine ih haddr₁ hh₁ fun m hm e' h' hc => hroom (m + 1) (Nat.succ_le_succ hm) e' h' ?_
      rw [configAfter_succ_of_step m hstep, hc]
    · simp only [configAfter, hs, hstep, Step.relocate, Option.map_none]
    · simp only [configAfter, hs, hstep, Step.relocate, Option.map_none]

end Lockstep

/-- A step empties no cell but the one it frees. -/
theorem freed_of_step {e e' : Expr} {h h' : Heap} {l : Loc} (hs : step e h = (.next e', h'))
    (hbefore : h.cell? l ≠ some none) (hafter : h'.cell? l = some none) :
    h.isLive l = true ∧ ∃ K : Context, K.fill (.free (.val (.loc l))) = e := by
  obtain ⟨K, r, e₁, hd, hr, rfl⟩ := contracts_of_step_next hs
  have hfill := fill_decompose hd
  rcases contracts_of_headStep (isRedex_of_decompose hd) hr with ⟨-, rfl⟩ | ⟨c, v, hc, hp, rfl⟩
  · exact absurd hafter hbefore
  · have hperforms : h.Performs c (.ok v, h') := hp ▸ h.performs c
    cases hperforms with
    | allocated hpos =>
      rw [Heap.cell?_extended] at hafter
      split at hafter
      · cases hafter
      · exact absurd hafter hbefore
    | @freed k hk =>
      rw [Heap.cell?_write h (Heap.wasIssued_of_isLive hk)] at hafter
      split at hafter
      · next hkl =>
        subst hkl
        cases hc
        exact ⟨hk, K, hfill⟩
      · exact absurd hafter hbefore
    | loaded hv => exact absurd hafter hbefore
    | @stored k w hk =>
      rw [Heap.cell?_write h (Heap.wasIssued_of_isLive hk)] at hafter
      split at hafter
      · cases hafter
      · exact absurd hafter hbefore

/-- A run empties no cell but those it frees. -/
theorem freed_of_configAfter {n : Nat} {e e' : Expr} {h h' : Heap} {l : Loc}
    (hc : configAfter n e h = some (e', h')) (hbefore : h.cell? l ≠ some none)
    (hafter : h'.cell? l = some none) :
    ∃ m < n, ∃ (K : Context) (h₁ : Heap),
      configAfter m e h = some (K.fill (.free (.val (.loc l))), h₁) ∧ h₁.isLive l = true := by
  induction n generalizing e h with
  | zero =>
    cases hc
    exact absurd hafter hbefore
  | succ n ih =>
    obtain ⟨e₁, h₁, hs, hrest⟩ := configAfter_succ hc
    by_cases hnow : h₁.cell? l = some none
    · obtain ⟨hl, K, rfl⟩ := freed_of_step hs hbefore hnow
      exact ⟨0, Nat.succ_pos n, K, h, rfl, hl⟩
    · obtain ⟨m, hm, K, h₂, hc₂, hl⟩ := ih hrest hnow
      exact ⟨m + 1, Nat.succ_lt_succ hm, K, h₂, (configAfter_succ_of_step m hs).trans hc₂, hl⟩

theorem Heap.perform_invalidAddress {h h' : Heap} {c : HeapCall} {l : Loc}
    (hp : h.perform c = (.error (.invalidAddress l), h')) :
    c.loc? = some l ∧ h.isLive l = false := by
  cases c with
  | allocate size init =>
    rw [perform, allocate] at hp
    split at hp <;> cases hp
  | free k | store k v =>
    simp only [perform, free, store] at hp
    split at hp <;> cases hp
    next hl => exact ⟨rfl, Bool.eq_false_iff.mpr hl⟩
  | load k =>
    simp only [perform, load] at hp
    split at hp <;> cases hp
    next hl => exact ⟨rfl, by rw [isLive, hl]; rfl⟩

/-- The address that a step is stuck at is one inside the expression, and its cell is not live. -/
theorem within_of_invalidAddress {e e' : Expr} {h : Heap} {l : Loc} {lo hi : Nat}
    (hs : (step e h).1 = .stuck e' (.invalidAddress (.loc l)))
    (haddr : e.addressesWithin lo hi = true) :
    lo ≤ l.addr.toNat ∧ l.addr.toNat < hi ∧ h.isLive l = false := by
  obtain ⟨K, r, hd, hr | ⟨c, cause, hc, hp, hcause⟩⟩ := refuses_of_step_stuck hs
  · cases hr with
    | free hv | load hv | store hv => cases hv
  · cases cause with
    | invalidAddress k =>
      have hredex : r.addressesWithin lo hi = true :=
        ((shallow_addressWithin lo hi).framewise rfl).redex hd haddr
      obtain ⟨hk, hdead⟩ := Heap.perform_invalidAddress hp
      cases hcause
      exact ⟨(hc.within_of_loc? hk hredex).1, (hc.within_of_loc? hk hredex).2, hdead⟩
    | nonPositiveSize n => cases hcause

theorem Expr.addressesWithin_shift {e : Expr} {k n : Nat} (hroom : k + n ≤ UInt64.size)
    (he : e.addressesWithin 0 n = true) :
    (e.relocate (.shift k)).addressesWithin k (k + n) = true := by
  rw [addressesWithin, Expr.everywhere_relocate]
  refine Expr.everywhere_mono (fun d hd => ?_) e he
  unfold addressWithin at hd
  split at hd
  · next l =>
    have hl := of_decide_eq_true hd
    have hshift : (l.shift k).addr.toNat = l.addr.toNat + k := Loc.toNat_shift (by omega)
    refine decide_eq_true ?_
    rw [hshift]
    omega
  · exact hd
  · next hloc hop =>
    cases d with
    | val v => cases v with
      | lit l => cases l with
        | loc l => exact absurd rfl (hloc l)
        | _ => rfl
      | _ => rfl
    | _ => first | rfl | exact absurd rfl (hop _ _ _)

/-- What lies within the addresses issued in a heap lies, beside another one, past those of that
heap and within all that are issued then. -/
theorem issued_beside {base h : Heap} {e : Expr}
    (hroom : base.issuedCount + h.issuedCount ≤ UInt64.size)
    (he : e.addressesWithin 0 h.issuedCount = true)
    (hh : h.All fun v => (Expr.val v).addressesWithin 0 h.issuedCount = true) :
    (e.relocate (.shift base.issuedCount)).addressesWithin base.issuedCount
        (base.beside h).issuedCount = true ∧
      ∀ l v, base.issuedCount ≤ l.addr.toNat → (base.beside h).cell? l = some (some v) →
        (Expr.val v).addressesWithin base.issuedCount (base.beside h).issuedCount = true := by
  rw [Heap.issuedCount_beside]
  refine ⟨Expr.addressesWithin_shift hroom he, fun l v hl hv => ?_⟩
  obtain ⟨l₀, rfl, hl₀⟩ := Loc.exists_shift hl
  rw [Heap.cell?_beside_shift hl₀, Option.map_eq_some_iff] at hv
  obtain ⟨_ | v₀, hv₀, heq⟩ := hv
  · cases heq
  · cases heq
    exact Expr.addressesWithin_shift hroom (hh l₀ v₀ hv₀)

section Runs

variable {e e' : Expr} {base h' : Heap} {n : Nat} (he : e.addressFree = true)

include he

theorem configAfter_of_addressFree (hroom : ∀ m ≤ n, ∀ e' h', configAfter m e base = some (e', h') →
    h'.issuedCount < UInt64.size) :
    configAfter n e base = (configAfter n e .empty).map fun c =>
      (c.1.relocate (.shift base.issuedCount), base.beside c.2) := by
  have haddr : e.addressesWithin 0 Heap.empty.issuedCount = true :=
    Expr.addressesWithin_of_addressFree he _ _
  have hself : e.relocate (.shift base.issuedCount) = e :=
    Expr.relocate_eq_self (fun _ => rfl) e he
  have hbeside := configAfter_beside base (n := n) haddr Heap.All.empty
  rw [hself, base.beside_empty] at hbeside
  exact hbeside hroom

theorem addressesWithin_of_configAfter (hc : configAfter n e .empty = some (e', h')) :
    e'.addressesWithin 0 h'.issuedCount = true ∧
      h'.All fun v => (Expr.val v).addressesWithin 0 h'.issuedCount = true :=
  stepInvariant_addressesWithin.configAfter (Expr.addressesWithin_of_addressFree he 0 _)
    Heap.All.empty hc

end Runs

/-- How the first `n` steps of `e` with the cells of `base` in the heap compare with those from the
empty heap. -/
structure RunsBeside (base : Heap) (e : Expr) (n : Nat) : Prop where
  /-- Both runs get that far or neither does, and with all addresses moved past `base` and the cells
  of `base` put in front the one configuration is the other. -/
  config : configAfter n e base = (configAfter n e .empty).map fun c =>
    (c.1.relocate (.shift base.issuedCount), base.beside c.2)
  /-- Both have come to a value, both are stuck for the same reason, or both go on. -/
  next : ∀ e' h', configAfter n e .empty = some (e', h') →
    step (e'.relocate (.shift base.issuedCount)) (base.beside h') =
      ((step e' h').1.relocate (.shift base.issuedCount), base.beside (step e' h').2)
  untouched : ∀ e' h' l, configAfter n e base = some (e', h') → l.addr.toNat < base.issuedCount →
    h'.cell? l = base.cell? l
  /-- The run has issued all the addresses that there are in the expression and in its own cells. -/
  issued : ∀ e' h', configAfter n e base = some (e', h') →
    e'.addressesWithin base.issuedCount h'.issuedCount = true ∧
      ∀ l v, base.issuedCount ≤ l.addr.toNat → h'.cell? l = some (some v) →
        (Expr.val v).addressesWithin base.issuedCount h'.issuedCount = true
  /-- An address is invalid only after the run itself has freed its cell. -/
  freed : ∀ e' h' s l, configAfter n e base = some (e', h') →
    (step e' h').1 = .stuck s (.invalidAddress (.loc l)) →
      ∃ m < n, ∃ (K : Context) (h₁ : Heap),
        configAfter m e base = some (K.fill (.free (.val (.loc l))), h₁) ∧ h₁.isLive l = true

theorem runsBeside {e : Expr} {base : Heap} {n : Nat} (he : e.addressFree = true)
    (hroom : ∀ m ≤ n, ∀ e' h', configAfter m e base = some (e', h') →
      h'.issuedCount < UInt64.size) : RunsBeside base e n := by
  have hconfig := configAfter_of_addressFree he hroom
  have hcount : ∀ e₀ h₀, configAfter n e .empty = some (e₀, h₀) →
      base.issuedCount + h₀.issuedCount ≤ UInt64.size := by
    intro e₀ h₀ hc
    rw [hc] at hconfig
    exact Heap.issuedCount_beside base h₀ ▸ Nat.le_of_lt (hroom n (Nat.le_refl n) _ _ hconfig)
  have hbeside : ∀ e' h', configAfter n e base = some (e', h') →
      ∃ e₀ h₀, configAfter n e .empty = some (e₀, h₀) ∧
        (e₀.relocate (.shift base.issuedCount), base.beside h₀) = (e', h') := by
    intro e' h' hc
    rw [hconfig, Option.map_eq_some_iff] at hc
    obtain ⟨⟨e₀, h₀⟩, hc₀, heq⟩ := hc
    exact ⟨e₀, h₀, hc₀, heq⟩
  have hissued : ∀ e' h', configAfter n e base = some (e', h') →
      e'.addressesWithin base.issuedCount h'.issuedCount = true ∧
        ∀ l v, base.issuedCount ≤ l.addr.toNat → h'.cell? l = some (some v) →
          (Expr.val v).addressesWithin base.issuedCount h'.issuedCount = true := by
    intro e' h' hc
    obtain ⟨e₀, h₀, hc₀, ⟨⟩⟩ := hbeside e' h' hc
    obtain ⟨haddr₀, hh₀⟩ := addressesWithin_of_configAfter he hc₀
    exact issued_beside (hcount e₀ h₀ hc₀) haddr₀ hh₀
  constructor
  case config => exact hconfig
  case next =>
    intro e₀ h₀ hc₀
    exact step_beside (hcount e₀ h₀ hc₀) (addressesWithin_of_configAfter he hc₀).1
  case untouched =>
    intro e' h' l hc hl
    obtain ⟨e₀, h₀, -, ⟨⟩⟩ := hbeside e' h' hc
    exact Heap.cell?_beside_of_lt hl
  case issued => exact hissued
  case freed =>
    intro e' h' s l hc hs
    obtain ⟨hlo, hhi, hdead⟩ := within_of_invalidAddress hs (hissued e' h' hc).1
    have hnone : base.cell? l = none := Array.getElem?_eq_none hlo
    have hcell : h'.cell? l = some none :=
      Heap.cell?_of_not_isLive (Heap.wasIssued_iff.mpr hhi) hdead
    exact freed_of_configAfter hc (hnone ▸ nofun) hcell

/-- A cell is freed and then read. -/
def danglingLoad : Expr :=
  .letIn "r" (.new (.int 1)) (.seq (.free (.var "r")) (.load (.var "r")))

/-- A heap with a live cell and one that was freed. -/
def twoCells : Heap := ⟨#[some (.int 7), none]⟩

theorem danglingLoad_runsBeside :
    danglingLoad.addressFree = true ∧
      configAfter 6 danglingLoad twoCells =
        some (.load (.val (.loc ⟨2⟩)), ⟨#[some (.int 7), none, none]⟩) ∧
      configAfter 6 danglingLoad .empty = some (.load (.val (.loc ⟨0⟩)), ⟨#[none]⟩) ∧
      RunsBeside twoCells danglingLoad 6 ∧
      ∃ m < 6, ∃ (K : Context) (h₁ : Heap), configAfter m danglingLoad twoCells =
        some (K.fill (.free (.val (.loc ⟨2⟩))), h₁) ∧ h₁.isLive ⟨2⟩ = true := by
  have he : danglingLoad.addressFree = true := by decide
  have hsmall : ∀ m ≤ 6,
      (configAfter m danglingLoad twoCells).all (fun c => c.2.issuedCount ≤ 3) = true := by decide
  have hroom : ∀ m ≤ 6, ∀ e' h', configAfter m danglingLoad twoCells = some (e', h') →
      h'.issuedCount < UInt64.size := by
    intro m hm e' h' hc
    have hcount := hsmall m hm
    rw [hc] at hcount
    exact Nat.lt_of_le_of_lt (of_decide_eq_true hcount) (by decide)
  have hrun : RunsBeside twoCells danglingLoad 6 := runsBeside he hroom
  have hc : configAfter 6 danglingLoad twoCells =
      some (.load (.val (.loc ⟨2⟩)), ⟨#[some (.int 7), none, none]⟩) := by decide
  exact ⟨he, hc, by decide, hrun, hrun.freed _ _ _ ⟨2⟩ hc rfl⟩

end CellCalculus
