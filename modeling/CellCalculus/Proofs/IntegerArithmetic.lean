import Mathlib.Data.Int.ModEq
import CellCalculus.OperatorEvaluation

/-!
# Integer operators and exact arithmetic

Integers have 64 bits and addresses have no sign, so an operator may miss the exact result by a
multiple of 2 ^ 64 or may have none at all. `wrap` is the number in range that a result comes down
to. `exactArithmetic` says for all operands what each operator makes of the exact result, and on
which operands it has none.
-/

namespace CellCalculus

/-- The number from -2 ^ 63 up to 2 ^ 63 that is congruent to `z` modulo 2 ^ 64. -/
def wrap (z : Int) : Int := z.bmod UInt64.size

theorem wrap_eq_iff {z r : Int} :
    wrap z = r ↔ -2 ^ 63 ≤ r ∧ r < 2 ^ 63 ∧ r ≡ z [ZMOD UInt64.size] := by
  constructor
  · rintro rfl
    exact ⟨Int.le_bmod (by decide), Int.bmod_lt (by decide), Int.bmod_emod⟩
  · rintro ⟨hlow, hhigh, hcongr⟩
    rw [wrap, ← Int.emod_bmod, ← hcongr, Int.emod_bmod]
    exact Int.bmod_eq_of_le hlow hhigh

theorem wrap_of_mem {z : Int} (hlow : -2 ^ 63 ≤ z) (hhigh : z < 2 ^ 63) : wrap z = z :=
  wrap_eq_iff.mpr ⟨hlow, hhigh, rfl⟩

/-- Division that rounds towards zero leaves a remainder below the divisor, with the sign of the
dividend. -/
theorem tdiv_tmod (x : Int) {y : Int} (hy : y ≠ 0) :
    x = x.tdiv y * y + x.tmod y ∧ |x.tmod y| < |y| ∧
      (x.tmod y = 0 ∨ (x.tmod y).sign = x.sign) := by
  refine ⟨?_, ?_, ?_⟩
  · rw [Int.mul_comm, Int.mul_tdiv_add_tmod]
  · rw [Int.abs_eq_natAbs, Int.abs_eq_natAbs, Int.natAbs_tmod]
    exact Int.ofNat_lt.mpr (Nat.mod_lt _ (Int.natAbs_pos.mpr hy))
  · rw [Int.sign_tmod]
    split
    · next hdvd => exact .inl (Int.tmod_eq_zero_of_dvd hdvd)
    · exact .inr rfl

section Offsets

variable {l k : Loc} {n : Int64}

theorem Loc.offset?_eq_some_iff :
    l.offset? n = some k ↔ (k.addr.toNat : Int) = l.addr.toNat + n.toInt := by
  have hk := k.addr.toNat_lt_size
  rw [offset?]
  split
  · next hin =>
    obtain ⟨hlow, hhigh⟩ := hin
    have hsum : ((UInt64.ofNat (l.addr.toNat + n.toInt).toNat).toNat : Int) =
        l.addr.toNat + n.toInt := by
      rw [UInt64.toNat_ofNat_of_lt' ((Int.toNat_lt hlow).mpr hhigh), Int.toNat_of_nonneg hlow]
    rw [Option.some.injEq]
    constructor
    · rintro rfl
      exact hsum
    · intro hk'
      have ha : UInt64.ofNat (l.addr.toNat + n.toInt).toNat = k.addr :=
        UInt64.toNat_inj.mp (Int.ofNat_inj.mp (hsum.trans hk'.symm))
      rw [ha]
  · next hout =>
    refine ⟨nofun, fun hsum => absurd ⟨?_, ?_⟩ hout⟩ <;> omega

theorem Loc.offset?_eq_none_iff : l.offset? n = none ↔
    ¬(0 ≤ (l.addr.toNat : Int) + n.toInt ∧ (l.addr.toNat : Int) + n.toInt < UInt64.size) := by
  rw [offset?]
  split <;> simp_all

end Offsets

/-- The answer is the integer `z`. -/
def YieldsInt (answer : Except StuckError Val) (z : Int) : Prop :=
  ∃ n : Int64, answer = .ok (.int n) ∧ n.toInt = z

namespace BinaryOp

/-- The operator has no result on these operands. -/
def Undefined (op : BinaryOp) (v w : Val) : Prop := op.eval v w = .error (.binaryMismatch op v w)

variable {op : BinaryOp} {a b n : Int64} {z : Int} {P : Prop} [Decidable P]

theorem undefined_iff {v w : Val} : op.Undefined v w ↔ op.result? v w = none := by
  rw [Undefined, eval]
  cases op.result? v w <;> simp

theorem yieldsInt_of_onInts (h : op.onInts a b = some (.int n)) (hn : n.toInt = z) :
    YieldsInt (op.eval (.int a) (.int b)) z :=
  ⟨n, eval_of_onInts_eq_some h, hn⟩

/-- An operator that checks its operands is undefined where the check fails. -/
theorem undefined_of_guard_iff (h : op.onInts a b = if P then some (.int n) else none) :
    op.Undefined (.int a) (.int b) ↔ ¬P := by
  have hr : op.result? (.int a) (.int b) = if P then some (.int n) else none := h
  rw [undefined_iff, hr]
  split <;> simp_all

theorem divides_iff : Divides a b ↔ ¬(b.toInt = 0 ∨ a.toInt = -2 ^ 63 ∧ b.toInt = -1) := by
  have hzero : b = 0 ↔ b.toInt = 0 := Int64.toInt_inj.symm
  have hmin : a = Int64.minValue ↔ a.toInt = -2 ^ 63 := Int64.toInt_inj.symm
  have hone : b = -1 ↔ b.toInt = -1 := Int64.toInt_inj.symm
  rw [Divides, not_or, ne_eq, hzero, hmin, hone]

theorem toInt_div_of_divides (hab : Divides a b) : (a / b).toInt = a.toInt.tdiv b.toInt := by
  by_cases ha : a = Int64.minValue
  · exact Int64.toInt_div_of_ne_right a b fun hb => hab.2 ⟨ha, hb⟩
  · exact Int64.toInt_div_of_ne_left a b ha

theorem shifts_iff : Shifts b ↔ 0 ≤ b.toInt ∧ b.toInt ≤ 63 := by
  have hlow : 0 ≤ b ↔ 0 ≤ b.toInt := Int64.le_iff_toInt_le
  have hhigh : b < 64 ↔ b.toInt < 64 := Int64.lt_iff_toInt_lt
  rw [Shifts, hlow, hhigh, Int.lt_iff_add_one_le]
  omega

/-- A bit position is not reduced before the shift. -/
theorem toNat_smod_of_shifts (hb : Shifts b) : (b.toBitVec.smod 64).toNat = b.toInt.toNat := by
  obtain ⟨hlow, hhigh⟩ := shifts_iff.mp hb
  have hmod : (b.toBitVec.smod 64).toInt = b.toInt := by
    rw [BitVec.toInt_smod, Int64.toInt_toBitVec]
    exact Int.fmod_eq_of_lt hlow (Int.lt_add_one_of_le hhigh)
  rw [← hmod] at hlow ⊢
  rw [BitVec.toInt_eq_toNat_cond] at hlow ⊢
  omega

theorem toInt_shiftLeft_of_shifts (hb : Shifts b) :
    (a <<< b).toInt = wrap (a.toInt * 2 ^ b.toInt.toNat) := by
  have ha : a.toInt = (a.toBitVec.toNat : Int).bmod UInt64.size :=
    BitVec.toInt_eq_toNat_bmod a.toBitVec
  rw [← Int64.toInt_toBitVec, Int64.toBitVec_shiftLeft, BitVec.shiftLeft_eq',
    toNat_smod_of_shifts hb, BitVec.toInt_shiftLeft, Nat.shiftLeft_eq, ha, wrap, Int.bmod_mul_bmod,
    Nat.cast_mul, Nat.cast_pow, Nat.cast_ofNat]

theorem toInt_shiftRight_of_shifts (hb : Shifts b) :
    (a >>> b).toInt = a.toInt.fdiv (2 ^ b.toInt.toNat) := by
  rw [← Int64.toInt_toBitVec, Int64.toBitVec_shiftRight, BitVec.toInt_sshiftRight',
    toNat_smod_of_shifts hb, Int.shiftRight_eq_div_pow, Int64.toInt_toBitVec,
    ← Int.fdiv_eq_ediv_of_nonneg _ (Int.natCast_nonneg _), Nat.cast_pow, Nat.cast_ofNat]

end BinaryOp

section Exactness

open BinaryOp

/-- What the operators make of the exact results on two integers, and on an address and an
integer. -/
structure ExactArithmetic (a b : Int64) (l : Loc) : Prop where
  plus : YieldsInt (BinaryOp.plus.eval (.int a) (.int b)) (wrap (a.toInt + b.toInt))
  minus : YieldsInt (BinaryOp.minus.eval (.int a) (.int b)) (wrap (a.toInt - b.toInt))
  mult : YieldsInt (BinaryOp.mult.eval (.int a) (.int b)) (wrap (a.toInt * b.toInt))
  negation : YieldsInt (UnaryOp.minus.eval (.int a)) (wrap (-a.toInt))
  complement : YieldsInt (UnaryOp.neg.eval (.int a)) (-a.toInt - 1)
  quot_undefined : BinaryOp.quot.Undefined (.int a) (.int b) ↔
    b.toInt = 0 ∨ a.toInt = -2 ^ 63 ∧ b.toInt = -1
  rem_undefined : BinaryOp.rem.Undefined (.int a) (.int b) ↔
    b.toInt = 0 ∨ a.toInt = -2 ^ 63 ∧ b.toInt = -1
  quot_rem : ¬(b.toInt = 0 ∨ a.toInt = -2 ^ 63 ∧ b.toInt = -1) → ∃ q r,
    YieldsInt (BinaryOp.quot.eval (.int a) (.int b)) q ∧
      YieldsInt (BinaryOp.rem.eval (.int a) (.int b)) r ∧
      a.toInt = q * b.toInt + r ∧ |r| < |b.toInt| ∧ (r = 0 ∨ r.sign = a.toInt.sign)
  shiftL_undefined : BinaryOp.shiftL.Undefined (.int a) (.int b) ↔ ¬(0 ≤ b.toInt ∧ b.toInt ≤ 63)
  shiftL : 0 ≤ b.toInt ∧ b.toInt ≤ 63 →
    YieldsInt (BinaryOp.shiftL.eval (.int a) (.int b)) (wrap (a.toInt * 2 ^ b.toInt.toNat))
  shiftR_undefined : BinaryOp.shiftR.Undefined (.int a) (.int b) ↔ ¬(0 ≤ b.toInt ∧ b.toInt ≤ 63)
  /-- The quotient is rounded down, for a negative `a` too. -/
  shiftR : 0 ≤ b.toInt ∧ b.toInt ≤ 63 →
    YieldsInt (BinaryOp.shiftR.eval (.int a) (.int b)) (a.toInt.fdiv (2 ^ b.toInt.toNat))
  le : BinaryOp.le.eval (.int a) (.int b) = .ok (.bool (decide (a.toInt ≤ b.toInt)))
  lt : BinaryOp.lt.eval (.int a) (.int b) = .ok (.bool (decide (a.toInt < b.toInt)))
  eq : BinaryOp.eq.eval (.int a) (.int b) = .ok (.bool (decide (a.toInt = b.toInt)))
  offset : ∀ k : Loc, BinaryOp.offset.eval (.loc l) (.int b) = .ok (.loc k) ↔
    (k.addr.toNat : Int) = l.addr.toNat + b.toInt
  offset_undefined : BinaryOp.offset.Undefined (.loc l) (.int b) ↔
    ¬(0 ≤ (l.addr.toNat : Int) + b.toInt ∧ (l.addr.toNat : Int) + b.toInt < UInt64.size)

/-- All the operators on integers agree with exact arithmetic as far as 64 bits can, and moving an
address as far as there are addresses. -/
theorem exactArithmetic (a b : Int64) (l : Loc) : ExactArithmetic a b l where
  plus := yieldsInt_of_onInts rfl (Int64.toInt_add a b)
  minus := yieldsInt_of_onInts rfl (Int64.toInt_sub a b)
  mult := yieldsInt_of_onInts rfl (Int64.toInt_mul a b)
  negation := ⟨-a, rfl, Int64.toInt_neg a⟩
  complement := by
    have hlow : -2 ^ 63 ≤ a.toInt := a.minValue_le_toInt
    have hhigh : a.toInt < 2 ^ 63 := a.toInt_lt
    refine ⟨~~~a, rfl, (Int64.toInt_not a).trans (wrap_of_mem ?_ ?_)⟩ <;> omega
  quot_undefined := by rw [undefined_of_guard_iff rfl, divides_iff, not_not]
  rem_undefined := by rw [undefined_of_guard_iff rfl, divides_iff, not_not]
  quot_rem hdef := by
    have hab : Divides a b := divides_iff.mpr hdef
    have hb : b.toInt ≠ 0 := fun hzero => hdef (.inl hzero)
    have hquot : YieldsInt (BinaryOp.quot.eval (.int a) (.int b)) (a.toInt.tdiv b.toInt) :=
      yieldsInt_of_onInts (if_pos hab) (toInt_div_of_divides hab)
    have hrem : YieldsInt (BinaryOp.rem.eval (.int a) (.int b)) (a.toInt.tmod b.toInt) :=
      yieldsInt_of_onInts (if_pos hab) (Int64.toInt_mod a b)
    exact ⟨_, _, hquot, hrem, tdiv_tmod a.toInt hb⟩
  shiftL_undefined := by rw [undefined_of_guard_iff rfl, shifts_iff]
  shiftL hb := by
    rw [← shifts_iff] at hb
    exact yieldsInt_of_onInts (if_pos hb) (toInt_shiftLeft_of_shifts hb)
  shiftR_undefined := by rw [undefined_of_guard_iff rfl, shifts_iff]
  shiftR hb := by
    rw [← shifts_iff] at hb
    exact yieldsInt_of_onInts (if_pos hb) (toInt_shiftRight_of_shifts hb)
  le := by rw [eval_of_onInts_eq_some rfl, decide_eq_decide.mpr Int64.le_iff_toInt_le]
  lt := by rw [eval_of_onInts_eq_some rfl, decide_eq_decide.mpr Int64.lt_iff_toInt_lt]
  eq := by rw [eval_of_onInts_eq_some rfl, decide_eq_decide.mpr Int64.toInt_inj.symm]
  offset k := by
    have hr : BinaryOp.offset.result? (.loc l) (.int b) = (l.offset? b).map .loc := rfl
    rw [← Loc.offset?_eq_some_iff, eval, hr]
    cases l.offset? b <;> simp [Val.loc]
  offset_undefined := by
    have hr : BinaryOp.offset.result? (.loc l) (.int b) = (l.offset? b).map .loc := rfl
    rw [undefined_iff, hr, Option.map_eq_none_iff, Loc.offset?_eq_none_iff]

/-- The highest address, moved back across the middle of the address space. -/
example : BinaryOp.offset.eval (.loc ⟨18446744073709551615⟩) (.int Int64.minValue) =
    .ok (.loc ⟨9223372036854775807⟩) := by
  decide

end Exactness

end CellCalculus
