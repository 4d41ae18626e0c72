import CellCalculus.SamplePrograms
import CellCalculus.Proofs.HeapCells
import CellCalculus.Proofs.IntegerArithmetic
import CellCalculus.Proofs.MachineRuns

/-!
# Runs of the sample programs

How a sample program runs, step for step, whatever its parameter is. `countdown` calls its function
again and again with a number that is smaller by one, so below zero it goes down to the least
integer, around to the greatest one and on to zero from there. `counter` keeps its count in a cell,
and the increments that are left stand nested in what the current one is followed by.
-/

namespace CellCalculus

section Countdown

def countdownLoop : Val :=
  .closure (.named "f") (.named "x")
    (.ite (.binop .eq (.var "x") (.int 0)) (.int 1)
      (.app (.var "f") (.binop .minus (.var "x") (.int 1))))

/-- The configuration at the start of each round. -/
def countdownCall (n : Int64) : Expr := .app (.val countdownLoop) (.int n)

/-- What the call turns into, with the condition as far as it is computed. -/
def countdownTest (n : Int64) (cond : Expr) : Expr :=
  .ite cond (.int 1) (.app (.val countdownLoop) (.binop .minus (.int n) (.int 1)))

/-- The number modulo 2 ^ 64, which is how often one has to be taken from it to come to zero. -/
def roundsToZero (n : Int64) : Nat := (n.toInt % UInt64.size).toNat

theorem roundsToZero_eq_zero_iff {n : Int64} : roundsToZero n = 0 ↔ n = 0 := by
  have hlow : -9223372036854775808 ≤ n.toInt := n.minValue_le_toInt
  have hhigh : n.toInt < 9223372036854775808 := n.toInt_lt
  have hzero : n = 0 ↔ n.toInt = 0 := Int64.toInt_inj.symm
  rw [roundsToZero, hzero, show (UInt64.size : Int) = 18446744073709551616 from rfl]
  omega

theorem roundsToZero_sub_one {n : Int64} {k : Nat} (hn : roundsToZero n = k + 1) :
    roundsToZero (n - 1) = k := by
  have hpred : (n - 1).toInt % UInt64.size = (n.toInt - 1) % UInt64.size := by
    rw [Int64.toInt_sub]
    exact Int.bmod_emod
  unfold roundsToZero at hn ⊢
  rw [show (UInt64.size : Int) = 18446744073709551616 from rfl] at hn hpred ⊢
  omega

variable {n : Int64} (h : Heap)

/-- The function is called, zero is compared with, a branch is taken and one is taken off. -/
theorem countdownCall_round (hn : n ≠ 0) :
    configAfter 4 (countdownCall n) h = some (countdownCall (n - 1), h) := by
  have hcall : step (countdownCall n) h =
      (.next (countdownTest n (.binop .eq (.int n) (.int 0))), h) := rfl
  have heq : step (countdownTest n (.binop .eq (.int n) (.int 0))) h =
      (.next (countdownTest n (.bool (decide (n = 0)))), h) := rfl
  rw [configAfter_succ_of_step _ hcall, configAfter_succ_of_step _ heq, decide_eq_false hn]
  rfl

theorem countdownCall_zero : configAfter 3 (countdownCall 0) h = some (.int 1, h) := rfl

/-- By induction on the rounds: each is four steps, and the last one, without a call, is three. -/
theorem configAfter_countdownCall :
    configAfter (4 * roundsToZero n + 3) (countdownCall n) h = some (.int 1, h) := by
  induction hk : roundsToZero n generalizing n with
  | zero =>
    obtain rfl := roundsToZero_eq_zero_iff.mp hk
    exact countdownCall_zero h
  | succ k ih =>
    have hn : n ≠ 0 := fun hzero => by simp [roundsToZero_eq_zero_iff.mpr hzero] at hk
    rw [show 4 * (k + 1) + 3 = 4 + (4 * k + 3) by omega, configAfter_add, countdownCall_round h hn,
      Option.bind_some]
    exact ih (roundsToZero_sub_one hk)

/-- Whatever the integer, the program comes to 1 with an empty heap, after four steps for each time
that one is taken from it, wrapping around, and four more. -/
theorem countdown_ends (n : Int64) :
    EndsAfter (4 * roundsToZero n + 4) (countdown n) .empty (.value (.int 1)) .empty ∧
      Machine.run? { expr := countdown n } =
        some (.ok (.int 1), { expr := .int 1, steps := 4 * roundsToZero n + 4 }) := by
  have hstart : step (countdown n) .empty = (.next (countdownCall n), .empty) := rfl
  have hend : EndsAfter (4 * roundsToZero n + 4) (countdown n) .empty (.value (.int 1)) .empty :=
    endsAfter_value_iff.mpr <|
      (configAfter_succ_of_step _ hstart).trans (configAfter_countdownCall .empty)
  exact ⟨hend, Machine.run?_value_iff.mpr ⟨_, _, rfl, hend, nofun⟩⟩

end Countdown

section Counter

/-- The heap of the program: its one cell holds the count. -/
def countCell (n : Int64) : Heap := { cells := #[some (.int n)] }

/-- The increments that are left, with the address of the cell in place of its name. -/
def counting (times : Nat) : Expr := (increments times).subst "c" (.loc ⟨0⟩)

/-- An increment with the new count as far as it is computed. -/
def countingFrom (count : Expr) (times : Nat) : Expr :=
  .seq (.store (.val (.loc ⟨0⟩)) count) (counting times)

variable (times : Nat) (n : Int64)

/-- The cell is allocated, and its address is what the function around the increments is called
with. -/
theorem configAfter_counter : configAfter 3 (counter times) .empty =
    some (counting times, countCell 0) := by
  have halloc : step (counter times) .empty =
      (.next (.letIn "c" (.val (.loc ⟨0⟩)) (increments times)), countCell 0) := rfl
  rw [configAfter_succ_of_step _ halloc]
  rfl

/-- The count is loaded, increased and stored, and what follows the increment is called. -/
theorem counting_round : configAfter 5 (counting (times + 1)) (countCell n) =
    some (counting times, countCell (n + 1)) := by
  have hload : step (counting (times + 1)) (countCell n) =
      (.next (countingFrom (.binop .plus (.int n) (.int 1)) times), countCell n) := rfl
  have hplus : step (countingFrom (.binop .plus (.int n) (.int 1)) times) (countCell n) =
      (.next (countingFrom (.int (n + 1)) times), countCell n) := rfl
  have hstore : step (countingFrom (.int (n + 1)) times) (countCell n) =
      (.next (.seq (.val .unit) (counting times)), countCell (n + 1)) := rfl
  rw [configAfter_succ_of_step _ hload, configAfter_succ_of_step _ hplus,
    configAfter_succ_of_step _ hstore]
  rfl

theorem counting_zero :
    configAfter 1 (counting 0) (countCell n) = some (.int n, countCell n) := rfl

/-- By induction on the increments that are left: each is five steps, and the load is one. -/
theorem configAfter_counting : configAfter (5 * times + 1) (counting times) (countCell n) =
    some (.int (n + Int64.ofNat times), countCell (n + Int64.ofNat times)) := by
  induction times generalizing n with
  | zero => rw [show Int64.ofNat 0 = 0 from rfl, Int64.add_zero, Nat.mul_zero, counting_zero]
  | succ times ih =>
    have hcount : n + 1 + Int64.ofNat times = n + Int64.ofNat (times + 1) := by
      rw [Int64.ofNat_add, Int64.add_comm (Int64.ofNat times), ← Int64.add_assoc]
      rfl
    rw [show 5 * (times + 1) + 1 = 5 + (5 * times + 1) by omega, configAfter_add, counting_round,
      Option.bind_some, ih (n + 1), hcount]

theorem wasIssued_countCell (l : Loc) : (countCell n).wasIssued l = true ↔ l = ⟨0⟩ := by
  rw [Heap.wasIssued_iff, ← Loc.addr_toNat_inj]
  exact Nat.lt_one_iff

/-- However many increments, the program comes to their number modulo 2 ^ 64 as a signed integer,
after five steps for each and four more. Address 0 is then the only one issued, and its cell is live
and holds that integer. -/
theorem counter_ends : ∃ n h, n.toInt = wrap times ∧
    EndsAfter (5 * times + 4) (counter times) .empty (.value (.int n)) h ∧
      (∀ l, h.wasIssued l = true ↔ l = ⟨0⟩) ∧ h.issuedCount = 1 ∧ h.isLive ⟨0⟩ = true ∧
        h.load ⟨0⟩ = .ok (.int n) ∧
          Machine.run? { expr := counter times } =
            some (.ok (.int n), { expr := .int n, heap := h, steps := 5 * times + 4 }) := by
  have hcount : 0 + Int64.ofNat times = Int64.ofNat times := Int64.zero_add _
  have hend : EndsAfter (5 * times + 4) (counter times) .empty (.value (.int (Int64.ofNat times)))
      (countCell (Int64.ofNat times)) := by
    rw [endsAfter_value_iff, show 5 * times + 4 = 3 + (5 * times + 1) by omega, configAfter_add,
      configAfter_counter, Option.bind_some, configAfter_counting, hcount]
    rfl
  refine ⟨Int64.ofNat times, countCell (Int64.ofNat times), Int64.toInt_ofNat', hend,
    wasIssued_countCell _, rfl, rfl, rfl, ?_⟩
  exact Machine.run?_value_iff.mpr ⟨_, _, rfl, hend, nofun⟩

end Counter

end CellCalculus
