import CellCalculus.Proofs.CountedRuns

/-!
# What a machine counts

Steps and runs may follow one another in any order: the configuration of the machine is always the
one that its count of steps leads to from the program. A single step takes no notice of the limit,
so it may lead past it, and a run that starts past it changes nothing. A run that has not taken a
step yet answers with the value that the program comes to when the limit allows for all the steps to
it, and tells that the program is stuck only when one more step would be allowed.
-/

namespace CellCalculus

namespace Machine

/-- The second machine is the first one `n` steps later. -/
structure Passes (m : Machine) (n : Nat) (m' : Machine) : Prop where
  config : configAfter n m.expr m.heap = some (m'.expr, m'.heap)
  fuel : m'.fuel = m.fuel
  steps : m'.steps = m.steps + n

/-- Whether the limit allows `n` more steps. -/
def Allows (m : Machine) (n : Nat) : Prop := ∀ f ∈ m.fuel, n = 0 ∨ m.steps + n ≤ f

/-- What a run answers without taking a step. -/
inductive Answers (m : Machine) : Except RunError Val → Prop
  | outOfFuel : m.exhausted = true → Answers m (.error (.outOfFuel m.steps))
  | done {v} : m.expr = .val v → Answers m (.ok v)
  | stuck {err} : m.exhausted = false →
      CellCalculus.step m.expr m.heap = (.stuck m.expr err, m.heap) →
      Answers m (.error (.stuck m.expr err m.steps))

namespace Passes

variable {k n : Nat} {m m' m'' : Machine}

theorem refl (m : Machine) : m.Passes 0 m := ⟨rfl, rfl, rfl⟩

theorem trans (h : m.Passes k m') (h' : m'.Passes n m'') : m.Passes (k + n) m'' where
  config := by rw [configAfter_add, h.config, Option.bind_some, h'.config]
  fuel := h'.fuel.trans h.fuel
  steps := by rw [h'.steps, h.steps, Nat.add_assoc]

end Passes

theorem passes_stepped {m : Machine} {e : Expr} {h : Heap}
    (hnext : CellCalculus.step m.expr m.heap = (.next e, h)) :
    m.Passes 1 { m with expr := e, heap := h, steps := m.steps + 1 } :=
  ⟨configAfter_succ_of_step 0 hnext, rfl, rfl⟩

theorem Answers.run? {m : Machine} {answer : Except RunError Val} (h : m.Answers answer) :
    m.run? = some (answer, m) := by
  cases h with
  | outOfFuel hx => exact run?_of_exhausted hx
  | done hv =>
    obtain ⟨e, h, fuel, steps⟩ := m
    cases hv
    exact run?_of_done rfl rfl
  | @stuck err hx hs =>
    have hstep : m.step = (.stuck err, m) := by simp only [step, hs]
    exact run?_of_stuck hx hstep

/-- A run takes no step that the limit forbids, and answers where it stops. -/
theorem run?_passes {m m' : Machine} {answer : Except RunError Val}
    (hrun : m.run? = some (answer, m')) :
    ∃ n, m.Passes n m' ∧ m.Allows n ∧ m'.Answers answer := by
  refine run?.partial_correctness (fun m r => ∃ n, m.Passes n r.2 ∧ m.Allows n ∧ r.2.Answers r.1)
    ?_ m (answer, m') hrun
  intro run? ih m r hr
  have hstay : ∀ {answer}, m.Answers answer →
      ∃ n, m.Passes n m ∧ m.Allows n ∧ m.Answers answer :=
    fun h => ⟨0, .refl m, fun _ _ => .inl rfl, h⟩
  cases hx : m.exhausted with
  | true =>
    rw [if_pos hx] at hr
    cases hr
    exact hstay (.outOfFuel hx)
  | false =>
    rw [if_neg (by simp [hx])] at hr
    rcases m.step_cases with ⟨e, h, hnext, hs⟩ | ⟨v, hv, hs⟩ | ⟨err, hstuck, hs⟩ <;> rw [hs] at hr
    · obtain ⟨n, hpass, hallowed, hanswer⟩ := ih _ r hr
      refine ⟨1 + n, (passes_stepped hnext).trans hpass, fun f hf => .inr ?_, hanswer⟩
      have hvalue := isValue_of_step_next (congrArg Prod.fst hnext)
      have hlt := steps_lt_of_not_exhausted hx hvalue hf
      have hlater := hallowed f hf
      simp only at hlater
      omega
    · cases hr
      exact hstay (.done hv)
    · cases hr
      exact hstay (.stuck hx hstuck)

section Fresh

variable {e d : Expr} {fuel : Option Nat} {n : Nat} {m : Machine}

/-- What a run of a program answers is what answers where the limit lets it come to. -/
theorem run?_eq_some_iff {answer : Except RunError Val} :
    run? { expr := e, fuel := fuel } = some (answer, m) ↔
      configAfter m.steps e .empty = some (m.expr, m.heap) ∧ m.fuel = fuel ∧
        (∀ f ∈ fuel, m.steps ≤ f) ∧ m.Answers answer := by
  constructor
  · intro hrun
    obtain ⟨n, hpass, hallowed, hanswer⟩ := run?_passes hrun
    obtain rfl : m.steps = n := hpass.steps.trans (Nat.zero_add n)
    refine ⟨hpass.config, hpass.fuel, fun f hf => ?_, hanswer⟩
    have hle := hallowed f hf
    simp only at hle
    omega
  · rintro ⟨hc, rfl, hallowed, hanswer⟩
    have hsame : run? { expr := e, fuel := m.fuel } =
        run? ⟨m.expr, m.heap, m.fuel, 0 + m.steps⟩ :=
      run?_of_configAfter hc fun f hf => by simpa using hallowed f hf
    rw [hsame, Nat.zero_add]
    exact hanswer.run?

theorem run?_value_iff {v : Val} : run? { expr := e, fuel := fuel } = some (.ok v, m) ↔
    ∃ n h, m = ⟨.val v, h, fuel, n⟩ ∧ EndsAfter n e .empty (.value v) h ∧ ∀ f ∈ fuel, n ≤ f := by
  rw [run?_eq_some_iff]
  constructor
  · rintro ⟨hc, rfl, hallowed, hanswer⟩
    cases hanswer with
    | done hv =>
      obtain ⟨d, h, fuel, n⟩ := m
      cases hv
      exact ⟨n, h, rfl, endsAfter_value_iff.mpr hc, hallowed⟩
  · rintro ⟨n, h, rfl, hend, hallowed⟩
    exact ⟨endsAfter_value_iff.mp hend, rfl, hallowed, .done rfl⟩

end Fresh

end Machine

end CellCalculus
