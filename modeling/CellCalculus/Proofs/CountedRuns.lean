import CellCalculus.Machine

/-!
# Runs of a counted length

`configAfter n e h` is where `n` steps lead, if that many can be taken. A machine whose limit allows
these steps passes the same configuration, so what it answers from there on is what it answers at
all.
-/

namespace CellCalculus

/-- The configuration after exactly `n` steps. -/
def configAfter : Nat → Expr → Heap → Option (Expr × Heap)
  | 0, e, h => some (e, h)
  | n + 1, e, h =>
      match step e h with
      | (.next e', h') => configAfter n e' h'
      | _ => none

@[simp] theorem configAfter_zero (e : Expr) (h : Heap) : configAfter 0 e h = some (e, h) := rfl

theorem configAfter_succ_of_step {e e' : Expr} {h h' : Heap} (n : Nat)
    (hs : step e h = (.next e', h')) : configAfter (n + 1) e h = configAfter n e' h' := by
  simp only [configAfter, hs]

theorem configAfter_succ {n : Nat} {e : Expr} {h : Heap} {c : Expr × Heap}
    (hc : configAfter (n + 1) e h = some c) :
    ∃ e' h', step e h = (.next e', h') ∧ configAfter n e' h' = some c := by
  simp only [configAfter] at hc
  split at hc
  · next e' h' hs => exact ⟨e', h', hs, hc⟩
  · cases hc

/-- What every step keeps, every run keeps. -/
theorem configAfter_keeps {J : Expr → Heap → Prop}
    (hstep : ∀ {e h e' h'}, J e h → step e h = (.next e', h') → J e' h') {n : Nat} {e e' : Expr}
    {h h' : Heap} (he : J e h) (hc : configAfter n e h = some (e', h')) : J e' h' := by
  induction n generalizing e h with
  | zero =>
    cases hc
    exact he
  | succ n ih =>
    obtain ⟨e₁, h₁, hs, hrest⟩ := configAfter_succ hc
    exact ih (hstep he hs) hrest

theorem configAfter_add (m n : Nat) (e : Expr) (h : Heap) :
    configAfter (m + n) e h = (configAfter m e h).bind fun c => configAfter n c.1 c.2 := by
  induction m generalizing e h with
  | zero => rw [Nat.zero_add, configAfter_zero, Option.bind_some]
  | succ m ih =>
    rcases hs : step e h with ⟨e' | v | ⟨e', err⟩, h'⟩
    · rw [Nat.succ_add, configAfter_succ_of_step _ hs, configAfter_succ_of_step _ hs, ih]
    · simp only [Nat.succ_add, configAfter, hs, Option.bind_none]
    · simp only [Nat.succ_add, configAfter, hs, Option.bind_none]

/-- The run comes to an end after exactly `n` steps: `s` is a value or an error. -/
def EndsAfter (n : Nat) (e : Expr) (h : Heap) (s : Step) (h' : Heap) : Prop :=
  ∃ e', configAfter n e h = some (e', h') ∧ step e' h' = (s, h') ∧ s.next? = none

/-- However many steps, the run gets that far. -/
def RunsForever (e : Expr) (h : Heap) : Prop := ∀ n, (configAfter n e h).isSome

theorem endsAfter_value_iff {n : Nat} {e : Expr} {h h' : Heap} {v : Val} :
    EndsAfter n e h (.value v) h' ↔ configAfter n e h = some (.val v, h') := by
  constructor
  · rintro ⟨e', hc, hs, -⟩
    obtain ⟨rfl, -⟩ := step_value (congrArg Prod.fst hs)
    exact hc
  · intro hc
    exact ⟨.val v, hc, rfl, rfl⟩

/-- A configuration without a next step is the end. -/
theorem endsAfter_of_step {n : Nat} {e e' : Expr} {h h' : Heap}
    (hc : configAfter n e h = some (e', h')) (hs : (step e' h').1.next? = none) :
    EndsAfter n e h (step e' h').1 h' := by
  refine ⟨e', hc, Prod.ext rfl ?_, hs⟩
  rcases hstep : (step e' h').1 with d | v | ⟨d, err⟩
  · rw [hstep] at hs
    cases hs
  · exact (step_value hstep).2
  · exact (step_stuck hstep).2

namespace EndsAfter

variable {m n : Nat} {e : Expr} {h h' h'' : Heap} {s s' : Step}

theorem configAfter_of_lt (hend : EndsAfter n e h s h') (hnm : n < m) :
    configAfter m e h = none := by
  obtain ⟨e', hc, hs, hlast⟩ := hend
  obtain ⟨k, rfl⟩ : ∃ k, m = n + (k + 1) := ⟨m - n - 1, by omega⟩
  rw [configAfter_add, hc, Option.bind_some, configAfter, hs]
  cases s with
  | next d => cases hlast
  | value _ | stuck _ _ => rfl

/-- A run comes to one end only. -/
theorem unique (hend : EndsAfter m e h s h') (hend' : EndsAfter n e h s' h'') :
    m = n ∧ s = s' ∧ h' = h'' := by
  have hmn : m = n := by
    rcases Nat.lt_trichotomy m n with hlt | heq | hlt
    · obtain ⟨e', hc, -⟩ := hend'
      rw [hend.configAfter_of_lt hlt] at hc
      cases hc
    · exact heq
    · obtain ⟨e', hc, -⟩ := hend
      rw [hend'.configAfter_of_lt hlt] at hc
      cases hc
  subst hmn
  obtain ⟨e₁, hc₁, hs₁, -⟩ := hend
  obtain ⟨e₂, hc₂, hs₂, -⟩ := hend'
  obtain ⟨rfl, rfl⟩ := Prod.mk.inj (Option.some.inj (hc₁.symm.trans hc₂))
  exact ⟨rfl, congrArg Prod.fst (hs₁.symm.trans hs₂), rfl⟩

end EndsAfter

theorem RunsForever.configAfter {n : Nat} {e e' : Expr} {h h' : Heap} (hforever : RunsForever e h)
    (hc : CellCalculus.configAfter n e h = some (e', h')) : RunsForever e' h' := by
  intro m
  have hsome := hforever (n + m)
  rwa [configAfter_add, hc, Option.bind_some] at hsome

theorem runsForever_iff {e : Expr} {h : Heap} :
    RunsForever e h ↔ ∀ n s h', ¬EndsAfter n e h s h' := by
  constructor
  · intro hforever n s h' hend
    have hsome := hforever (n + 1)
    rw [hend.configAfter_of_lt (Nat.lt_succ_self n)] at hsome
    cases hsome
  · intro hnever n
    induction n with
    | zero => rfl
    | succ n ih =>
      obtain ⟨⟨e', h'⟩, hc⟩ := Option.isSome_iff_exists.mp ih
      rcases hs : step e' h' with ⟨d | v | ⟨d, err⟩, h''⟩
      · rw [configAfter_add, hc, Option.bind_some, configAfter_succ_of_step 0 hs]
        rfl
      · exact absurd (endsAfter_of_step hc (by rw [hs]; rfl)) (hnever _ _ _)
      · exact absurd (endsAfter_of_step hc (by rw [hs]; rfl)) (hnever _ _ _)

theorem runsForever_or_endsAfter (e : Expr) (h : Heap) :
    RunsForever e h ∨ ∃ n s h', EndsAfter n e h s h' := by
  by_cases hends : ∃ n s h', EndsAfter n e h s h'
  · exact .inr hends
  · exact .inl (runsForever_iff.mpr fun n s h' hend => hends ⟨n, s, h', hend⟩)

namespace Machine

/-- A run answers as from any configuration that it passes. -/
theorem run?_of_configAfter {n k : Nat} {fuel : Option Nat} {e e' : Expr} {h h' : Heap}
    (hc : configAfter n e h = some (e', h')) (hfuel : ∀ f ∈ fuel, k + n ≤ f) :
    run? ⟨e, h, fuel, k⟩ = run? ⟨e', h', fuel, k + n⟩ := by
  induction n generalizing e h k with
  | zero =>
    cases hc
    rfl
  | succ n ih =>
    obtain ⟨e₁, h₁, hs, hrest⟩ := configAfter_succ hc
    have hstep : step ⟨e, h, fuel, k⟩ = (.stepped, ⟨e₁, h₁, fuel, k + 1⟩) := by
      simp only [step, hs]
    have hx : exhausted ⟨e, h, fuel, k⟩ = false := exhausted_of_lt fun f hf => by
      have hle := hfuel f hf
      simp only
      omega
    rw [run?_of_stepped hx hstep, show k + (n + 1) = k + 1 + n by omega]
    exact ih hrest fun f hf => by
      have hle := hfuel f hf
      omega

/-- With fuel for the steps to a configuration, a run answers as from that configuration. -/
theorem run_of_configAfter {n f : Nat} {e e' : Expr} {h' : Heap}
    (hc : configAfter n e .empty = some (e', h')) (hf : n ≤ f) :
    run { expr := e, fuel := some f } = run ⟨e', h', some f, n⟩ := by
  have hsame : run? { expr := e, fuel := some f } = run? ⟨e', h', some f, 0 + n⟩ :=
    run?_of_configAfter hc (by simpa using hf)
  rw [run?_eq_some_run rfl, run?_eq_some_run rfl, Nat.zero_add] at hsame
  exact Option.some.inj hsame

theorem run_ne_outOfFuel {e : Expr} {h : Heap} {f k : Nat}
    (hlast : ∀ e', (CellCalculus.step e h).1 ≠ .next e') (hk : k < f) (steps : Nat) :
    (run ⟨e, h, some f, k⟩).1 ≠ .error (.outOfFuel steps) := by
  have hx : exhausted ⟨e, h, some f, k⟩ = false := exhausted_of_lt (by simpa using hk)
  rcases step_cases ⟨e, h, some f, k⟩ with ⟨e', h', hnext, -⟩ | ⟨v, hv, hs⟩ | ⟨err, -, hs⟩
  · exact absurd (congrArg Prod.fst hnext) (hlast e')
  · simp [run, run?_of_done hs hv]
  · simp [run, run?_of_stuck hx hs]

end Machine

end CellCalculus
