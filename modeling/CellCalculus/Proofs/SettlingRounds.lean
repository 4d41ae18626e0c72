import CellCalculus.Proofs.PremiseGuarantees

/-!
# Settling in rounds

The projections are settled in rounds of a pass and, where that pass keeps all of them, a default.
The bound on the number of passes is never reached, so `settleAll` satisfies an equation without
it: it is one round followed by `settleAll` of what is left. The rounds come to an end from every
state, which gives `settling_induction`.
-/

namespace CellCalculus

open Check

namespace Check

variable {α β : Type} {m : Check α} {k : α → Check β} {c c' : Checker}

/-- What is left of an outcome without its events. -/
def result (m : Check α) (c : Checker) : Except TypeError α × Checker :=
  ((m c).answer, (m c).checker)

theorem returns_iff_result {a : α} : m.Returns c a c' ↔ m.result c = (.ok a, c') := by
  simp [Returns, result]

theorem result_bind_of_ok {a : α} (h : m.result c = (.ok a, c')) :
    (m >>= k).result c = (k a).result c' := by
  obtain ⟨ha, rfl⟩ := Prod.mk.inj h
  rw [result, bind_of_ok ha]
  rfl

theorem result_bind_of_error {err : TypeError} (h : m.result c = (.error err, c')) :
    (m >>= k).result c = (.error err, c') := by
  obtain ⟨herr, rfl⟩ := Prod.mk.inj h
  rw [result, bind_of_error herr]

/-- Continuations that agree on what the first computation hands over. -/
theorem result_bind_congr {k k' : α → Check β}
    (h : ∀ a c', m.result c = (.ok a, c') → (k a).result c' = (k' a).result c') :
    (m >>= k).result c = (m >>= k').result c := by
  rcases hm : m.result c with ⟨_ | a, c'⟩
  · rw [result_bind_of_error hm, result_bind_of_error hm]
  · rw [result_bind_of_ok hm, result_bind_of_ok hm, h a c' hm]

end Check

/-- A pass, and a default for the oldest projection if the pass keeps all of them. -/
def settleRound (ps : List ProjectionPremise) : Check (List ProjectionPremise) := do
  match ← settlePass ps with
  | [] => return []
  | oldest :: others => do
      if others.length + 1 = ps.length then defaultOperand oldest
      return oldest :: others

/-- Settles the projections, handed over by `settleProjections`. -/
def settleAll (ps : List ProjectionPremise) : Check Unit := do
  let _ ← settlePasses (2 * ps.length) ps

theorem settlePasses_nil (n : Nat) : settlePasses n [] = pure [] := by
  cases n <;> rfl

theorem settlePasses_succ (n : Nat) (p : ProjectionPremise) (ps : List ProjectionPremise) :
    settlePasses (n + 1) (p :: ps) = settleRound (p :: ps) >>= settlePasses n := by
  rw [settlePasses, settleRound, bind_assoc]
  refine bind_congr fun waiting => ?_
  cases waiting with
  | nil => rw [pure_bind, settlePasses_nil]
  | cons oldest others =>
    simp only [List.length_cons, Nat.add_right_cancel_iff]
    split <;> simp

/-- So many passes are enough from this state, to the end or to an error. -/
def Finishes (n : Nat) (ps : List ProjectionPremise) (c : Checker) : Prop :=
  ∀ p rest, (settlePasses n ps c).answer ≠ .ok (p :: rest)

theorem finishes_two_mul_length (ps : List ProjectionPremise) (c : Checker) :
    Finishes (2 * ps.length) ps c := by
  intro p rest hleft
  have hnone : p :: rest = [] :=
    settlePasses_leaves_none ⟨hleft, rfl⟩ (by omega) (.inl (Nat.le_refl _))
  cases hnone

variable {n m : Nat} {p : ProjectionPremise} {ps rest : List ProjectionPremise} {c c' : Checker}

theorem Finishes.of_round (h : Finishes (n + 1) (p :: ps) c)
    (hround : (settleRound (p :: ps)).result c = (.ok rest, c')) : Finishes n rest c' := by
  intro q others hleft
  refine h q others ?_
  rw [settlePasses_succ]
  exact (congrArg Prod.fst (result_bind_of_ok hround)).trans hleft

theorem Finishes.result_eq (h : Finishes n ps c) (hnm : n ≤ m) :
    (settlePasses m ps).result c = (settlePasses n ps).result c := by
  induction n generalizing ps c m with
  | zero =>
    cases ps with
    | nil => rw [settlePasses_nil, settlePasses_nil]
    | cons p ps => exact absurd rfl (h p ps)
  | succ n ih =>
    cases ps with
    | nil => rw [settlePasses_nil, settlePasses_nil]
    | cons p ps =>
      obtain ⟨m, rfl⟩ : ∃ k, m = k + 1 := ⟨m - 1, by omega⟩
      rw [settlePasses_succ, settlePasses_succ]
      exact result_bind_congr fun rest c' hround =>
        ih (h.of_round hround) (Nat.le_of_succ_le_succ hnm)

/-- However many passes there are beyond those that are enough. -/
theorem Finishes.settleAll_result (h : Finishes n ps c) :
    (settleAll ps).result c = (settlePasses n ps >>= fun _ => pure ()).result c := by
  have hsame : (settlePasses (2 * ps.length) ps).result c = (settlePasses n ps).result c := by
    rcases Nat.le_total n (2 * ps.length) with hle | hle
    · exact h.result_eq hle
    · exact ((finishes_two_mul_length ps c).result_eq hle).symm
  rw [settleAll]
  rcases hn : (settlePasses n ps).result c with ⟨_ | rest, c'⟩
  · rw [result_bind_of_error hn, result_bind_of_error (hsame.trans hn)]
  · rw [result_bind_of_ok hn, result_bind_of_ok (hsame.trans hn)]

theorem settleAll_cons (p : ProjectionPremise) (ps : List ProjectionPremise) (c : Checker) :
    (settleAll (p :: ps)).result c = (settleRound (p :: ps) >>= settleAll).result c := by
  have hfinishes : Finishes (2 * ps.length + 1 + 1) (p :: ps) c :=
    finishes_two_mul_length (p :: ps) c
  rw [hfinishes.settleAll_result, settlePasses_succ, bind_assoc]
  exact result_bind_congr fun rest c' hround => (hfinishes.of_round hround).settleAll_result.symm

theorem settlePass_append (ps qs : List ProjectionPremise) :
    settlePass (ps ++ qs) = do
      let waiting ← settlePass ps
      let others ← settlePass qs
      return waiting ++ others := by
  induction ps with
  | nil => simp [settlePass]
  | cons p ps ih =>
    simp only [List.cons_append, settlePass, ih, bind_assoc]
    refine bind_congr fun known => ?_
    split <;> simp

theorem settlePass_result_length (h : (settlePass ps).result c = (.ok rest, c')) :
    rest.length ≤ ps.length :=
  settlePass_length (returns_iff_result.mpr h)

theorem settlePass_subset (h : (settlePass ps).result c = (.ok rest, c')) : rest ⊆ ps := by
  have hr := returns_iff_result.mpr h
  clear h
  induction ps generalizing rest c with
  | nil =>
    obtain ⟨rfl, -⟩ := returns_pure_iff.mp hr
    exact List.Subset.refl _
  | cons p ps ih =>
    rcases settlePass_cons_returns hr with ⟨_, others, rfl, hpass⟩ | ⟨_, d, hpass⟩
    · exact List.cons_subset_cons p (ih hpass)
    · exact List.subset_cons_of_subset p (ih hpass)

/-- A pass that keeps all projections has not done anything. -/
theorem settlePass_stalled (h : (settlePass ps).result c = (.ok rest, c'))
    (hlen : rest.length = ps.length) : rest = ps ∧ c' = c := by
  have hr := returns_iff_result.mpr h
  clear h
  induction ps generalizing rest with
  | nil =>
    obtain ⟨rfl, rfl⟩ := returns_pure_iff.mp hr
    exact ⟨rfl, rfl⟩
  | cons p ps ih =>
    rcases settlePass_cons_returns hr with ⟨_, others, rfl, hpass⟩ | ⟨_, d, hpass⟩
    · obtain ⟨rfl, rfl⟩ := ih (Nat.succ_inj.mp hlen) hpass
      exact ⟨rfl, rfl⟩
    · have hle := settlePass_length hpass
      simp only [List.length_cons] at hlen
      omega

theorem settleRound_of_progress (h : (settlePass ps).result c = (.ok rest, c'))
    (hlen : rest.length < ps.length) : (settleRound ps).result c = (.ok rest, c') := by
  rw [settleRound, result_bind_of_ok h]
  cases rest with
  | nil => rfl
  | cons oldest others =>
    simp only [List.length_cons] at hlen
    simp only [if_neg (Nat.ne_of_lt hlen)]
    rfl

theorem settleRound_of_stalled (h : (settlePass (p :: ps)).result c = (.ok (p :: ps), c)) :
    (settleRound (p :: ps)).result c = (defaultOperand p >>= fun _ => pure (p :: ps)).result c := by
  rw [settleRound, result_bind_of_ok h]
  simp

theorem settleAll_of_fault {err : TypeError} (h : (settlePass ps).result c = (.error err, c')) :
    (settleAll ps).result c = (.error err, c') := by
  cases ps with
  | nil => cases h
  | cons p ps => rw [settleAll_cons, settleRound, bind_assoc, result_bind_of_error h]

/-- Whether a pass gets on or not, settling after it ends as settling before it. -/
theorem settleAll_of_settlePass (h : (settlePass ps).result c = (.ok rest, c')) :
    (settleAll ps).result c = (settleAll rest).result c' := by
  rcases Nat.lt_or_eq_of_le (settlePass_result_length h) with hlt | heq
  · cases ps with
    | nil => cases hlt
    | cons p ps =>
      rw [settleAll_cons, result_bind_of_ok (settleRound_of_progress h hlt)]
  · obtain ⟨rfl, rfl⟩ := settlePass_stalled h heq
    rfl

theorem settleAll_of_stalled (h : (settlePass (p :: ps)).result c = (.ok (p :: ps), c)) :
    (settleAll (p :: ps)).result c =
      (defaultOperand p >>= fun _ => settleAll (p :: ps)).result c := by
  have hround := settleRound_of_stalled h
  rw [settleAll_cons]
  rcases hp : (defaultOperand p).result c with ⟨_ | _, c'⟩
  · rw [result_bind_of_error hp] at hround ⊢
    rw [result_bind_of_error hround]
  · rw [result_bind_of_ok hp] at hround ⊢
    rw [result_bind_of_ok hround]
    rfl

/-- What follows for a state and its projections from the same for what a pass or a default leaves
behind, that holds of all. -/
theorem settling_induction {P : List ProjectionPremise → Checker → Prop}
    (step : ∀ ps c,
      (∀ rest c', (settlePass ps).result c = (.ok rest, c') → rest.length < ps.length →
        P rest c') →
      (∀ p others c', ps = p :: others → (settlePass ps).result c = (.ok ps, c) →
        (defaultOperand p).result c = (.ok (), c') → P ps c') → P ps c)
    (ps : List ProjectionPremise) (c : Checker) : P ps c := by
  have hnil : ∀ c, P [] c := fun c =>
    step [] c (fun _ _ _ hlen => absurd hlen (Nat.not_lt_zero _))
      fun _ _ _ hps => absurd hps.symm (List.cons_ne_nil _ _)
  -- By induction on the number of passes that are enough.
  have hall : ∀ n ps c, Finishes n ps c → P ps c := by
    intro n
    induction n with
    | zero =>
      intro ps c h
      cases ps with
      | nil => exact hnil c
      | cons p ps => exact absurd rfl (h p ps)
    | succ n ih =>
      intro ps c h
      cases ps with
      | nil => exact hnil c
      | cons p ps =>
        refine step (p :: ps) c (fun rest c' hpass hlen => ?_) fun q others c' hps hpass hq => ?_
        · exact ih rest c' (h.of_round (settleRound_of_progress hpass hlen))
        · obtain ⟨rfl, rfl⟩ := List.cons.inj hps
          refine ih (p :: ps) c' (h.of_round ?_)
          rw [settleRound_of_stalled hpass, result_bind_of_ok hq]
          rfl
  exact hall _ ps c (finishes_two_mul_length ps c)

end CellCalculus
