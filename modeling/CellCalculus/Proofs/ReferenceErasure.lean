import CellCalculus.Proofs.Erasure

/-!
# References have no part in a run

Where references are over variables and values only, a step either contracts a reference to a value,
which the erasure does not see, or does what the step of the erased configuration does. Contracting
a reference makes the expression smaller, so a run cannot go on with these steps alone, and the run
and the erased one come to the same end or go on for ever both.
-/

namespace CellCalculus

/-- Whether an expression that is a reference is one to a variable or to a value. -/
def Expr.bareRef : Expr → Bool
  | .ref (.var _) | .ref (.val _) => true
  | .ref _ => false
  | _ => true

/-- Whether all references inside are to variables or values, closures and other values included. -/
def Expr.bareRefs (e : Expr) : Bool := e.everywhere Expr.bareRef

theorem shallow_bareRef : Shallow Expr.bareRef where
  fill F d d' := by cases F <;> rfl
  subst {d} x v hd hne := by
    cases d with
    | ref a =>
      cases a with
      | var y =>
        rw [Expr.subst, Expr.subst]
        split <;> rfl
      | val w => rfl
      | _ => cases hd
    | var y =>
      rw [Expr.subst]
      split <;> rfl
    | fn self param body =>
      rw [Expr.subst]
      split <;> rfl
    | _ => rfl

theorem stepInvariant_bareRefs : StepInvariant fun _ e => e.bareRefs = true where
  mono _ h := h
  framewise _ := shallow_bareRef.framewise rfl
  closure h := h
  apply hfunc hv := shallow_bareRef.everywhere_apply hfunc hv
  unop hu := by
    obtain ⟨l, rfl⟩ := UnaryOp.exists_lit_of_eval_ok hu
    rfl
  binop _ hu := by
    obtain ⟨l, rfl⟩ := BinaryOp.exists_lit_of_eval_ok hu
    rfl
  branches h := Expr.everywhere_branches h
  reference h := h
  pair := by simp [Expr.bareRefs, Expr.everywhere, Val.everywhere, Expr.bareRef]
  address _ := rfl

theorem Context.sizeOf_fill_lt (K : Context) {d d' : Expr} (hd : sizeOf d < sizeOf d') :
    sizeOf (K.fill d) < sizeOf (K.fill d') := by
  induction K generalizing d d' with
  | nil => exact hd
  | cons F K ih =>
    refine ih ?_
    cases F <;> simp only [Frame.fill, Expr.app.sizeOf_spec, Expr.unop.sizeOf_spec,
      Expr.binop.sizeOf_spec, Expr.ite.sizeOf_spec, Expr.pair.sizeOf_spec, Expr.record.sizeOf_spec,
      Expr.fst.sizeOf_spec, Expr.snd.sizeOf_spec, Expr.alloc.sizeOf_spec, Expr.free.sizeOf_spec,
      Expr.load.sizeOf_spec, Expr.store.sizeOf_spec] <;> omega

/-- Whether the next redex is a reference that contracts. -/
def Expr.atReference (e : Expr) : Bool :=
  match decompose e with
  | .redex _ (.ref (.val _)) => true
  | _ => false

/-- How many of the first `n` steps contract a reference. -/
def refSteps : Nat → Expr → Heap → Nat
  | 0, _, _ => 0
  | n + 1, e, h =>
      match step e h with
      | (.next e', h') => (if e.atReference then 1 else 0) + refSteps n e' h'
      | _ => 0

theorem refSteps_succ_of_step {e e' : Expr} {h h' : Heap} (n : Nat)
    (hs : step e h = (.next e', h')) :
    refSteps (n + 1) e h = (if e.atReference then 1 else 0) + refSteps n e' h' := by
  simp only [refSteps, hs]

theorem Expr.atReference_iff {e : Expr} :
    e.atReference = true ↔ ∃ K v, decompose e = .redex K (.ref (.val v)) := by
  constructor
  · intro hat
    unfold atReference at hat
    split at hat
    · next K v hd => exact ⟨K, v, hd⟩
    · cases hat
  · rintro ⟨K, v, hd⟩
    rw [atReference, hd]

/-- A step that contracts a reference is lost in the erasure. -/
theorem step_of_atReference {e : Expr} (h : Heap) (hat : e.atReference = true) :
    ∃ e', step e h = (.next e', h) ∧ e'.erase .refs = e.erase .refs ∧ sizeOf e' < sizeOf e := by
  obtain ⟨K, v, hd⟩ := Expr.atReference_iff.mp hat
  refine ⟨K.fill (.val v), ?_, ?_, ?_⟩
  · simp only [step, hd, headStep_expr Contracts.ref.contract_eq]
  · rw [← fill_decompose hd, Context.erase_fill, Context.erase_fill]
    rfl
  · rw [← fill_decompose hd]
    refine K.sizeOf_fill_lt ?_
    rw [Expr.ref.sizeOf_spec]
    omega

section Lockstep

variable {e : Expr} (he : e.bareRefs = true)

include he

theorem bareRef_of_decompose {K : Context} {a : Expr} (hd : decompose e = .redex K (.ref a)) :
    (Expr.ref a).bareRef = true :=
  (Bool.and_eq_true_iff.mp ((stepInvariant_bareRefs.framewise 0).redex hd he)).1

theorem keeps_refs_of_not_atReference (hat : e.atReference = false) {K : Context} {r : Expr}
    (hd : decompose e = .redex K r) : Erasure.refs.Keeps r := by
  rintro - a rfl
  have hbare := bareRef_of_decompose he hd
  cases a with
  | var x => exact ⟨x, rfl⟩
  | val v => exact absurd (Expr.atReference_iff.mpr ⟨K, v, hd⟩) (Bool.eq_false_iff.mp hat)
  | _ => cases hbare

/-- Any other step is one of the erased configuration too. -/
theorem step_erase_refs (h : Heap) (hat : e.atReference = false) :
    step (e.erase .refs) (h.erase .refs) =
      ((step e h).1.erase .refs, (step e h).2.erase .refs) :=
  step_erase h fun _ _ hd => keeps_refs_of_not_atReference he hat hd

theorem step_ne_malformedReference {d a : Expr} {h : Heap} :
    (step e h).1 ≠ .stuck d (.malformedReference a) := by
  intro hs
  obtain ⟨K, r, hd, hr | ⟨c, cause, -, -, hcause⟩⟩ := refuses_of_step_stuck hs
  · cases hr with
    | @ref a ha hvar =>
      have hbare := bareRef_of_decompose he hd
      cases a with
      | var x => exact hvar x rfl
      | val v => cases ha
      | _ => cases hbare
  · cases cause <;> cases hcause

end Lockstep

theorem exists_not_atReference (e : Expr) (h : Heap) : ∃ m e', configAfter m e h = some (e', h) ∧
    e'.erase .refs = e.erase .refs ∧ e'.atReference = false := by
  induction hsize : sizeOf e using Nat.strongRecOn generalizing e with
  | ind n ih =>
    cases hat : e.atReference with
    | false => exact ⟨0, e, rfl, rfl, hat⟩
    | true =>
      obtain ⟨e₁, hs, herase, hlt⟩ := step_of_atReference h hat
      obtain ⟨m, e', hc, herase', hat'⟩ := ih (sizeOf e₁) (hsize ▸ hlt) e₁ rfl
      exact ⟨m + 1, e', (configAfter_succ_of_step m hs).trans hc, herase'.trans herase, hat'⟩

section Runs

variable {n : Nat} {e e' : Expr} {h h' : Heap} (he : e.bareRefs = true)
  (hh : h.All fun v => (Expr.val v).bareRefs = true)

include he hh

theorem configAfter_erase_refs (hc : configAfter n e h = some (e', h')) :
    ∃ m, n = m + refSteps n e h ∧
      configAfter m (e.erase .refs) (h.erase .refs) = some (e'.erase .refs, h'.erase .refs) := by
  induction n generalizing e h with
  | zero =>
    cases hc
    exact ⟨0, rfl, rfl⟩
  | succ n ih =>
    obtain ⟨e₁, h₁, hs, hrest⟩ := configAfter_succ hc
    obtain ⟨he₁, hh₁⟩ := stepInvariant_bareRefs.step he hh hs
    obtain ⟨m, hm, hc₁⟩ := ih he₁ hh₁ hrest
    have hcount := refSteps_succ_of_step n hs
    cases hat : e.atReference with
    | true =>
      obtain ⟨e₂, hs₂, herase, -⟩ := step_of_atReference h hat
      obtain ⟨⟨⟩, rfl⟩ := Prod.mk.inj (hs.symm.trans hs₂)
      rw [hat, if_pos rfl] at hcount
      exact ⟨m, by omega, herase ▸ hc₁⟩
    | false =>
      have hstep := step_erase_refs he h hat
      rw [hs] at hstep
      rw [hat, if_neg Bool.false_ne_true] at hcount
      exact ⟨m + 1, by omega, (configAfter_succ_of_step m hstep).trans hc₁⟩

theorem EndsAfter.erase_refs {s : Step} (hend : EndsAfter n e h s h') :
    ∃ m, n = m + refSteps n e h ∧
      EndsAfter m (e.erase .refs) (h.erase .refs) (s.erase .refs) (h'.erase .refs) := by
  obtain ⟨e', hc, hs, hlast⟩ := hend
  obtain ⟨m, hm, hcm⟩ := configAfter_erase_refs he hh hc
  have hat : e'.atReference = false := by
    refine Bool.eq_false_iff.mpr fun hat => ?_
    obtain ⟨e₁, hs₁, -⟩ := step_of_atReference h' hat
    obtain ⟨rfl, -⟩ := Prod.mk.inj (hs.symm.trans hs₁)
    cases hlast
  have hstep := step_erase_refs (stepInvariant_bareRefs.configAfter he hh hc).1 h' hat
  rw [hs] at hstep
  refine ⟨m, hm, _, hcm, hstep, ?_⟩
  cases s with
  | next d => cases hlast
  | value _ | stuck _ _ => rfl

/-- Between two contractions of references the run takes a step that is left by the erasure. -/
theorem RunsForever.erase_refs (hforever : RunsForever e h) :
    RunsForever (e.erase .refs) (h.erase .refs) := by
  intro m
  induction m generalizing e h with
  | zero => rfl
  | succ m ih =>
    obtain ⟨k, e₁, hc₁, herase, hat⟩ := exists_not_atReference e h
    have he₁ := (stepInvariant_bareRefs.configAfter he hh hc₁).1
    have hforever₁ := hforever.configAfter hc₁
    obtain ⟨⟨e₂, h₂⟩, hc₂⟩ := Option.isSome_iff_exists.mp (hforever₁ 1)
    obtain ⟨e₂, h₂, hs, ⟨⟩⟩ := configAfter_succ hc₂
    obtain ⟨he₂, hh₂⟩ := stepInvariant_bareRefs.step he₁ hh hs
    have hstep := step_erase_refs he₁ h hat
    rw [hs] at hstep
    rw [← herase, configAfter_succ_of_step m hstep]
    exact ih he₂ hh₂ (hforever₁.configAfter hc₂)

end Runs

/-- How the run of `e` from `h` compares with the one of their erasures. -/
structure RunsErased (e : Expr) (h : Heap) : Prop where
  /-- What the run passes, the erased run passes with the contractions of references left out. -/
  config : ∀ n e' h', configAfter n e h = some (e', h') → ∃ m, n = m + refSteps n e h ∧
    configAfter m (e.erase .refs) (h.erase .refs) = some (e'.erase .refs, h'.erase .refs)
  ends : ∀ n s h', EndsAfter n e h s h' → ∃ m, n = m + refSteps n e h ∧
    EndsAfter m (e.erase .refs) (h.erase .refs) (s.erase .refs) (h'.erase .refs)
  endsErased : ∀ m t g, EndsAfter m (e.erase .refs) (h.erase .refs) t g →
    ∃ n s h', EndsAfter n e h s h' ∧ n = m + refSteps n e h ∧ t = s.erase .refs ∧
      g = h'.erase .refs
  notMalformed : ∀ n d a h', ¬EndsAfter n e h (.stuck d (.malformedReference a)) h'
  forever : RunsForever e h ↔ RunsForever (e.erase .refs) (h.erase .refs)

/-- With its references erased a program comes to the erased end, in as many steps less as it
contracts references, or goes on for ever as before. -/
theorem runs_erased {e : Expr} {h : Heap} (he : e.bareRefs = true)
    (hh : h.All fun v => (Expr.val v).bareRefs = true) : RunsErased e h := by
  constructor
  case config => exact fun n e' h' hc => configAfter_erase_refs he hh hc
  case ends => exact fun n s h' hend => hend.erase_refs he hh
  case endsErased =>
    intro m t g herased
    rcases runsForever_or_endsAfter e h with hforever | ⟨n, s, h', hend⟩
    · exact absurd herased (runsForever_iff.mp (hforever.erase_refs he hh) m t g)
    · obtain ⟨k, hk, hend'⟩ := hend.erase_refs he hh
      obtain ⟨rfl, rfl, rfl⟩ := herased.unique hend'
      exact ⟨n, s, h', hend, hk, rfl, rfl⟩
  case notMalformed =>
    rintro n d a h' ⟨e', hc, hs, -⟩
    have he' := (stepInvariant_bareRefs.configAfter he hh hc).1
    exact step_ne_malformedReference he' (congrArg Prod.fst hs)
  case forever =>
    refine ⟨fun hforever => hforever.erase_refs he hh, fun hforever => ?_⟩
    refine runsForever_iff.mpr fun n s h' hend => ?_
    obtain ⟨m, -, hend'⟩ := hend.erase_refs he hh
    exact runsForever_iff.mp hforever m _ _ hend'

/-- A function in the first cell is applied to a number, beside one more number; `mark` stands over
what makes a reference. -/
def calledBeside (mark : Expr → Expr) : Expr :=
  .pair .ref (.app (.load (.val (.loc ⟨0⟩))) (.int 5)) (mark (.int 1))

/-- A heap with a function that adds its argument to itself. -/
def doubling (mark : Expr → Expr) : Heap :=
  ⟨#[some (.closure .anon (.named "x") (.binop .plus (mark (.var "x")) (mark (.var "x"))))]⟩

/-- The references to the parameter become references to a value once it is put in: with them and
the one in the program the run takes three steps more. -/
theorem calledBeside_runs_erased :
    (calledBeside .ref).bareRefs = true ∧
      ((doubling .ref).All fun v => (Expr.val v).bareRefs = true) ∧
      (calledBeside .ref).erase .refs = calledBeside id ∧
      (doubling .ref).erase .refs = doubling id ∧
      EndsAfter 7 (calledBeside .ref) (doubling .ref) (.value (.pair .ref (.int 10) (.int 1)))
        (doubling .ref) ∧
      refSteps 7 (calledBeside .ref) (doubling .ref) = 3 ∧
      EndsAfter 4 (calledBeside id) (doubling id) (.value (.pair .ref (.int 10) (.int 1)))
        (doubling id) := by
  have he : (calledBeside .ref).bareRefs = true := by decide
  have hh : (doubling .ref).All fun v => (Expr.val v).bareRefs = true :=
    Heap.All.single (by decide)
  have hheap : (doubling .ref).erase .refs = doubling id := by
    simp [Heap.erase, doubling, Val.erase, Expr.erase, Erasure.ref]
  have hend : EndsAfter 7 (calledBeside .ref) (doubling .ref)
      (.value (.pair .ref (.int 10) (.int 1))) (doubling .ref) :=
    endsAfter_value_iff.mpr (by decide)
  have hcount : refSteps 7 (calledBeside .ref) (doubling .ref) = 3 := by decide
  obtain ⟨m, hm, herased⟩ := (runs_erased he hh).ends 7 _ _ hend
  obtain rfl : m = 4 := by omega
  rw [hheap] at herased
  exact ⟨he, hh, rfl, hheap, hend, hcount, herased⟩

end CellCalculus
