import CellCalculus.Proofs.CountedRuns
import CellCalculus.Proofs.RedexSteps

/-!
# Natural semantics

The evaluator runs an expression by recursion on its syntax and counts the head rules on the way. Of
two operands it runs the second one first, of a conditional the condition alone, and nothing under a
binder; then it applies the head rule to the values and evaluates what the rule gives. How deep
these evaluations nest is bounded by a number, and an answer within one bound is the answer within
every larger one. A step of the machine takes one head rule off an evaluation
(`evaluates_iff_of_step_next`), so the machine and the evaluator come to the same end after the same
number of rules.
-/

namespace CellCalculus

/-- The end of an evaluation. -/
@[ext] structure Evaluation where
  answer : Except StuckError Val
  heap : Heap
  /-- The head rules applied on the way. -/
  rules : Nat

namespace Evaluation

/-- The same end after so many further rules. -/
def after (n : Nat) (r : Evaluation) : Evaluation := { r with rules := n + r.rules }

/-- Goes on from the value, unless there is none. -/
def andThen (m : Option Evaluation) (k : Val → Heap → Option Evaluation) : Option Evaluation :=
  match m with
  | some ⟨.ok v, h, n⟩ => (k v h).map (after n)
  | some ⟨.error err, h, n⟩ => some ⟨.error err, h, n⟩
  | none => none

end Evaluation

open Evaluation

abbrev Evaluator := Expr → Heap → Option Evaluation

/-- Applies the head rule and evaluates what it gives by `next`. -/
def contractWith (next : Evaluator) (r : Expr) (h : Heap) : Option Evaluation :=
  match headStep r h with
  | (.ok e, h') => (next e h').map (after 1)
  | (.error err, h') => some ⟨.error err, h', 0⟩

/-- Runs both operands, the second one first, and then contracts what `mk` makes of their values. -/
def operandsWith (next : Evaluator) (mk : Expr → Expr → Expr)
    (first second : Heap → Option Evaluation) (h : Heap) : Option Evaluation :=
  andThen (second h) fun w h => andThen (first h) fun v h =>
    contractWith next (mk (.val v) (.val w)) h

def operandWith (next : Evaluator) (mk : Expr → Expr) (run : Heap → Option Evaluation) (h : Heap) :
    Option Evaluation :=
  andThen (run h) fun v h => contractWith next (mk (.val v)) h

/-- Evaluates by recursion on the syntax, and by `next` what the head rules give. -/
def evaluateWith (next : Evaluator) : Evaluator
  | .val v => fun h => some ⟨.ok v, h, 0⟩
  | .var x => contractWith next (.var x)
  | .fn self param body => contractWith next (.fn self param body)
  | .ref e => contractWith next (.ref e)
  | .app e₁ e₂ => operandsWith next .app (evaluateWith next e₁) (evaluateWith next e₂)
  | .binop op e₁ e₂ =>
      operandsWith next (.binop op) (evaluateWith next e₁) (evaluateWith next e₂)
  | .pair tag e₁ e₂ =>
      operandsWith next (.pair tag) (evaluateWith next e₁) (evaluateWith next e₂)
  | .record e₁ e₂ => operandsWith next .record (evaluateWith next e₁) (evaluateWith next e₂)
  | .alloc e₁ e₂ => operandsWith next .alloc (evaluateWith next e₁) (evaluateWith next e₂)
  | .store e₁ e₂ => operandsWith next .store (evaluateWith next e₁) (evaluateWith next e₂)
  | .ite c t f => operandWith next (.ite · t f) (evaluateWith next c)
  | .unop op e => operandWith next (.unop op) (evaluateWith next e)
  | .fst e => operandWith next .fst (evaluateWith next e)
  | .snd e => operandWith next .snd (evaluateWith next e)
  | .free e => operandWith next .free (evaluateWith next e)
  | .load e => operandWith next .load (evaluateWith next e)

/-- Evaluates with head rules nested to a bounded depth; no answer means that the bound is too
low. -/
def evaluate : Nat → Evaluator
  | 0 => fun _ _ => none
  | n + 1 => evaluateWith (evaluate n)

/-- The evaluation of `e` on the heap `h` comes to the end `r`. -/
def Evaluates (e : Expr) (h : Heap) (r : Evaluation) : Prop := ∃ n, evaluate n e h = some r

namespace Evaluation

@[simp] theorem after_zero (r : Evaluation) : r.after 0 = r := by
  simp [after]

theorem after_after (m n : Nat) (r : Evaluation) : (r.after n).after m = r.after (m + n) := by
  simp [after, Nat.add_assoc]

@[simp] theorem andThen_none (k : Val → Heap → Option Evaluation) : andThen none k = none := rfl

@[simp] theorem andThen_error (err : StuckError) (h : Heap) (n : Nat)
    (k : Val → Heap → Option Evaluation) :
    andThen (some ⟨.error err, h, n⟩) k = some ⟨.error err, h, n⟩ := rfl

@[simp] theorem andThen_ok (v : Val) (h : Heap) (n : Nat) (k : Val → Heap → Option Evaluation) :
    andThen (some ⟨.ok v, h, n⟩) k = (k v h).map (after n) := rfl

theorem andThen_value (v : Val) (h : Heap) (k : Val → Heap → Option Evaluation) :
    andThen (some ⟨.ok v, h, 0⟩) k = k v h := by
  cases hk : k v h <;> simp [hk]

theorem andThen_answer (m : Option Evaluation) :
    andThen m (fun v h => some ⟨.ok v, h, 0⟩) = m := by
  rcases m with _ | ⟨_ | v, h, n⟩ <;> simp [after]

theorem andThen_map_after (n : Nat) (m : Option Evaluation) (k : Val → Heap → Option Evaluation) :
    andThen (m.map (after n)) k = (andThen m k).map (after n) := by
  rcases m with _ | ⟨err | v, h, i⟩
  · rfl
  · rfl
  · change (k v h).map (after (n + i)) = ((k v h).map (after i)).map (after n)
    rw [Option.map_map]
    congr 1
    funext r
    exact (after_after n i r).symm

theorem andThen_assoc (m : Option Evaluation) (k l : Val → Heap → Option Evaluation) :
    andThen (andThen m k) l = andThen m fun v h => andThen (k v h) l := by
  rcases m with _ | ⟨err | v, h, n⟩
  · rfl
  · rfl
  · rw [andThen_ok, andThen_ok, andThen_map_after]

/-- What is answered stays answered when both parts answer more. -/
theorem andThen_mono {m m' : Option Evaluation} {k k' : Val → Heap → Option Evaluation}
    (hm : ∀ r, m = some r → m' = some r) (hk : ∀ v h r, k v h = some r → k' v h = some r)
    {r : Evaluation} (hr : andThen m k = some r) : andThen m' k' = some r := by
  rcases m with _ | ⟨err | v, h, n⟩
  · cases hr
  · rw [hm _ rfl]
    exact hr
  · rw [hm _ rfl]
    obtain ⟨q, hq, rfl⟩ := Option.map_eq_some_iff.mp hr
    rw [andThen_ok, hk v h q hq]
    rfl

end Evaluation

/-- The operand in the hole of a frame runs before everything else in the frame. -/
theorem evaluateWith_frame (next : Evaluator) (F : Frame) (e : Expr) (h : Heap) :
    evaluateWith next (F.fill e) h =
      andThen (evaluateWith next e h) fun v h => evaluateWith next (F.fill (.val v)) h := by
  cases F <;> simp only [Frame.fill, evaluateWith, operandsWith, operandWith, andThen_value]

theorem evaluateWith_fill (next : Evaluator) (K : Context) (e : Expr) (h : Heap) :
    evaluateWith next (K.fill e) h =
      andThen (evaluateWith next e h) fun v h => evaluateWith next (K.fill (.val v)) h := by
  induction K generalizing e h with
  | nil => exact (andThen_answer _).symm
  | cons F K ih =>
    have hhole : (fun v h => evaluateWith next (Context.fill (F :: K) (.val v)) h) =
        fun v h => andThen (evaluateWith next (F.fill (.val v)) h) fun v h =>
          evaluateWith next (Context.fill K (.val v)) h := by
      funext v h
      exact ih (F.fill (.val v)) h
    rw [Context.fill_cons, ih, evaluateWith_frame, andThen_assoc, hhole]

theorem evaluateWith_redex (next : Evaluator) {r : Expr} (hr : r.isRedex = true) (h : Heap) :
    evaluateWith next r h = contractWith next r h := by
  cases r with
  | val v => cases hr
  | var _ | fn _ _ _ | ref _ => rfl
  | app e₁ e₂ | binop _ e₁ e₂ | pair _ e₁ e₂ | record e₁ e₂ | alloc e₁ e₂ | store e₁ e₂ =>
    obtain ⟨v, w, rfl, rfl⟩ := Expr.values_of_both hr
    simp only [evaluateWith, operandsWith, andThen_value]
  | ite e _ _ | unop _ e | fst e | snd e | free e | load e =>
    obtain ⟨v, rfl⟩ := Expr.isValue_iff.mp hr
    simp only [evaluateWith, operandWith, andThen_value]

/-- The redex that the machine finds is the first one that the evaluator contracts. -/
theorem evaluateWith_of_decompose (next : Evaluator) {e r : Expr} {K : Context}
    (hd : decompose e = .redex K r) (h : Heap) :
    evaluateWith next e h =
      andThen (contractWith next r h) fun v h => evaluateWith next (K.fill (.val v)) h := by
  rw [← fill_decompose hd, evaluateWith_fill, evaluateWith_redex next (isRedex_of_decompose hd)]

/-- More answers from `next` make for more answers. -/
theorem evaluateWith_mono {next next' : Evaluator}
    (hnext : ∀ e h r, next e h = some r → next' e h = some r) (e : Expr) (h : Heap) (r : Evaluation)
    (hr : evaluateWith next e h = some r) : evaluateWith next' e h = some r := by
  have hcontract : ∀ e h r, contractWith next e h = some r → contractWith next' e h = some r := by
    intro e h r hr
    unfold contractWith at hr ⊢
    split at hr
    · obtain ⟨q, hq, rfl⟩ := Option.map_eq_some_iff.mp hr
      rw [hnext _ _ q hq]
      rfl
    · exact hr
  induction e generalizing h r with
  | val v => exact hr
  | var _ | fn _ _ _ _ | ref _ _ => exact hcontract _ _ _ hr
  | app _ _ ih₁ ih₂ | binop _ _ _ ih₁ ih₂ | pair _ _ _ ih₁ ih₂ | record _ _ ih₁ ih₂
  | alloc _ _ ih₁ ih₂ | store _ _ ih₁ ih₂ =>
    exact andThen_mono (ih₂ h) (fun w h _ hq => andThen_mono (ih₁ h)
      (fun v h _ => hcontract _ h _) hq) hr
  | ite _ _ _ ih _ _ => exact andThen_mono (ih h) (fun v h _ => hcontract _ h _) hr
  | unop _ _ ih | fst _ ih | snd _ ih | free _ ih | load _ ih =>
    exact andThen_mono (ih h) (fun v h _ => hcontract _ h _) hr

theorem evaluate_mono (n : Nat) (e : Expr) (h : Heap) (r : Evaluation)
    (hr : evaluate n e h = some r) : evaluate (n + 1) e h = some r := by
  induction n generalizing e h r with
  | zero => cases hr
  | succ n ih => exact evaluateWith_mono ih e h r hr

theorem evaluates_val_iff {v : Val} {h : Heap} {r : Evaluation} :
    Evaluates (.val v) h r ↔ r = ⟨.ok v, h, 0⟩ := by
  constructor
  · rintro ⟨n, hr⟩
    cases n with
    | zero => cases hr
    | succ n => exact (Option.some.inj hr).symm
  · rintro rfl
    exact ⟨1, rfl⟩

theorem evaluates_iff_of_step_stuck {e e' : Expr} {h h' : Heap} {err : StuckError} {r : Evaluation}
    (hs : step e h = (.stuck e' err, h')) : Evaluates e h r ↔ r = ⟨.error err, h', 0⟩ := by
  obtain ⟨K, redex, hd, hredex⟩ := contracts_of_step_stuck hs
  have heval : ∀ n, evaluate (n + 1) e h = some ⟨.error err, h', 0⟩ := by
    intro n
    rw [evaluate, evaluateWith_of_decompose _ hd, contractWith, hredex]
    rfl
  constructor
  · rintro ⟨n, hr⟩
    cases n with
    | zero => cases hr
    | succ n => exact Option.some.inj (hr.symm.trans (heval n))
  · rintro rfl
    exact ⟨1, heval 0⟩

/-- A step takes one head rule off the evaluation. -/
theorem evaluates_iff_of_step_next {e e' : Expr} {h h' : Heap} {r : Evaluation}
    (hs : step e h = (.next e', h')) :
    Evaluates e h r ↔ ∃ q, Evaluates e' h' q ∧ r = q.after 1 := by
  obtain ⟨K, redex, e₁, hd, hredex, rfl⟩ := contracts_of_step_next hs
  -- What is left to do in the context, once the contracted redex has run to a value.
  let rest (n : Nat) (v : Val) (h : Heap) := evaluate n (K.fill (.val v)) h
  have hbefore : ∀ n, evaluate (n + 1) e h =
      (andThen (evaluate n e₁ h') (rest (n + 1))).map (Evaluation.after 1) := by
    intro n
    rw [evaluate, evaluateWith_of_decompose _ hd, contractWith, hredex]
    exact andThen_map_after 1 (evaluate n e₁ h') (rest (n + 1))
  have hafter : ∀ n, evaluate (n + 1) (K.fill e₁) h' =
      andThen (evaluate (n + 1) e₁ h') (rest (n + 1)) :=
    fun n => evaluateWith_fill (evaluate n) K e₁ h'
  constructor
  · rintro ⟨n, hr⟩
    cases n with
    | zero => cases hr
    | succ n =>
      rw [hbefore] at hr
      obtain ⟨q, hq, rfl⟩ := Option.map_eq_some_iff.mp hr
      refine ⟨q, ⟨n + 1, ?_⟩, rfl⟩
      rw [hafter]
      exact andThen_mono (evaluate_mono n e₁ h') (fun _ _ _ hk => hk) hq
  · rintro ⟨q, ⟨n, hq⟩, rfl⟩
    cases n with
    | zero => cases hq
    | succ n =>
      rw [hafter] at hq
      have hmore := andThen_mono (fun _ hr => hr)
        (fun v h q hk => evaluate_mono (n + 1) (K.fill (.val v)) h q hk) hq
      refine ⟨n + 2, ?_⟩
      rw [hbefore]
      exact congrArg _ hmore

/-- The step that shows the configuration to be at its end. -/
def lastStep (e : Expr) : Except StuckError Val → Step
  | .ok v => .value v
  | .error err => .stuck e err

theorem step_eq_lastStep_or_next (e : Expr) (h : Heap) :
    (∃ answer, step e h = (lastStep e answer, h)) ∨ ∃ e' h', step e h = (.next e', h') := by
  cases hs : step e h with
  | mk s h' =>
    cases s with
    | next e' => exact .inr ⟨e', h', rfl⟩
    | value v =>
      have hh := (step_value (congrArg Prod.fst hs)).2
      rw [hs] at hh
      exact .inl ⟨.ok v, congrArg (Prod.mk _) hh⟩
    | stuck e' err =>
      obtain ⟨rfl, hh⟩ := step_stuck (congrArg Prod.fst hs)
      rw [hs] at hh
      exact .inl ⟨.error err, congrArg (Prod.mk _) hh⟩

theorem evaluates_iff_of_lastStep {e : Expr} {h : Heap} {answer : Except StuckError Val}
    {r : Evaluation} (hs : step e h = (lastStep e answer, h)) :
    Evaluates e h r ↔ r = ⟨answer, h, 0⟩ := by
  cases answer with
  | ok v =>
    obtain ⟨rfl, -⟩ := step_value (congrArg Prod.fst hs)
    exact evaluates_val_iff
  | error err => exact evaluates_iff_of_step_stuck hs

theorem lastStep_ne_next {e e' : Expr} (answer : Except StuckError Val) :
    lastStep e answer ≠ .next e' := by
  cases answer <;> simp [lastStep]

theorem lastStep_inj {e : Expr} {answer answer' : Except StuckError Val} :
    lastStep e answer = lastStep e answer' ↔ answer = answer' := by
  cases answer <;> cases answer' <;> simp [lastStep]

/-- By induction on the number of steps, for all configurations to start from. -/
theorem evaluates_iff_configAfter (k : Nat) (e : Expr) (h h' : Heap)
    (answer : Except StuckError Val) :
    Evaluates e h ⟨answer, h', k⟩ ↔
      ∃ e', configAfter k e h = some (e', h') ∧ step e' h' = (lastStep e' answer, h') := by
  induction k generalizing e h with
  | zero =>
    rcases step_eq_lastStep_or_next e h with ⟨found, hs⟩ | ⟨e₁, h₁, hs⟩
    · rw [evaluates_iff_of_lastStep hs]
      constructor
      · intro hr
        cases hr
        exact ⟨e, rfl, hs⟩
      · rintro ⟨e', hc, hlast⟩
        cases hc
        rw [hs] at hlast
        rw [lastStep_inj.mp (congrArg Prod.fst hlast)]
    · rw [evaluates_iff_of_step_next hs]
      constructor
      · rintro ⟨q, -, hr⟩
        have hrules := congrArg Evaluation.rules hr
        simp only [after] at hrules
        omega
      · rintro ⟨e', hc, hlast⟩
        cases hc
        rw [hs] at hlast
        exact absurd (congrArg Prod.fst hlast).symm (lastStep_ne_next answer)
  | succ k ih =>
    rcases step_eq_lastStep_or_next e h with ⟨found, hs⟩ | ⟨e₁, h₁, hs⟩
    · rw [evaluates_iff_of_lastStep hs]
      constructor
      · intro hr
        cases hr
      · rintro ⟨e', hc, -⟩
        obtain ⟨e₁, h₁, hnext, -⟩ := configAfter_succ hc
        rw [hs] at hnext
        exact absurd (congrArg Prod.fst hnext) (lastStep_ne_next found)
    · rw [evaluates_iff_of_step_next hs, configAfter_succ_of_step k hs, ← ih e₁ h₁]
      constructor
      · rintro ⟨⟨a, heap, n⟩, hq, hr⟩
        simp only [after, Evaluation.mk.injEq] at hr
        obtain ⟨rfl, rfl, hn⟩ := hr
        obtain rfl : k = n := by omega
        exact hq
      · intro hq
        exact ⟨_, hq, by simp [after, Nat.add_comm]⟩

/-- Running step by step to a value or to an error and evaluating in one go come to the same end, on
the same heap, after as many steps as head rules. -/
theorem configAfter_iff_evaluates (k : Nat) (e : Expr) (h h' : Heap) :
    (∀ v, configAfter k e h = some (.val v, h') ↔ Evaluates e h ⟨.ok v, h', k⟩) ∧
      ∀ err, (∃ e', configAfter k e h = some (e', h') ∧ step e' h' = (.stuck e' err, h')) ↔
        Evaluates e h ⟨.error err, h', k⟩ := by
  refine ⟨fun v => ?_, fun err => (evaluates_iff_configAfter k e h h' (.error err)).symm⟩
  rw [evaluates_iff_configAfter]
  constructor
  · intro hc
    exact ⟨.val v, hc, rfl⟩
  · rintro ⟨e', hc, hlast⟩
    obtain ⟨rfl, -⟩ := step_value (congrArg Prod.fst hlast)
    exact hc

end CellCalculus
