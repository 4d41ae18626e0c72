import Mathlib
import CellCalculus.Proofs.MostGeneralUnifier
import CellCalculus.Proofs.VisitedStates

/-!
# The loop that settles the projections

`Settles n ps c s c'` is the loop without a bound on its passes: from the projections `ps` and the
state `c` it comes after `n` passes to its end `s` and the state `c'`. It always comes to an end,
to only one, and two passes for each projection are enough. When all are settled they hold of the
last substitution, since what a pass equates stays equal. In a tidy state the two variables for the
components of a plain pair are new, so no operand can contain them and every default goes through.
-/

namespace CellCalculus

open Check Substitution

inductive SettlingEnd where
  | settled
  /-- A projection whose operand is no aggregate, or whose component is not what it has to be. -/
  | refused (err : TypeError)
  /-- An operand that cannot be taken to be a plain pair. -/
  | undefaulted (err : TypeError)

def SettlingEnd.answer : SettlingEnd → Except TypeError Unit
  | .settled => .ok ()
  | .refused err | .undefaulted err => .error err

/-- While projections are pending there is another pass, and the oldest operand is taken to be a
plain pair where that pass has kept all of them. -/
inductive Settles : Nat → List ProjectionPremise → Checker → SettlingEnd → Checker → Prop
  | done {c} : Settles 0 [] c .settled c
  | refused {p ps c c' err} : (settlePass (p :: ps)).result c = (.error err, c') →
      Settles 1 (p :: ps) c (.refused err) c'
  | progress {n p ps rest c d s c'} : (settlePass (p :: ps)).result c = (.ok rest, d) →
      rest.length ≠ (p :: ps).length → Settles n rest d s c' → Settles (n + 1) (p :: ps) c s c'
  | undefaulted {p ps oldest others c d err c'} :
      (settlePass (p :: ps)).result c = (.ok (oldest :: others), d) →
      (oldest :: others).length = (p :: ps).length →
      (defaultOperand oldest).result d = (.error err, c') →
      Settles 1 (p :: ps) c (.undefaulted err) c'
  | defaulted {n p ps oldest others c d d' s c'} :
      (settlePass (p :: ps)).result c = (.ok (oldest :: others), d) →
      (oldest :: others).length = (p :: ps).length →
      (defaultOperand oldest).result d = (.ok (), d') → Settles n (oldest :: others) d' s c' →
      Settles (n + 1) (p :: ps) c s c'

variable {n m : Nat} {p : ProjectionPremise} {ps rest : List ProjectionPremise} {c c' d : Checker}
  {s s' : SettlingEnd}

/-- The loop ends as soon as that many passes are enough, and settling answers as it does. -/
theorem Finishes.settles (h : Finishes n ps c) :
    ∃ k ≤ n, ∃ s c', Settles k ps c s c' ∧ (settleAll ps).result c = (s.answer, c') := by
  induction n generalizing ps c with
  | zero =>
    cases ps with
    | nil => exact ⟨0, Nat.le_refl 0, .settled, c, .done, rfl⟩
    | cons p ps => exact absurd rfl (h p ps)
  | succ n ih =>
    cases ps with
    | nil => exact ⟨0, Nat.zero_le _, .settled, c, .done, rfl⟩
    | cons p ps =>
      rcases hpass : (settlePass (p :: ps)).result c with ⟨err | rest, d⟩
      · exact ⟨1, by omega, .refused err, d, .refused hpass, settleAll_of_fault hpass⟩
      · by_cases hlen : rest.length = (p :: ps).length
        · obtain ⟨rfl, rfl⟩ := settlePass_stalled hpass hlen
          have hround := settleRound_of_stalled hpass
          rw [settleAll_of_stalled hpass]
          rcases hdefault : (defaultOperand p).result d with ⟨err | _, d'⟩
          · exact ⟨1, by omega, .undefaulted err, d', .undefaulted hpass hlen hdefault,
              result_bind_of_error hdefault⟩
          · rw [result_bind_of_ok hdefault] at hround ⊢
            obtain ⟨k, hk, s, c', hsettles, hresult⟩ := ih (h.of_round hround)
            exact ⟨k + 1, by omega, s, c', .defaulted hpass hlen hdefault hsettles, hresult⟩
        · have hlt : rest.length < (p :: ps).length :=
            Nat.lt_of_le_of_ne (settlePass_result_length hpass) hlen
          obtain ⟨k, hk, s, c', hsettles, hresult⟩ :=
            ih (h.of_round (settleRound_of_progress hpass hlt))
          rw [settleAll_of_settlePass hpass]
          exact ⟨k + 1, by omega, s, c', .progress hpass hlen hsettles, hresult⟩

namespace Settles

/-- Each pass and each default has one outcome. -/
theorem unique (h : Settles n ps c s c') (h' : Settles m ps c s' d) :
    n = m ∧ s = s' ∧ c' = d := by
  induction h generalizing m with
  | done =>
    cases h'
    exact ⟨rfl, rfl, rfl⟩
  | refused hpass =>
    cases h' with
    | refused hpass' =>
      cases hpass.symm.trans hpass'
      exact ⟨rfl, rfl, rfl⟩
    | progress hpass' | undefaulted hpass' | defaulted hpass' => cases hpass.symm.trans hpass'
  | progress hpass hlen _ ih =>
    cases h' with
    | refused hpass' => cases hpass.symm.trans hpass'
    | progress hpass' _ hrest =>
      cases hpass.symm.trans hpass'
      obtain ⟨rfl, rfl, rfl⟩ := ih hrest
      exact ⟨rfl, rfl, rfl⟩
    | undefaulted hpass' hlen' | defaulted hpass' hlen' =>
      cases hpass.symm.trans hpass'
      exact absurd hlen' hlen
  | undefaulted hpass hlen hdefault =>
    cases h' with
    | refused hpass' => cases hpass.symm.trans hpass'
    | progress hpass' hlen' =>
      cases hpass.symm.trans hpass'
      exact absurd hlen hlen'
    | undefaulted hpass' _ hdefault' =>
      cases hpass.symm.trans hpass'
      cases hdefault.symm.trans hdefault'
      exact ⟨rfl, rfl, rfl⟩
    | defaulted hpass' _ hdefault' =>
      cases hpass.symm.trans hpass'
      cases hdefault.symm.trans hdefault'
  | defaulted hpass hlen hdefault _ ih =>
    cases h' with
    | refused hpass' => cases hpass.symm.trans hpass'
    | progress hpass' hlen' =>
      cases hpass.symm.trans hpass'
      exact absurd hlen hlen'
    | undefaulted hpass' _ hdefault' =>
      cases hpass.symm.trans hpass'
      cases hdefault.symm.trans hdefault'
    | defaulted hpass' _ hdefault' hrest =>
      cases hpass.symm.trans hpass'
      cases hdefault.symm.trans hdefault'
      obtain ⟨rfl, rfl, rfl⟩ := ih hrest
      exact ⟨rfl, rfl, rfl⟩

end Settles

section Settled

/-- What holds of a projection is not lost later. -/
theorem ProjectionPremise.HoldsIn.refine (hp : p.HoldsIn c.subst) (hd : d.Refines c) :
    p.HoldsIn d.subst := by
  obtain ⟨⟨a, b⟩, hcomponents, hresult⟩ := hp
  refine ⟨(d.subst.apply a, d.subst.apply b), ?_, ?_⟩
  · rw [← hd.absorbs]
    exact Ty.components?_apply hcomponents
  · rw [← hd.absorbs, hresult]
    cases p.side <;> rfl

theorem settleProjection_holds
    (hr : (settleProjection p (c.subst.apply p.operand)).Returns c () d)
    (hc : c.subst.Resolved) : p.HoldsIn d.subst := by
  unfold settleProjection at hr
  split at hr
  · next components hcomponents =>
    obtain ⟨a, b⟩ := components
    obtain ⟨r, hunify, rfl⟩ := returns_unifyAt_iff.mp hr
    have hd : Checker.Refines { c with subst := r.compose c.subst } c := .of_unify hc hunify rfl
    refine ⟨((r.compose c.subst).apply a, (r.compose c.subst).apply b), ?_, ?_⟩
    · rw [← hd.absorbs]
      exact Ty.components?_apply hcomponents
    · rw [apply_compose, (unify_sound hunify).1, ← apply_compose]
      cases p.side <;> rfl
  · exact absurd hr not_returns_fail

/-- A projection that a pass does not hand back is settled. -/
theorem settlePass_holds (hr : (settlePass ps).Returns c rest d) (hc : c.subst.Resolved) :
    ∀ p ∈ ps, p ∈ rest ∨ p.HoldsIn d.subst := by
  induction ps generalizing rest c with
  | nil => exact fun p hp => absurd hp List.not_mem_nil
  | cons p ps ih =>
    obtain ⟨known, c₁, hknown, hr⟩ := returns_bind_iff.mp hr
    obtain ⟨rfl, rfl⟩ := returns_resolve_iff.mp hknown
    split at hr
    · obtain ⟨others, d', hpass, hr⟩ := returns_bind_iff.mp hr
      obtain ⟨rfl, rfl⟩ := returns_pure_iff.mp hr
      refine List.forall_mem_cons.mpr ⟨.inl List.mem_cons_self, fun q hq => ?_⟩
      exact (ih hpass hc q hq).imp_left (List.mem_cons_of_mem p)
    · obtain ⟨_, c₂, hsettle, hpass⟩ := returns_bind_iff.mp hr
      have hc₂ := (settleProjection_composed p _).refines_of_result
        (returns_iff_result.mp hsettle) hc
      have hd := (settlePass_composed ps).refines_of_result (returns_iff_result.mp hpass)
        hc₂.resolved
      exact List.forall_mem_cons.mpr
        ⟨.inr ((settleProjection_holds hsettle hc).refine hd), ih hpass hc₂.resolved⟩

theorem Settles.refines (h : Settles n ps c s c') (hc : c.subst.Resolved) : c'.Refines c := by
  induction h with
  | done => exact .of_resolved hc
  | refused hpass => exact (settlePass_composed _).refines_of_result hpass hc
  | progress hpass _ _ ih =>
    have hd := (settlePass_composed _).refines_of_result hpass hc
    exact (ih hd.resolved).trans hd
  | undefaulted hpass _ hdefault =>
    have hd := (settlePass_composed _).refines_of_result hpass hc
    exact ((defaultOperand_composed _).refines_of_result hdefault hd.resolved).trans hd
  | defaulted hpass _ hdefault _ ih =>
    have hd := (settlePass_composed _).refines_of_result hpass hc
    have hd' := (defaultOperand_composed _).refines_of_result hdefault hd.resolved
    exact (ih hd'.resolved).trans (hd'.trans hd)

/-- By induction on the passes: what one of them settles holds at its end and so at the end of the
loop, and the others are still pending. -/
theorem Settles.holds (h : Settles n ps c s c') (hs : s = .settled) (hc : c.subst.Resolved) :
    ∀ p ∈ ps, p.HoldsIn c'.subst := by
  induction h with
  | done => exact fun p hp => absurd hp List.not_mem_nil
  | refused _ | undefaulted _ _ _ => cases hs
  | progress hpass _ hrest ih =>
    have hd := (settlePass_composed _).refines_of_result hpass hc
    intro p hp
    rcases settlePass_holds (returns_iff_result.mpr hpass) hc p hp with hwaiting | hheld
    · exact ih hs hd.resolved p hwaiting
    · exact hheld.refine (hrest.refines hd.resolved)
  | defaulted hpass _ hdefault hrest ih =>
    have hd := (settlePass_composed _).refines_of_result hpass hc
    have hd' := (defaultOperand_composed _).refines_of_result hdefault hd.resolved
    intro p hp
    rcases settlePass_holds (returns_iff_result.mpr hpass) hc p hp with hwaiting | hheld
    · exact ih hs hd'.resolved p hwaiting
    · exact hheld.refine ((hrest.refines hd'.resolved).trans hd')

end Settled

section Defaults

theorem Check.Uniform.tidy_of_result {α : Type} {m : Check α} {M : (Nat → Nat) → Check α}
    {g : (Nat → Nat) → α → α} {answer : Except TypeError α} (hm : Uniform c.nextVar m M g)
    (hc : c.Tidy) (hr : m.result c = (answer, d)) : d.Tidy ∧ c.nextVar ≤ d.nextVar := by
  obtain ⟨-, rfl⟩ := Prod.mk.inj hr
  exact ⟨hm.tidy hc, hm.grows c⟩

/-- The plain pair that an operand is taken to be: its components are the next two variables. -/
def Checker.defaultShape (c : Checker) : Ty :=
  .pair .plain (.var c.nextVar) (.var (c.nextVar + 1))

theorem Checker.Tidy.apply_defaultShape (hc : c.Tidy) :
    c.subst.apply c.defaultShape = c.defaultShape := by
  rw [defaultShape, apply, hc.unknown _ (Nat.le_refl _), hc.unknown _ (Nat.le_succ _)]

theorem defaultOperand_of_unify {r : Substitution}
    (h : unify (c.subst.apply c.defaultShape) (c.subst.apply p.operand) = .ok r) :
    (defaultOperand p c).answer = .ok () := by
  have hlast : (defaultOperand p c).answer = (unifyAt p.site c.defaultShape p.operand
      { c with
        nextVar := c.nextVar + 1 + 1
        fields := c.fields ++ [⟨.var c.nextVar, .plain, p.site⟩] ++
          [⟨.var (c.nextVar + 1), .plain, p.site⟩] }).answer := rfl
  rw [hlast, unifyAt_apply, h]

/-- The variables for the components are new, so the operand is none of them. -/
theorem Checker.Tidy.defaultOperand_ok (hc : c.Tidy) (hp : p.Below c.nextVar) (hopen : p.Open c) :
    (defaultOperand p c).answer = .ok () := by
  obtain ⟨x, hx⟩ := hopen
  have hbelow : (Ty.var x).Below c.nextVar := hx ▸ hc.apply_below hp.1
  have hlow : x < c.nextVar := hbelow x List.mem_cons_self
  have hfree : x ∉ c.defaultShape.vars := by
    simp only [defaultShape, Ty.vars, List.mem_append, List.mem_singleton]
    omega
  refine defaultOperand_of_unify (r := single x c.defaultShape) ?_
  rw [hc.apply_defaultShape, hx, unify_of_binding (by simp [defaultShape]) rfl, if_neg hfree]

/-- The pass that keeps all projections has found the oldest operand unknown. -/
theorem settlePass_stalled_open
    (h : (settlePass (p :: ps)).result c = (.ok (p :: ps), d)) : p.Open c := by
  rcases settlePass_cons_returns (returns_iff_result.mpr h) with ⟨hopen, -⟩ | ⟨-, _, hpass⟩
  · exact hopen
  · exact absurd (settlePass_length hpass) (Nat.not_succ_le_self _)

theorem Settles.ne_undefaulted (h : Settles n ps c s c') (hc : c.Tidy)
    (hps : ∀ p ∈ ps, p.Below c.nextVar) (err : TypeError) : s ≠ .undefaulted err := by
  induction h with
  | done | refused _ => nofun
  | progress hpass _ _ ih =>
    obtain ⟨hd, hgrow⟩ := (uniform_settlePass hps).tidy_of_result hc hpass
    exact ih hd fun q hq => (hps q (settlePass_subset hpass hq)).mono hgrow
  | undefaulted hpass hlen hdefault =>
    obtain ⟨hsame, rfl⟩ := settlePass_stalled hpass hlen
    cases hsame
    have hok := hc.defaultOperand_ok (hps _ List.mem_cons_self) (settlePass_stalled_open hpass)
    cases hok.symm.trans (congrArg Prod.fst hdefault)
  | defaulted hpass hlen hdefault _ ih =>
    obtain ⟨hsame, rfl⟩ := settlePass_stalled hpass hlen
    cases hsame
    obtain ⟨hd, hgrow⟩ :=
      (uniform_defaultOperand (hps _ List.mem_cons_self)).tidy_of_result hc hdefault
    exact ih hd fun q hq => (hps q hq).mono hgrow

end Defaults

/-- Whether they are settled or not, the projections are no longer recorded. -/
theorem settleProjections_forgets (c : Checker) :
    (settleProjections.result c).2.projections = [] := by
  have hkeeps : (settleAll c.projections).Keeps Checker.projections :=
    (keeps_settlePasses_projections _ _).bind fun _ => keeps_pure _ _
  rw [settleProjections_result]
  exact hkeeps { c with projections := [] }

/-- From a state with a resolved substitution the loop over its projections comes to one end, after
two passes for each of them at most, and that is what settling answers. If they are settled, each
operand is known to be an aggregate and each result to be its component. After a walk under an
environment without type variables no default fails. -/
theorem settleProjections_ends (hc : c.subst.Resolved) :
    (∃ n s d, Settles n c.projections { c with projections := [] } s d) ∧
      (∀ n s d, Settles n c.projections { c with projections := [] } s d →
        n ≤ 2 * c.projections.length ∧ settleProjections.result c = (s.answer, d) ∧
          d.projections = [] ∧ (s = .settled → ∀ p ∈ c.projections, p.HoldsIn d.subst)) ∧
      ∀ start env e t, start.Reached → (∀ x t, env.lookup? x = some t → t.vars = []) →
        (infer env e).Returns start t c → ∀ n err d,
          ¬Settles n c.projections { c with projections := [] } (.undefaulted err) d := by
  obtain ⟨k, hk, s, c', hsettles, hresult⟩ :=
    (finishes_two_mul_length c.projections { c with projections := [] }).settles
  rw [← settleProjections_result] at hresult
  refine ⟨⟨k, s, c', hsettles⟩, fun n s' d h => ?_, fun start env e t hstart henv hinfer => ?_⟩
  · obtain ⟨rfl, rfl, rfl⟩ := hsettles.unique h
    refine ⟨hk, hresult, ?_, fun hs => h.holds hs hc⟩
    have hnone := settleProjections_forgets c
    rwa [hresult] at hnone
  · have htidy : c.Tidy := by
      rw [← hinfer.2]
      exact (uniform_infer henv _ e).tidy hstart.tidy
    intro n err d h
    exact h.ne_undefaulted ⟨htidy.known, htidy.unknown, htidy.fields, by simp⟩
      htidy.projections err rfl

/-- `λp. fst (fst p)`. -/
def firstOfFirst : Expr := .lam "p" (.fst (.fst (.var "p")))

def innerFirst : ProjectionPremise := ⟨.var 0, .var 1, .first, .fst (.var "p")⟩

def outerFirst : ProjectionPremise := ⟨.var 1, .var 2, .first, .fst (.fst (.var "p"))⟩

/-- The bound is attained: the first pass keeps both projections, the second one settles the inner
one, the third one keeps the outer one, and the fourth one settles that. -/
theorem firstOfFirst_projections_end :
    ∃ c t d, (infer .empty firstOfFirst).Returns {} t c ∧ c.subst.Resolved ∧
      c.projections.length = 2 ∧ Settles 4 c.projections { c with projections := [] } .settled d ∧
        ∀ p ∈ c.projections, p.HoldsIn d.subst := by
  have hwalk : (infer .empty firstOfFirst).Returns {} (.arrow (.var 0) (.var 2))
      { nextVar := 3, projections := [innerFirst, outerFirst] } := ⟨by cbv, by cbv⟩
  have hfour : ∃ d, Settles 4 [innerFirst, outerFirst] { nextVar := 3 } .settled d := by
    refine ⟨_, .defaulted (congrArg (·, _) (?first : _ = Except.ok [innerFirst, outerFirst])) rfl
      (congrArg (·, _) ?firstDefault) <|
        .progress (congrArg (·, _) (?second : _ = Except.ok [outerFirst])) (by simp) <|
          .defaulted (congrArg (·, _) (?third : _ = Except.ok [outerFirst])) rfl
            (congrArg (·, _) ?thirdDefault) <|
              .progress (congrArg (·, _) (?fourth : _ = Except.ok [])) (by simp) .done⟩
    all_goals cbv
  have hresolved : (Checker.mk 3 .empty [] [innerFirst, outerFirst]).subst.Resolved :=
    resolved_empty
  obtain ⟨d, hd⟩ := hfour
  obtain ⟨-, hend, -⟩ := settleProjections_ends hresolved
  exact ⟨_, _, d, hwalk, hresolved, rfl, hd, (hend 4 .settled d hd).2.2.2 rfl⟩

end CellCalculus
