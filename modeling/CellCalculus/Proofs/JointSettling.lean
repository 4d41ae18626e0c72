import CellCalculus.Proofs.SideBySide

/-!
# Settling side by side

When the premises of two parts of a state are settled together, a pass over all of them is a pass
over those of either part, and a part that gets stuck waits until the other one gets stuck or is
through. So each part goes through the rounds it goes through by itself, and `joint_settlePremises`
says that settling succeeds if it does for both parts, and otherwise fails as one of them does.
-/

namespace CellCalculus

open Check Function

/-- Settles every recorded premise. -/
def settlePremises : Check Unit := do
  settleProjections
  settleFields

theorem check_result (env : TypeEnv) (e : Expr) (c : Checker) : (check env e).result c =
    (infer env e >>= fun t => settlePremises >>= fun _ => resolve t).result c := by
  simp only [check, settlePremises, bind_assoc]
  refine result_bind_congr fun t _ _ => result_bind_congr fun _ _ _ =>
    result_bind_congr fun _ d _ => ?_
  rw [result_bind_of_ok (show (resolve t).result d = (.ok (d.subst.apply t), d) from rfl)]
  rfl

/-- The two states side by side, with the projections of the left one recorded first. -/
structure Aligned (f g : Nat → Nat) (a b d : Checker) : Prop extends Beside f g a b d where
  projections : d.projections =
    a.projections.map (·.rename f) ++ b.projections.map (·.rename g)

/-- The later state renames the variables of the earlier one alike. -/
structure Prolongs (f : Nat → Nat) (c : Checker) (f' : Nat → Nat) (c' : Checker) : Prop where
  counter : c.nextVar ≤ c'.nextVar
  agrees : ∀ x < c.nextVar, f' x = f x

theorem Prolongs.refl (f : Nat → Nat) (c : Checker) : Prolongs f c f c :=
  ⟨Nat.le_refl _, fun _ _ => rfl⟩

theorem Prolongs.trans {f f' f'' : Nat → Nat} {c c' c'' : Checker} (h : Prolongs f c f' c')
    (h' : Prolongs f' c' f'' c'') : Prolongs f c f'' c'' where
  counter := Nat.le_trans h.counter h'.counter
  agrees x hx := (h'.agrees x (Nat.lt_of_lt_of_le hx h.counter)).trans (h.agrees x hx)

/-- The third result is that of the first two together: a success if both are one, and otherwise
the error of one of them. -/
inductive Joint (f g : Nat → Nat) (a b : Checker) :
    Except TypeError Unit × Checker → Except TypeError Unit × Checker →
      Except TypeError Unit × Checker → Prop
  | ok {f' g' a' b' d'} : Prolongs f a f' a' → Prolongs g b g' b' → Aligned f' g' a' b' d' →
      Joint f g a b (.ok (), a') (.ok (), b') (.ok (), d')
  | left {f' err a' y d'} : Injective f' →
      Joint f g a b (.error err, a') y (.error (err.rename f'), d')
  | right {g' err x b' d'} : Injective g' →
      Joint f g a b x (.error err, b') (.error (err.rename g'), d')

section Steps

variable {α : Type} {f g : Nat → Nat} {a b d : Checker} {m : Check α}
  {M : (Nat → Nat) → Check α} {G : (Nat → Nat) → α → α}

theorem map_rename_congr {f' : Nat → Nat} {n : Nat} {ps : List ProjectionPremise}
    (hps : ∀ p ∈ ps, p.Below n) (hf : ∀ x < n, f' x = f x) :
    ps.map (·.rename f') = ps.map (·.rename f) :=
  List.map_congr_left fun p hp => (hps p hp).rename_congr hf

theorem Aligned.stepLeft (h : Aligned f g a b d) (hm : Uniform a.nextVar m M G)
    (hkeeps : m.Keeps Checker.projections) :
    ∃ g', Prolongs f a f (m a).checker ∧ Prolongs g b g' b ∧
      (M f).result d = (renameAnswer f (G f) (m a).answer, (M f d).checker) ∧
      Aligned f g' (m a).checker b (M f d).checker := by
  obtain ⟨g', hg', hanswer, hbeside, l, hl, hl'⟩ := h.toBeside.stepLeft hm
  have hnone : l = [] := by
    rw [hkeeps a] at hl
    exact List.append_cancel_left (hl.symm.trans (List.append_nil _).symm)
  refine ⟨g', ⟨hm.grows a, fun _ _ => rfl⟩, ⟨Nat.le_refl _, hg'⟩, congrArg (·, _) hanswer,
    hbeside, ?_⟩
  rw [hl', hl, hnone, List.map_nil, List.append_nil, List.append_nil, h.projections,
    map_rename_congr h.tidyRight.projections hg']

theorem Aligned.stepRight (h : Aligned f g a b d) (hm : Uniform b.nextVar m M G) :
    ∃ f', Prolongs f a f' a ∧ Prolongs g b g (m b).checker ∧
      (M g).result d = (renameAnswer g (G g) (m b).answer, (M g d).checker) ∧
      Aligned f' g a (m b).checker (M g d).checker := by
  obtain ⟨f', hf', hanswer, hbeside, l, hl, hl'⟩ := h.toBeside.stepRight hm
  refine ⟨f', ⟨Nat.le_refl _, hf'⟩, ⟨hm.grows b, fun _ _ => rfl⟩, congrArg (·, _) hanswer,
    hbeside, ?_⟩
  rw [hl', hl, List.map_append, h.projections, map_rename_congr h.tidyLeft.projections hf',
    List.append_assoc]

end Steps

section Joint

variable {f g : Nat → Nat} {a b d : Checker} {m m' k : Check Unit} {M : (Nat → Nat) → Check Unit}

theorem Aligned.jointLeft (h : Aligned f g a b d) (hm : Uniform a.nextVar m M fun _ => id)
    (hkeeps : m.Keeps Checker.projections) :
    Joint f g a b (m.result a) ((pure () : Check Unit).result b) ((M f).result d) := by
  obtain ⟨g', hf, hg, hresult, haligned⟩ := h.stepLeft hm hkeeps
  rw [hresult, result]
  cases (m a).answer with
  | error err => exact .left h.left.injective
  | ok u => exact .ok hf hg haligned

theorem Aligned.jointRight (h : Aligned f g a b d) (hm : Uniform b.nextVar m M fun _ => id) :
    Joint f g a b ((pure () : Check Unit).result a) (m.result b) ((M g).result d) := by
  obtain ⟨f', hf, hg, hresult, haligned⟩ := h.stepRight hm
  rw [hresult, result, result]
  cases (m b).answer with
  | error err => exact .right h.right.injective
  | ok u => exact .ok hf hg haligned

theorem Joint.mono {f' g' : Nat → Nat} {a' b' : Checker}
    {x y z : Except TypeError Unit × Checker} (h : Joint f' g' a' b' x y z)
    (hf : Prolongs f a f' a') (hg : Prolongs g b g' b') : Joint f g a b x y z := by
  cases h with
  | ok hf' hg' haligned => exact .ok (hf.trans hf') (hg.trans hg') haligned
  | left hinjective => exact .left hinjective
  | right hinjective => exact .right hinjective

theorem Joint.bind {n n' l : Check Unit} (h : Joint f g a b (m.result a) (m'.result b) (k.result d))
    (hnext : ∀ {f' g' a' b' d'}, Prolongs f a f' a' → Prolongs g b g' b' →
      Aligned f' g' a' b' d' → k.result d = (.ok (), d') →
        Joint f' g' a' b' (n.result a') (n'.result b') (l.result d')) :
    Joint f g a b ((m >>= fun _ => n).result a) ((m' >>= fun _ => n').result b)
      ((k >>= fun _ => l).result d) := by
  generalize hx : m.result a = x at h
  generalize hy : m'.result b = y at h
  generalize hz : k.result d = z at h
  cases h with
  | ok hf hg haligned =>
    rw [result_bind_of_ok hx, result_bind_of_ok hy, result_bind_of_ok hz]
    exact (hnext hf hg haligned hz).mono hf hg
  | left hinjective =>
    rw [result_bind_of_error hx, result_bind_of_error hz]
    exact .left hinjective
  | right hinjective =>
    rw [result_bind_of_error hy, result_bind_of_error hz]
    exact .right hinjective

end Joint

/-- What is inferred in a state is inferred as at the start, beside what the state holds. -/
theorem Checker.Tidy.infer_aligned {c : Checker} (hc : c.Tidy) {env : TypeEnv}
    (henv : ∀ x t, env.lookup? x = some t → t.vars = []) (e : Expr) :
    ∃ f g, (∀ x < c.nextVar, f x = x) ∧
      (infer env e c).answer = renameAnswer g (Ty.rename g) (infer env e {}).answer ∧
      Aligned f g c (infer env e {}).checker (infer env e c).checker := by
  obtain ⟨f, hf, hanswer, hbeside, l, hl, hl'⟩ :=
    (beside_start hc).stepRight (uniform_infer henv _ e)
  have hown : c.projections.map (·.rename f) = c.projections :=
    (map_rename_congr hc.projections hf).trans
      (by simp only [ProjectionPremise.rename_id, List.map_id'])
  refine ⟨f, _, hf, hanswer, hbeside, ?_⟩
  rw [hl', hl, hown]
  rfl

section Projections

variable {f g : Nat → Nat} {a b d : Checker} {ps qs : List ProjectionPremise}

/-- A pass over the projections of both parts is one over those of either part. -/
theorem Aligned.pass (h : Aligned f g a b d) (hps : ∀ p ∈ ps, p.Below a.nextVar)
    (hqs : ∀ q ∈ qs, q.Below b.nextVar) :
    let both := (settlePass (ps.map (·.rename f) ++ qs.map (·.rename g))).result d
    (∃ err a' d', (settlePass ps).result a = (.error err, a') ∧
        both = (.error (err.rename f), d')) ∨
      (∃ err g' b' d', Injective g' ∧ (settlePass qs).result b = (.error err, b') ∧
        both = (.error (err.rename g'), d')) ∨
      ∃ waiting others f' g' a' b' d', (settlePass ps).result a = (.ok waiting, a') ∧
        (settlePass qs).result b = (.ok others, b') ∧
        both = (.ok (waiting.map (·.rename f') ++ others.map (·.rename g')), d') ∧
        Prolongs f a f' a' ∧ Prolongs g b g' b' ∧ Aligned f' g' a' b' d' := by
  intro both
  have hboth : both = (settlePass (ps.map (·.rename f)) >>= fun waiting =>
      settlePass (qs.map (·.rename g)) >>= fun others => pure (waiting ++ others)).result d :=
    congrArg (·.result d) (settlePass_append _ _)
  obtain ⟨g', hf, hg, hpass, haligned⟩ :=
    h.stepLeft (uniform_settlePass hps) (keeps_settlePass_projections ps)
  rcases hleft : (settlePass ps).result a with ⟨err | waiting, a'⟩
  · obtain ⟨hanswer, -⟩ := Prod.mk.inj hleft
    rw [hanswer] at hpass
    exact .inl ⟨err, a', _, rfl, hboth.trans (result_bind_of_error hpass)⟩
  · obtain ⟨hanswer, rfl⟩ := Prod.mk.inj hleft
    rw [hanswer] at hpass
    rw [result_bind_of_ok hpass, ← map_rename_congr hqs hg.agrees] at hboth
    obtain ⟨f', hf', hg', hpass', haligned'⟩ := haligned.stepRight (uniform_settlePass hqs)
    rcases hright : (settlePass qs).result b with ⟨err | others, b'⟩
    · obtain ⟨hanswer', -⟩ := Prod.mk.inj hright
      rw [hanswer'] at hpass'
      exact .inr (.inl ⟨err, g', b', _, haligned.right.injective, rfl,
        hboth.trans (result_bind_of_error hpass')⟩)
    · obtain ⟨hanswer', rfl⟩ := Prod.mk.inj hright
      rw [hanswer'] at hpass'
      rw [result_bind_of_ok hpass'] at hboth
      have hwaiting : ∀ p ∈ waiting, p.Below (settlePass ps a).checker.nextVar := fun p hp =>
        (hps p (settlePass_subset hleft hp)).mono hf.counter
      have hsame := map_rename_congr hwaiting hf'.agrees
      exact .inr (.inr ⟨waiting, others, f', g', _, _, _, rfl, rfl,
        hsame ▸ hboth, hf.trans hf', hg.trans hg', haligned'⟩)

/-- When no projection of either part can be settled, the oldest of the left part, or of the right
one if the left has none, is the oldest of both and takes its default. -/
theorem Aligned.joint_settleAll_of_stalled (h : Aligned f g a b d)
    (hps : ∀ p ∈ ps, p.Below a.nextVar) (hqs : ∀ q ∈ qs, q.Below b.nextVar)
    (hleft : (settlePass ps).result a = (.ok ps, a))
    (hright : (settlePass qs).result b = (.ok qs, b))
    (hboth : (settlePass (ps.map (·.rename f) ++ qs.map (·.rename g))).result d =
      (.ok (ps.map (·.rename f) ++ qs.map (·.rename g)), d))
    (hnext : ∀ {f' g' a' b' d'}, Prolongs f a f' a' → Prolongs g b g' b' →
      Aligned f' g' a' b' d' →
        ∀ {p l}, ps.map (·.rename f) ++ qs.map (·.rename g) = p :: l →
          (defaultOperand p).result d = (.ok (), d') →
          Joint f' g' a' b' ((settleAll ps).result a') ((settleAll qs).result b')
            ((settleAll (ps.map (·.rename f) ++ qs.map (·.rename g))).result d')) :
    Joint f g a b ((settleAll ps).result a) ((settleAll qs).result b)
      ((settleAll (ps.map (·.rename f) ++ qs.map (·.rename g))).result d) := by
  cases ps with
  | cons p ps =>
    have hp : p.Below a.nextVar := hps p List.mem_cons_self
    have hjoint := (h.jointLeft (uniform_defaultOperand hp)
      (keeps_defaultOperand_projections p)).bind fun hf hg haligned => hnext hf hg haligned rfl
    rw [pure_bind] at hjoint
    rw [settleAll_of_stalled hleft]
    exact (settleAll_of_stalled hboth).symm ▸ hjoint
  | nil =>
    cases qs with
    | cons q qs =>
      have hq : q.Below b.nextVar := hqs q List.mem_cons_self
      have hjoint := (h.jointRight (uniform_defaultOperand hq)).bind
        fun hf hg haligned => hnext hf hg haligned rfl
      rw [pure_bind] at hjoint
      rw [settleAll_of_stalled hright]
      exact (settleAll_of_stalled hboth).symm ▸ hjoint
    | nil => exact .ok (.refl f a) (.refl g b) h

/-- By induction on the rounds of the projections of both parts together. -/
theorem joint_settleAll (h : Aligned f g a b d) (hps : ∀ p ∈ ps, p.Below a.nextVar)
    (hqs : ∀ q ∈ qs, q.Below b.nextVar) :
    Joint f g a b ((settleAll ps).result a) ((settleAll qs).result b)
      ((settleAll (ps.map (·.rename f) ++ qs.map (·.rename g))).result d) := by
  generalize hrs : ps.map (·.rename f) ++ qs.map (·.rename g) = rs
  induction rs, d using settling_induction generalizing f g a b ps qs with
  | step rs d hprogress hstalled =>
  subst hrs
  rcases h.pass hps hqs with ⟨err, a', d', hleft, hboth⟩ | ⟨err, g', b', d', hg', hright, hboth⟩ |
    ⟨waiting, others, f', g', a', b', d', hleft, hright, hboth, hf, hg, haligned⟩
  · rw [settleAll_of_fault hleft, settleAll_of_fault hboth]
    exact .left h.left.injective
  · rw [settleAll_of_fault hright, settleAll_of_fault hboth]
    exact .right hg'
  have hlenleft := settlePass_result_length hleft
  have hlenright := settlePass_result_length hright
  by_cases hlen : waiting.length + others.length < ps.length + qs.length
  · rw [settleAll_of_settlePass hleft, settleAll_of_settlePass hright,
      settleAll_of_settlePass hboth]
    have hwaiting : ∀ p ∈ waiting, p.Below a'.nextVar := fun p hp =>
      (hps p (settlePass_subset hleft hp)).mono hf.counter
    have hothers : ∀ q ∈ others, q.Below b'.nextVar := fun q hq =>
      (hqs q (settlePass_subset hright hq)).mono hg.counter
    exact (hprogress _ _ hboth (by simpa using hlen) haligned hwaiting hothers rfl).mono hf hg
  · -- Both parts are stuck, so nothing has changed.
    obtain ⟨rfl, rfl⟩ := settlePass_stalled hleft (by omega)
    obtain ⟨rfl, rfl⟩ := settlePass_stalled hright (by omega)
    have hlenboth : (waiting.map (·.rename f') ++ others.map (·.rename g')).length =
        (waiting.map (·.rename f) ++ others.map (·.rename g)).length := by
      simp
    obtain ⟨hlists, rfl⟩ := settlePass_stalled hboth hlenboth
    rw [hlists] at hboth
    refine h.joint_settleAll_of_stalled hps hqs hleft hright hboth
      fun {f' g' a'' b'' d''} hf hg haligned {p l} holdest hdefault => ?_
    have hwaiting : ∀ p ∈ waiting, p.Below a''.nextVar := fun p hp => (hps p hp).mono hf.counter
    have hothers : ∀ q ∈ others, q.Below b''.nextVar := fun q hq => (hqs q hq).mono hg.counter
    exact hstalled p l d'' holdest hboth hdefault haligned hwaiting hothers
      (by rw [map_rename_congr hps hf.agrees, map_rename_congr hqs hg.agrees])

theorem settleProjections_result (c : Checker) : settleProjections.result c =
    (settleAll c.projections).result { c with projections := [] } :=
  result_bind_of_ok rfl

theorem joint_settleProjections (h : Aligned f g a b d) :
    Joint f g a b (settleProjections.result a) (settleProjections.result b)
      (settleProjections.result d) := by
  have htaken : Aligned f g { a with projections := [] } { b with projections := [] }
      { d with projections := [] } :=
    { left := ⟨h.left.injective, h.left.mirrors, h.left.below, h.left.above⟩
      right := ⟨h.right.injective, h.right.mirrors, h.right.below, h.right.above⟩
      apart := h.apart
      tidyLeft := ⟨h.tidyLeft.known, h.tidyLeft.unknown, h.tidyLeft.fields, by simp⟩
      tidyRight := ⟨h.tidyRight.known, h.tidyRight.unknown, h.tidyRight.fields, by simp⟩
      fields := h.fields
      projections := rfl }
  rw [settleProjections_result, settleProjections_result, settleProjections_result, h.projections]
  exact (joint_settleAll htaken h.tidyLeft.projections h.tidyRight.projections).mono
    ⟨Nat.le_refl _, fun _ _ => rfl⟩ ⟨Nat.le_refl _, fun _ _ => rfl⟩

end Projections

section Fields

variable {f g : Nat → Nat} {a b d : Checker} {ps qs rs : List FieldPremise}

/-- By induction on how the fields of the two parts are mixed. -/
theorem joint_forM_settleField (h : Aligned f g a b d) (hps : ∀ p ∈ ps, p.Below a.nextVar)
    (hqs : ∀ q ∈ qs, q.Below b.nextVar)
    (hrs : Interleave (ps.map (·.rename f)) (qs.map (·.rename g)) rs) :
    Joint f g a b ((ps.forM settleField).result a) ((qs.forM settleField).result b)
      ((rs.forM settleField).result d) := by
  have hcongr : ∀ {f f' : Nat → Nat} {c c' : Checker} {l : List FieldPremise},
      (∀ p ∈ l, p.Below c.nextVar) → Prolongs f c f' c' →
        l.map (·.rename f') = l.map (·.rename f) :=
    fun hl hf => List.map_congr_left fun p hp => (hl p hp).rename_congr hf.agrees
  generalize hps' : ps.map (·.rename f) = ps' at hrs
  generalize hqs' : qs.map (·.rename g) = qs' at hrs
  induction hrs generalizing f g a b d ps qs with
  | nil =>
    cases List.map_eq_nil_iff.mp hps'
    cases List.map_eq_nil_iff.mp hqs'
    exact .ok (.refl f a) (.refl g b) h
  | left hrest ih =>
    obtain ⟨p, l, rfl, rfl, rfl⟩ := List.map_eq_cons_iff.mp hps'
    obtain ⟨hp, hl⟩ := List.forall_mem_cons.mp hps
    have hjoint := (h.jointLeft (uniform_settleField hp)
      (keeps_settleField p fun _ _ => rfl)).bind fun hf hg haligned _ =>
        ih haligned (fun p hp => (hl p hp).mono hf.counter) (fun q hq => (hqs q hq).mono hg.counter)
          (hcongr hl hf) ((hcongr hqs hg).trans hqs')
    rw [pure_bind] at hjoint
    exact hjoint
  | right hrest ih =>
    obtain ⟨q, l, rfl, rfl, rfl⟩ := List.map_eq_cons_iff.mp hqs'
    obtain ⟨hq, hl⟩ := List.forall_mem_cons.mp hqs
    have hjoint := (h.jointRight (uniform_settleField hq)).bind fun hf hg haligned _ =>
      ih haligned (fun p hp => (hps p hp).mono hf.counter) (fun q hq => (hl q hq).mono hg.counter)
        ((hcongr hps hf).trans hps') (hcongr hl hg)
    rw [pure_bind] at hjoint
    exact hjoint

theorem settleFields_result (c : Checker) : settleFields.result c =
    (c.fields.forM settleField).result { c with fields := [] } :=
  result_bind_of_ok rfl

theorem joint_settleFields (h : Aligned f g a b d) :
    Joint f g a b (settleFields.result a) (settleFields.result b) (settleFields.result d) := by
  have htaken : Aligned f g { a with fields := [] } { b with fields := [] }
      { d with fields := [] } :=
    { left := ⟨h.left.injective, h.left.mirrors, h.left.below, h.left.above⟩
      right := ⟨h.right.injective, h.right.mirrors, h.right.below, h.right.above⟩
      apart := h.apart
      tidyLeft := ⟨h.tidyLeft.known, h.tidyLeft.unknown, by simp, h.tidyLeft.projections⟩
      tidyRight := ⟨h.tidyRight.known, h.tidyRight.unknown, by simp, h.tidyRight.projections⟩
      fields := .nil
      projections := h.projections }
  rw [settleFields_result, settleFields_result, settleFields_result]
  exact (joint_forM_settleField htaken h.tidyLeft.fields h.tidyRight.fields h.fields).mono
    ⟨Nat.le_refl _, fun _ _ => rfl⟩ ⟨Nat.le_refl _, fun _ _ => rfl⟩

/-- Settling both parts succeeds if settling either of them does, and fails as one of them does. -/
theorem joint_settlePremises (h : Aligned f g a b d) :
    Joint f g a b (settlePremises.result a) (settlePremises.result b)
      (settlePremises.result d) :=
  (joint_settleProjections h).bind fun _ _ haligned _ => joint_settleFields haligned

end Fields

end CellCalculus
