import CellCalculus.PremiseSettling
import CellCalculus.Proofs.InferenceGuarantees

/-!
# What settling the premises guarantees

Settling takes the recorded premises out of the state, so each pass has to account for those it was
given: it guarantees them as soon as those it hands back hold. Twice as many passes as there are
projections leave none over, since a pass that settles nothing makes the next one settle the oldest
projection. A field that is still open is demanded again once its variables are integers.
-/

namespace CellCalculus

open Check

theorem settleProjection_guarantees (p : ProjectionPremise) (t : Ty) :
    (settleProjection p t).Guarantees fun s _ =>
      ∃ components, (s.apply t).components? = some components ∧
        s.apply p.result = p.side.pick components := by
  unfold settleProjection
  split
  · next components hc =>
    obtain ⟨a, b⟩ := components
    refine (guarantees_unifyAt p.site p.result (p.side.pick (a, b))).mono fun s _ heq => ?_
    refine ⟨(s.apply a, s.apply b), Ty.components?_apply hc, ?_⟩
    rw [heq]
    cases p.side <;> rfl
  · exact guarantees_fail

theorem settlePass_guarantees (ps : List ProjectionPremise) :
    (settlePass ps).Guarantees fun s rest =>
      (∀ p ∈ rest, p.HoldsIn s) → ∀ p ∈ ps, p.HoldsIn s := by
  induction ps with
  | nil => exact guarantees_pure fun _ _ => by simp
  | cons p ps ih =>
    refine guarantees_resolve_bind fun known => ?_
    split
    · refine (ih.bind fun rest => guarantees_return (p :: rest)).mono ?_
      rintro s _ ⟨rest, hrest, rfl⟩ - hall
      obtain ⟨hp, hall⟩ := List.forall_mem_cons.mp hall
      exact List.forall_mem_cons.mpr ⟨hp, hrest hall⟩
    · refine ((settleProjection_guarantees p known).bind fun _ => ih).mono ?_
      rintro s rest ⟨_, ⟨components, hc, hpick⟩, hrest⟩ hknown hall
      exact List.forall_mem_cons.mpr ⟨⟨components, hknown ▸ hc, hpick⟩, hrest hall⟩

theorem defaultOperand_guarantees (p : ProjectionPremise) :
    (defaultOperand p).Guarantees fun _ _ => True :=
  (guarantees_fresh.bind fun a => guarantees_fresh.bind fun b =>
    (guarantees_requireField p.site .plain a).bind fun _ =>
      (guarantees_requireField p.site .plain b).bind fun _ => Guarantees.emit_bind
        (guarantees_unifyAt p.site (.pair .plain a b) p.operand) _).mono fun _ _ _ => trivial

theorem settlePasses_guarantees (n : Nat) (ps : List ProjectionPremise) :
    (settlePasses n ps).Guarantees fun s rest =>
      (∀ p ∈ rest, p.HoldsIn s) → ∀ p ∈ ps, p.HoldsIn s := by
  induction n generalizing ps with
  | zero =>
    cases ps with
    | nil => exact guarantees_pure fun _ => id
    | cons p ps => exact guarantees_pure fun _ => id
  | succ n ih =>
    cases ps with
    | nil => exact guarantees_pure fun _ => id
    | cons p ps =>
      refine (Guarantees.bind (R := fun waiting s rest =>
        (∀ q ∈ rest, q.HoldsIn s) → ∀ q ∈ waiting, q.HoldsIn s)
        (settlePass_guarantees (p :: ps)) fun waiting => ?_).mono
          fun _ _ ⟨_, hpass, h⟩ hrest => hpass (h hrest)
      split
      · exact guarantees_pure fun _ => id
      · next oldest others =>
        split
        · exact ((defaultOperand_guarantees oldest).bind fun _ => ih (oldest :: others)).mono
            fun _ _ ⟨_, _, h⟩ => h
        · exact ih (oldest :: others)

/-- The operand is not known to be an aggregate, nor anything else, in this state. -/
def ProjectionPremise.Open (p : ProjectionPremise) (c : Checker) : Prop :=
  ∃ x, c.subst.apply p.operand = .var x

theorem settlePass_cons_returns {p : ProjectionPremise} {ps rest : List ProjectionPremise}
    {c c' : Checker} (hr : (settlePass (p :: ps)).Returns c rest c') :
    (p.Open c ∧ ∃ others, rest = p :: others ∧ (settlePass ps).Returns c others c') ∨
      (¬p.Open c ∧ ∃ d, (settlePass ps).Returns d rest c') := by
  obtain ⟨known, d, hknown, hr⟩ := returns_bind_iff.mp hr
  obtain ⟨rfl, rfl⟩ := returns_resolve_iff.mp hknown
  split at hr
  · next x hx =>
    obtain ⟨others, d, hpass, hr⟩ := returns_bind_iff.mp hr
    obtain ⟨rfl, rfl⟩ := returns_pure_iff.mp hr
    exact .inl ⟨⟨x, hx⟩, others, rfl, hpass⟩
  · next hx =>
    obtain ⟨_, d, _, hpass⟩ := returns_bind_iff.mp hr
    exact .inr ⟨fun ⟨x, h⟩ => hx x h, d, hpass⟩

theorem settlePass_length {ps rest : List ProjectionPremise} {c c' : Checker}
    (hr : (settlePass ps).Returns c rest c') : rest.length ≤ ps.length := by
  induction ps generalizing rest c with
  | nil =>
    obtain ⟨rfl, -⟩ := returns_pure_iff.mp hr
    exact Nat.le_refl _
  | cons p ps ih =>
    rcases settlePass_cons_returns hr with ⟨_, others, rfl, hpass⟩ | ⟨_, d, hpass⟩
    · exact Nat.succ_le_succ (ih hpass)
    · exact Nat.le_succ_of_le (ih hpass)

/-- A pass settles the oldest projection when its operand is known. -/
theorem settlePass_length_of_not_open {p : ProjectionPremise} {ps rest : List ProjectionPremise}
    {c c' : Checker} (hp : ¬p.Open c) (hr : (settlePass (p :: ps)).Returns c rest c') :
    rest.length ≤ ps.length := by
  rcases settlePass_cons_returns hr with ⟨hopen, _⟩ | ⟨_, d, hpass⟩
  · exact absurd hopen hp
  · exact settlePass_length hpass

theorem not_open_of_unified {site : Expr} {tag : Tag} {a b : Ty} {p : ProjectionPremise}
    {c c' : Checker} {u : Unit} (hr : (unifyAt site (.pair tag a b) p.operand).Returns c u c') :
    ¬p.Open c' := by
  obtain ⟨s, hs, rfl⟩ := returns_unifyAt_iff.mp hr
  rintro ⟨x, hx⟩
  have heq : s.apply (c.subst.apply (.pair tag a b)) = s.apply (c.subst.apply p.operand) :=
    (unify_sound hs).1
  rw [Substitution.apply_compose, ← heq] at hx
  cases hx

theorem not_open_of_defaultOperand {p : ProjectionPremise} {c c' : Checker} {u : Unit}
    (hr : (defaultOperand p).Returns c u c') : ¬p.Open c' := by
  obtain ⟨a, _, _, hr⟩ := returns_bind_iff.mp hr
  obtain ⟨b, _, _, hr⟩ := returns_bind_iff.mp hr
  obtain ⟨_, _, _, hr⟩ := returns_bind_iff.mp hr
  obtain ⟨_, _, _, hr⟩ := returns_bind_iff.mp hr
  obtain ⟨_, _, _, hr⟩ := returns_bind_iff.mp hr
  exact not_open_of_unified hr

/-- Two passes for each projection are enough, and one fewer where the oldest operand is known:
a pass that keeps all of them is followed by one that finds the oldest operand a pair. -/
theorem settlePasses_leaves_none {n : Nat} {ps rest : List ProjectionPremise} {c c' : Checker}
    (hr : (settlePasses n ps).Returns c rest c') (hn : 2 * ps.length ≤ n + 1)
    (hhead : 2 * ps.length ≤ n ∨ ∀ p ∈ ps.head?, ¬p.Open c) : rest = [] := by
  induction n generalizing ps c with
  | zero =>
    cases ps with
    | nil => exact (returns_pure_iff.mp hr).1.symm
    | cons p ps =>
      simp only [List.length_cons] at hn
      omega
  | succ n ih =>
    cases ps with
    | nil => exact (returns_pure_iff.mp hr).1.symm
    | cons p ps =>
      obtain ⟨waiting, d, hpass, hr⟩ := returns_bind_iff.mp hr
      have hlen := settlePass_length hpass
      have hdrop : ¬p.Open c → waiting.length ≤ ps.length :=
        fun hp => settlePass_length_of_not_open hp hpass
      simp only [List.length_cons] at hn hhead hlen
      split at hr
      · exact (returns_pure_iff.mp hr).1.symm
      · next oldest others =>
        simp only [List.length_cons] at hlen hdrop
        by_cases hkept : others.length = ps.length
        · rw [if_pos hkept] at hr
          have hopen : 2 * (ps.length + 1) ≤ n + 1 := by
            rcases hhead with h | h
            · exact h
            · have hd := hdrop (h p rfl)
              omega
          obtain ⟨_, d', hdefault, hr⟩ := returns_bind_iff.mp hr
          refine ih hr (by simp only [List.length_cons]; omega) (.inr fun q hq => ?_)
          cases hq
          exact not_open_of_defaultOperand hdefault
        · rw [if_neg hkept] at hr
          exact ih hr (by simp only [List.length_cons]; omega)
            (.inl (by simp only [List.length_cons]; omega))

theorem returns_settleProjections_iff {c c' : Checker} {u : Unit} :
    settleProjections.Returns c u c' ↔ ∃ rest, (settlePasses (2 * c.projections.length)
      c.projections).Returns { c with projections := [] } rest c' := by
  constructor
  · intro hr
    obtain ⟨recorded, d, htake, hr⟩ := returns_bind_iff.mp hr
    obtain ⟨rfl, rfl⟩ := returns_takeProjections_iff.mp htake
    obtain ⟨rest, d, hpasses, hr⟩ := returns_bind_iff.mp hr
    obtain ⟨-, rfl⟩ := returns_pure_iff.mp hr
    exact ⟨rest, hpasses⟩
  · rintro ⟨rest, hpasses⟩
    refine returns_bind_iff.mpr ⟨_, _, returns_takeProjections_iff.mpr ⟨rfl, rfl⟩, ?_⟩
    exact returns_bind_iff.mpr ⟨rest, c', hpasses, returns_pure_iff.mpr ⟨rfl, rfl⟩⟩

theorem settleProjections_guarantees : settleProjections.Guarantees fun _ _ => True := by
  intro c u c' hr hc
  obtain ⟨rest, hpasses⟩ := returns_settleProjections_iff.mp hr
  have hnone : rest = [] := settlePasses_leaves_none hpasses (by omega) (.inl (by omega))
  obtain ⟨hd, hsat⟩ := settlePasses_guarantees _ _ _ _ _ hpasses hc
  refine ⟨hd, fun s hs => ⟨?_, trivial⟩⟩
  obtain ⟨hstart, hheld⟩ := hsat s hs
  exact ⟨hstart.absorbs, hstart.fields, hheld (by simp [hnone])⟩

theorem keeps_requireField (site : Expr) (tag : Tag) (t : Ty) {γ : Type} {part : Checker → γ}
    (hpart : ∀ c l, part { c with fields := l } = part c) :
    (requireField site tag t).Keeps part := by
  unfold requireField
  split
  · exact keeps_pure () _
  · exact keeps_fail _ _ _
  · exact keeps_recordField _ hpart

theorem keeps_settlePass_projections (ps : List ProjectionPremise) :
    (settlePass ps).Keeps Checker.projections := by
  induction ps with
  | nil => exact keeps_pure _ _
  | cons p ps ih =>
    refine (keeps_resolve p.operand _).bind fun known => ?_
    split
    · exact ih.bind fun rest => keeps_pure _ _
    · refine Keeps.bind ?_ fun _ => ih
      unfold settleProjection
      split
      · exact keeps_unifyAt _ _ _ fun _ _ => rfl
      · exact keeps_fail _ _ _

theorem keeps_defaultOperand_projections (p : ProjectionPremise) :
    (defaultOperand p).Keeps Checker.projections :=
  (keeps_fresh fun _ _ => rfl).bind fun a => (keeps_fresh fun _ _ => rfl).bind fun b =>
    (keeps_requireField p.site .plain a fun _ _ => rfl).bind fun _ =>
      (keeps_requireField p.site .plain b fun _ _ => rfl).bind fun _ =>
        (keeps_emit (.projectionDefaulted (.pair .plain a b)) _).bind fun _ =>
          keeps_unifyAt _ _ _ fun _ _ => rfl

theorem keeps_settlePasses_projections (n : Nat) (ps : List ProjectionPremise) :
    (settlePasses n ps).Keeps Checker.projections := by
  induction n generalizing ps with
  | zero => cases ps <;> exact keeps_pure _ _
  | succ n ih =>
    cases ps with
    | nil => exact keeps_pure _ _
    | cons p ps =>
      refine (keeps_settlePass_projections (p :: ps)).bind fun waiting => ?_
      split
      · exact keeps_pure _ _
      · next oldest others =>
        split
        · exact (keeps_defaultOperand_projections oldest).bind fun _ => ih (oldest :: others)
        · exact ih (oldest :: others)

theorem settleProjections_leaves_none {c c' : Checker} {u : Unit}
    (hr : settleProjections.Returns c u c') : c'.projections = [] := by
  obtain ⟨rest, hpasses⟩ := returns_settleProjections_iff.mp hr
  exact (keeps_settlePasses_projections _ _).returns hpasses

theorem demandField_guarantees (p : FieldPremise) (t : Ty) :
    (demandField p t).Guarantees fun s _ => fieldValid p.tag (s.apply t) = true := by
  unfold demandField
  split
  · next h => exact guarantees_pure fun s => fieldValid_apply s h
  · exact guarantees_fail

theorem settleField_guarantees (p : FieldPremise) :
    (settleField p).Guarantees fun s _ => p.HoldsIn s := by
  refine guarantees_resolve_bind fun known => ?_
  split
  · refine ((guarantees_forM (R := fun _ _ => True) fun x _ =>
      (guarantees_unifyAt p.site .int (.var x)).mono fun _ _ _ => trivial).bind fun _ =>
        (guarantees_resolve p.ty).bind fun t =>
          (demandField_guarantees p t).emit_bind (.fieldDefaulted t)).mono ?_
    rintro s _ ⟨_, -, t, ht, hvalid⟩ -
    rwa [FieldPremise.HoldsIn, ← ht]
  · refine (demandField_guarantees p known).mono fun s _ hvalid hknown => ?_
    rwa [FieldPremise.HoldsIn, ← hknown]

theorem returns_settleFields_iff {c c' : Checker} {u : Unit} :
    settleFields.Returns c u c' ↔
      (c.fields.forM settleField).Returns { c with fields := [] } u c' := by
  constructor
  · intro hr
    obtain ⟨recorded, d, htake, hr⟩ := returns_bind_iff.mp hr
    obtain ⟨rfl, rfl⟩ := returns_takeFields_iff.mp htake
    exact hr
  · intro hr
    exact returns_bind_iff.mpr ⟨_, _, returns_takeFields_iff.mpr ⟨rfl, rfl⟩, hr⟩

theorem settleFields_guarantees : settleFields.Guarantees fun _ _ => True := by
  intro c u c' hr hc
  rw [returns_settleFields_iff] at hr
  obtain ⟨hd, hsat⟩ := guarantees_forM (fun p _ => settleField_guarantees p) _ _ _ hr hc
  refine ⟨hd, fun s hs => ⟨?_, trivial⟩⟩
  obtain ⟨hstart, hheld⟩ := hsat s hs
  exact ⟨hstart.absorbs, hheld, hstart.projections⟩

theorem keeps_demandField (p : FieldPremise) (t : Ty) {γ : Type} (part : Checker → γ) :
    (demandField p t).Keeps part := by
  unfold demandField
  split
  · exact keeps_pure () part
  · exact keeps_fail _ _ part

theorem keeps_settleField (p : FieldPremise) {γ : Type} {part : Checker → γ}
    (hpart : ∀ c s, part { c with subst := s } = part c) : (settleField p).Keeps part := by
  refine (keeps_resolve p.ty part).bind fun known => ?_
  split
  · exact (keeps_forM fun x _ => keeps_unifyAt _ _ _ hpart).bind fun _ =>
      (keeps_resolve p.ty part).bind fun t =>
        (keeps_emit (.fieldDefaulted t) part).bind fun _ => keeps_demandField p t part
  · exact keeps_demandField p known part

theorem settleFields_leaves_none {c c' : Checker} {u : Unit}
    (hr : settleFields.Returns c u c') : c'.fields = [] ∧ c'.projections = c.projections := by
  rw [returns_settleFields_iff] at hr
  have hfields : (c.fields.forM settleField).Keeps Checker.fields :=
    keeps_forM fun p _ => keeps_settleField p fun _ _ => rfl
  have hprojections : (c.fields.forM settleField).Keeps Checker.projections :=
    keeps_forM fun p _ => keeps_settleField p fun _ _ => rfl
  have hf := hfields.returns hr
  have hp := hprojections.returns hr
  exact ⟨hf, hp⟩

end CellCalculus
