import CellCalculus.Checker
import CellCalculus.Proofs.DeclarativeTyping
import CellCalculus.Proofs.UnifierSoundness

/-!
# What a computation of the checker guarantees

The state of the checker is read as a demand on substitutions: one satisfies the state when it
absorbs the substitution found so far and makes every recorded premise hold. A computation
guarantees `Q` when each substitution that satisfies the state it leaves behind satisfies the state
it started from and, with the answer, `Q` as well. So a guarantee speaks about what is known in the
end, however stale an intermediate type is, and guarantees compose along `>>=`.
-/

namespace CellCalculus

def FieldPremise.HoldsIn (p : FieldPremise) (s : Substitution) : Prop :=
  fieldValid p.tag (s.apply p.ty) = true

def ProjectionPremise.HoldsIn (p : ProjectionPremise) (s : Substitution) : Prop :=
  ∃ components, (s.apply p.operand).components? = some components ∧
    s.apply p.result = p.side.pick components

structure Substitution.Satisfies (s : Substitution) (c : Checker) : Prop where
  absorbs : ∀ t, s.apply (c.subst.apply t) = s.apply t
  fields : ∀ p ∈ c.fields, p.HoldsIn s
  projections : ∀ p ∈ c.projections, p.HoldsIn s

namespace Check

variable {α β γ : Type}

/-- From `c` the computation answers `a` and leaves `c'` behind. -/
def Returns (m : Check α) (c : Checker) (a : α) (c' : Checker) : Prop :=
  (m c).answer = .ok a ∧ (m c).checker = c'

theorem returns_bind_iff {m : Check α} {f : α → Check β} {c c' : Checker} {b : β} :
    (m >>= f).Returns c b c' ↔ ∃ a d, m.Returns c a d ∧ (f a).Returns d b c' := by
  cases hm : (m c).answer with
  | error err => simp [Returns, bind_of_error hm, hm]
  | ok a =>
    simp only [Returns, bind_of_ok hm, hm, Except.ok.injEq]
    refine ⟨fun h => ⟨a, _, ⟨rfl, rfl⟩, h⟩, ?_⟩
    rintro ⟨_, _, ⟨rfl, rfl⟩, h⟩
    exact h

@[simp] theorem returns_pure_iff {a b : α} {c c' : Checker} :
    (pure a : Check α).Returns c b c' ↔ a = b ∧ c = c' := by
  simp [Returns, pure_apply]

@[simp] theorem not_returns_fail {site : Expr} {fault : TypeFault} {c c' : Checker} {a : α} :
    ¬(fail site fault : Check α).Returns c a c' := by
  simp [Returns, fail]

@[simp] theorem returns_emit_iff {ev : Event} {c c' : Checker} {u : Unit} :
    (emit ev).Returns c u c' ↔ c = c' := by
  simp [Returns, emit]

@[simp] theorem returns_fresh_iff {c c' : Checker} {t : Ty} :
    fresh.Returns c t c' ↔ .var c.nextVar = t ∧ { c with nextVar := c.nextVar + 1 } = c' := by
  simp [Returns, fresh]

@[simp] theorem returns_resolve_iff {t u : Ty} {c c' : Checker} :
    (resolve t).Returns c u c' ↔ c.subst.apply t = u ∧ c = c' := by
  simp [Returns, resolve]

theorem returns_unifyAt_iff {site : Expr} {a b : Ty} {c c' : Checker} {u : Unit} :
    (unifyAt site a b).Returns c u c' ↔
      ∃ s, unify (c.subst.apply a) (c.subst.apply b) = .ok s ∧
        { c with subst := s.compose c.subst } = c' := by
  rw [Returns, unifyAt_apply]
  cases hs : unify (c.subst.apply a) (c.subst.apply b) <;> simp

@[simp] theorem returns_recordField_iff {p : FieldPremise} {c c' : Checker} {u : Unit} :
    (recordField p).Returns c u c' ↔ { c with fields := c.fields ++ [p] } = c' := by
  simp [Returns, recordField]

@[simp] theorem returns_recordProjection_iff {p : ProjectionPremise} {c c' : Checker} {u : Unit} :
    (recordProjection p).Returns c u c' ↔
      { c with projections := c.projections ++ [p] } = c' := by
  simp [Returns, recordProjection]

@[simp] theorem returns_takeFields_iff {c c' : Checker} {l : List FieldPremise} :
    takeFields.Returns c l c' ↔ c.fields = l ∧ { c with fields := [] } = c' := by
  simp [Returns, takeFields]

@[simp] theorem returns_takeProjections_iff {c c' : Checker} {l : List ProjectionPremise} :
    takeProjections.Returns c l c' ↔ c.projections = l ∧ { c with projections := [] } = c' := by
  simp [Returns, takeProjections]

def Guarantees (m : Check α) (Q : Substitution → α → Prop) : Prop :=
  ∀ c a c', m.Returns c a c' → c.subst.Resolved →
    c'.subst.Resolved ∧ ∀ s : Substitution, s.Satisfies c' → s.Satisfies c ∧ Q s a

variable {m : Check α} {P Q : Substitution → α → Prop}

theorem Guarantees.mono (hm : m.Guarantees P) (hPQ : ∀ s a, P s a → Q s a) : m.Guarantees Q := by
  intro c a c' hr hc
  obtain ⟨hc', hsat⟩ := hm c a c' hr hc
  exact ⟨hc', fun s hs => (hsat s hs).imp_right (hPQ s a)⟩

theorem Guarantees.bind {f : α → Check β} {R : α → Substitution → β → Prop}
    (hm : m.Guarantees P) (hf : ∀ a, (f a).Guarantees (R a)) :
    (m >>= f).Guarantees fun s b => ∃ a, P s a ∧ R a s b := by
  intro c b c' hr hc
  obtain ⟨a, d, hr₁, hr₂⟩ := returns_bind_iff.mp hr
  obtain ⟨hd, hsat₁⟩ := hm c a d hr₁ hc
  obtain ⟨hc', hsat₂⟩ := hf a d b c' hr₂ hd
  refine ⟨hc', fun s hs => ?_⟩
  obtain ⟨hsd, hR⟩ := hsat₂ s hs
  obtain ⟨hsc, hP⟩ := hsat₁ s hsd
  exact ⟨hsc, a, hP, hR⟩

theorem guarantees_pure {a : α} (hQ : ∀ s, Q s a) : (pure a : Check α).Guarantees Q := by
  intro c b c' hr hc
  obtain ⟨rfl, rfl⟩ := returns_pure_iff.mp hr
  exact ⟨hc, fun s hs => ⟨hs, hQ s⟩⟩

theorem guarantees_return (a : α) : (pure a : Check α).Guarantees fun _ b => b = a :=
  guarantees_pure fun _ => rfl

theorem guarantees_fail {site : Expr} {fault : TypeFault} :
    (fail site fault : Check α).Guarantees Q := by
  intro c a c' hr
  exact absurd hr not_returns_fail

theorem guarantees_emit (ev : Event) : (emit ev).Guarantees fun _ _ => True := by
  intro c u c' hr hc
  obtain rfl := returns_emit_iff.mp hr
  exact ⟨hc, fun s hs => ⟨hs, trivial⟩⟩

/-- An event in front changes no guarantee. -/
theorem Guarantees.emit_bind (hm : m.Guarantees Q) (ev : Event) :
    (emit ev >>= fun _ => m).Guarantees Q :=
  ((guarantees_emit ev).bind fun _ => hm).mono fun _ _ ⟨_, _, hQ⟩ => hQ

theorem guarantees_fresh : fresh.Guarantees fun _ _ => True := by
  intro c t c' hr hc
  obtain ⟨rfl, rfl⟩ := returns_fresh_iff.mp hr
  exact ⟨hc, fun s hs => ⟨⟨hs.absorbs, hs.fields, hs.projections⟩, trivial⟩⟩

theorem guarantees_resolve (t : Ty) :
    (resolve t).Guarantees fun s u => s.apply u = s.apply t := by
  intro c u c' hr hc
  obtain ⟨rfl, rfl⟩ := returns_resolve_iff.mp hr
  exact ⟨hc, fun s hs => ⟨hs, hs.absorbs t⟩⟩

/-- Behind a resolved type stands the type it was resolved from. -/
theorem guarantees_resolve_bind {t : Ty} {f : Ty → Check α}
    (hf : ∀ u, (f u).Guarantees fun s a => s.apply u = s.apply t → Q s a) :
    (resolve t >>= f).Guarantees Q :=
  ((guarantees_resolve t).bind hf).mono fun _ _ ⟨_, hu, hQ⟩ => hQ hu

/-- The two types are equal in every substitution that satisfies a later state. -/
theorem guarantees_unifyAt (site : Expr) (a b : Ty) :
    (unifyAt site a b).Guarantees fun s _ => s.apply a = s.apply b := by
  intro c u c' hr hc
  obtain ⟨s₁, hs₁, rfl⟩ := returns_unifyAt_iff.mp hr
  refine ⟨unify_compose_resolved hc hs₁, fun s hs => ?_⟩
  have habs : ∀ t, s.apply (s₁.apply (c.subst.apply t)) = s.apply t := by
    intro t
    have ht : s.apply ((s₁.compose c.subst).apply t) = s.apply t := hs.absorbs t
    rwa [Substitution.apply_compose] at ht
  refine ⟨⟨fun t => ?_, hs.fields, hs.projections⟩, ?_⟩
  · rw [← habs (c.subst.apply t), hc.apply_apply, habs]
  · calc s.apply a = s.apply (s₁.apply (c.subst.apply a)) := (habs a).symm
      _ = s.apply (s₁.apply (c.subst.apply b)) := by rw [(unify_sound hs₁).1]
      _ = s.apply b := habs b

theorem guarantees_recordField (p : FieldPremise) :
    (recordField p).Guarantees fun s _ => p.HoldsIn s := by
  intro c u c' hr hc
  obtain rfl := returns_recordField_iff.mp hr
  refine ⟨hc, fun s hs => ⟨⟨hs.absorbs, fun q hq => ?_, hs.projections⟩, ?_⟩⟩
  · exact hs.fields q (List.mem_append_left _ hq)
  · exact hs.fields p (by simp)

theorem guarantees_recordProjection (p : ProjectionPremise) :
    (recordProjection p).Guarantees fun s _ => p.HoldsIn s := by
  intro c u c' hr hc
  obtain rfl := returns_recordProjection_iff.mp hr
  refine ⟨hc, fun s hs => ⟨⟨hs.absorbs, hs.fields, fun q hq => ?_⟩, ?_⟩⟩
  · exact hs.projections q (List.mem_append_left _ hq)
  · exact hs.projections p (by simp)

theorem guarantees_forM {l : List α} {f : α → Check Unit} {R : α → Substitution → Prop}
    (hf : ∀ a ∈ l, (f a).Guarantees fun s _ => R a s) :
    (l.forM f).Guarantees fun s _ => ∀ a ∈ l, R a s := by
  induction l with
  | nil => exact guarantees_pure (by simp)
  | cons a l ih =>
    have hl := ih fun b hb => hf b (List.mem_cons_of_mem a hb)
    refine ((hf a List.mem_cons_self).bind fun _ => hl).mono ?_
    rintro s _ ⟨_, ha, hrest⟩ b hb
    rcases List.mem_cons.mp hb with rfl | hb
    · exact ha
    · exact hrest b hb

/-- Whatever the answer, the computation leaves this part of the state alone. -/
def Keeps (m : Check α) (part : Checker → γ) : Prop := ∀ c, part (m c).checker = part c

theorem Keeps.bind {f : α → Check β} {part : Checker → γ} (hm : m.Keeps part)
    (hf : ∀ a, (f a).Keeps part) : (m >>= f).Keeps part := by
  intro c
  cases ha : (m c).answer with
  | error err =>
    rw [bind_of_error ha]
    exact hm c
  | ok a =>
    rw [bind_of_ok ha]
    exact (hf a (m c).checker).trans (hm c)

theorem Keeps.returns {part : Checker → γ} (hm : m.Keeps part) {c c' : Checker} {a : α}
    (hr : m.Returns c a c') : part c' = part c := by
  rw [← hr.2]
  exact hm c

theorem keeps_pure (a : α) (part : Checker → γ) : (pure a : Check α).Keeps part := fun _ => rfl

theorem keeps_fail (site : Expr) (fault : TypeFault) (part : Checker → γ) :
    (fail site fault : Check α).Keeps part := fun _ => rfl

theorem keeps_emit (ev : Event) (part : Checker → γ) : (emit ev).Keeps part := fun _ => rfl

theorem keeps_resolve (t : Ty) (part : Checker → γ) : (resolve t).Keeps part := fun _ => rfl

theorem keeps_fresh {part : Checker → γ} (hpart : ∀ c n, part { c with nextVar := n } = part c) :
    fresh.Keeps part := fun c => hpart c _

theorem keeps_recordField (p : FieldPremise) {part : Checker → γ}
    (hpart : ∀ c l, part { c with fields := l } = part c) : (recordField p).Keeps part :=
  fun c => hpart c _

theorem keeps_recordProjection (p : ProjectionPremise) {part : Checker → γ}
    (hpart : ∀ c l, part { c with projections := l } = part c) : (recordProjection p).Keeps part :=
  fun c => hpart c _

theorem keeps_unifyAt (site : Expr) (a b : Ty) {part : Checker → γ}
    (hpart : ∀ c s, part { c with subst := s } = part c) : (unifyAt site a b).Keeps part := by
  intro c
  rw [unifyAt_apply]
  split
  · exact hpart c _
  · rfl

theorem keeps_forM {l : List α} {f : α → Check Unit} {part : Checker → γ}
    (hf : ∀ a ∈ l, (f a).Keeps part) : (l.forM f).Keeps part := by
  induction l with
  | nil => exact keeps_pure () part
  | cons a l ih =>
    exact (hf a List.mem_cons_self).bind fun _ => ih fun b hb => hf b (List.mem_cons_of_mem a hb)

end Check

end CellCalculus
