import CellCalculus.Proofs.MirroredSettling
import CellCalculus.Proofs.StateReadings

/-!
# Tidy states

A state is tidy when nothing is known of the variables that have not been made yet, and nothing in
it mentions one. That is the same as being its own copy under every injection that leaves the
variables made so far alone. So a computation that does the same under renaming keeps states tidy,
and what it answers mentions the variables made by then only.
-/

namespace CellCalculus

open Check Function

def FieldPremise.Below (n : Nat) (p : FieldPremise) : Prop := p.ty.Below n

def ProjectionPremise.Below (n : Nat) (p : ProjectionPremise) : Prop :=
  p.operand.Below n ∧ p.result.Below n

theorem Ty.Below.mono {m n : Nat} {t : Ty} (ht : t.Below m) (hmn : m ≤ n) : t.Below n :=
  fun x hx => Nat.lt_of_lt_of_le (ht x hx) hmn

theorem FieldPremise.Below.mono {m n : Nat} {p : FieldPremise} (hp : p.Below m) (hmn : m ≤ n) :
    p.Below n :=
  Ty.Below.mono hp hmn

theorem ProjectionPremise.Below.mono {m n : Nat} {p : ProjectionPremise} (hp : p.Below m)
    (hmn : m ≤ n) : p.Below n :=
  ⟨hp.1.mono hmn, hp.2.mono hmn⟩

section Renaming

variable {f g : Nat → Nat} {n : Nat}

theorem Ty.Below.rename_congr {t : Ty} (ht : t.Below n) (hfg : ∀ x < n, f x = g x) :
    t.rename f = t.rename g :=
  Ty.rename_congr fun x hx => hfg x (ht x hx)

theorem FieldPremise.Below.rename_congr {p : FieldPremise} (hp : p.Below n)
    (hfg : ∀ x < n, f x = g x) : p.rename f = p.rename g := by
  rw [FieldPremise.rename, FieldPremise.rename, Ty.Below.rename_congr hp hfg]

theorem ProjectionPremise.Below.rename_congr {p : ProjectionPremise} (hp : p.Below n)
    (hfg : ∀ x < n, f x = g x) : p.rename f = p.rename g := by
  rw [ProjectionPremise.rename, ProjectionPremise.rename, hp.1.rename_congr hfg,
    hp.2.rename_congr hfg]

theorem FieldPremise.rename_id (p : FieldPremise) : p.rename id = p := by
  rw [rename, Ty.rename_id]

theorem ProjectionPremise.rename_id (p : ProjectionPremise) : p.rename id = p := by
  rw [rename, Ty.rename_id, Ty.rename_id]

/-- Leaves the first `n` variables alone and makes room for `k` behind them. -/
def shiftFrom (n k x : Nat) : Nat := if x < n then x else x + k

theorem shiftFrom_of_lt {n k x : Nat} (hx : x < n) : shiftFrom n k x = x := if_pos hx

theorem shiftFrom_injective (n k : Nat) : Injective (shiftFrom n k) := by
  intro x y hxy
  unfold shiftFrom at hxy
  split at hxy <;> split at hxy <;> omega

theorem Ty.below_of_rename_shiftFrom {t : Ty} (ht : t.rename (shiftFrom n 1) = t) : t.Below n := by
  intro x hx
  have hvars : t.vars.map (shiftFrom n 1) = t.vars.map id := by
    rw [List.map_id, ← Ty.vars_rename, ht]
  have hfixed := List.map_inj_left.mp hvars x hx
  unfold shiftFrom at hfixed
  split at hfixed
  · assumption
  · simp at hfixed

end Renaming

theorem Substitution.exists_unbound (s : Substitution) :
    ∃ n, ∀ x, n ≤ x → s.lookup? x = none := by
  have hbound : ∃ n, ∀ entry ∈ s.entries, entry.1 < n := by
    induction s.entries with
    | nil => exact ⟨0, by simp⟩
    | cons entry l ih =>
      obtain ⟨n, hn⟩ := ih
      refine ⟨n + entry.1 + 1, List.forall_mem_cons.mpr ⟨by omega, fun e he => ?_⟩⟩
      have := hn e he
      omega
  obtain ⟨n, hn⟩ := hbound
  refine ⟨n, fun x hx => List.lookup_eq_none_iff.mpr fun entry hentry => bne_iff_ne.mpr ?_⟩
  have := hn entry hentry
  omega

namespace Checker

theorem mirrors_of_vars {f : Nat → Nat} {c d : Checker}
    (h : ∀ x, d.subst.apply (.var (f x)) = (c.subst.apply (.var x)).rename f) : c.Mirrors f d := by
  intro t
  induction t with
  | var x => exact h x
  | _ => simp_all [Ty.rename, Substitution.apply]

structure Tidy (c : Checker) : Prop where
  known : ∀ x < c.nextVar, (c.subst.apply (.var x)).Below c.nextVar
  unknown : ∀ x, c.nextVar ≤ x → c.subst.apply (.var x) = .var x
  fields : ∀ p ∈ c.fields, p.Below c.nextVar
  projections : ∀ p ∈ c.projections, p.Below c.nextVar

theorem tidy_start : Tidy {} where
  known x hx := absurd hx (Nat.not_lt_zero x)
  unknown _ _ := Substitution.apply_empty _
  fields _ hp := absurd hp List.not_mem_nil
  projections _ hp := absurd hp List.not_mem_nil

variable {c : Checker} {f : Nat → Nat}

/-- What is not made yet in a tidy state is as unknown as everything is at the start. -/
theorem Tidy.mirrors_start (hc : c.Tidy) : Mirrors (c.nextVar + ·) {} c :=
  mirrors_of_vars fun x => by
    rw [hc.unknown _ (Nat.le_add_right _ x), Substitution.apply_empty]
    rfl

theorem Tidy.apply_below (hc : c.Tidy) {t : Ty} (ht : t.Below c.nextVar) :
    (c.subst.apply t).Below c.nextVar := by
  intro x hx
  obtain ⟨y, hy, hxy⟩ := Substitution.mem_vars_apply.mp hx
  exact hc.known y (ht y hy) x hxy

theorem Tidy.copies (hc : c.Tidy) (hf : Injective f) (hfix : ∀ x < c.nextVar, f x = x) :
    c.Copies f c where
  mirrors := mirrors_of_vars fun x => by
    by_cases hx : x < c.nextVar
    · rw [hfix x hx, Ty.rename_eq_self fun y hy => hfix y (hc.known x hx y hy)]
    · have hfx : c.nextVar ≤ f x := by
        by_contra hlow
        exact hx (hf (hfix _ (Nat.not_le.mp hlow)) ▸ Nat.not_le.mp hlow)
      rw [hc.unknown x (Nat.not_lt.mp hx), hc.unknown _ hfx]
      rfl
  fields := by
    refine (List.map_id _).symm.trans (List.map_congr_left fun p hp => ?_)
    rw [(hc.fields p hp).rename_congr (g := id) hfix, FieldPremise.rename_id]
    rfl
  projections := by
    refine (List.map_id _).symm.trans (List.map_congr_left fun p hp => ?_)
    rw [(hc.projections p hp).rename_congr (g := id) hfix, ProjectionPremise.rename_id]
    rfl

theorem tidy_of_copies (h : ∀ {f}, Injective f → (∀ x < c.nextVar, f x = x) → c.Copies f c) :
    c.Tidy where
  known x hx := by
    have hcopy := h (shiftFrom_injective c.nextVar 1) fun _ => shiftFrom_of_lt
    have hshift := hcopy.mirrors (.var x)
    rw [Ty.rename, shiftFrom_of_lt hx] at hshift
    exact Ty.below_of_rename_shiftFrom hshift.symm
  unknown x hx := by
    -- The shifted variable is one that the table does not bind.
    obtain ⟨k, hk⟩ := c.subst.exists_unbound
    have hinjective := shiftFrom_injective c.nextVar k
    have hshift := (h hinjective fun _ => shiftFrom_of_lt).mirrors (.var x)
    have hvar : (Ty.var x).rename (shiftFrom c.nextVar k) = .var (x + k) :=
      congrArg Ty.var (if_neg (Nat.not_lt.mpr hx))
    rw [hvar, Substitution.apply_var_of_unbound (hk _ (Nat.le_add_left k x)), ← hvar] at hshift
    exact (Ty.rename_injective hinjective hshift).symm
  fields p hp := by
    have hmap := (h (shiftFrom_injective c.nextVar 1) fun _ => shiftFrom_of_lt).fields
    have hself := List.map_inj_left.mp ((List.map_id _).trans hmap) p hp
    exact Ty.below_of_rename_shiftFrom (congrArg FieldPremise.ty hself.symm)
  projections p hp := by
    have hmap := (h (shiftFrom_injective c.nextVar 1) fun _ => shiftFrom_of_lt).projections
    have hself := List.map_inj_left.mp ((List.map_id _).trans hmap) p hp
    exact ⟨Ty.below_of_rename_shiftFrom (congrArg ProjectionPremise.operand hself.symm),
      Ty.below_of_rename_shiftFrom (congrArg ProjectionPremise.result hself.symm)⟩

/-- A computation that does the same under every such injection keeps the state tidy, and what it
answers stays the same under those that leave all the variables made by then alone. -/
theorem Tidy.run {α : Type} {m : Check α} {g : (Nat → Nat) → α → α} (hc : c.Tidy)
    (hm : ∀ {f}, Injective f → (∀ x < c.nextVar, f x = x) → Mirrored f (Copies f) (g f) m m) :
    (m c).checker.Tidy ∧ ∀ {f}, Injective f → (∀ x < (m c).checker.nextVar, f x = x) →
      renameAnswer f (g f) (m c).answer = (m c).answer := by
  have hgrow : c.nextVar ≤ (m c).checker.nextVar :=
    (hm injective_id fun _ _ => rfl).grows c
  have hself : ∀ {f}, Injective f → (∀ x < (m c).checker.nextVar, f x = x) →
      (m c).answer = renameAnswer f (g f) (m c).answer ∧ (m c).checker.Copies f (m c).checker := by
    intro f hf hfix
    have hfix' : ∀ x < c.nextVar, f x = x := fun x hx => hfix x (Nat.lt_of_lt_of_le hx hgrow)
    have hrun := (hm hf hfix').run c c (hc.copies hf hfix') fun x _ hx =>
      congrArg (· + _) (hfix x hx)
    exact ⟨hrun.1, hrun.2.1⟩
  exact ⟨tidy_of_copies fun hf hfix => (hself hf hfix).2,
    fun hf hfix => (hself hf hfix).1.symm⟩

end Checker

namespace Check

variable {α : Type} {n : Nat}

/-- `M f` is the computation `m` with its variables renamed by `f`, and what `m` mentions are some
of the first `n` variables. What `m` answers is renamed by `g f`. -/
structure Uniform (n : Nat) (m : Check α) (M : (Nat → Nat) → Check α)
    (g : (Nat → Nat) → α → α) : Prop where
  mirrored : ∀ {f R}, Correspondence f R → Mirrored f R (g f) m (M f)
  fixed : ∀ {f}, (∀ x < n, f x = x) → M f = m

variable {m : Check α} {M : (Nat → Nat) → Check α} {g : (Nat → Nat) → α → α} {c : Checker}

theorem Uniform.grows (hm : Uniform n m M g) (c : Checker) :
    c.nextVar ≤ (m c).checker.nextVar :=
  (hm.mirrored (correspondence_copies injective_id)).grows c

theorem Uniform.run (hm : Uniform c.nextVar m M g) (hc : c.Tidy) :
    (m c).checker.Tidy ∧ ∀ {f}, Injective f → (∀ x < (m c).checker.nextVar, f x = x) →
      renameAnswer f (g f) (m c).answer = (m c).answer := by
  refine hc.run fun hf hfix => ?_
  have hmirrored := hm.mirrored (correspondence_copies hf)
  rwa [hm.fixed hfix] at hmirrored

theorem Uniform.tidy (hm : Uniform c.nextVar m M g) (hc : c.Tidy) : (m c).checker.Tidy :=
  (hm.run hc).1

theorem uniform_infer {env : TypeEnv} (henv : ∀ x t, env.lookup? x = some t → t.vars = [])
    (n : Nat) (e : Expr) : Uniform n (infer env e) (fun _ => infer env e) Ty.rename where
  mirrored hR := infer_mirrored hR (TypeEnv.renamed_ground _ henv) e
  fixed _ := rfl

theorem uniform_requireField (site : Expr) (tag : Tag) {t : Ty} (ht : t.Below n) :
    Uniform n (requireField site tag t) (fun f => requireField site tag (t.rename f))
      (fun _ => id) where
  mirrored hR := mirrored_requireField hR site tag t
  fixed hfix := congrArg (requireField site tag) (Ty.rename_eq_self fun x hx => hfix x (ht x hx))

theorem uniform_settlePass {ps : List ProjectionPremise} (hps : ∀ p ∈ ps, p.Below n) :
    Uniform n (settlePass ps) (fun f => settlePass (ps.map (·.rename f)))
      (fun f => List.map (·.rename f)) where
  mirrored hR := settlePass_mirrored hR ps
  fixed hfix := congrArg settlePass <| (List.map_congr_left fun p hp =>
    ((hps p hp).rename_congr hfix).trans p.rename_id).trans (List.map_id' ps)

theorem uniform_defaultOperand {p : ProjectionPremise} (hp : p.Below n) :
    Uniform n (defaultOperand p) (fun f => defaultOperand (p.rename f)) (fun _ => id) where
  mirrored hR := defaultOperand_mirrored hR p
  fixed hfix := congrArg defaultOperand ((hp.rename_congr hfix).trans p.rename_id)

theorem uniform_settleField {p : FieldPremise} (hp : p.Below n) :
    Uniform n (settleField p) (fun f => settleField (p.rename f)) (fun _ => id) where
  mirrored hR := settleField_mirrored hR p
  fixed hfix := congrArg settleField ((hp.rename_congr hfix).trans p.rename_id)

/-- An inferred type has no variables but those made by then. -/
theorem infer_below {env : TypeEnv} (henv : ∀ x t, env.lookup? x = some t → t.vars = [])
    {e : Expr} {t : Ty} (hc : c.Tidy) (ht : (infer env e c).answer = .ok t) :
    t.Below (infer env e c).checker.nextVar := by
  have hself := ((uniform_infer henv c.nextVar e).run hc).2
    (shiftFrom_injective (infer env e c).checker.nextVar 1) fun _ => shiftFrom_of_lt
  rw [ht] at hself
  exact Ty.below_of_rename_shiftFrom (Except.ok.inj hself)

end Check

end CellCalculus
