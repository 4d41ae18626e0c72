import CellCalculus.Checker
import CellCalculus.Proofs.ResolvedSubstitution
import CellCalculus.Proofs.VariableRenaming

/-!
# Mirrored runs

Two runs of the checker are compared along an injection `f` of type variables: what one run calls
`x` the other one calls `f x`. A state mirrors another when its substitution does to renamed types
what the other one does to the types, whatever else it holds. A correspondence is a relation between
such states that every single step keeps when it is taken on both sides. Two computations are
mirrored when from corresponding states they answer the same up to `f` and leave corresponding
states behind, provided that `f` takes the variables made by one to those made by the other.
-/

namespace CellCalculus

open Function

def FieldPremise.rename (f : Nat → Nat) (p : FieldPremise) : FieldPremise :=
  { p with ty := p.ty.rename f }

def ProjectionPremise.rename (f : Nat → Nat) (p : ProjectionPremise) : ProjectionPremise :=
  { p with operand := p.operand.rename f, result := p.result.rename f }

def Checker.Mirrors (f : Nat → Nat) (c d : Checker) : Prop :=
  ∀ t, d.subst.apply (t.rename f) = (c.subst.apply t).rename f

/-- A relation between mirrored states that the steps of the checker keep. -/
structure Correspondence (f : Nat → Nat) (R : Checker → Checker → Prop) : Prop where
  injective : Injective f
  mirrors : ∀ {c d}, R c d → c.Mirrors f d
  fresh : ∀ {c d}, R c d →
    R { c with nextVar := c.nextVar + 1 } { d with nextVar := d.nextVar + 1 }
  unify : ∀ {c d} (s : Substitution), R c d →
    R { c with subst := s.compose c.subst } { d with subst := (s.rename f).compose d.subst }
  field : ∀ {c d} (p : FieldPremise), R c d →
    R { c with fields := c.fields ++ [p] } { d with fields := d.fields ++ [p.rename f] }
  projection : ∀ {c d} (p : ProjectionPremise), R c d →
    R { c with projections := c.projections ++ [p] }
      { d with projections := d.projections ++ [p.rename f] }

/-- What a success answers is renamed by `g`, and an error as errors are. -/
def renameAnswer {α : Type} (f : Nat → Nat) (g : α → α) : Except TypeError α → Except TypeError α
  | .ok a => .ok (g a)
  | .error err => .error (err.rename f)

theorem Checker.Mirrors.unify {f : Nat → Nat} {c d : Checker} (hcd : c.Mirrors f d)
    (hf : Injective f) (s : Substitution) :
    Mirrors f { c with subst := s.compose c.subst }
      { d with subst := (s.rename f).compose d.subst } := by
  intro t
  rw [Substitution.apply_compose, hcd, Substitution.apply_rename hf, Substitution.apply_compose]

namespace Check

variable {α β : Type} {f : Nat → Nat} {R : Checker → Checker → Prop} {g : α → α} {m m' : Check α}

/-- The renaming takes the variables made between `c` and `c'` to those made from `d` on. -/
def Supplies (f : Nat → Nat) (c c' d : Checker) : Prop :=
  ∀ x, c.nextVar ≤ x → x < c'.nextVar → f x + c.nextVar = x + d.nextVar

/-- The two computations do the same up to the renaming `f` of type variables, and `g` renames what
they answer. The counter never goes back. -/
structure Mirrored (f : Nat → Nat) (R : Checker → Checker → Prop) (g : α → α)
    (m m' : Check α) : Prop where
  grows : ∀ c, c.nextVar ≤ (m c).checker.nextVar
  run : ∀ c d, R c d → Supplies f c (m c).checker d →
    (m' d).answer = renameAnswer f g (m c).answer ∧ R (m c).checker (m' d).checker ∧
      (m' d).checker.nextVar + c.nextVar = d.nextVar + (m c).checker.nextVar

/-- The variables made on the whole way are those made before and those made behind. -/
theorem Mirrored.bind {h : β → β} {k k' : α → Check β} (hm : Mirrored f R g m m')
    (hk : ∀ a, Mirrored f R h (k a) (k' (g a))) : Mirrored f R h (m >>= k) (m' >>= k') where
  grows c := by
    cases ha : (m c).answer with
    | error err =>
      rw [bind_of_error ha]
      exact hm.grows c
    | ok a =>
      rw [bind_of_ok ha]
      exact Nat.le_trans (hm.grows c) ((hk a).grows _)
  run c d hcd hsupply := by
    cases ha : (m c).answer with
    | error err =>
      rw [bind_of_error ha] at hsupply ⊢
      obtain ⟨hanswer, hstate⟩ := hm.run c d hcd hsupply
      rw [ha] at hanswer
      rw [bind_of_error (show (m' d).answer = .error (err.rename f) from hanswer)]
      exact ⟨rfl, hstate⟩
    | ok a =>
      rw [bind_of_ok ha] at hsupply ⊢
      have hgrow := hm.grows c
      have hgrow' := (hk a).grows (m c).checker
      obtain ⟨hanswer, hstate, hcounter⟩ := hm.run c d hcd fun x hx hx' =>
        hsupply x hx (Nat.lt_of_lt_of_le hx' hgrow')
      rw [ha] at hanswer
      rw [bind_of_ok (show (m' d).answer = .ok (g a) from hanswer)]
      obtain ⟨hanswer', hstate', hcounter'⟩ := (hk a).run _ _ hstate fun x hx hx' => by
        have hfx := hsupply x (Nat.le_trans hgrow hx) hx'
        omega
      have hsum : (k' (g a) (m' d).checker).checker.nextVar + c.nextVar =
          d.nextVar + (k a (m c).checker).checker.nextVar := by
        omega
      exact ⟨hanswer', hstate', hsum⟩

theorem mirrored_pure (f : Nat → Nat) (R : Checker → Checker → Prop) (g : α → α) (a : α) :
    Mirrored f R g (pure a) (pure (g a)) where
  grows _ := Nat.le_refl _
  run _ _ hcd _ := ⟨rfl, hcd, rfl⟩

theorem mirrored_fail (g : α → α) (site : Expr) (fault : TypeFault) :
    Mirrored f R g (fail site fault) (fail site (fault.rename f)) where
  grows _ := Nat.le_refl _
  run _ _ hcd _ := ⟨rfl, hcd, rfl⟩

/-- Nothing depends on the events. -/
theorem Mirrored.emit_bind (hm : Mirrored f R g m m') (ev ev' : Event) :
    Mirrored f R g (emit ev >>= fun _ => m) (emit ev' >>= fun _ => m') :=
  have hemit : Mirrored f R id (emit ev) (emit ev') :=
    ⟨fun _ => Nat.le_refl _, fun _ _ hcd _ => ⟨rfl, hcd, rfl⟩⟩
  hemit.bind fun _ => hm

theorem mirrored_fresh (hR : Correspondence f R) : Mirrored f R (Ty.rename f) fresh fresh where
  grows _ := Nat.le_succ _
  run c d hcd hsupply := by
    have hnew : f c.nextVar + c.nextVar = c.nextVar + d.nextVar :=
      hsupply c.nextVar (Nat.le_refl _) (Nat.lt_succ_self _)
    have hvar : f c.nextVar = d.nextVar := by omega
    refine ⟨by rw [fresh, fresh, ← hvar]; rfl, hR.fresh hcd, ?_⟩
    simp only [fresh]
    omega

theorem mirrored_resolve (hR : Correspondence f R) (t : Ty) :
    Mirrored f R (Ty.rename f) (resolve t) (resolve (t.rename f)) where
  grows _ := Nat.le_refl _
  run _ _ hcd _ := ⟨congrArg Except.ok (hR.mirrors hcd t), hcd, rfl⟩

theorem mirrored_unifyAt (hR : Correspondence f R) (site : Expr) (a b : Ty) :
    Mirrored f R id (unifyAt site a b) (unifyAt site (a.rename f) (b.rename f)) where
  grows c := by
    rw [unifyAt_apply]
    split <;> exact Nat.le_refl _
  run c d hcd _ := by
    have hunify := unify_rename hR.injective (c.subst.apply a) (c.subst.apply b)
    rw [unifyAt_apply, unifyAt_apply, hR.mirrors hcd, hR.mirrors hcd, hunify]
    cases unify (c.subst.apply a) (c.subst.apply b) with
    | error err =>
      refine ⟨?_, hcd, rfl⟩
      simp [Except.map, Except.mapError, renameAnswer, TypeError.rename,
        TypeFault.rename_ofUnifyError]
    | ok s => exact ⟨rfl, hR.unify s hcd, rfl⟩

theorem mirrored_recordField (hR : Correspondence f R) (p : FieldPremise) :
    Mirrored f R id (recordField p) (recordField (p.rename f)) where
  grows _ := Nat.le_refl _
  run _ _ hcd _ := ⟨rfl, hR.field p hcd, rfl⟩

theorem mirrored_recordProjection (hR : Correspondence f R) (p : ProjectionPremise) :
    Mirrored f R id (recordProjection p) (recordProjection (p.rename f)) where
  grows _ := Nat.le_refl _
  run _ _ hcd _ := ⟨rfl, hR.projection p hcd, rfl⟩

theorem mirrored_requireField (hR : Correspondence f R) (site : Expr) (tag : Tag) (t : Ty) :
    Mirrored f R id (requireField site tag t) (requireField site tag (t.rename f)) := by
  unfold requireField
  rw [fieldValidity_rename]
  split
  · exact mirrored_pure f R id ()
  · exact mirrored_fail id site (.invalidField t tag)
  · exact mirrored_recordField hR ⟨t, tag, site⟩

theorem mirrored_forM {γ : Type} {l : List γ} {k : γ → γ} {m m' : γ → Check Unit}
    (hm : ∀ a ∈ l, Mirrored f R id (m a) (m' (k a))) :
    Mirrored f R id (l.forM m) ((l.map k).forM m') := by
  induction l with
  | nil => exact mirrored_pure f R id ()
  | cons a l ih =>
    exact (hm a List.mem_cons_self).bind fun _ => ih fun b hb => hm b (List.mem_cons_of_mem a hb)

end Check

end CellCalculus
