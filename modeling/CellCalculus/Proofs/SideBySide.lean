import CellCalculus.Proofs.SettlingRounds
import CellCalculus.Proofs.TidyStates

/-!
# States side by side

A state holds two others side by side when it is made of a copy of the one and a copy of the other,
with no variable in common. A step taken on one of the copies is the step of the state it is a copy
of, and does not touch the other copy. So premises that are settled side by side end as the two
parts end when they are settled by themselves.
-/

namespace CellCalculus

open Check Function

/-- The two states have been reached from `c₀` and `d₀` by the same steps. -/
structure Checker.Follows (f : Nat → Nat) (c₀ d₀ c d : Checker) : Prop where
  mirrors : c.Mirrors f d
  fields : ∃ l, c.fields = c₀.fields ++ l ∧ d.fields = d₀.fields ++ l.map (·.rename f)
  projections : ∃ l, c.projections = c₀.projections ++ l ∧
    d.projections = d₀.projections ++ l.map (·.rename f)
  /-- What is known of other variables than the renamed ones stays the same. -/
  elsewhere : ∀ t, (∀ x, f x ∉ (d₀.subst.apply t).vars) → d.subst.apply t = d₀.subst.apply t

theorem Checker.Mirrors.follows {f : Nat → Nat} {c d : Checker} (h : c.Mirrors f d) :
    Follows f c d c d where
  mirrors := h
  fields := ⟨[], by simp⟩
  projections := ⟨[], by simp⟩
  elsewhere _ _ := rfl

theorem correspondence_follows {f : Nat → Nat} (hf : Injective f) (c₀ d₀ : Checker) :
    Correspondence f (Checker.Follows f c₀ d₀) where
  injective := hf
  mirrors h := h.mirrors
  fresh h := ⟨h.mirrors, h.fields, h.projections, h.elsewhere⟩
  unify {c d} s h := by
    refine ⟨h.mirrors.unify hf s, h.fields, h.projections, fun t ht => ?_⟩
    rw [Substitution.apply_compose, h.elsewhere t ht]
    exact Substitution.apply_eq_self fun y hy =>
      s.lookup?_rename_of_ne fun x hx => ht x (hx ▸ hy)
  field p h := by
    obtain ⟨l, hc, hd⟩ := h.fields
    exact ⟨h.mirrors, ⟨l ++ [p], by simp [hc], by simp [hd]⟩, h.projections, h.elsewhere⟩
  projection p h := by
    obtain ⟨l, hc, hd⟩ := h.projections
    exact ⟨h.mirrors, h.fields, ⟨l ++ [p], by simp [hc], by simp [hd]⟩, h.elsewhere⟩

/-- The third list has the elements of the two others, those of each in their order. -/
inductive Interleave {α : Type} : List α → List α → List α → Prop
  | nil : Interleave [] [] []
  | left {a l m n} : Interleave l m n → Interleave (a :: l) m (a :: n)
  | right {a l m n} : Interleave l m n → Interleave l (a :: m) (a :: n)

namespace Interleave

variable {α : Type} {l m n : List α}

theorem symm (h : Interleave l m n) : Interleave m l n := by
  induction h with
  | nil => exact .nil
  | left _ ih => exact ih.right
  | right _ ih => exact ih.left

theorem alone (l : List α) : Interleave l [] l := by
  induction l with
  | nil => exact .nil
  | cons a l ih => exact ih.left

theorem append_left (h : Interleave l m n) (l' : List α) :
    Interleave (l ++ l') m (n ++ l') := by
  induction h with
  | nil => exact alone l'
  | left _ ih => exact ih.left
  | right _ ih => exact ih.right

end Interleave

/-- Renaming by `f` makes `c` a part of `d`, and the variables that either of them makes next are
made in the same order. -/
structure Embeds (f : Nat → Nat) (c d : Checker) : Prop where
  injective : Injective f
  mirrors : c.Mirrors f d
  below : ∀ x < c.nextVar, f x < d.nextVar
  above : ∀ i, f (c.nextVar + i) = d.nextVar + i

theorem Embeds.le_of_le {f : Nat → Nat} {c d : Checker} (h : Embeds f c d) {x : Nat}
    (hx : c.nextVar ≤ x) : d.nextVar ≤ f x := by
  have habove := h.above (x - c.nextVar)
  rw [Nat.add_sub_cancel' hx] at habove
  omega

structure Beside (f g : Nat → Nat) (a b d : Checker) : Prop where
  left : Embeds f a d
  right : Embeds g b d
  apart : ∀ x < a.nextVar, ∀ y < b.nextVar, f x ≠ g y
  tidyLeft : a.Tidy
  tidyRight : b.Tidy
  fields : Interleave (a.fields.map (·.rename f)) (b.fields.map (·.rename g)) d.fields

theorem Beside.symm {f g : Nat → Nat} {a b d : Checker} (h : Beside f g a b d) :
    Beside g f b a d where
  left := h.right
  right := h.left
  apart x hx y hy := (h.apart y hy x hx).symm
  tidyLeft := h.tidyRight
  tidyRight := h.tidyLeft
  fields := h.fields.symm

/-- Beside any state there is room for the start. -/
theorem beside_start {c : Checker} (hc : c.Tidy) : Beside id (c.nextVar + ·) c {} c where
  left :=
    { injective := injective_id
      mirrors := fun t => by rw [Ty.rename_id, Ty.rename_id]
      below := fun _ hx => hx
      above := fun _ => rfl }
  right :=
    { injective := fun _ _ hxy => Nat.add_left_cancel hxy
      mirrors := hc.mirrors_start
      below := fun _ hx => absurd hx (Nat.not_lt_zero _)
      above := fun i => congrArg (c.nextVar + ·) (Nat.zero_add i) }
  apart _ _ _ hy := absurd hy (Nat.not_lt_zero _)
  tidyLeft := hc
  tidyRight := Checker.tidy_start
  fields := by
    simp only [FieldPremise.rename_id, List.map_id', List.map_nil]
    exact .alone c.fields

/-- The first `m` variables are renamed as before, and those behind become the ones from `n` on. -/
def renameBeyond (g : Nat → Nat) (m n x : Nat) : Nat := if x < m then g x else n + (x - m)

theorem renameBeyond_of_lt {g : Nat → Nat} {m n x : Nat} (hx : x < m) :
    renameBeyond g m n x = g x := if_pos hx

theorem renameBeyond_of_le {g : Nat → Nat} {m n x : Nat} (hx : m ≤ x) :
    renameBeyond g m n x = n + (x - m) := if_neg (Nat.not_lt.mpr hx)

theorem renameBeyond_injective {g : Nat → Nat} {m n : Nat} (hg : Injective g)
    (hbelow : ∀ x < m, g x < n) : Injective (renameBeyond g m n) := by
  intro x y hxy
  rcases Nat.lt_or_ge x m with hx | hx <;> rcases Nat.lt_or_ge y m with hy | hy
  · rw [renameBeyond_of_lt hx, renameBeyond_of_lt hy] at hxy
    exact hg hxy
  · rw [renameBeyond_of_lt hx, renameBeyond_of_le hy] at hxy
    have := hbelow x hx
    omega
  · rw [renameBeyond_of_le hx, renameBeyond_of_lt hy] at hxy
    have := hbelow y hy
    omega
  · rw [renameBeyond_of_le hx, renameBeyond_of_le hy] at hxy
    omega

section Steps

variable {α : Type} {f g : Nat → Nat} {a b d : Checker} {m : Check α}
  {M : (Nat → Nat) → Check α} {G : (Nat → Nat) → α → α}

theorem Embeds.supplies {a' : Checker} (h : Embeds f a d) : Supplies f a a' d := by
  intro x hx _
  have habove := h.above (x - a.nextVar)
  rw [Nat.add_sub_cancel' hx] at habove
  omega

theorem Embeds.grow {a' d' : Checker} (h : Embeds f a d) (hmirrors : a'.Mirrors f d')
    (hgrow : a.nextVar ≤ a'.nextVar)
    (hcount : d'.nextVar + a.nextVar = d.nextVar + a'.nextVar) : Embeds f a' d' where
  injective := h.injective
  mirrors := hmirrors
  below x hx := by
    rcases Nat.lt_or_ge x a.nextVar with hxa | hxa
    · have := h.below x hxa
      omega
    · have habove := h.above (x - a.nextVar)
      rw [Nat.add_sub_cancel' hxa] at habove
      omega
  above i := by
    have habove := h.above (a'.nextVar - a.nextVar + i)
    rw [show a.nextVar + (a'.nextVar - a.nextVar + i) = a'.nextVar + i by omega] at habove
    omega

/-- What is known of the other part stays the same while the one part goes on. -/
theorem Beside.mirrors_renameBeyond {a' d' : Checker} (h : Beside f g a b d)
    (hfollows : Checker.Follows f a d a' d') (ha' : a'.Tidy) (hembeds : Embeds f a' d') :
    b.Mirrors (renameBeyond g b.nextVar d'.nextVar) d' := by
  refine Checker.mirrors_of_vars fun x => ?_
  rcases Nat.lt_or_ge x b.nextVar with hx | hx
  · have hknown : d.subst.apply (.var (g x)) = (b.subst.apply (.var x)).rename g :=
      h.right.mirrors (.var x)
    have hforeign : ∀ y, f y ∉ (d.subst.apply (.var (g x))).vars := by
      intro y hy
      rw [hknown, Ty.vars_rename] at hy
      obtain ⟨z, hz, hzy⟩ := List.mem_map.mp hy
      have hzb := h.tidyRight.known x hx z hz
      rcases Nat.lt_or_ge y a.nextVar with hya | hya
      · exact h.apart y hya z hzb hzy.symm
      · have hlow := h.right.below z hzb
        have hhigh := h.left.le_of_le hya
        omega
    rw [renameBeyond_of_lt hx, hfollows.elsewhere _ hforeign, hknown]
    exact (h.tidyRight.known x hx).rename_congr fun y hy => (renameBeyond_of_lt hy).symm
  · have hnew : f (a'.nextVar + (x - b.nextVar)) = d'.nextVar + (x - b.nextVar) :=
      hembeds.above _
    have hunknown := hembeds.mirrors (.var (a'.nextVar + (x - b.nextVar)))
    rw [ha'.unknown _ (Nat.le_add_right _ _), Ty.rename, hnew] at hunknown
    rw [h.tidyRight.unknown x hx, renameBeyond_of_le hx, hunknown, Ty.rename,
      renameBeyond_of_le hx]

/-- A step taken on the part on the left. -/
theorem Beside.stepLeft (h : Beside f g a b d) (hm : Uniform a.nextVar m M G) :
    ∃ g', (∀ x < b.nextVar, g' x = g x) ∧
      (M f d).answer = renameAnswer f (G f) (m a).answer ∧
      Beside f g' (m a).checker b (M f d).checker ∧
      ∃ l, (m a).checker.projections = a.projections ++ l ∧
        (M f d).checker.projections = d.projections ++ l.map (·.rename f) := by
  have hgrow : a.nextVar ≤ (m a).checker.nextVar := hm.grows a
  obtain ⟨hanswer, hfollows, hcount⟩ := (hm.mirrored
    (correspondence_follows h.left.injective a d)).run a d h.left.mirrors.follows h.left.supplies
  have ha' := hm.tidy h.tidyLeft
  have hembeds := h.left.grow hfollows.mirrors hgrow hcount
  have hbelow : ∀ y < b.nextVar, g y < (M f d).checker.nextVar := by
    intro y hy
    have := h.right.below y hy
    omega
  refine ⟨renameBeyond g b.nextVar (M f d).checker.nextVar, fun x hx => renameBeyond_of_lt hx,
    hanswer, ?_, hfollows.projections⟩
  exact
    { left := hembeds
      right :=
        { injective := renameBeyond_injective h.right.injective hbelow
          mirrors := h.mirrors_renameBeyond hfollows ha' hembeds
          below := fun y hy => by
            rw [renameBeyond_of_lt hy]
            exact hbelow y hy
          above := fun i => by
            rw [renameBeyond_of_le (Nat.le_add_right _ _), Nat.add_sub_cancel_left] }
      apart := fun x hx y hy => by
        rw [renameBeyond_of_lt hy]
        rcases Nat.lt_or_ge x a.nextVar with hxa | hxa
        · exact h.apart x hxa y hy
        · have hlow := h.right.below y hy
          have hhigh := h.left.le_of_le hxa
          omega
      tidyLeft := ha'
      tidyRight := h.tidyRight
      fields := by
        obtain ⟨l, hl, hl'⟩ := hfollows.fields
        have hright : b.fields.map (·.rename (renameBeyond g b.nextVar (M f d).checker.nextVar)) =
            b.fields.map (·.rename g) := List.map_congr_left fun p hp =>
          (h.tidyRight.fields p hp).rename_congr fun x hx => renameBeyond_of_lt hx
        rw [hl, hl', List.map_append, hright]
        exact h.fields.append_left _ }

/-- A step taken on the part on the right. -/
theorem Beside.stepRight (h : Beside f g a b d) (hm : Uniform b.nextVar m M G) :
    ∃ f', (∀ x < a.nextVar, f' x = f x) ∧
      (M g d).answer = renameAnswer g (G g) (m b).answer ∧
      Beside f' g a (m b).checker (M g d).checker ∧
      ∃ l, (m b).checker.projections = b.projections ++ l ∧
        (M g d).checker.projections = d.projections ++ l.map (·.rename g) := by
  obtain ⟨f', hf', hanswer, hbeside, hprojections⟩ := h.symm.stepLeft hm
  exact ⟨f', hf', hanswer, hbeside.symm, hprojections⟩

end Steps

end CellCalculus
