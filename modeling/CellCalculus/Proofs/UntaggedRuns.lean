import CellCalculus.Proofs.Erasure

/-!
# Runs do not depend on tags

Tags tell the checker which pairs are ref-structs and records apart from pairs. A step is the same
after their erasure, so configurations that differ in nothing else run in lockstep.
-/

namespace CellCalculus

/-- Equal but for the tags of pairs, with records counted among the pairs. -/
def Expr.SameUpToTags (e e' : Expr) : Prop := e.erase .tags = e'.erase .tags

/-- No rule looks at a tag. -/
theorem step_erase_tags (e : Expr) (h : Heap) :
    step (e.erase .tags) (h.erase .tags) =
      ((step e h).1.erase .tags, (step e h).2.erase .tags) :=
  step_erase h fun _ _ _ => nofun

theorem configAfter_erase_tags (n : Nat) (e : Expr) (h : Heap) :
    configAfter n (e.erase .tags) (h.erase .tags) =
      (configAfter n e h).map fun c => (c.1.erase .tags, c.2.erase .tags) := by
  induction n generalizing e h with
  | zero => rfl
  | succ n ih =>
    have herased := step_erase_tags e h
    rcases hs : step e h with ⟨e₁ | v | ⟨e₁, err⟩, h₁⟩ <;> rw [hs] at herased
    · rw [configAfter_succ_of_step n hs, configAfter_succ_of_step n herased, ih]
    · simp only [configAfter, hs, herased, Step.erase, Option.map_none]
    · simp only [configAfter, hs, herased, Step.erase, Option.map_none]

theorem rel_eq_iff_map_eq {α β : Type} {f : α → β} {a b : Option α} :
    Option.Rel (fun x y => f x = f y) a b ↔ a.map f = b.map f := by
  constructor
  · rintro (h | _)
    · exact congrArg some h
    · rfl
  · intro h
    cases a <;> cases b
    · exact .none
    · cases h
    · cases h
    · exact .some (Option.some.inj h)

theorem Heap.related_sameUpToTags_iff {h h' : Heap} :
    h.Related Expr.SameUpToTags h' ↔ h.erase .tags = h'.erase .tags := by
  have hval : (Option.Rel fun v v' => (Expr.val v).SameUpToTags (.val v')) =
      fun c c' => c.map (·.erase .tags) = c'.map (·.erase .tags) := by
    funext c c'
    simp only [Expr.SameUpToTags, Expr.erase, Expr.val.injEq]
    exact propext rel_eq_iff_map_eq
  have hcell : ∀ i : Nat, Option.Rel (fun c c' => c.map (·.erase .tags) = c'.map (·.erase .tags))
      h.cells[i]? h'.cells[i]? ↔ (h.erase .tags).cells[i]? = (h'.erase .tags).cells[i]? := by
    intro i
    rw [erase, erase, Array.getElem?_map, Array.getElem?_map]
    exact rel_eq_iff_map_eq
  simp only [Related, hval, hcell]
  constructor
  · intro hcells
    exact Heap.ext (Array.ext_getElem? hcells)
  · intro heq i
    rw [heq]

theorem StuckError.related_of_erase_tags {err err' : StuckError}
    (h : err.erase .tags = err'.erase .tags) : err.Related Expr.SameUpToTags err' := by
  cases err <;> cases err' <;> injection h
  case invalidAddress.invalidAddress hv => exact .invalidAddress (congrArg Expr.val hv)
  case unaryMismatch.unaryMismatch hop hv =>
    subst hop
    exact .unaryMismatch (congrArg Expr.val hv)
  case binaryMismatch.binaryMismatch hop hv hw =>
    subst hop
    exact .binaryMismatch (congrArg Expr.val hv) (congrArg Expr.val hw)
  case notAFunction.notAFunction hv => exact .notAFunction (congrArg Expr.val hv)
  case notABoolean.notABoolean hv => exact .notABoolean (congrArg Expr.val hv)
  case notAPair.notAPair hv => exact .notAPair (congrArg Expr.val hv)
  case invalidSize.invalidSize hv => exact .invalidSize (congrArg Expr.val hv)
  case freeVariable.freeVariable hx =>
    subst hx
    exact .freeVariable
  case malformedReference.malformedReference he => exact .malformedReference he
  case notARedex.notARedex he => exact .notARedex he

theorem Step.related_of_erase_tags {s s' : Step} (h : s.erase .tags = s'.erase .tags) :
    s.Related Expr.SameUpToTags s' := by
  cases s <;> cases s' <;> injection h
  case next.next he => exact .next he
  case value.value hv => exact .value (congrArg Expr.val hv)
  case stuck.stuck he herr => exact .stuck he (StuckError.related_of_erase_tags herr)

section Lockstep

variable {e e' : Expr} {h h' : Heap}

theorem configRelated_sameUpToTags (he : e.SameUpToTags e')
    (hh : h.Related Expr.SameUpToTags h') : ConfigRelated Expr.SameUpToTags (e, h) (e', h') := by
  have hheap := Heap.related_sameUpToTags_iff.mp hh
  have hstep := step_erase_tags e h
  rw [he, hheap, step_erase_tags, Prod.mk.injEq] at hstep
  exact ⟨he, hh, Step.related_of_erase_tags hstep.1.symm,
    Heap.related_sameUpToTags_iff.mpr hstep.2.symm⟩

/-- Two configurations that are equal up to tags run in lockstep: the same number of steps leads to
configurations of that kind, and there both are values, both are stuck for the same reason or both
go on. -/
theorem sameUpToTags_run (he : e.SameUpToTags e') (hh : h.Related Expr.SameUpToTags h') (n : Nat) :
    Option.Rel (ConfigRelated Expr.SameUpToTags) (configAfter n e h) (configAfter n e' h') := by
  have herased := configAfter_erase_tags n e h
  rw [he, Heap.related_sameUpToTags_iff.mp hh, configAfter_erase_tags] at herased
  rcases hc : configAfter n e h with _ | ⟨e₁, h₁⟩ <;>
    rcases hc' : configAfter n e' h' with _ | ⟨e₁', h₁'⟩ <;> rw [hc, hc'] at herased
  · exact .none
  · cases herased
  · cases herased
  · obtain ⟨he₁, hh₁⟩ := Prod.mk.inj (Option.some.inj herased)
    exact .some (configRelated_sameUpToTags he₁.symm
      (Heap.related_sameUpToTags_iff.mpr hh₁.symm))

end Lockstep

/-- Branches on the first field of an aggregate, made by `build`, and adds to what the address in
its second field leads to. -/
def increaseThrough (build : Expr → Expr → Expr) : Expr :=
  .letIn "p" (build (.bool true) (.load (.val (.loc ⟨0⟩))))
    (.ite (.fst (.var "p")) (.binop .plus (.load (.snd (.var "p"))) (.int 1)) (.int 0))

/-- A cell with the address of the next one, which holds a pair. -/
def addressBesidePair (tag : Tag) : Heap :=
  ⟨#[some (.loc ⟨1⟩), some (.pair tag (.int 1) (.int 2))]⟩

/-- The sum of a pair and a number that the run comes to. -/
def sumWithPair (tag : Tag) : Expr :=
  .binop .plus (.val (.pair tag (.int 1) (.int 2))) (.int 1)

/-- With a record over plain pairs and with a ref-struct over ref-structs the program gets stuck at
the same place. -/
theorem increaseThrough_sameUpToTags :
    (increaseThrough .record).SameUpToTags (increaseThrough (.pair .ref)) ∧
      (addressBesidePair .plain).Related Expr.SameUpToTags (addressBesidePair .ref) ∧
      configAfter 8 (increaseThrough .record) (addressBesidePair .plain) =
        some (sumWithPair .plain, addressBesidePair .plain) ∧
      configAfter 8 (increaseThrough (.pair .ref)) (addressBesidePair .ref) =
        some (sumWithPair .ref, addressBesidePair .ref) ∧
      Step.Related Expr.SameUpToTags
        (.stuck (sumWithPair .plain)
          (.binaryMismatch .plus (.pair .plain (.int 1) (.int 2)) (.int 1)))
        (.stuck (sumWithPair .ref)
          (.binaryMismatch .plus (.pair .ref (.int 1) (.int 2)) (.int 1))) := by
  have hexpr : (increaseThrough .record).SameUpToTags (increaseThrough (.pair .ref)) := rfl
  have hheap : (addressBesidePair .plain).Related Expr.SameUpToTags (addressBesidePair .ref) :=
    Heap.related_sameUpToTags_iff.mpr
      (by simp [Heap.erase, addressBesidePair, Val.erase, Erasure.tag])
  have hleft : configAfter 8 (increaseThrough .record) (addressBesidePair .plain) =
      some (sumWithPair .plain, addressBesidePair .plain) := by
    decide
  have hright : configAfter 8 (increaseThrough (.pair .ref)) (addressBesidePair .ref) =
      some (sumWithPair .ref, addressBesidePair .ref) := by
    decide
  have hrun := sameUpToTags_run hexpr hheap 8
  rw [hleft, hright] at hrun
  cases hrun with
  | some hlast => exact ⟨hexpr, hheap, hleft, hright, hlast.step⟩

end CellCalculus
