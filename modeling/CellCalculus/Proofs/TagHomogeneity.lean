import Mathlib
import CellCalculus.Proofs.InferenceSoundness
import CellCalculus.Proofs.RunTimeTyping

/-!
# Tags of nested pairs

The machine never looks at the tag of a pair. Still no pair value that an accepted program without
self-names comes to hold has a pair of the other tag for a component, neither in the expression at
hand nor inside closures or other pairs: pairs are built where their fields are valid, and the type
that a value keeps at run time shows its tag.
-/

namespace CellCalculus

/-- Whether the value may be a component of a pair of that tag, by its own tag if it has one. -/
def Val.suits (tag : Tag) : Val → Bool
  | .pair inner _ _ => decide (inner = tag)
  | _ => true

mutual

/-- Whether all pair values in the value have components of their own tag. -/
def Val.homogeneous : Val → Bool
  | .lit _ => true
  | .closure _ _ body => body.homogeneous
  | .pair tag v w => v.suits tag && w.suits tag && v.homogeneous && w.homogeneous

def Expr.homogeneous : Expr → Bool
  | .val v => v.homogeneous
  | .var _ => true
  | .fn _ _ body => body.homogeneous
  | .app e₁ e₂ | .binop _ e₁ e₂ | .pair _ e₁ e₂ | .record e₁ e₂ | .alloc e₁ e₂ | .store e₁ e₂ =>
      e₁.homogeneous && e₂.homogeneous
  | .ite c t f => c.homogeneous && t.homogeneous && f.homogeneous
  | .unop _ e | .fst e | .snd e | .free e | .load e | .ref e => e.homogeneous

end

namespace HasRunType

variable {env : TypeEnv} {e : Expr} {t : Ty}

theorem suits {v : Val} {tag : Tag} (hv : HasRunType env (.val v) t)
    (ht : fieldValid tag t = true) : v.suits tag = true := by
  cases hv with
  | pairVal _ _ _ _ => exact decide_eq_true (fieldValid_pair_iff.mp ht).1
  | _ => rfl

theorem homogeneous (ht : HasRunType env e t) : e.homogeneous = true := by
  induction ht with
  | int | bool | unit | var _ => rfl
  | closure _ _ ih | fn _ _ ih => exact ih
  | pairVal hv hw hva hvb ihv ihw =>
    rw [Expr.homogeneous] at ihv ihw
    rw [Expr.homogeneous, Val.homogeneous, hv.suits hva, hw.suits hvb, ihv, ihw]
    rfl
  | app _ _ ih₁ ih₂ | binop _ _ _ ih₁ ih₂ | pair _ _ _ _ ih₁ ih₂ | record _ _ _ _ ih₁ ih₂ =>
    rw [Expr.homogeneous, ih₁, ih₂]
    rfl
  | ite _ _ _ ihc iht ihf =>
    rw [Expr.homogeneous, ihc, iht, ihf]
    rfl
  | unop _ ih | fst _ ih | snd _ ih | ref _ ih => exact ih

end HasRunType

/-- Whatever an accepted program without self-names comes to, each pair value in it has components
of its own tag, and the heap holds no values. -/
theorem accepted_homogeneous {e e' : Expr} {t : Ty} {n : Nat} {h : Heap}
    (he : e.selfNameFree = true) (ht : typeOf .empty e = .ok t)
    (hc : configAfter n e .empty = some (e', h)) : h = .empty ∧ e'.homogeneous = true := by
  have hrun : HasRunType .empty e t.erase := (typeOf_empty_sound ht).erase he
  obtain ⟨hheap, htyped⟩ := hrun.configAfter hc
  exact ⟨hheap, htyped.homogeneous⟩

/-- `let x = 1 in let p = ref (&x, true) in (class(x, (x, 2)), λy. fst p)`. -/
def recordBesideRefStruct : Expr :=
  .letIn "x" (.int 1) (.letIn "p" (.pair .ref (.ref (.var "x")) (.bool true))
    (.pair .plain (.record (.var "x") (.pair .plain (.var "x") (.int 2)))
      (.lam "y" (.fst (.var "p")))))

/-- The value of `recordBesideRefStruct`: its closure holds a pair of the other tag. -/
def recordBesideRefStructValue : Val :=
  .pair .plain (.pair .plain (.int 1) (.pair .plain (.int 1) (.int 2)))
    (.closure .anon (.named "y") (.fst (.val (.pair .ref (.int 1) (.bool true)))))

theorem recordBesideRefStruct_homogeneous :
    recordBesideRefStruct.selfNameFree = true ∧
      (∃ t, typeOf .empty recordBesideRefStruct = .ok t) ∧
      configAfter 10 recordBesideRefStruct .empty =
        some (.val recordBesideRefStructValue, .empty) ∧
      (Expr.val recordBesideRefStructValue).homogeneous = true := by
  have ht : typeOf .empty recordBesideRefStruct =
      .ok (.pair .plain (.record .int (.pair .plain .int .int)) (.arrow (.var 2) (.ref .int))) := by
    cbv
  have hc : configAfter 10 recordBesideRefStruct .empty =
      some (.val recordBesideRefStructValue, .empty) := rfl
  exact ⟨rfl, ⟨_, ht⟩, hc, (accepted_homogeneous rfl ht hc).2⟩

end CellCalculus
