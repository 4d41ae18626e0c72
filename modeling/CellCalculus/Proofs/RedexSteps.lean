import CellCalculus.SmallStep

/-!
# Steps and the redexes they contract

A redex has run all the operands that have to run, so the search for the next redex ends in one. A
step that goes on contracts the redex it found and puts the result back, and a step that is stuck
found a redex that does not contract.
-/

namespace CellCalculus

/-- Whether all operands that have to run are values. -/
def Expr.isRedex : Expr → Bool
  | .val _ => false
  | .var _ | .fn .. | .ref _ => true
  | .app e₁ e₂ | .binop _ e₁ e₂ | .pair _ e₁ e₂ | .record e₁ e₂ | .alloc e₁ e₂ | .store e₁ e₂ =>
      e₁.isValue && e₂.isValue
  | .ite e _ _ | .unop _ e | .fst e | .snd e | .free e | .load e => e.isValue

theorem Expr.values_of_both {e₁ e₂ : Expr} (h : (e₁.isValue && e₂.isValue) = true) :
    ∃ v w, e₁ = .val v ∧ e₂ = .val w := by
  obtain ⟨h₁, h₂⟩ := Bool.and_eq_true_iff.mp h
  obtain ⟨v, hv⟩ := isValue_iff.mp h₁
  obtain ⟨w, hw⟩ := isValue_iff.mp h₂
  exact ⟨v, w, hv, hw⟩

theorem isRedex_focus (K : Context) {e : Expr} (he : e.isValue = false) :
    (focus K e).2.isRedex = true := by
  fun_induction focus K e with
  | case31 K e => cases e <;> simp_all [Expr.isRedex, Expr.isValue]
  | _ => simp_all [Expr.isRedex, Expr.isValue]

theorem isRedex_of_decompose {e r : Expr} {K : Context} (hd : decompose e = .redex K r) :
    r.isRedex = true := by
  cases he : e.isValue with
  | true =>
    obtain ⟨v, rfl⟩ := Expr.isValue_iff.mp he
    cases hd
  | false =>
    rw [decompose_of_not_isValue he] at hd
    cases hd
    exact isRedex_focus [] he

theorem contracts_of_step_next {e e' : Expr} {h h' : Heap} (hs : step e h = (.next e', h')) :
    ∃ K r e₁, decompose e = .redex K r ∧ headStep r h = (.ok e₁, h') ∧ e' = K.fill e₁ := by
  unfold step at hs
  split at hs
  · cases hs
  · next K r hd =>
    split at hs <;> cases hs
    next e₁ hr => exact ⟨K, r, e₁, hd, hr, rfl⟩

theorem contracts_of_step_stuck {e e' : Expr} {h h' : Heap} {err : StuckError}
    (hs : step e h = (.stuck e' err, h')) :
    ∃ K r, decompose e = .redex K r ∧ headStep r h = (.error err, h') := by
  unfold step at hs
  split at hs
  · cases hs
  · next K r hd =>
    split at hs <;> cases hs
    next hr => exact ⟨K, r, hd, hr⟩

end CellCalculus
