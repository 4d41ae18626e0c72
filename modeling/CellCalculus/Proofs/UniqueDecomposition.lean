import CellCalculus.Proofs.RedexSteps
import CellCalculus.Proofs.StepUnderFrame

/-!
# Unique decomposition

An expression that is no value stands in exactly one way as a redex inside a context, and
`decompose` finds it. A redex is found in itself, and what is found in an expression is found in
every context around it as well. So any other split of the expression, with whatever frames, would
be found too.
-/

namespace CellCalculus

theorem focus_of_isRedex (K : Context) {r : Expr} (hr : r.isRedex = true) :
    focus K r = (K, r) := by
  cases r with
  | val v => cases hr
  | app e₁ e₂ | binop op e₁ e₂ | pair tag e₁ e₂ | record e₁ e₂ | alloc e₁ e₂ | store e₁ e₂ =>
    obtain ⟨v, w, rfl, rfl⟩ := Expr.values_of_both hr
    rfl
  | unop op e | ite e t f | fst e | snd e | free e | load e =>
    have he : e.isValue = true := hr
    rw [focus, if_pos he]
  | var x | fn self param body | ref e => rfl

theorem not_isValue_of_isRedex {r : Expr} (hr : r.isRedex = true) : r.isValue = false := by
  cases r with
  | val v => cases hr
  | _ => rfl

theorem isRedex_iff_decompose {r : Expr} : r.isRedex = true ↔ decompose r = .redex [] r := by
  refine ⟨fun hr => ?_, isRedex_of_decompose⟩
  rw [decompose_of_not_isValue (not_isValue_of_isRedex hr), focus_of_isRedex [] hr]

/-- The frames around an expression come after those found inside it. -/
theorem decompose_context (L : Context) {e r : Expr} {K : Context}
    (hd : decompose e = .redex K r) : decompose (L.fill e) = .redex (K ++ L) r := by
  induction L generalizing e K with
  | nil => rw [Context.fill_nil, List.append_nil, hd]
  | cons F L ih =>
    have hframe : decompose (F.fill e) = .redex (K ++ [F]) r := decompose_fill F hd
    rw [Context.fill_cons, ih hframe, List.append_assoc, List.singleton_append]

section Maps

variable {f : Frame → Frame} {g : Expr → Expr}
  (hfill : ∀ (F : Frame) (e : Expr), g (F.fill e) = (f F).fill (g e))

include hfill

theorem Context.map_fill (K : Context) (e : Expr) :
    g (K.fill e) = Context.fill (K.map f) (g e) := by
  induction K generalizing e with
  | nil => rfl
  | cons F K ih => rw [List.map_cons, fill_cons, fill_cons, ih, hfill]

/-- Where frames go to frames, a redex that goes to a redex is found where it went. -/
theorem decompose_map {e r : Expr} {K : Context} (hd : decompose e = .redex K r)
    (hr : (g r).isRedex = true) : decompose (g e) = .redex (K.map f) (g r) := by
  rw [← fill_decompose hd, Context.map_fill hfill, decompose_context _ (isRedex_iff_decompose.mp hr),
    List.nil_append]

end Maps

/-- What is no value is a redex in a context in exactly one way. In a larger context the redex
stays, and its own context comes first. -/
theorem decompose_unique {e : Expr} (he : e.isValue = false) :
    ∃ K r, decompose e = .redex K r ∧ Context.fill K r = e ∧ r.isValue = false ∧
      decompose r = .redex [] r ∧
      (∀ (L : Context) (s : Expr), decompose s = .redex [] s → L.fill s = e → L = K ∧ s = r) ∧
      ∀ L : Context, decompose (L.fill e) = .redex (K ++ L) r := by
  have hd : decompose e = .redex (focus [] e).1 (focus [] e).2 := decompose_of_not_isValue he
  have hr : (focus [] e).2.isRedex = true := isRedex_of_decompose hd
  refine ⟨_, _, hd, fill_decompose hd, not_isValue_of_isRedex hr, isRedex_iff_decompose.mp hr,
    fun L s hs hfill => ?_, fun L => decompose_context L hd⟩
  have hother : decompose e = .redex ([] ++ L) s := hfill ▸ decompose_context L hs
  rw [hd, List.nil_append] at hother
  injection hother with hK hrs
  exact ⟨hK.symm, hrs.symm⟩

/-- The right operand of the sum has run and that of the application too, so the function position
of the application comes next, and no other frames lead there. -/
theorem sumOfApplication_decomposes :
    (Expr.binop .plus (.app (.var "f") (.int 1)) (.int 2)).isValue = false ∧
      decompose (.binop .plus (.app (.var "f") (.int 1)) (.int 2)) =
        .redex [.appL (.int 1), .binopL .plus (.int 2)] (.var "f") ∧
      ∀ (L : Context) (s : Expr), decompose s = .redex [] s →
        L.fill s = .binop .plus (.app (.var "f") (.int 1)) (.int 2) →
          L = [.appL (.int 1), .binopL .plus (.int 2)] ∧ s = .var "f" := by
  have hd : decompose (.binop .plus (.app (.var "f") (.int 1)) (.int 2)) =
      .redex [.appL (.int 1), .binopL .plus (.int 2)] (.var "f") := rfl
  obtain ⟨K, r, hKr, -, -, -, honly, -⟩ :=
    decompose_unique (e := .binop .plus (.app (.var "f") (.int 1)) (.int 2)) rfl
  rw [hd] at hKr
  obtain ⟨rfl, rfl⟩ := Decomposition.redex.inj hKr
  exact ⟨rfl, hd, honly⟩

end CellCalculus
