import CellCalculus.SmallStep

/-!
# Steps under a frame

An expression that is no value is the next thing to run in whatever frame it stands: the search for
the redex passes the frame, and a step of the framed expression is the step of the expression with
the frame put around its result.
-/

namespace CellCalculus

theorem focus_append (K L : Context) (e : Expr) :
    focus (K ++ L) e = ((focus K e).1 ++ L, (focus K e).2) := by
  fun_induction focus K e <;> simp_all [focus]

theorem focus_frame (K : Context) (F : Frame) {e : Expr} (he : e.isValue = false) :
    focus K (F.fill e) = focus (F :: K) e := by
  have hnone : e.toVal? = none := by simpa [Expr.isValue] using he
  cases F <;> simp only [Frame.fill, focus, he, hnone, Expr.toVal?_val, Bool.false_eq_true,
    if_false]

theorem decompose_fill (F : Frame) {e r : Expr} {K : Context} (hd : decompose e = .redex K r) :
    decompose (F.fill e) = .redex (K ++ [F]) r := by
  have he : e.isValue = false := by
    refine Bool.eq_false_iff.mpr fun hv => ?_
    obtain ⟨v, rfl⟩ := Expr.isValue_iff.mp hv
    cases hd
  rw [decompose_of_not_isValue he] at hd
  injection hd with hK hr
  have happend : focus [F] e = ((focus [] e).1 ++ [F], (focus [] e).2) := focus_append [] [F] e
  rw [decompose_of_not_isValue (F.isValue_fill e), focus_frame [] F he, happend, hK, hr]

/-- What a step comes to when the expression stands in a frame. -/
def Step.plug (F : Frame) : Step → Step
  | .next e => .next (F.fill e)
  | .value v => .value v
  | .stuck e err => .stuck (F.fill e) err

theorem step_fill (F : Frame) {e : Expr} (h : Heap) (he : e.isValue = false) :
    step (F.fill e) h = ((step e h).1.plug F, (step e h).2) := by
  have hd := decompose_of_not_isValue he
  simp only [step, hd, decompose_fill F hd]
  cases hr : headStep (focus [] e).2 h with
  | mk answer h' =>
    cases answer <;> simp [Step.plug, Context.fill_append]

theorem step_redex {r : Expr} (hr : decompose r = .redex [] r) (h : Heap) :
    step r h = match headStep r h with
      | (.ok e, h') => (.next e, h')
      | (.error err, h') => (.stuck r err, h') := by
  simp only [step, hr]
  cases headStep r h with
  | mk answer h' => cases answer <;> rfl

theorem step_of_contract {r e : Expr} (hr : decompose r = .redex [] r)
    (hc : contract r = .ok (.expr e)) (h : Heap) : step r h = (.next e, h) := by
  rw [step_redex hr, headStep_expr hc]

theorem step_of_contract_error {r : Expr} {err : StuckError} (hr : decompose r = .redex [] r)
    (hc : contract r = .error err) (h : Heap) : step r h = (.stuck r err, h) := by
  rw [step_redex hr, headStep_stuck hc]

end CellCalculus
