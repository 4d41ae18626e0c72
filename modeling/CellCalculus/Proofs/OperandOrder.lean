import Mathlib
import CellCalculus.Proofs.BlamedExpressions
import CellCalculus.Proofs.JointSettling

/-!
# The order of the operands of a pair

Under an environment without type variables the two operands of a pair share no variable. Their
premises are settled side by side, so the pair is accepted if and only if each operand is a valid
field by itself, and it does not matter which of them comes first. The pair is blamed for a field
that turns out invalid, but whether there is one does not depend on what is blamed.
-/

namespace CellCalculus

open Check Function

/-- Requires a field of the type, with the expression to blame, and settles all premises. -/
def settleWithField (site : Expr) (tag : Tag) (t : Ty) : Check Unit := do
  requireField site tag t
  settlePremises

/-- Whether the expression may be an operand of an aggregate of this tag. -/
def operandCheck (site : Expr) (tag : Tag) (env : TypeEnv) (e : Expr) : Check Unit := do
  let t ← infer env e
  settleWithField site tag (← resolve t)

theorem Joint.ok_iff {f g : Nat → Nat} {a b : Checker}
    {x y z : Except TypeError Unit × Checker} (h : Joint f g a b x y z) :
    z.1 = .ok () ↔ x.1 = .ok () ∧ y.1 = .ok () := by
  cases h with
  | ok _ _ _ => simp
  | left _ => simp
  | right _ => simp

/-- Requiring one field of either part and settling goes as doing it in each part by itself. -/
theorem Aligned.joint_settleWithField {f g : Nat → Nat} {a b d : Checker} (h : Aligned f g a b d)
    (site : Expr) (tag : Tag) {t u : Ty} (ht : t.Below a.nextVar) (hu : u.Below b.nextVar) :
    Joint f g a b ((settleWithField site tag t).result a) ((settleWithField site tag u).result b)
      ((do
        requireField site tag (t.rename f)
        settleWithField site tag (u.rename g)).result d) := by
  have hleft := h.jointLeft (uniform_requireField site tag ht)
    (keeps_requireField site tag t fun _ _ => rfl)
  have hjoint := hleft.bind fun {f' g' a' b' d'} _ hg haligned _ => by
    have hright := haligned.jointRight (uniform_requireField site tag (hu.mono hg.counter))
    have hboth := hright.bind fun _ _ haligned' _ => joint_settlePremises haligned'
    rw [pure_bind, hu.rename_congr hg.agrees] at hboth
    exact hboth
  rw [pure_bind] at hjoint
  exact hjoint

section Pair

variable {env : TypeEnv} {tag : Tag} {e₁ e₂ : Expr}

theorem check_pair_result (env : TypeEnv) (tag : Tag) (e₁ e₂ : Expr) (c : Checker) :
    (check env (.pair tag e₁ e₂)).result c = (do
      let a ← infer env e₁
      let b ← infer env e₂
      let a ← resolve a
      let b ← resolve b
      requireField (.pair tag e₁ e₂) tag a
      settleWithField (.pair tag e₁ e₂) tag b
      resolve (.pair tag a b)).result c := by
  have hemit : (emit (.inferring (.pair tag e₁ e₂))).result c = (.ok (), c) := rfl
  rw [check_result, infer, bind_assoc, result_bind_of_ok hemit]
  simp only [aggregateRule, settleWithField, bind_assoc, pure_bind]

theorem result_bind_resolve_ok_iff (m : Check Unit) (t : Ty) (c : Checker) :
    (∃ u, ((m >>= fun _ => resolve t).result c).1 = .ok u) ↔ (m.result c).1 = .ok () := by
  rcases hm : m.result c with ⟨err | _, c'⟩
  · simp [result_bind_of_error hm]
  · rw [result_bind_of_ok hm]
    exact iff_of_true ⟨_, rfl⟩ rfl

theorem operandCheck_result {site : Expr} {e : Expr} {t : Ty} {c : Checker}
    (h : (infer env e {}).answer = .ok t) (hc : (infer env e {}).checker = c) :
    (operandCheck site tag env e).result {} =
      (settleWithField site tag (c.subst.apply t)).result c := by
  have hinfer : (infer env e).result {} = (.ok t, c) := congrArg₂ Prod.mk h hc
  have hresolve : (resolve t).result c = (.ok (c.subst.apply t), c) := rfl
  rw [operandCheck, result_bind_of_ok hinfer, result_bind_of_ok hresolve]

theorem operandCheck_of_error {site : Expr} {e : Expr} {err : TypeError}
    (h : (infer env e {}).answer = .error err) :
    ((operandCheck site tag env e).result {}).1 = .error err := by
  have hinfer : (infer env e).result {} = (.error err, (infer env e {}).checker) :=
    congrArg (·, _) h
  rw [operandCheck, result_bind_of_error hinfer]

/-- Under an environment without type variables a pair is accepted if and only if each operand is,
as a field of an aggregate of that tag. -/
theorem accepted_pair_iff (henv : ∀ x t, env.lookup? x = some t → t.vars = []) :
    (∃ t, typeOf env (.pair tag e₁ e₂) = .ok t) ↔
      ((operandCheck (.pair tag e₁ e₂) tag env e₁).result {}).1 = .ok () ∧
        ((operandCheck (.pair tag e₁ e₂) tag env e₂).result {}).1 = .ok () := by
  have hanswer : typeOf env (.pair tag e₁ e₂) =
      ((check env (.pair tag e₁ e₂)).result {}).1 := rfl
  rw [hanswer, check_pair_result]
  cases ha : (infer env e₁ {}).answer with
  | error err =>
    have hinfer : (infer env e₁).result {} = (.error err, _) := congrArg (·, _) ha
    simp [result_bind_of_error hinfer, operandCheck_of_error ha]
  | ok a =>
  have hinfer : (infer env e₁).result {} = (.ok a, _) := congrArg (·, _) ha
  have htidy := (uniform_infer henv _ e₁).tidy Checker.tidy_start
  obtain ⟨f, g, hfixed, hanswer₂, haligned⟩ := htidy.infer_aligned henv e₂
  rw [result_bind_of_ok hinfer]
  cases hb : (infer env e₂ {}).answer with
  | error err =>
    rw [hb] at hanswer₂
    have hinfer₂ : (infer env e₂).result (infer env e₁ {}).checker = (.error (err.rename g), _) :=
      congrArg (·, _) hanswer₂
    simp [result_bind_of_error hinfer₂, operandCheck_of_error hb]
  | ok b =>
  rw [hb] at hanswer₂
  have hinfer₂ : (infer env e₂).result (infer env e₁ {}).checker = (.ok (b.rename g), _) :=
    congrArg (·, _) hanswer₂
  have habelow := infer_below henv Checker.tidy_start ha
  have hbbelow := infer_below henv Checker.tidy_start hb
  have hfirst := haligned.left.mirrors a
  rw [Ty.rename_eq_self fun x hx => hfixed x (habelow x hx)] at hfirst
  have hsecond := haligned.right.mirrors b
  have hjoint := haligned.joint_settleWithField (.pair tag e₁ e₂) tag
    (htidy.apply_below habelow) (haligned.tidyRight.apply_below hbbelow)
  rw [← hfirst, ← hsecond] at hjoint
  rw [result_bind_of_ok hinfer₂, operandCheck_result ha rfl, operandCheck_result hb rfl,
    ← hjoint.ok_iff, ← result_bind_resolve_ok_iff _ (.pair tag _ _), bind_assoc]
  exact Iff.rfl

/-- Whatever is blamed, the operand is accepted or not. -/
theorem operandCheck_ok_of_site {site : Expr} (site' : Expr) {e : Expr}
    (h : ((operandCheck site tag env e).result {}).1 = .ok ()) :
    ((operandCheck site' tag env e).result {}).1 = .ok () := by
  have halike : Alike (fun _ _ => True) Eq (operandCheck site tag env e)
      (operandCheck site' tag env e) :=
    (alike_infer env e fun _ _ => trivial).bind fun t => (alike_resolve t).bind fun u =>
      (alike_requireField trivial tag u).bind fun _ =>
        alike_settleProjections.bind fun _ => alike_settleFields
  obtain ⟨hanswer, -⟩ := halike _ _ (Checker.reblamed_start _)
  exact hanswer.ok_of_ok h

/-- The operands of a pair may change places. -/
theorem accepted_pair_comm (tag : Tag) (e₁ e₂ : Expr)
    (henv : ∀ x t, env.lookup? x = some t → t.vars = []) :
    (∃ t, typeOf env (.pair tag e₁ e₂) = .ok t) ↔ ∃ t, typeOf env (.pair tag e₂ e₁) = .ok t := by
  rw [accepted_pair_iff henv, accepted_pair_iff henv, and_comm]
  exact and_congr ⟨operandCheck_ok_of_site _, operandCheck_ok_of_site _⟩
    ⟨operandCheck_ok_of_site _, operandCheck_ok_of_site _⟩

/-- `λp. fst (snd p)`, with two projections of which the inner one waits for a default. -/
def nestedProjection : Expr := .lam "p" (.fst (.snd (.var "p")))

/-- `λq. if fst q then 1 else snd q`, with two projections of the same operand. -/
def branchOnProjection : Expr :=
  .lam "q" (.ite (.fst (.var "q")) (.val (.lit (.int 1))) (.snd (.var "q")))

/-- Four projections are settled here, and those of either function have defaults in between. -/
theorem nestedProjection_branchOnProjection_comm :
    (∀ x t, (TypeEnv.ofList [("z", .int)]).lookup? x = some t → t.vars = []) ∧
      typeOf (.ofList [("z", .int)]) (.pair .ref nestedProjection branchOnProjection) =
        .ok (.pair .ref (.arrow (.pair .plain .int (.pair .plain .int .int)) .int)
          (.arrow (.pair .plain .bool .int) .int)) ∧
      ∃ t, typeOf (.ofList [("z", .int)]) (.pair .ref branchOnProjection nestedProjection) =
        .ok t := by
  have henv : ∀ x t, (TypeEnv.ofList [("z", .int)]).lookup? x = some t → t.vars = [] := by
    intro x t hx
    by_cases hxz : x = "z"
    · subst hxz
      cases hx
      rfl
    · simp [TypeEnv.ofList, TypeEnv.lookup?, List.lookup_cons, beq_false_of_ne hxz] at hx
  have hanswer : typeOf (.ofList [("z", .int)]) (.pair .ref nestedProjection branchOnProjection) =
      .ok (.pair .ref (.arrow (.pair .plain .int (.pair .plain .int .int)) .int)
        (.arrow (.pair .plain .bool .int) .int)) := by
    cbv
  exact ⟨henv, hanswer, (accepted_pair_comm .ref _ _ henv).mp ⟨_, hanswer⟩⟩

end Pair

end CellCalculus
