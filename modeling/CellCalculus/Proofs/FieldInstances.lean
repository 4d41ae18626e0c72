import CellCalculus.Proofs.GroundTyping
import CellCalculus.Proofs.WellFormedTypes

/-!
# Validity of the instances of a type

A type with variables is a valid field for certain when all its instances without variables are
valid, and for certain no valid field when none of them is. The answer is open exactly when they
differ, and then integers for the variables make it a yes. Of the instances themselves validity is
a matter of what can be reached in them without passing an arrow.
-/

namespace CellCalculus

open Substitution

/-- A type that is no valid field under the tag. -/
def Tag.misfit : Tag → Ty
  | .plain => .ref .int
  | .ref => .record .int .int

namespace Tag

theorem vars_misfit (tag : Tag) : tag.misfit.vars = [] := by
  cases tag <;> rfl

theorem fieldValidity_misfit (tag : Tag) : fieldValidity tag tag.misfit = some false := by
  cases tag <;> rfl

end Tag

section Instances

variable {tag : Tag} {t : Ty}

theorem vars_apply_constant {u : Ty} (hu : u.vars = []) (t : Ty) :
    ((constant t.vars u).apply t).vars = [] := by
  refine List.eq_nil_iff_forall_not_mem.mpr fun y hy => ?_
  obtain ⟨x, hx, hyx⟩ := mem_vars_apply.mp hy
  rw [apply_constant_var hx, hu] at hyx
  cases hyx

/-- An instance of an open type is as valid as the type that its variables stand for. -/
theorem fieldValid_apply_constant {u : Ty} {answer : Bool}
    (hu : fieldValidity tag u = some answer) :
    fieldValid tag ((constant t.vars u).apply t) = (fieldValidity tag t).getD answer := by
  rw [fieldValid, fieldValidity_apply_of_vars hu fun x => apply_constant_var]
  cases (fieldValidity tag t).getD answer <;> rfl

theorem fieldValid_apply_of_some {answer : Bool} (h : fieldValidity tag t = some answer)
    (s : Substitution) : fieldValid tag (s.apply t) = answer := by
  rw [fieldValid, fieldValidity_apply s h]
  cases answer <;> rfl

/-- An answer is definite when the instances without variables agree on it. -/
theorem fieldValidity_eq_some_iff {answer : Bool} : fieldValidity tag t = some answer ↔
    ∀ s : Substitution, (s.apply t).vars = [] → fieldValid tag (s.apply t) = answer := by
  refine ⟨fun h s _ => fieldValid_apply_of_some h s, fun h => ?_⟩
  have hyes := h _ (vars_apply_constant (u := .int) rfl t)
  have hno := h _ (vars_apply_constant tag.vars_misfit t)
  rw [fieldValid_apply_constant (by rfl)] at hyes
  rw [fieldValid_apply_constant tag.fieldValidity_misfit] at hno
  cases hopen : fieldValidity tag t with
  | none =>
    rw [hopen] at hyes hno
    cases hyes.trans hno.symm
  | some known =>
    rw [hopen] at hyes
    exact congrArg some hyes

/-- An answer is open when some instance without variables is valid and another one is not. -/
theorem fieldValidity_eq_none_iff : fieldValidity tag t = none ↔
    (∃ s : Substitution, (s.apply t).vars = [] ∧ fieldValid tag (s.apply t) = true) ∧
      ∃ s : Substitution, (s.apply t).vars = [] ∧ fieldValid tag (s.apply t) = false := by
  constructor
  · intro hopen
    have hyes : fieldValid tag ((constant t.vars .int).apply t) = true := by
      rw [fieldValid_apply_constant (by rfl), hopen, Option.getD_none]
    have hno : fieldValid tag ((constant t.vars tag.misfit).apply t) = false := by
      rw [fieldValid_apply_constant tag.fieldValidity_misfit, hopen, Option.getD_none]
    exact ⟨⟨_, vars_apply_constant rfl t, hyes⟩, ⟨_, vars_apply_constant tag.vars_misfit t, hno⟩⟩
  · rintro ⟨⟨r, -, hr⟩, ⟨s, -, hs⟩⟩
    cases h : fieldValidity tag t with
    | none => rfl
    | some answer =>
      rw [fieldValid_apply_of_some h] at hr hs
      cases hr.symm.trans hs

/-- A type is a valid field when all that can be reached in it without passing an arrow suits the
tag. -/
theorem fieldValid_iff_exposed :
    fieldValid tag t = true ↔ ∀ u ∈ t.exposed, u.suits tag = true := by
  refine ⟨fun ht u => suits_of_exposed ht, fun h => ?_⟩
  induction t with
  | int | bool | unit | arrow _ _ _ _ => rfl
  | var x => cases h _ (List.mem_singleton.mpr rfl)
  | ref t ih =>
    obtain ⟨htag, ht⟩ := List.forall_mem_cons.mp h
    exact fieldValid_ref_iff.mpr ⟨of_decide_eq_true htag, ih ht⟩
  | pair inner a b iha ihb =>
    obtain ⟨htag, hab⟩ := List.forall_mem_cons.mp h
    obtain ⟨ha, hb⟩ := List.forall_mem_append.mp hab
    exact fieldValid_pair_iff.mpr ⟨of_decide_eq_true htag, iha ha, ihb hb⟩
  | record a b iha ihb =>
    obtain ⟨htag, hab⟩ := List.forall_mem_cons.mp h
    obtain ⟨ha, hb⟩ := List.forall_mem_append.mp hab
    exact fieldValid_record_iff.mpr ⟨of_decide_eq_true htag, iha ha, ihb hb⟩

end Instances

/-- The three answers say what they should of the instances without variables: a definite one is
what all of them share, the open one is that they differ, and unless the answer is no the instance
with integers is valid. A type is valid when what lies above its arrows suits the tag. -/
theorem fieldValidity_exact (tag : Tag) (t : Ty) :
    (∀ answer, fieldValidity tag t = some answer ↔
      ∀ s : Substitution, (s.apply t).vars = [] → fieldValid tag (s.apply t) = answer) ∧
    (fieldValidity tag t = none ↔
      (∃ s : Substitution, (s.apply t).vars = [] ∧ fieldValid tag (s.apply t) = true) ∧
        ∃ s : Substitution, (s.apply t).vars = [] ∧ fieldValid tag (s.apply t) = false) ∧
    (fieldValid tag t.withInts = true ↔ fieldValidity tag t ≠ some false) ∧
    (∀ s : Substitution, (∀ x ∈ t.vars, s.apply (.var x) = .int) → s.apply t = t.withInts) ∧
    (fieldValid tag t = true ↔ ∀ u ∈ t.exposed, u.suits tag = true) :=
  ⟨fun _ => fieldValidity_eq_some_iff, fieldValidity_eq_none_iff, fieldValid_withInts_iff,
    fun _ => Ty.apply_eq_withInts, fieldValid_iff_exposed⟩

end CellCalculus
