import CellCalculus.Proofs.DeclarativeTyping

/-!
# Typing without type variables

A derivation by the rules may give parameters types with variables in them. Putting integers for
the variables everywhere makes it one in which no parameter type has any: integers are valid fields
under either tag, so a field that is valid stays so, and one that is open becomes so.
-/

namespace CellCalculus

/-- One type for all these variables. -/
def Substitution.constant (l : List Nat) (t : Ty) : Substitution := ⟨l.map fun x => (x, t)⟩

theorem Substitution.apply_constant_var {l : List Nat} {t : Ty} {x : Nat} (hx : x ∈ l) :
    (constant l t).apply (.var x) = t := by
  induction l with
  | nil => cases hx
  | cons y l ih =>
    by_cases hxy : x = y
    · simp [constant, apply, lookup?, hxy]
    · have hxl : x ∈ l := (List.mem_cons.mp hx).resolve_left hxy
      simpa [constant, apply, lookup?, List.lookup_cons, beq_false_of_ne hxy] using ih hxl

/-- The type with integers for all its variables. -/
def Ty.withInts : Ty → Ty
  | .int => .int
  | .bool => .bool
  | .unit => .unit
  | .pair tag a b => .pair tag a.withInts b.withInts
  | .record a b => .record a.withInts b.withInts
  | .ref t => .ref t.withInts
  | .arrow a b => .arrow a.withInts b.withInts
  | .var _ => .int

namespace Ty

attribute [local simp] withInts vars

theorem vars_withInts (t : Ty) : t.withInts.vars = [] := by
  induction t with
  | int | bool | unit | var _ => rfl
  | ref t ih => exact ih
  | pair _ a b iha ihb | record a b iha ihb | arrow a b iha ihb =>
    rw [withInts, vars, iha, ihb, List.append_nil]

theorem withInts_eq_self {t : Ty} (ht : t.vars = []) : t.withInts = t := by
  induction t with
  | int | bool | unit => rfl
  | var x => cases ht
  | ref t ih => rw [withInts, ih ht]
  | pair _ a b iha ihb | record a b iha ihb | arrow a b iha ihb =>
    obtain ⟨ha, hb⟩ := List.append_eq_nil_iff.mp ht
    rw [withInts, iha ha, ihb hb]

theorem withInts_eq_int {t : Ty} (ht : t.withInts = .int) : t = .int ∨ ∃ x, t = .var x := by
  cases t <;> simp_all

theorem apply_eq_withInts {s : Substitution} {t : Ty}
    (h : ∀ x ∈ t.vars, s.apply (.var x) = .int) : s.apply t = t.withInts := by
  induction t with
  | int | bool | unit => rfl
  | var x => exact h x (List.mem_singleton.mpr rfl)
  | ref t ih => rw [Substitution.apply, withInts, ih h]
  | pair _ a b iha ihb | record a b iha ihb | arrow a b iha ihb =>
    obtain ⟨ha, hb⟩ := List.forall_mem_append.mp h
    rw [Substitution.apply, withInts, iha ha, ihb hb]

theorem withInts_apply {s : Substitution} (h : ∀ x, (s.apply (.var x)).withInts = .int) (t : Ty) :
    (s.apply t).withInts = t.withInts := by
  induction t with
  | int | bool | unit => rfl
  | var x => exact h x
  | ref t ih => rw [Substitution.apply, withInts, withInts, ih]
  | pair _ a b iha ihb | record a b iha ihb | arrow a b iha ihb =>
    rw [Substitution.apply, withInts, withInts, iha, ihb]

end Ty

/-- With a type of definite validity for all the variables no answer is open, and an open one
becomes the answer on that type. -/
theorem fieldValidity_apply_of_vars {s : Substitution} {tag : Tag} {t u : Ty} {answer : Bool}
    (hu : fieldValidity tag u = some answer) (hs : ∀ x ∈ t.vars, s.apply (.var x) = u) :
    fieldValidity tag (s.apply t) = some ((fieldValidity tag t).getD answer) := by
  have hboth : ∀ p q : Option Bool, both (some (p.getD answer)) (some (q.getD answer)) =
      some ((both p q).getD answer) := by
    cases answer <;> rintro (_ | _ | _) (_ | _ | _) <;> rfl
  induction t with
  | int | bool | unit | arrow _ _ _ _ => rfl
  | var x =>
    rw [hs x (List.mem_singleton.mpr rfl), hu]
    rfl
  | ref t ih =>
    rw [Substitution.apply, fieldValidity, fieldValidity]
    split
    · exact ih hs
    · rfl
  | pair _ a b iha ihb | record a b iha ihb =>
    obtain ⟨ha, hb⟩ := List.forall_mem_append.mp hs
    rw [Substitution.apply, fieldValidity, fieldValidity]
    split
    · rw [iha ha, ihb hb, hboth]
    · rfl

/-- With integers for the variables no answer is open, and an open one becomes a yes. -/
theorem fieldValidity_withInts (tag : Tag) (t : Ty) :
    fieldValidity tag t.withInts = some ((fieldValidity tag t).getD true) := by
  have hint : ∀ x ∈ t.vars, (Substitution.constant t.vars .int).apply (.var x) = .int :=
    fun x => Substitution.apply_constant_var
  rw [← Ty.apply_eq_withInts hint, fieldValidity_apply_of_vars (by rfl) hint]

theorem fieldValid_withInts_iff {tag : Tag} {t : Ty} :
    fieldValid tag t.withInts = true ↔ fieldValidity tag t ≠ some false := by
  rw [fieldValid_iff, fieldValidity_withInts]
  rcases fieldValidity tag t with _ | _ | _ <;> decide

/-- Integers decide open answers only. -/
theorem fieldValid_of_withInts {tag : Tag} {t : Ty} (ht : fieldValid tag t.withInts = true)
    (hopen : fieldValidity tag t ≠ none) : fieldValid tag t = true := by
  have hno := fieldValid_withInts_iff.mp ht
  rw [fieldValid_iff]
  rcases h : fieldValidity tag t with _ | _ | _
  · exact absurd h hopen
  · exact absurd h hno
  · rfl

theorem fieldValid_withInts {tag : Tag} {t : Ty} (ht : fieldValid tag t = true) :
    fieldValid tag t.withInts = true := by
  rw [fieldValid_withInts_iff, fieldValid_iff.mp ht]
  decide

/-- The rules with parameter types that have no variables. -/
inductive HasGroundType : TypeEnv → Expr → Ty → Prop
  | int {env n} : HasGroundType env (.val (.lit (.int n))) .int
  | bool {env b} : HasGroundType env (.val (.lit (.bool b))) .bool
  | unit {env} : HasGroundType env (.val (.lit .unit)) .unit
  | closure {env self param body a b} : a.vars = [] →
      HasGroundType (env.extend param a) body b →
      HasGroundType env (.val (.closure self param body)) (.arrow a b)
  | pairVal {env tag v w a b} : HasGroundType env (.val v) a → HasGroundType env (.val w) b →
      fieldValid tag a = true → fieldValid tag b = true →
      HasGroundType env (.val (.pair tag v w)) (.pair tag a b)
  | var {env x t} : env.lookup? x = some t → HasGroundType env (.var x) t
  | fn {env self param body a b} : a.vars = [] →
      HasGroundType (env.extend param a) body b →
      HasGroundType env (.fn self param body) (.arrow a b)
  | app {env e₁ e₂ a b} : HasGroundType env e₁ (.arrow a b) → HasGroundType env e₂ a →
      HasGroundType env (.app e₁ e₂) b
  | unop {env op e} : HasGroundType env e op.type → HasGroundType env (.unop op e) op.type
  | binop {env op e₁ e₂} {sig : Signature} : op.signature? = some sig →
      HasGroundType env e₁ sig.left → HasGroundType env e₂ sig.right →
      HasGroundType env (.binop op e₁ e₂) sig.result
  | ite {env c t f a} : HasGroundType env c .bool → HasGroundType env t a →
      HasGroundType env f a → HasGroundType env (.ite c t f) a
  | pair {env tag e₁ e₂ a b} : HasGroundType env e₁ a → HasGroundType env e₂ b →
      fieldValid tag a = true → fieldValid tag b = true →
      HasGroundType env (.pair tag e₁ e₂) (.pair tag a b)
  | record {env e₁ e₂ a b} : HasGroundType env e₁ a → HasGroundType env e₂ b →
      fieldValid .plain a = true → fieldValid .plain b = true →
      HasGroundType env (.record e₁ e₂) (.record a b)
  | fst {env e t a b} : HasGroundType env e t → t.components? = some (a, b) →
      HasGroundType env (.fst e) a
  | snd {env e t a b} : HasGroundType env e t → t.components? = some (a, b) →
      HasGroundType env (.snd e) b
  | ref {env x t} : env.lookup? x = some t → HasGroundType env (.ref (.var x)) (.ref t)

theorem HasGroundType.hasType {env : TypeEnv} {e : Expr} {t : Ty} (h : HasGroundType env e t) :
    HasType env e t := by
  induction h with
  | int => exact .int
  | bool => exact .bool
  | unit => exact .unit
  | closure _ _ ih => exact .closure ih
  | pairVal _ _ hva hvb iha ihb => exact .pairVal iha ihb hva hvb
  | var hx => exact .var hx
  | fn _ _ ih => exact .fn ih
  | app _ _ ih₁ ih₂ => exact .app ih₁ ih₂
  | unop _ ih => exact .unop ih
  | binop hsig _ _ ih₁ ih₂ => exact .binop hsig ih₁ ih₂
  | ite _ _ _ ihc iht ihf => exact .ite ihc iht ihf
  | pair _ _ hva hvb iha ihb => exact .pair iha ihb hva hvb
  | record _ _ hva hvb iha ihb => exact .record iha ihb hva hvb
  | fst _ hc ih => exact .fst ih hc
  | snd _ hc ih => exact .snd ih hc
  | ref hx => exact .ref hx

/-- What one environment gives a type, the other one gives the type that `f` makes of it. -/
def TypeEnv.MapsTo (f : Ty → Ty) (env env' : TypeEnv) : Prop :=
  ∀ x t, env.lookup? x = some t → env'.lookup? x = some (f t)

theorem TypeEnv.MapsTo.extend {f : Ty → Ty} {env env' : TypeEnv} (h : env.MapsTo f env')
    (b : Binder) (t : Ty) : (env.extend b t).MapsTo f (env'.extend b (f t)) := by
  intro x u hx
  rw [lookup?_extend] at hx ⊢
  split at hx
  · next hb =>
    cases hx
    rw [if_pos hb]
  · next hb =>
    rw [if_neg hb]
    exact h x u hx

/-- Only what the environment says of names matters, not which bindings are hidden. -/
theorem HasType.of_mapsTo {env env' : TypeEnv} {e : Expr} {t : Ty} (h : HasType env e t)
    (henv : env.MapsTo id env') : HasType env' e t := by
  induction h generalizing env' with
  | int => exact .int
  | bool => exact .bool
  | unit => exact .unit
  | closure _ ih => exact .closure (ih (henv.extend _ _))
  | pairVal _ _ hva hvb iha ihb => exact .pairVal (iha henv) (ihb henv) hva hvb
  | var hx => exact .var (henv _ _ hx)
  | fn _ ih => exact .fn (ih (henv.extend _ _))
  | app _ _ ih₁ ih₂ => exact .app (ih₁ henv) (ih₂ henv)
  | unop _ ih => exact .unop (ih henv)
  | binop hsig _ _ ih₁ ih₂ => exact .binop hsig (ih₁ henv) (ih₂ henv)
  | ite _ _ _ ihc iht ihf => exact .ite (ihc henv) (iht henv) (ihf henv)
  | pair _ _ hva hvb iha ihb => exact .pair (iha henv) (ihb henv) hva hvb
  | record _ _ hva hvb iha ihb => exact .record (iha henv) (ihb henv) hva hvb
  | fst _ hc ih => exact .fst (ih henv) hc
  | snd _ hc ih => exact .snd (ih henv) hc
  | ref hx => exact .ref (henv _ _ hx)

theorem components?_withInts {t a b : Ty} (h : t.components? = some (a, b)) :
    t.withInts.components? = some (a.withInts, b.withInts) := by
  rcases Ty.components?_eq_some h with ⟨tag, rfl⟩ | rfl <;> rfl

theorem HasType.ground {env env' : TypeEnv} {e : Expr} {t : Ty} (h : HasType env e t)
    (henv : env.MapsTo Ty.withInts env') : HasGroundType env' e t.withInts := by
  induction h generalizing env' with
  | int => exact .int
  | bool => exact .bool
  | unit => exact .unit
  | closure _ ih => exact .closure (Ty.vars_withInts _) (ih (henv.extend _ _))
  | pairVal _ _ hva hvb iha ihb =>
    exact .pairVal (iha henv) (ihb henv) (fieldValid_withInts hva) (fieldValid_withInts hvb)
  | var hx => exact .var (henv _ _ hx)
  | fn _ ih => exact .fn (Ty.vars_withInts _) (ih (henv.extend _ _))
  | app _ _ ih₁ ih₂ => exact .app (ih₁ henv) (ih₂ henv)
  | @unop env op e _ ih =>
    have he := ih henv
    rw [Ty.withInts_eq_self op.vars_type] at he ⊢
    exact .unop he
  | binop hsig _ _ ih₁ ih₂ =>
    obtain ⟨hleft, hright, hresult⟩ := BinaryOp.vars_signature hsig
    have h₁ := ih₁ henv
    have h₂ := ih₂ henv
    rw [Ty.withInts_eq_self hleft] at h₁
    rw [Ty.withInts_eq_self hright] at h₂
    rw [Ty.withInts_eq_self hresult]
    exact .binop hsig h₁ h₂
  | ite _ _ _ ihc iht ihf => exact .ite (ihc henv) (iht henv) (ihf henv)
  | pair _ _ hva hvb iha ihb =>
    exact .pair (iha henv) (ihb henv) (fieldValid_withInts hva) (fieldValid_withInts hvb)
  | record _ _ hva hvb iha ihb =>
    exact .record (iha henv) (ihb henv) (fieldValid_withInts hva) (fieldValid_withInts hvb)
  | fst _ hc ih => exact .fst (ih henv) (components?_withInts hc)
  | snd _ hc ih => exact .snd (ih henv) (components?_withInts hc)
  | ref hx => exact .ref (henv _ _ hx)

end CellCalculus
