import CellCalculus.FieldValidity
import CellCalculus.TypeEnvironment
import CellCalculus.TypeSubstitution

/-!
# The typing rules without the algorithm

`HasType env e t` says that `e` has type `t` by the rules alone: no type variable is guessed, no
premise put off. A function, literal or closure, binds its parameter and nothing else; the fields of
an aggregate have to be valid fields under its tag; a projection takes a pair of either tag or a
record; a reference is over a variable. A validity answer that is definite stays the same in every
instance of the type.
-/

namespace CellCalculus

namespace Substitution

def applyEnv (s : Substitution) (env : TypeEnv) : TypeEnv :=
  ⟨env.bindings.map fun binding => (binding.1, s.apply binding.2)⟩

@[simp] theorem lookup?_applyEnv (s : Substitution) (env : TypeEnv) (x : String) :
    (s.applyEnv env).lookup? x = (env.lookup? x).map s.apply :=
  env.lookup?_map s.apply x

@[simp] theorem applyEnv_extend (s : Substitution) (env : TypeEnv) (b : Binder) (t : Ty) :
    s.applyEnv (env.extend b t) = (s.applyEnv env).extend b (s.apply t) :=
  env.map_extend s.apply b t

end Substitution

theorem Ty.components?_eq_some {t a b : Ty} (h : t.components? = some (a, b)) :
    (∃ tag, t = .pair tag a b) ∨ t = .record a b := by
  cases t <;> simp_all [components?]

theorem Ty.components?_apply {s : Substitution} {t a b : Ty} (h : t.components? = some (a, b)) :
    (s.apply t).components? = some (s.apply a, s.apply b) := by
  rcases components?_eq_some h with ⟨tag, rfl⟩ | rfl <;> rfl

theorem both_eq_some_of_refines {p q p' q' : Option Bool} {answer : Bool}
    (hp : ∀ a, p = some a → p' = some a) (hq : ∀ a, q = some a → q' = some a)
    (h : both p q = some answer) : both p' q' = some answer := by
  cases answer with
  | true =>
    obtain ⟨h₁, h₂⟩ := both_eq_true_iff.mp h
    exact both_eq_true_iff.mpr ⟨hp true h₁, hq true h₂⟩
  | false => exact both_eq_false_iff.mpr ((both_eq_false_iff.mp h).imp (hp false) (hq false))

/-- A definite answer does not depend on what the variables stand for. -/
theorem fieldValidity_apply {tag : Tag} {t : Ty} {answer : Bool} (s : Substitution)
    (h : fieldValidity tag t = some answer) : fieldValidity tag (s.apply t) = some answer := by
  induction t generalizing answer with
  | var x => cases h
  | ref t ih =>
    simp only [fieldValidity, Substitution.apply] at h ⊢
    split at h
    · next htag => rw [if_pos htag, ih h]
    · next htag => rw [if_neg htag, h]
  | pair inner a b iha ihb =>
    simp only [fieldValidity, Substitution.apply] at h ⊢
    split at h
    · next htag =>
      rw [if_pos htag]
      exact both_eq_some_of_refines (fun _ => iha) (fun _ => ihb) h
    · next htag => rw [if_neg htag, h]
  | record a b iha ihb =>
    simp only [fieldValidity, Substitution.apply] at h ⊢
    split at h
    · next htag =>
      rw [if_pos htag]
      exact both_eq_some_of_refines (fun _ => iha) (fun _ => ihb) h
    · next htag => rw [if_neg htag, h]
  | _ => exact h

theorem fieldValid_apply {tag : Tag} {t : Ty} (s : Substitution) (h : fieldValid tag t = true) :
    fieldValid tag (s.apply t) = true :=
  fieldValid_iff.mpr (fieldValidity_apply s (fieldValid_iff.mp h))

inductive HasType : TypeEnv → Expr → Ty → Prop
  | int {env n} : HasType env (.val (.lit (.int n))) .int
  | bool {env b} : HasType env (.val (.lit (.bool b))) .bool
  | unit {env} : HasType env (.val (.lit .unit)) .unit
  | closure {env self param body a b} : HasType (env.extend param a) body b →
      HasType env (.val (.closure self param body)) (.arrow a b)
  | pairVal {env tag v w a b} : HasType env (.val v) a → HasType env (.val w) b →
      fieldValid tag a = true → fieldValid tag b = true →
      HasType env (.val (.pair tag v w)) (.pair tag a b)
  | var {env x t} : env.lookup? x = some t → HasType env (.var x) t
  | fn {env self param body a b} : HasType (env.extend param a) body b →
      HasType env (.fn self param body) (.arrow a b)
  | app {env e₁ e₂ a b} : HasType env e₁ (.arrow a b) → HasType env e₂ a →
      HasType env (.app e₁ e₂) b
  | unop {env op e} : HasType env e op.type → HasType env (.unop op e) op.type
  | binop {env op e₁ e₂} {sig : Signature} : op.signature? = some sig →
      HasType env e₁ sig.left → HasType env e₂ sig.right →
      HasType env (.binop op e₁ e₂) sig.result
  | ite {env c t f a} : HasType env c .bool → HasType env t a → HasType env f a →
      HasType env (.ite c t f) a
  | pair {env tag e₁ e₂ a b} : HasType env e₁ a → HasType env e₂ b →
      fieldValid tag a = true → fieldValid tag b = true →
      HasType env (.pair tag e₁ e₂) (.pair tag a b)
  | record {env e₁ e₂ a b} : HasType env e₁ a → HasType env e₂ b →
      fieldValid .plain a = true → fieldValid .plain b = true →
      HasType env (.record e₁ e₂) (.record a b)
  | fst {env e t a b} : HasType env e t → t.components? = some (a, b) → HasType env (.fst e) a
  | snd {env e t a b} : HasType env e t → t.components? = some (a, b) → HasType env (.snd e) b
  | ref {env x t} : env.lookup? x = some t → HasType env (.ref (.var x)) (.ref t)

end CellCalculus
