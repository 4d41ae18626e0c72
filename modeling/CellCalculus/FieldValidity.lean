import CellCalculus.Types

/-!
# Which types may be fields

Base types and functions fit into any aggregate. A plain aggregate fits into plain ones only, a
ref-struct into ref-structs only, and so does a reference to something that fits itself. The answer
stays open where it hangs on a type variable.
-/

namespace CellCalculus

/-- Two answers taken together: a definite no wins over an open one. -/
def both : Option Bool → Option Bool → Option Bool
  | some false, _ => some false
  | _, some false => some false
  | some true, some true => some true
  | _, _ => none

/-- Whether the type may be a field under `tag`, or `none` while that is open. -/
def fieldValidity (tag : Tag) : Ty → Option Bool
  | .int | .bool | .unit | .arrow .. => some true
  | .ref t => if tag = .ref then fieldValidity tag t else some false
  | .pair inner a b =>
      if inner = tag then both (fieldValidity tag a) (fieldValidity tag b) else some false
  | .record a b =>
      if tag = .plain then both (fieldValidity tag a) (fieldValidity tag b) else some false
  | .var _ => none

def fieldValid (tag : Tag) (t : Ty) : Bool := fieldValidity tag t == some true

attribute [local simp] fieldValidity

theorem both_eq_true_iff {p q : Option Bool} :
    both p q = some true ↔ p = some true ∧ q = some true := by
  unfold both
  split <;> simp_all

theorem both_eq_false_iff {p q : Option Bool} :
    both p q = some false ↔ p = some false ∨ q = some false := by
  unfold both
  split <;> simp_all

@[simp] theorem fieldValid_iff {tag : Tag} {t : Ty} :
    fieldValid tag t = true ↔ fieldValidity tag t = some true := by
  simp [fieldValid]

theorem fieldValid_pair_iff {tag inner : Tag} {a b : Ty} :
    fieldValid tag (.pair inner a b) = true ↔
      inner = tag ∧ fieldValid tag a = true ∧ fieldValid tag b = true := by
  by_cases htag : inner = tag <;> simp [htag, both_eq_true_iff]

theorem fieldValid_record_iff {tag : Tag} {a b : Ty} :
    fieldValid tag (.record a b) = true ↔
      tag = .plain ∧ fieldValid tag a = true ∧ fieldValid tag b = true := by
  by_cases htag : tag = .plain <;> simp [htag, both_eq_true_iff]

theorem fieldValid_ref_iff {tag : Tag} {t : Ty} :
    fieldValid tag (.ref t) = true ↔ tag = .ref ∧ fieldValid tag t = true := by
  by_cases htag : tag = .ref <;> simp [htag]

theorem not_fieldValid_var {tag : Tag} {x : Nat} : ¬fieldValid tag (.var x) = true := by
  simp

end CellCalculus
