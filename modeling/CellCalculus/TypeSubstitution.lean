import CellCalculus.Types

/-!
# Substitution of types for type variables

A substitution is a finite table, applied once and not repeatedly. Applying a composition is
applying the inner substitution first and then the outer one, which is `apply_compose`.
-/

namespace CellCalculus

/-- A table from variables to types; the first entry for a variable counts. -/
structure Substitution where
  entries : List (Nat × Ty)
  deriving DecidableEq

namespace Substitution

def empty : Substitution := ⟨[]⟩

def single (x : Nat) (t : Ty) : Substitution := ⟨[(x, t)]⟩

def insert (s : Substitution) (x : Nat) (t : Ty) : Substitution :=
  ⟨(x, t) :: s.entries.filter fun entry => entry.1 != x⟩

/-- Later entries replace earlier ones for the same variable. -/
def ofList (l : List (Nat × Ty)) : Substitution :=
  l.foldl (fun s entry => s.insert entry.1 entry.2) empty

def lookup? (s : Substitution) (x : Nat) : Option Ty := s.entries.lookup x

def apply (s : Substitution) : Ty → Ty
  | .int => .int
  | .bool => .bool
  | .unit => .unit
  | .pair tag a b => .pair tag (s.apply a) (s.apply b)
  | .record a b => .record (s.apply a) (s.apply b)
  | .ref t => .ref (s.apply t)
  | .arrow a b => .arrow (s.apply a) (s.apply b)
  | .var x => (s.lookup? x).getD (.var x)

/-- `inner` followed by `outer`. -/
def compose (outer inner : Substitution) : Substitution :=
  let added := outer.entries.filter fun entry => (inner.lookup? entry.1).isNone
  ⟨inner.entries.map (fun entry => (entry.1, outer.apply entry.2)) ++ added⟩

attribute [local simp] apply

@[simp] theorem lookup?_empty (x : Nat) : empty.lookup? x = none := rfl

@[simp] theorem lookup?_single (x y : Nat) (t : Ty) :
    (single x t).lookup? y = if y = x then some t else none := by
  by_cases hxy : y = x
  · simp [single, lookup?, hxy]
  · simp [single, lookup?, List.lookup_cons, beq_false_of_ne hxy, hxy]

@[simp] theorem apply_empty (t : Ty) : empty.apply t = t := by
  induction t <;> simp_all

theorem lookup?_insert (s : Substitution) (x y : Nat) (t : Ty) :
    (s.insert x t).lookup? y = if y = x then some t else s.lookup? y := by
  by_cases hxy : y = x
  · simp [insert, lookup?, hxy]
  · have hfilter : ∀ l : List (Nat × Ty),
        (l.filter fun entry => entry.1 != x).lookup y = l.lookup y := by
      intro l
      induction l with
      | nil => rfl
      | cons entry l ih =>
        obtain ⟨z, u⟩ := entry
        by_cases hzx : z = x
        · simp [hzx, List.lookup_cons, beq_false_of_ne hxy, ih]
        · simp [hzx, List.lookup_cons, ih]
    simp [insert, lookup?, List.lookup_cons, beq_false_of_ne hxy, hxy, hfilter]

theorem lookup_map_apply (s : Substitution) (x : Nat) (l : List (Nat × Ty)) :
    (l.map fun entry => (entry.1, s.apply entry.2)).lookup x = (l.lookup x).map s.apply := by
  induction l with
  | nil => rfl
  | cons entry l ih =>
    obtain ⟨y, t⟩ := entry
    by_cases hxy : x = y
    · simp [hxy]
    · simp [List.lookup_cons, beq_false_of_ne hxy, ih]

theorem lookup_filter_unbound {s : Substitution} {x : Nat} (hx : s.lookup? x = none)
    (l : List (Nat × Ty)) :
    (l.filter fun entry => (s.lookup? entry.1).isNone).lookup x = l.lookup x := by
  induction l with
  | nil => rfl
  | cons entry l ih =>
    obtain ⟨y, t⟩ := entry
    by_cases hxy : x = y
    · subst hxy
      simp [hx]
    · cases hy : s.lookup? y <;> simp [List.lookup_cons, beq_false_of_ne hxy, hy, ih]

theorem lookup?_compose (outer inner : Substitution) (x : Nat) :
    (outer.compose inner).lookup? x =
      match inner.lookup? x with
      | some t => some (outer.apply t)
      | none => outer.lookup? x := by
  have hmap := lookup_map_apply outer x inner.entries
  cases hx : inner.lookup? x with
  | some t => simp_all [compose, lookup?, List.lookup_append]
  | none =>
    have hfilter := lookup_filter_unbound hx outer.entries
    have hl : inner.entries.lookup x = none := hx
    simp only [compose, lookup?, List.lookup_append, hmap, hl, Option.map_none, Option.none_or]
    exact hfilter

theorem apply_compose (outer inner : Substitution) (t : Ty) :
    (outer.compose inner).apply t = outer.apply (inner.apply t) := by
  induction t with
  | var x => cases hx : inner.lookup? x <;> simp [lookup?_compose, hx]
  | _ => simp_all

/-- Only what the variables of the type stand for matters. -/
theorem apply_congr {s r : Substitution} {t : Ty}
    (h : ∀ x ∈ t.vars, s.apply (.var x) = r.apply (.var x)) : s.apply t = r.apply t := by
  induction t with
  | int | bool | unit => rfl
  | var x => exact h x (List.mem_singleton.mpr rfl)
  | ref t ih => rw [apply, apply, ih h]
  | pair _ a b iha ihb | record a b iha ihb | arrow a b iha ihb =>
    obtain ⟨ha, hb⟩ := List.forall_mem_append.mp h
    rw [apply, apply, iha ha, ihb hb]

theorem mem_vars_apply {s : Substitution} {t : Ty} {x : Nat} :
    x ∈ (s.apply t).vars ↔ ∃ y ∈ t.vars, x ∈ (s.apply (.var y)).vars := by
  induction t with
  | var y => simp [Ty.vars]
  | pair tag a b iha ihb => simp [Ty.vars, iha, ihb, or_and_right, exists_or]
  | record a b iha ihb => simp [Ty.vars, iha, ihb, or_and_right, exists_or]
  | arrow a b iha ihb => simp [Ty.vars, iha, ihb, or_and_right, exists_or]
  | ref t ih => simpa [Ty.vars] using ih
  | _ => simp [Ty.vars]

end Substitution

end CellCalculus
