import CellCalculus.Proofs.DeclarativeTyping
import CellCalculus.Proofs.UnifierCompleteness

/-!
# Well-formed types

A type is well formed when every aggregate in it, at any depth, has valid fields. Down to the next
arrow everything below such a field suits the tag it is under. A type with variables is well formed
in a substitution when the fields written in it are valid there; what the variables stand for is
left out of account. The unifier binds variables to pieces of the types it is given, so it keeps to
types that are well formed in every substitution that solves the equations.
-/

namespace CellCalculus

open Substitution

namespace Ty

/-- The fields of all aggregates in the type, each with the tag it has to be valid under. -/
def fields : Ty → List (Tag × Ty)
  | .int | .bool | .unit | .var _ => []
  | .pair tag a b => (tag, a) :: (tag, b) :: (a.fields ++ b.fields)
  | .record a b => (.plain, a) :: (.plain, b) :: (a.fields ++ b.fields)
  | .ref t => t.fields
  | .arrow a b => a.fields ++ b.fields

def WellFormed (t : Ty) : Prop := ∀ f ∈ t.fields, fieldValid f.1 f.2 = true

instance (t : Ty) : Decidable t.WellFormed := inferInstanceAs (Decidable (∀ f ∈ t.fields, _))

/-- The parts of the type that can be reached without passing an arrow. -/
def exposed : Ty → List Ty
  | .pair tag a b => .pair tag a b :: (a.exposed ++ b.exposed)
  | .record a b => .record a b :: (a.exposed ++ b.exposed)
  | .ref t => .ref t :: t.exposed
  | t => [t]

/-- Whether the outermost construct may stand below an aggregate of that tag: records are plain,
references are for ref-structs, and a variable is nothing yet. -/
def suits (tag : Tag) : Ty → Bool
  | .int | .bool | .unit | .arrow .. => true
  | .pair inner _ _ => decide (inner = tag)
  | .record .. => decide (tag = .plain)
  | .ref _ => decide (tag = .ref)
  | .var _ => false

end Ty

theorem suits_of_exposed {tag : Tag} {t u : Ty} (ht : fieldValid tag t = true)
    (hu : u ∈ t.exposed) : u.suits tag = true := by
  induction t with
  | int | bool | unit | arrow _ _ _ _ =>
    obtain rfl := List.mem_singleton.mp hu
    rfl
  | var x => exact absurd ht not_fieldValid_var
  | ref t ih =>
    obtain ⟨htag, ht⟩ := fieldValid_ref_iff.mp ht
    rcases List.mem_cons.mp hu with rfl | hu
    · exact decide_eq_true htag
    · exact ih ht hu
  | pair inner a b iha ihb =>
    obtain ⟨htag, ha, hb⟩ := fieldValid_pair_iff.mp ht
    rcases List.mem_cons.mp hu with rfl | hu
    · exact decide_eq_true htag
    · exact (List.mem_append.mp hu).elim (iha ha) (ihb hb)
  | record a b iha ihb =>
    obtain ⟨htag, ha, hb⟩ := fieldValid_record_iff.mp ht
    rcases List.mem_cons.mp hu with rfl | hu
    · exact decide_eq_true htag
    · exact (List.mem_append.mp hu).elim (iha ha) (ihb hb)

namespace Ty

attribute [local simp] fields

/-- The fields written in the type are valid once the substitution is applied. -/
def WellFormedIn (s : Substitution) (t : Ty) : Prop :=
  ∀ f ∈ t.fields, fieldValid f.1 (s.apply f.2) = true

variable {s r : Substitution} {t a b : Ty}

theorem wellFormedIn_var (x : Nat) : (Ty.var x).WellFormedIn s := by simp [WellFormedIn]

theorem wellFormedIn_int : Ty.int.WellFormedIn s := by simp [WellFormedIn]

theorem wellFormedIn_bool : Ty.bool.WellFormedIn s := by simp [WellFormedIn]

theorem wellFormedIn_unit : Ty.unit.WellFormedIn s := by simp [WellFormedIn]

theorem wellFormedIn_arrow_iff :
    (Ty.arrow a b).WellFormedIn s ↔ a.WellFormedIn s ∧ b.WellFormedIn s := by
  simp only [WellFormedIn, fields, List.forall_mem_append]

theorem wellFormedIn_pair_iff {tag : Tag} : (Ty.pair tag a b).WellFormedIn s ↔
    fieldValid tag (s.apply a) = true ∧ fieldValid tag (s.apply b) = true ∧
      a.WellFormedIn s ∧ b.WellFormedIn s := by
  simp only [WellFormedIn, fields, List.forall_mem_cons, List.forall_mem_append]

theorem wellFormedIn_record_iff : (Ty.record a b).WellFormedIn s ↔
    fieldValid .plain (s.apply a) = true ∧ fieldValid .plain (s.apply b) = true ∧
      a.WellFormedIn s ∧ b.WellFormedIn s := by
  simp only [WellFormedIn, fields, List.forall_mem_cons, List.forall_mem_append]

theorem wellFormedIn_of_components? {components : Ty × Ty} (ht : t.WellFormedIn s)
    (hc : t.components? = some components) :
    components.1.WellFormedIn s ∧ components.2.WellFormedIn s := by
  obtain ⟨a, b⟩ := components
  rcases components?_eq_some hc with ⟨tag, rfl⟩ | rfl
  · exact (wellFormedIn_pair_iff.mp ht).2.2
  · exact (wellFormedIn_record_iff.mp ht).2.2

/-- Replacing variables by types that are well formed in `s` keeps the type so, if it makes no
difference to `s`. -/
theorem WellFormedIn.apply (ht : t.WellFormedIn s) (habs : s.Absorbs r)
    (hr : ∀ x u, r.lookup? x = some u → u.WellFormedIn s) : (r.apply t).WellFormedIn s := by
  induction t with
  | int | bool | unit => exact ht
  | var x =>
    cases hx : r.lookup? x with
    | none =>
      rw [apply_var_of_unbound hx]
      exact wellFormedIn_var x
    | some u =>
      rw [apply_var_of_bound hx]
      exact hr x u hx
  | ref t ih => exact ih ht
  | arrow a b iha ihb =>
    obtain ⟨ha, hb⟩ := wellFormedIn_arrow_iff.mp ht
    exact wellFormedIn_arrow_iff.mpr ⟨iha ha, ihb hb⟩
  | pair tag a b iha ihb =>
    obtain ⟨hva, hvb, ha, hb⟩ := wellFormedIn_pair_iff.mp ht
    refine wellFormedIn_pair_iff.mpr ⟨?_, ?_, iha ha, ihb hb⟩
    · rwa [habs]
    · rwa [habs]
  | record a b iha ihb =>
    obtain ⟨hva, hvb, ha, hb⟩ := wellFormedIn_record_iff.mp ht
    refine wellFormedIn_record_iff.mpr ⟨?_, ?_, iha ha, ihb hb⟩
    · rwa [habs]
    · rwa [habs]

theorem mem_vars_of_mem_fields {f : Tag × Ty} (hf : f ∈ t.fields) {x : Nat} (hx : x ∈ f.2.vars) :
    x ∈ t.vars := by
  induction t with
  | int | bool | unit | var _ => cases hf
  | ref t ih => exact ih hf
  | arrow a b iha ihb =>
    exact List.mem_append.mpr ((List.mem_append.mp hf).imp iha ihb)
  | pair _ a b iha ihb | record a b iha ihb =>
    refine List.mem_append.mpr ?_
    rcases List.mem_cons.mp hf with rfl | hf
    · exact .inl hx
    · rcases List.mem_cons.mp hf with rfl | hf
      · exact .inr hx
      · exact (List.mem_append.mp hf).imp iha ihb

/-- A substitution that leaves the variables of the type alone makes no difference. -/
theorem wellFormedIn_iff (ht : ∀ x ∈ t.vars, s.lookup? x = none) :
    t.WellFormedIn s ↔ t.WellFormed := by
  refine forall_congr' fun f => imp_congr_right fun hf => ?_
  rw [apply_eq_self fun x hx => ht x (mem_vars_of_mem_fields hf hx)]

end Ty

theorem wellFormedIn_components {a b : Ty} {eqs : List Equation} {s : Substitution}
    (hc : componentEquations? a b = some eqs) (ha : a.WellFormedIn s) (hb : b.WellFormedIn s) :
    ∀ eq ∈ eqs, eq.1.WellFormedIn s ∧ eq.2.WellFormedIn s := by
  unfold componentEquations? at hc
  split at hc
  case h_1 =>
    cases hc
    exact List.forall_mem_singleton.mpr ⟨ha, hb⟩
  case h_2 =>
    split at hc <;> cases hc
    obtain ⟨-, -, ha₁, ha₂⟩ := Ty.wellFormedIn_pair_iff.mp ha
    obtain ⟨-, -, hb₁, hb₂⟩ := Ty.wellFormedIn_pair_iff.mp hb
    exact List.forall_mem_cons.mpr ⟨⟨ha₁, hb₁⟩, List.forall_mem_singleton.mpr ⟨ha₂, hb₂⟩⟩
  case h_3 =>
    cases hc
    obtain ⟨-, -, ha₁, ha₂⟩ := Ty.wellFormedIn_record_iff.mp ha
    obtain ⟨-, -, hb₁, hb₂⟩ := Ty.wellFormedIn_record_iff.mp hb
    exact List.forall_mem_cons.mpr ⟨⟨ha₁, hb₁⟩, List.forall_mem_singleton.mpr ⟨ha₂, hb₂⟩⟩
  case h_4 =>
    cases hc
    obtain ⟨ha₁, ha₂⟩ := Ty.wellFormedIn_arrow_iff.mp ha
    obtain ⟨hb₁, hb₂⟩ := Ty.wellFormedIn_arrow_iff.mp hb
    exact List.forall_mem_cons.mpr ⟨⟨ha₁, hb₁⟩, List.forall_mem_singleton.mpr ⟨ha₂, hb₂⟩⟩
  case h_5 => cases hc

theorem solve_wellFormedIn {eqs : List Equation} {s r : Substitution} (hr : solve eqs = .ok r)
    (hs : s.Solves eqs) (hwf : ∀ eq ∈ eqs, eq.1.WellFormedIn s ∧ eq.2.WellFormedIn s) :
    ∀ x u, r.lookup? x = some u → u.WellFormedIn s := by
  fun_induction solve eqs generalizing r with
  | case1 =>
    cases hr
    intro x u hx
    cases hx
  | case2 a rest ih =>
    exact ih hr ((solves_cons s a a rest).mp hs).2 (List.forall_mem_cons.mp hwf).2
  | case3 => cases hr
  | case4 a b rest hab x t hb hx r' hr' ih =>
    cases hr
    obtain ⟨hhead, hrest⟩ := (solves_cons s a b rest).mp hs
    obtain ⟨⟨ha, hb'⟩, hwfrest⟩ := List.forall_mem_cons.mp hwf
    have hsingle : s.Absorbs (single x t) :=
      absorbs_single ((binding_sides_equal hb s).mp hhead)
    have ht : t.WellFormedIn s := by
      rcases binding?_eq_some hb with ⟨rfl, rfl⟩ | ⟨rfl, rfl⟩ <;> assumption
    have hbound : ∀ y u, (single x t).lookup? y = some u → u.WellFormedIn s := by
      intro y u hy
      rw [lookup?_single] at hy
      split at hy <;> cases hy
      exact ht
    -- The elimination makes no difference to `s`, so it keeps the equations left well formed.
    have hsolves : s.Solves ((single x t).applyEquations rest) := hrest.applyEquations hsingle
    have hr'wf := ih hr' hsolves <| List.forall_mem_map.mpr fun eq heq =>
      ⟨(hwfrest eq heq).1.apply hsingle hbound, (hwfrest eq heq).2.apply hsingle hbound⟩
    intro y u hy
    rw [lookup?_compose] at hy
    split at hy
    · next w hw =>
      cases hy
      exact (hbound y w hw).apply (solve_absorbs hr' hsolves) hr'wf
    · exact hr'wf y u hy
  | case5 => cases hr
  | case6 a b rest hab hb eqs hc ih =>
    obtain ⟨hhead, hrest⟩ := (solves_cons s a b rest).mp hs
    obtain ⟨⟨ha, hb'⟩, hwfrest⟩ := List.forall_mem_cons.mp hwf
    refine ih hr ((solves_append s eqs rest).mpr ⟨(solves_components s hc).mpr hhead, hrest⟩) ?_
    exact List.forall_mem_append.mpr ⟨wellFormedIn_components hc ha hb', hwfrest⟩
  | case7 => cases hr

end CellCalculus
