import CellCalculus.Types

/-!
# Typing environments

An environment gives types to names, the binding added last hiding the earlier ones of its name. Two
environments agree when every name has the same type in both.
-/

namespace CellCalculus

/-- The bindings, the latest first. -/
structure TypeEnv where
  bindings : List (String × Ty) := []

namespace TypeEnv

def empty : TypeEnv := {}

/-- The last of the bindings of one name counts. -/
def ofList (l : List (String × Ty)) : TypeEnv := ⟨l.reverse⟩

def lookup? (env : TypeEnv) (x : String) : Option Ty := env.bindings.lookup x

def extend (env : TypeEnv) (b : Binder) (t : Ty) : TypeEnv :=
  match b with
  | .anon => env
  | .named x => ⟨(x, t) :: env.bindings⟩

/-- The same names with other types. -/
def map (f : Ty → Ty) (env : TypeEnv) : TypeEnv :=
  ⟨env.bindings.map fun binding => (binding.1, f binding.2)⟩

def agrees (env other : TypeEnv) : Bool :=
  (env.bindings ++ other.bindings).all fun binding =>
    env.lookup? binding.1 == other.lookup? binding.1

@[simp] theorem extend_anon (env : TypeEnv) (t : Ty) : env.extend .anon t = env := rfl

@[simp] theorem lookup?_extend_named (env : TypeEnv) (x y : String) (t : Ty) :
    (env.extend (.named x) t).lookup? y = if y = x then some t else env.lookup? y := by
  by_cases hxy : y = x
  · simp [extend, lookup?, hxy]
  · simp [extend, lookup?, List.lookup_cons, beq_false_of_ne hxy, hxy]

theorem lookup?_extend (env : TypeEnv) (b : Binder) (x : String) (t : Ty) :
    (env.extend b t).lookup? x = if b.binds x then some t else env.lookup? x := by
  cases b with
  | anon => rfl
  | named y =>
    rw [lookup?_extend_named]
    simp only [Binder.binds_named, eq_comm (a := y)]

theorem lookup?_extend_of_not_binds {env : TypeEnv} {b : Binder} {x : String} (t : Ty)
    (hb : b.binds x = false) : (env.extend b t).lookup? x = env.lookup? x := by
  rw [lookup?_extend, hb]
  rfl

theorem lookup?_map (f : Ty → Ty) (env : TypeEnv) (x : String) :
    (env.map f).lookup? x = (env.lookup? x).map f := by
  obtain ⟨l⟩ := env
  induction l with
  | nil => rfl
  | cons binding l ih =>
    obtain ⟨y, t⟩ := binding
    by_cases hxy : x = y
    · simp [map, lookup?, hxy]
    · simpa [map, lookup?, List.lookup_cons, beq_false_of_ne hxy] using ih

theorem map_extend (f : Ty → Ty) (env : TypeEnv) (b : Binder) (t : Ty) :
    (env.extend b t).map f = (env.map f).extend b (f t) := by
  cases b <;> rfl

theorem agrees_iff {env other : TypeEnv} :
    env.agrees other = true ↔ ∀ x, env.lookup? x = other.lookup? x := by
  simp only [agrees, List.all_append, Bool.and_eq_true, List.all_eq_true, beq_iff_eq]
  refine ⟨fun h x => ?_, fun h => ⟨fun b _ => h b.1, fun b _ => h b.1⟩⟩
  have hmem : ∀ {l : List (String × Ty)}, l.lookup x ≠ none → ∃ t, (x, t) ∈ l := by
    intro l
    induction l with
    | nil => simp
    | cons b l ih =>
      obtain ⟨y, t⟩ := b
      by_cases hxy : x = y
      · exact fun _ => ⟨t, by simp [hxy]⟩
      · intro hl
        obtain ⟨u, hu⟩ := ih (by simpa [List.lookup_cons, beq_false_of_ne hxy] using hl)
        exact ⟨u, List.mem_cons_of_mem _ hu⟩
  by_cases hx : env.bindings.lookup x = none
  · by_cases hy : other.bindings.lookup x = none
    · exact hx.trans hy.symm
    · obtain ⟨t, ht⟩ := hmem hy
      exact h.2 (x, t) ht
  · obtain ⟨t, ht⟩ := hmem hx
    exact h.1 (x, t) ht

end TypeEnv

end CellCalculus
