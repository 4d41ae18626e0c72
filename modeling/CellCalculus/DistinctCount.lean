/-!
# Counting different entries

The number of different entries of a list grows with the set of its entries, strictly where the set
gains a member.
-/

namespace CellCalculus

def distinctCount : List Nat → Nat
  | [] => 0
  | x :: l => if x ∈ l then distinctCount l else distinctCount l + 1

theorem distinctCount_filter_ne {x : Nat} {l : List Nat} (hx : x ∈ l) :
    distinctCount (l.filter (· != x)) + 1 = distinctCount l := by
  induction l with
  | nil => simp at hx
  | cons y l ih =>
    by_cases hyx : y = x
    · subst hyx
      by_cases hy : y ∈ l
      · simp [distinctCount, hy, ih hy]
      · have hl : l.filter (· != y) = l := by
          simp only [List.filter_eq_self, bne_iff_ne]
          exact fun a ha hay => hy (hay ▸ ha)
        simp [distinctCount, hy, hl]
    · have hxl : x ∈ l := (List.mem_cons.mp hx).resolve_left (Ne.symm hyx)
      have hmem : y ∈ l.filter (· != x) ↔ y ∈ l := by simp [hyx]
      by_cases hy : y ∈ l <;> simp [distinctCount, hyx, hy, ← ih hxl]

theorem distinctCount_le_of_subset {l m : List Nat} (h : ∀ x ∈ l, x ∈ m) :
    distinctCount l ≤ distinctCount m := by
  induction l generalizing m with
  | nil => exact Nat.zero_le _
  | cons x l ih =>
    by_cases hx : x ∈ l
    · simpa [distinctCount, hx] using ih fun y hy => h y (List.mem_cons_of_mem _ hy)
    · have hle : distinctCount l ≤ distinctCount (m.filter (· != x)) := ih fun y hy => by
        simp only [List.mem_filter, bne_iff_ne]
        exact ⟨h y (List.mem_cons_of_mem _ hy), fun hyx => hx (hyx ▸ hy)⟩
      have heq := distinctCount_filter_ne (h x List.mem_cons_self)
      simp only [distinctCount, hx, if_false]
      omega

theorem distinctCount_lt_of_subset {l m : List Nat} {x : Nat} (h : ∀ y ∈ l, y ∈ m)
    (hm : x ∈ m) (hl : x ∉ l) : distinctCount l < distinctCount m := by
  have hle : distinctCount l ≤ distinctCount (m.filter (· != x)) :=
    distinctCount_le_of_subset fun y hy => by
      simp only [List.mem_filter, bne_iff_ne]
      exact ⟨h y hy, fun hyx => hl (hyx ▸ hy)⟩
  have heq := distinctCount_filter_ne hm
  omega

/-- No new entries and a smaller size. -/
theorem distinctCount_lex_of_subset {l m : List Nat} {i j : Nat} (h : ∀ x ∈ l, x ∈ m)
    (hij : i < j) : Prod.Lex (· < ·) (· < ·) (distinctCount l, i) (distinctCount m, j) := by
  rcases Nat.lt_or_eq_of_le (distinctCount_le_of_subset h) with hlt | heq
  · exact .left _ _ hlt
  · rw [heq]
    exact .right _ hij

end CellCalculus
