import CellCalculus.Unification

/-!
# The texts of types

A text is read from the left to the right. What stands in front of an arrow is an operand, which
ends where no digit follows; a whole type ends where no arrow follows either. So two texts that go
on alike belong to one type, as long as no reference stands over a function: the text of a reference
has no parentheses, and `&Int -> Int` is the text of two types.
-/

namespace CellCalculus

namespace Ty

/-- No reference in the type stands directly over a function type. -/
def dataRefs : Ty → Bool
  | .int | .bool | .unit | .var _ => true
  | .pair _ a b | .record a b | .arrow a b => a.dataRefs && b.dataRefs
  | .ref t => !t.isArrow && t.dataRefs

/-- The text of the type with `r` behind it. -/
def spelled (t : Ty) (r : List Char) : List Char := t.text.toList ++ r

/-- The text of the type as it stands in front of an arrow, with `r` behind it. -/
def operand (t : Ty) (r : List Char) : List Char :=
  if t.isArrow then '(' :: t.spelled (')' :: r) else t.spelled r

theorem spelled_int (r : List Char) : Ty.int.spelled r = 'I' :: 'n' :: 't' :: r := by
  simp [spelled]

theorem spelled_bool (r : List Char) : Ty.bool.spelled r = 'B' :: 'o' :: 'o' :: 'l' :: r := by
  simp [spelled]

theorem spelled_unit (r : List Char) : Ty.unit.spelled r = 'U' :: 'n' :: 'i' :: 't' :: r := by
  simp [spelled]

theorem spelled_var (x : Nat) (r : List Char) :
    (Ty.var x).spelled r = '\'' :: 't' :: (Nat.toDigits 10 x ++ r) := by
  simp [spelled]

theorem spelled_plain (a b : Ty) (r : List Char) : (Ty.pair .plain a b).spelled r =
    '(' :: a.spelled (' ' :: '*' :: ' ' :: b.spelled (')' :: r)) := by
  simp [spelled, text_plain]

theorem spelled_ref_pair (a b : Ty) (r : List Char) : (Ty.pair .ref a b).spelled r =
    'r' :: 'e' :: 'f' :: ' ' :: '(' ::
      a.spelled (' ' :: '*' :: ' ' :: b.spelled (')' :: r)) := by
  simp [spelled, text_ref_pair]

theorem spelled_record (a b : Ty) (r : List Char) : (Ty.record a b).spelled r =
    'c' :: 'l' :: 'a' :: 's' :: 's' :: '(' :: a.spelled (',' :: ' ' :: b.spelled (')' :: r)) := by
  simp [spelled, text_record]

theorem spelled_ref (t : Ty) (r : List Char) : (Ty.ref t).spelled r = '&' :: t.spelled r := by
  simp [spelled, text_ref]

theorem spelled_arrow (a b : Ty) (r : List Char) : (Ty.arrow a b).spelled r =
    a.operand (' ' :: '-' :: '>' :: ' ' :: b.spelled r) := by
  by_cases ha : a.isArrow = true <;> simp [spelled, operand, text_arrow, ha]

theorem operand_of_not_isArrow {t : Ty} (ht : t.isArrow = false) (r : List Char) :
    t.operand r = t.spelled r := by
  rw [operand, ht]
  rfl

theorem operand_arrow (a b : Ty) (r : List Char) :
    (Ty.arrow a b).operand r = '(' :: (Ty.arrow a b).spelled (')' :: r) := rfl

/-- The first character of an operand. -/
def lead : Ty → Char
  | .int => 'I'
  | .bool => 'B'
  | .unit => 'U'
  | .pair .plain _ _ | .arrow .. => '('
  | .pair .ref _ _ => 'r'
  | .record .. => 'c'
  | .ref _ => '&'
  | .var _ => '\''

theorem head?_operand (t : Ty) (r : List Char) : (t.operand r).head? = some t.lead := by
  cases t with
  | arrow a b => rfl
  | pair tag a b =>
    cases tag <;> rw [operand_of_not_isArrow rfl] <;> simp only [spelled_plain, spelled_ref_pair] <;>
      rfl
  | int | bool | unit | var _ | record _ _ | ref _ =>
    rw [operand_of_not_isArrow rfl]
    simp only [spelled_int, spelled_bool, spelled_unit, spelled_var, spelled_record, spelled_ref]
    rfl

theorem lead_eq_of_operand {a b : Ty} {r r' : List Char} (h : a.operand r = b.operand r') :
    a.lead = b.lead := by
  have hhead := congrArg List.head? h
  rw [head?_operand, head?_operand] at hhead
  exact Option.some.inj hhead

end Ty

/-- What may follow an operand: nothing, or no digit. -/
def EndsOperand (r : List Char) : Prop := ∀ c ∈ r.head?, c.isDigit = false

/-- What may follow a type: what may follow an operand, but no arrow. -/
def EndsType (r : List Char) : Prop := EndsOperand r ∧ ∀ r', r ≠ ' ' :: '-' :: r'

theorem endsType_nil : EndsType [] := by
  simp [EndsType, EndsOperand]

theorem endsOperand_blank (r : List Char) : EndsOperand (' ' :: r) := by
  simp [EndsOperand]

theorem endsType_parenthesis (r : List Char) : EndsType (')' :: r) := by
  simp [EndsType, EndsOperand]

theorem endsType_comma (r : List Char) : EndsType (',' :: r) := by
  simp [EndsType, EndsOperand]

theorem endsType_star (r : List Char) : EndsType (' ' :: '*' :: r) := by
  simp [EndsType, EndsOperand]

theorem toDigits_append_inj {x y : Nat} {r r' : List Char} (hr : EndsOperand r)
    (hr' : EndsOperand r') (h : Nat.toDigits 10 x ++ r = Nat.toDigits 10 y ++ r') :
    x = y ∧ r = r' := by
  have hdigits : ∀ (n : Nat) {l : List Char}, EndsOperand l →
      (Nat.toDigits 10 n ++ l).takeWhile Char.isDigit = Nat.toDigits 10 n := by
    intro n l hl
    rw [List.takeWhile_append_of_pos fun c => Nat.isDigit_of_mem_toDigits (by decide) (by decide)]
    cases l with
    | nil => simp
    | cons c l => simp [hl c rfl]
  have hxy : Nat.toDigits 10 x = Nat.toDigits 10 y := by
    rw [← hdigits x hr, h, hdigits y hr']
  rw [hxy] at h
  refine ⟨?_, List.append_cancel_left h⟩
  calc x = Nat.ofDigitChars 10 (Nat.toDigits 10 x) 0 := Nat.ofDigitChars_ten_toDigits.symm
    _ = Nat.ofDigitChars 10 (Nat.toDigits 10 y) 0 := by rw [hxy]
    _ = y := Nat.ofDigitChars_ten_toDigits

/-- The operand is found in every text that begins like its own, and so is where it ends. -/
def ReadsAsOperand (a : Ty) : Prop :=
  ∀ {b : Ty} {r r' : List Char}, b.dataRefs = true → EndsOperand r → EndsOperand r' →
    a.operand r = b.operand r' → a = b ∧ r = r'

/-- The same for the whole type. -/
def ReadsAsType (a : Ty) : Prop :=
  ∀ {b : Ty} {r r' : List Char}, b.dataRefs = true → EndsType r → EndsType r' →
    a.spelled r = b.spelled r' → a = b ∧ r = r'

variable {a a₁ a₂ : Ty}

/-- A text that is no function's goes on as an operand does. -/
theorem ReadsAsOperand.readsAsType (h : ReadsAsOperand a) (ha : a.isArrow = false) :
    ReadsAsType a := by
  intro b r r' hb hr hr' heq
  rw [← Ty.operand_of_not_isArrow ha] at heq
  cases harrow : b.isArrow with
  | false =>
    rw [← Ty.operand_of_not_isArrow harrow] at heq
    exact h hb hr.1 hr'.1 heq
  | true =>
    cases b with
    | arrow b₁ b₂ =>
      rw [Ty.spelled_arrow] at heq
      have hb₁ := (Bool.and_eq_true_iff.mp hb).1
      obtain ⟨-, rfl⟩ := h hb₁ hr.1 (endsOperand_blank _) heq
      exact absurd rfl (hr.2 _)
    | _ => cases harrow

theorem readsAsType_arrow (h₁ : ReadsAsOperand a₁) (h₂ : ReadsAsType a₂) :
    ReadsAsType (.arrow a₁ a₂) := by
  intro b r r' hb hr hr' heq
  rw [Ty.spelled_arrow] at heq
  cases harrow : b.isArrow with
  | false =>
    rw [← Ty.operand_of_not_isArrow harrow] at heq
    obtain ⟨-, rfl⟩ := h₁ hb (endsOperand_blank _) hr'.1 heq
    exact absurd rfl (hr'.2 _)
  | true =>
    cases b with
    | arrow b₁ b₂ =>
      rw [Ty.spelled_arrow] at heq
      obtain ⟨hb₁, hb₂⟩ := Bool.and_eq_true_iff.mp hb
      obtain ⟨rfl, hrest⟩ := h₁ hb₁ (endsOperand_blank _) (endsOperand_blank _) heq
      simp only [List.cons.injEq, true_and] at hrest
      obtain ⟨rfl, rfl⟩ := h₂ hb₂ hr hr' hrest
      exact ⟨rfl, rfl⟩
    | _ => cases harrow

theorem ReadsAsType.readsAsOperand_arrow (h : ReadsAsType (.arrow a₁ a₂)) :
    ReadsAsOperand (.arrow a₁ a₂) := by
  intro b r r' hb hr hr' heq
  cases b with
  | arrow b₁ b₂ =>
    rw [Ty.operand_arrow, Ty.operand_arrow, List.cons.injEq] at heq
    obtain ⟨hab, hrest⟩ := h hb (endsType_parenthesis _) (endsType_parenthesis _) heq.2
    exact ⟨hab, (List.cons.inj hrest).2⟩
  | pair tag b₁ b₂ =>
    cases tag with
    | plain =>
      -- The first component of the pair would be the function, and a parenthesis a star.
      rw [Ty.operand_arrow, Ty.operand_of_not_isArrow rfl, Ty.spelled_plain, List.cons.injEq] at heq
      have hb₁ := (Bool.and_eq_true_iff.mp hb).1
      obtain ⟨-, hrest⟩ := h hb₁ (endsType_parenthesis _) (endsType_star _) heq.2
      exact absurd (List.cons.inj hrest).1 (by decide)
    | ref => simpa [Ty.lead] using Ty.lead_eq_of_operand heq
  | _ => simpa [Ty.lead] using Ty.lead_eq_of_operand heq

/-- Two components, with a separator between them and a parenthesis behind them. -/
theorem ReadsAsType.components (h₁ : ReadsAsType a₁) (h₂ : ReadsAsType a₂) {b₁ b₂ : Ty}
    {r r' : List Char} (hb : (b₁.dataRefs && b₂.dataRefs) = true) (sep : List Char)
    (hsep : ∀ l, EndsType (sep ++ l))
    (heq : a₁.spelled (sep ++ a₂.spelled (')' :: r)) = b₁.spelled (sep ++ b₂.spelled (')' :: r'))) :
    a₁ = b₁ ∧ a₂ = b₂ ∧ r = r' := by
  obtain ⟨hb₁, hb₂⟩ := Bool.and_eq_true_iff.mp hb
  obtain ⟨rfl, hsecond⟩ := h₁ hb₁ (hsep _) (hsep _) heq
  obtain ⟨rfl, hrest⟩ := h₂ hb₂ (endsType_parenthesis _) (endsType_parenthesis _)
    (List.append_cancel_left hsecond)
  exact ⟨rfl, rfl, (List.cons.inj hrest).2⟩

theorem readsAsOperand_plain (h₁ : ReadsAsType a₁) (h₂ : ReadsAsType a₂) :
    ReadsAsOperand (.pair .plain a₁ a₂) := by
  intro b r r' hb hr hr' heq
  cases b with
  | pair tag b₁ b₂ =>
    cases tag with
    | plain =>
      rw [Ty.operand_of_not_isArrow rfl, Ty.operand_of_not_isArrow rfl, Ty.spelled_plain,
        Ty.spelled_plain, List.cons.injEq] at heq
      obtain ⟨rfl, rfl, hrest⟩ := h₁.components h₂ hb [' ', '*', ' '] (fun _ => endsType_star _) heq.2
      exact ⟨rfl, hrest⟩
    | ref => simpa [Ty.lead] using Ty.lead_eq_of_operand heq
  | arrow b₁ b₂ =>
    -- The first component of the pair would be the function, and a star a parenthesis.
    rw [Ty.operand_arrow, Ty.operand_of_not_isArrow rfl, Ty.spelled_plain, List.cons.injEq] at heq
    obtain ⟨-, hrest⟩ := h₁ hb (endsType_star _) (endsType_parenthesis _) heq.2
    exact absurd (List.cons.inj hrest).1 (by decide)
  | _ => simpa [Ty.lead] using Ty.lead_eq_of_operand heq

theorem readsAsOperand_ref_pair (h₁ : ReadsAsType a₁) (h₂ : ReadsAsType a₂) :
    ReadsAsOperand (.pair .ref a₁ a₂) := by
  intro b r r' hb hr hr' heq
  cases b with
  | pair tag b₁ b₂ =>
    cases tag with
    | plain => simpa [Ty.lead] using Ty.lead_eq_of_operand heq
    | ref =>
      rw [Ty.operand_of_not_isArrow rfl, Ty.operand_of_not_isArrow rfl, Ty.spelled_ref_pair,
        Ty.spelled_ref_pair] at heq
      simp only [List.cons.injEq, true_and] at heq
      obtain ⟨rfl, rfl, hrest⟩ := h₁.components h₂ hb [' ', '*', ' '] (fun _ => endsType_star _) heq
      exact ⟨rfl, hrest⟩
  | _ => simpa [Ty.lead] using Ty.lead_eq_of_operand heq

theorem readsAsOperand_record (h₁ : ReadsAsType a₁) (h₂ : ReadsAsType a₂) :
    ReadsAsOperand (.record a₁ a₂) := by
  intro b r r' hb hr hr' heq
  cases b with
  | record b₁ b₂ =>
    rw [Ty.operand_of_not_isArrow rfl, Ty.operand_of_not_isArrow rfl, Ty.spelled_record,
      Ty.spelled_record] at heq
    simp only [List.cons.injEq, true_and] at heq
    obtain ⟨rfl, rfl, hrest⟩ := h₁.components h₂ hb [',', ' '] (fun _ => endsType_comma _) heq
    exact ⟨rfl, hrest⟩
  | pair tag b₁ b₂ => cases tag <;> simpa [Ty.lead] using Ty.lead_eq_of_operand heq
  | _ => simpa [Ty.lead] using Ty.lead_eq_of_operand heq

theorem readsAsOperand_ref {t : Ty} (ht : t.isArrow = false) (h : ReadsAsOperand t) :
    ReadsAsOperand (.ref t) := by
  intro b r r' hb hr hr' heq
  cases b with
  | ref u =>
    obtain ⟨hu, hurefs⟩ := Bool.and_eq_true_iff.mp hb
    rw [Bool.not_eq_true'] at hu
    rw [Ty.operand_of_not_isArrow rfl, Ty.operand_of_not_isArrow rfl, Ty.spelled_ref,
      Ty.spelled_ref, ← Ty.operand_of_not_isArrow ht, ← Ty.operand_of_not_isArrow hu,
      List.cons.injEq] at heq
    obtain ⟨rfl, hrest⟩ := h hurefs hr hr' heq.2
    exact ⟨rfl, hrest⟩
  | pair tag b₁ b₂ => cases tag <;> simpa [Ty.lead] using Ty.lead_eq_of_operand heq
  | _ => simpa [Ty.lead] using Ty.lead_eq_of_operand heq

theorem readsAsOperand_var (x : Nat) : ReadsAsOperand (.var x) := by
  intro b r r' hb hr hr' heq
  cases b with
  | var y =>
    rw [Ty.operand_of_not_isArrow rfl, Ty.operand_of_not_isArrow rfl, Ty.spelled_var,
      Ty.spelled_var] at heq
    simp only [List.cons.injEq, true_and] at heq
    obtain ⟨rfl, hrest⟩ := toDigits_append_inj hr hr' heq
    exact ⟨rfl, hrest⟩
  | pair tag b₁ b₂ => cases tag <;> simpa [Ty.lead] using Ty.lead_eq_of_operand heq
  | _ => simpa [Ty.lead] using Ty.lead_eq_of_operand heq

theorem readsAsOperand_base (ha : a = .int ∨ a = .bool ∨ a = .unit) : ReadsAsOperand a := by
  intro b r r' hb hr hr' heq
  have hab : a = b := by
    have hlead := Ty.lead_eq_of_operand heq
    obtain rfl | rfl | rfl := ha <;> cases b with
    | pair tag b₁ b₂ => cases tag <;> simp [Ty.lead] at hlead
    | _ => first | rfl | simp [Ty.lead] at hlead
  subst hab
  have harrow : a.isArrow = false := by
    obtain rfl | rfl | rfl := ha <;> rfl
  rw [Ty.operand_of_not_isArrow harrow, Ty.operand_of_not_isArrow harrow] at heq
  exact ⟨rfl, List.append_cancel_left heq⟩

/-- By induction on the type, for operands and for whole types at once: a function reads as an
operand in its parentheses, and as a type it starts with one. -/
theorem readsAs_of_dataRefs (ha : a.dataRefs = true) : ReadsAsOperand a ∧ ReadsAsType a := by
  have hdata : ∀ {t : Ty}, t.isArrow = false → ReadsAsOperand t →
      ReadsAsOperand t ∧ ReadsAsType t := fun ht h => ⟨h, h.readsAsType ht⟩
  induction a with
  | int => exact hdata rfl (readsAsOperand_base (.inl rfl))
  | bool => exact hdata rfl (readsAsOperand_base (.inr (.inl rfl)))
  | unit => exact hdata rfl (readsAsOperand_base (.inr (.inr rfl)))
  | var x => exact hdata rfl (readsAsOperand_var x)
  | pair tag t u iht ihu =>
    obtain ⟨ht, hu⟩ := Bool.and_eq_true_iff.mp ha
    cases tag with
    | plain => exact hdata rfl (readsAsOperand_plain (iht ht).2 (ihu hu).2)
    | ref => exact hdata rfl (readsAsOperand_ref_pair (iht ht).2 (ihu hu).2)
  | record t u iht ihu =>
    obtain ⟨ht, hu⟩ := Bool.and_eq_true_iff.mp ha
    exact hdata rfl (readsAsOperand_record (iht ht).2 (ihu hu).2)
  | ref t ih =>
    obtain ⟨hdirect, ht⟩ := Bool.and_eq_true_iff.mp ha
    rw [Bool.not_eq_true'] at hdirect
    exact hdata rfl (readsAsOperand_ref hdirect (ih ht).1)
  | arrow t u iht ihu =>
    obtain ⟨ht, hu⟩ := Bool.and_eq_true_iff.mp ha
    have h : ReadsAsType (.arrow t u) := readsAsType_arrow (iht ht).1 (ihu hu).2
    exact ⟨h.readsAsOperand_arrow, h⟩

theorem text_injective {b : Ty} (ha : a.dataRefs = true) (hb : b.dataRefs = true)
    (h : a.text = b.text) : a = b := by
  refine ((readsAs_of_dataRefs ha).2 hb endsType_nil endsType_nil ?_).1
  rw [Ty.spelled, Ty.spelled, h]

theorem ne_of_solve_mismatch {eqs : List Equation} {b : Ty}
    (h : solve eqs = .error (.mismatch a b)) : a ≠ b := by
  fun_induction solve eqs with
  | case1 => cases h
  | case2 a rest ih => exact ih h
  | case3 | case4 => cases h
  | case5 c d rest hcd x t hb hx err herr ih =>
    cases h
    exact ih herr
  | case6 c d rest hcd hb eqs hc ih => exact ih h
  | case7 c d rest hcd hb hc =>
    cases h
    exact hcd

/-- Without references to functions the text gives the type away, so the two types of a mismatch
never look alike. -/
theorem text_identifies {b : Ty} (ha : a.dataRefs = true) (hb : b.dataRefs = true) :
    (a.text = b.text → a = b) ∧
      ∀ t u, unify t u = .error (.mismatch a b) → a.text ≠ b.text :=
  ⟨text_injective ha hb, fun _ _ hmismatch htext =>
    ne_of_solve_mismatch hmismatch (text_injective ha hb htext)⟩

/-- The text of the one type goes on where that of the other ends. -/
theorem referenceParameter_texts :
    unify (.arrow (.ref .int) (.arrow .int .int)) (.arrow (.arrow (.ref .int) .int) .int) =
        .error (.mismatch (.ref .int) (.arrow (.ref .int) .int)) ∧
      (Ty.ref .int).text ≠ (Ty.arrow (.ref .int) .int).text := by
  have hmismatch : unify (.arrow (.ref .int) (.arrow .int .int))
      (.arrow (.arrow (.ref .int) .int) .int) =
        .error (.mismatch (.ref .int) (.arrow (.ref .int) .int)) := by
    simp [unify, solve, binding?, componentEquations?]
  exact ⟨hmismatch, (text_identifies rfl rfl).2 _ _ hmismatch⟩

/-- A reference to a function and a function that takes a reference are both written
`&Int -> Int`. -/
theorem functionReference_sameText :
    (Ty.ref (.arrow .int .int)).text = (Ty.arrow (.ref .int) .int).text ∧
      Ty.ref (.arrow .int .int) ≠ .arrow (.ref .int) .int ∧
      unify (.ref (.arrow .int .int)) (.arrow (.ref .int) .int) =
        .error (.mismatch (.ref (.arrow .int .int)) (.arrow (.ref .int) .int)) := by
  refine ⟨rfl, by decide, ?_⟩
  simp [unify, solve, binding?, componentEquations?]

end CellCalculus
