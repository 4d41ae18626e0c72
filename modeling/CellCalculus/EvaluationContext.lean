import CellCalculus.Syntax

/-!
# Evaluation contexts

A frame is an expression with one hole, and a context a list of frames, the innermost first. Where a
construct has two operands, a frame whose hole is the second one keeps the first as it is, and a
frame whose hole is the first one keeps the value that the second ran to. `decompose` finds the next
redex and the context around it; `fill_decompose` says that nothing is lost on the way.
-/

namespace CellCalculus

inductive Frame where
  | appL (v : Val)
  | appR (e : Expr)
  | unop (op : UnaryOp)
  | binopL (op : BinaryOp) (v : Val)
  | binopR (op : BinaryOp) (e : Expr)
  | ite (thenE elseE : Expr)
  | pairL (tag : Tag) (v : Val)
  | pairR (tag : Tag) (e : Expr)
  | recordL (v : Val)
  | recordR (e : Expr)
  | fst
  | snd
  | allocL (v : Val)
  | allocR (e : Expr)
  | free
  | load
  | storeL (v : Val)
  | storeR (e : Expr)
  deriving DecidableEq

def Frame.fill : Frame → Expr → Expr
  | .appL v, e => .app e (.val v)
  | .appR e₁, e => .app e₁ e
  | .unop op, e => .unop op e
  | .binopL op v, e => .binop op e (.val v)
  | .binopR op e₁, e => .binop op e₁ e
  | .ite t f, e => .ite e t f
  | .pairL tag v, e => .pair tag e (.val v)
  | .pairR tag e₁, e => .pair tag e₁ e
  | .recordL v, e => .record e (.val v)
  | .recordR e₁, e => .record e₁ e
  | .fst, e => .fst e
  | .snd, e => .snd e
  | .allocL v, e => .alloc e (.val v)
  | .allocR e₁, e => .alloc e₁ e
  | .free, e => .free e
  | .load, e => .load e
  | .storeL v, e => .store e (.val v)
  | .storeR e₁, e => .store e₁ e

@[simp] theorem Frame.isValue_fill (F : Frame) (e : Expr) : (F.fill e).isValue = false := by
  cases F <;> rfl

abbrev Context := List Frame

def Context.fill (K : Context) (e : Expr) : Expr := K.foldl (fun inner F => F.fill inner) e

@[simp] theorem Context.fill_nil (e : Expr) : Context.fill [] e = e := rfl

@[simp] theorem Context.fill_cons (F : Frame) (K : Context) (e : Expr) :
    Context.fill (F :: K) e = K.fill (F.fill e) := rfl

theorem Context.fill_append (K L : Context) (e : Expr) :
    Context.fill (K ++ L) e = L.fill (K.fill e) := by
  simp [fill, List.foldl_append]

/-- Goes down to the next redex, adding the frames on the way to `K`. -/
def focus (K : Context) : Expr → Context × Expr
  | .app e₁ e₂ =>
      match e₂.toVal?, e₁.isValue with
      | none, _ => focus (.appR e₁ :: K) e₂
      | some v, false => focus (.appL v :: K) e₁
      | some _, true => (K, .app e₁ e₂)
  | .unop op e => if e.isValue then (K, .unop op e) else focus (.unop op :: K) e
  | .binop op e₁ e₂ =>
      match e₂.toVal?, e₁.isValue with
      | none, _ => focus (.binopR op e₁ :: K) e₂
      | some v, false => focus (.binopL op v :: K) e₁
      | some _, true => (K, .binop op e₁ e₂)
  | .ite c t f => if c.isValue then (K, .ite c t f) else focus (.ite t f :: K) c
  | .pair tag e₁ e₂ =>
      match e₂.toVal?, e₁.isValue with
      | none, _ => focus (.pairR tag e₁ :: K) e₂
      | some v, false => focus (.pairL tag v :: K) e₁
      | some _, true => (K, .pair tag e₁ e₂)
  | .record e₁ e₂ =>
      match e₂.toVal?, e₁.isValue with
      | none, _ => focus (.recordR e₁ :: K) e₂
      | some v, false => focus (.recordL v :: K) e₁
      | some _, true => (K, .record e₁ e₂)
  | .fst e => if e.isValue then (K, .fst e) else focus (.fst :: K) e
  | .snd e => if e.isValue then (K, .snd e) else focus (.snd :: K) e
  | .alloc e₁ e₂ =>
      match e₂.toVal?, e₁.isValue with
      | none, _ => focus (.allocR e₁ :: K) e₂
      | some v, false => focus (.allocL v :: K) e₁
      | some _, true => (K, .alloc e₁ e₂)
  | .free e => if e.isValue then (K, .free e) else focus (.free :: K) e
  | .load e => if e.isValue then (K, .load e) else focus (.load :: K) e
  | .store e₁ e₂ =>
      match e₂.toVal?, e₁.isValue with
      | none, _ => focus (.storeR e₁ :: K) e₂
      | some v, false => focus (.storeL v :: K) e₁
      | some _, true => (K, .store e₁ e₂)
  | e => (K, e)

theorem focus_fill (K : Context) (e : Expr) : (focus K e).1.fill (focus K e).2 = K.fill e := by
  fun_induction focus K e <;> simp_all [Frame.fill]

inductive Decomposition where
  | value (v : Val)
  | redex (K : Context) (r : Expr)
  deriving DecidableEq

/-- The next redex and the context around it, unless the expression is a value. -/
def decompose : Expr → Decomposition
  | .val v => .value v
  | e => let (K, r) := focus [] e; .redex K r

theorem decompose_of_not_isValue {e : Expr} (he : e.isValue = false) :
    decompose e = .redex (focus [] e).1 (focus [] e).2 := by
  cases e <;> first | rfl | simp [Expr.isValue, Expr.toVal?] at he

/-- Putting the redex back gives the expression it was found in. -/
theorem fill_decompose {e : Expr} {K : Context} {r : Expr} (hd : decompose e = .redex K r) :
    K.fill r = e := by
  cases hv : e.isValue with
  | true =>
    obtain ⟨v, rfl⟩ := Expr.isValue_iff.mp hv
    simp [decompose] at hd
  | false =>
    rw [decompose_of_not_isValue hv] at hd
    injection hd with hK hr
    rw [← hK, ← hr, focus_fill, Context.fill_nil]

end CellCalculus
