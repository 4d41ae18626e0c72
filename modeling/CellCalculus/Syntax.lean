import CellCalculus.Operators

/-!
# Values and expressions

A value is a finished result, an expression a program that may still reduce, and values embed into
expressions through `Expr.val`. Two constructs build aggregates: a pair carries a tag, which says
whether it is a ref-struct, and a record is always plain. Binding, sequencing and functions without
a self-name are derived forms. Of an application, a pair or any other construct with two operands
the second operand is the one that runs first.
-/

namespace CellCalculus

structure Loc where
  addr : UInt64
  deriving DecidableEq

/-- The address `shift` cells further, unless that lies outside the address space. -/
def Loc.offset? (l : Loc) (shift : Int64) : Option Loc :=
  let target := (l.addr.toNat : Int) + shift.toInt
  if 0 ≤ target ∧ target < UInt64.size then some ⟨UInt64.ofNat target.toNat⟩ else none

inductive Lit where
  | int (n : Int64)
  | bool (b : Bool)
  | unit
  | loc (l : Loc)
  deriving DecidableEq

/-- A binding position. An anonymous binder binds nothing. -/
inductive Binder where
  | anon
  | named (x : String)
  deriving DecidableEq

def Binder.binds : Binder → String → Bool
  | .anon, _ => false
  | .named x, y => x == y

@[simp] theorem Binder.binds_anon (x : String) : Binder.anon.binds x = false := rfl

@[simp] theorem Binder.binds_named (x y : String) :
    (Binder.named x).binds y = true ↔ x = y := by
  simp [binds]

theorem Binder.eq_named_of_binds {b : Binder} {x : String} (hb : b.binds x = true) :
    b = .named x := by
  cases b with
  | anon => cases hb
  | named y => rw [(binds_named y x).mp hb]

/-- The tag of a pair: `ref` marks a ref-struct. -/
inductive Tag where
  | plain
  | ref
  deriving DecidableEq

mutual

inductive Val where
  | lit (l : Lit)
  /-- A recursive function; `self` names the closure itself inside `body`. -/
  | closure (self param : Binder) (body : Expr)
  | pair (tag : Tag) (first second : Val)
  deriving DecidableEq

inductive Expr where
  | val (v : Val)
  | var (x : String)
  | fn (self param : Binder) (body : Expr)
  | app (func arg : Expr)
  | unop (op : UnaryOp) (e : Expr)
  | binop (op : BinaryOp) (left right : Expr)
  | ite (cond thenE elseE : Expr)
  | pair (tag : Tag) (first second : Expr)
  /-- A plain aggregate, typed apart from every pair. -/
  | record (first second : Expr)
  | fst (e : Expr)
  | snd (e : Expr)
  | alloc (size init : Expr)
  | free (e : Expr)
  | load (e : Expr)
  | store (loc value : Expr)
  /-- A reference, which only makes sense over a variable. -/
  | ref (e : Expr)
  deriving DecidableEq

end

namespace Val

def int (n : Int64) : Val := .lit (.int n)

def bool (b : Bool) : Val := .lit (.bool b)

def unit : Val := .lit .unit

def loc (l : Loc) : Val := .lit (.loc l)

def toInt? : Val → Option Int64
  | .lit (.int n) => some n
  | _ => none

def toBool? : Val → Option Bool
  | .lit (.bool b) => some b
  | _ => none

def toLoc? : Val → Option Loc
  | .lit (.loc l) => some l
  | _ => none

end Val

namespace Expr

/-- Induction over expressions alone, with the values in them left as they are. -/
@[elab_as_elim, induction_eliminator]
theorem induction {motive : Expr → Prop} (val : ∀ v, motive (.val v)) (var : ∀ x, motive (.var x))
    (fn : ∀ self param body, motive body → motive (.fn self param body))
    (app : ∀ e₁ e₂, motive e₁ → motive e₂ → motive (.app e₁ e₂))
    (unop : ∀ op e, motive e → motive (.unop op e))
    (binop : ∀ op e₁ e₂, motive e₁ → motive e₂ → motive (.binop op e₁ e₂))
    (ite : ∀ c t f, motive c → motive t → motive f → motive (.ite c t f))
    (pair : ∀ tag e₁ e₂, motive e₁ → motive e₂ → motive (.pair tag e₁ e₂))
    (record : ∀ e₁ e₂, motive e₁ → motive e₂ → motive (.record e₁ e₂))
    (fst : ∀ e, motive e → motive (.fst e)) (snd : ∀ e, motive e → motive (.snd e))
    (alloc : ∀ e₁ e₂, motive e₁ → motive e₂ → motive (.alloc e₁ e₂))
    (free : ∀ e, motive e → motive (.free e)) (load : ∀ e, motive e → motive (.load e))
    (store : ∀ e₁ e₂, motive e₁ → motive e₂ → motive (.store e₁ e₂))
    (ref : ∀ e, motive e → motive (.ref e)) (e : Expr) : motive e :=
  @Expr.rec (fun _ => True) motive (fun _ => trivial) (fun _ _ _ _ => trivial)
    (fun _ _ _ _ _ => trivial) (fun v _ => val v) var fn app unop binop ite pair record fst snd
    alloc free load store ref e

def toVal? : Expr → Option Val
  | .val v => some v
  | _ => none

def isValue (e : Expr) : Bool := e.toVal?.isSome

@[simp] theorem toVal?_val (v : Val) : (Expr.val v).toVal? = some v := rfl

@[simp] theorem toVal?_eq_some_iff {e : Expr} {v : Val} : e.toVal? = some v ↔ e = .val v := by
  cases e <;> simp [toVal?]

theorem isValue_iff {e : Expr} : e.isValue = true ↔ ∃ v, e = .val v := by
  cases e <;> simp [isValue, toVal?]

def int (n : Int64) : Expr := .val (.int n)

def bool (b : Bool) : Expr := .val (.bool b)

/-- `let x = e₁ in e₂`. -/
def letIn (x : String) (e₁ e₂ : Expr) : Expr := .app (.fn .anon (.named x) e₂) e₁

/-- `e₁; e₂`. -/
def seq (e₁ e₂ : Expr) : Expr := .app (.fn .anon .anon e₂) e₁

/-- `λx. e`. -/
def lam (x : String) (e : Expr) : Expr := .fn .anon (.named x) e

/-- A single fresh cell. -/
def new (init : Expr) : Expr := .alloc (.int 1) init

/-- The name of the outermost construct, as reports give it. -/
def kind : Expr → String
  | .val _ => "Val"
  | .var _ => "Var"
  | .fn .. => "Rec"
  | .app .. => "App"
  | .unop .. => "UnOp"
  | .binop .. => "BinOp"
  | .ite .. => "If"
  | .pair .. => "Pair"
  | .record .. => "Class"
  | .fst _ => "Fst"
  | .snd _ => "Snd"
  | .alloc .. => "AllocN"
  | .free _ => "Free"
  | .load _ => "Load"
  | .store .. => "Store"
  | .ref _ => "Ref"

end Expr

end CellCalculus
