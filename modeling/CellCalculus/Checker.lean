import CellCalculus.FieldValidity
import CellCalculus.TraceEvent
import CellCalculus.TypeEnvironment

/-!
# The state of the checker

The checker numbers its variables, keeps the substitution found so far and records the premises it
cannot decide yet. A computation of the checker ends in an answer or a type error and leaves a state
behind either way, with a log of events that nothing reads. A log is a function that puts its events
in front of others, so joining two logs takes no time. The operations here are the steps that the
typing rules are made of.
-/

namespace CellCalculus

/-- A type that has to be a valid field, and the expression to blame if it is none. -/
structure FieldPremise where
  ty : Ty
  tag : Tag
  site : Expr
  deriving DecidableEq

inductive Side where
  | first
  | second
  deriving DecidableEq

def Side.pick {α : Type} (side : Side) (components : α × α) : α :=
  match side with
  | .first => components.1
  | .second => components.2

/-- A projection whose operand is not known to be an aggregate yet. -/
structure ProjectionPremise where
  operand : Ty
  result : Ty
  side : Side
  site : Expr
  deriving DecidableEq

structure Checker where
  nextVar : Nat := 0
  subst : Substitution := .empty
  fields : List FieldPremise := []
  projections : List ProjectionPremise := []
  deriving DecidableEq

structure Outcome (α : Type) where
  answer : Except TypeError α
  checker : Checker
  /-- Puts the events on the way in front of those that follow. -/
  log : List Event → List Event := id

def Outcome.events {α : Type} (o : Outcome α) : List Event := o.log []

def Check (α : Type) : Type := Checker → Outcome α

namespace Check

variable {α β γ : Type}

def done (a : α) : Check α := fun c => ⟨.ok a, c, id⟩

def andThen (m : Check α) (f : α → Check β) : Check β := fun c =>
  let before := m c
  match before.answer with
  | .ok a => let after := f a before.checker; { after with log := before.log ∘ after.log }
  | .error err => ⟨.error err, before.checker, before.log⟩

instance : Monad Check where
  pure := done
  bind := andThen

theorem pure_apply (a : α) (c : Checker) : (pure a : Check α) c = ⟨.ok a, c, id⟩ := rfl

theorem bind_of_ok {m : Check α} {f : α → Check β} {c : Checker} {a : α}
    (h : (m c).answer = .ok a) :
    (m >>= f) c =
      { f a (m c).checker with log := (m c).log ∘ (f a (m c).checker).log } := by
  change andThen m f c = _
  simp [andThen, h]

theorem bind_of_error {m : Check α} {f : α → Check β} {c : Checker} {err : TypeError}
    (h : (m c).answer = .error err) :
    (m >>= f) c = ⟨.error err, (m c).checker, (m c).log⟩ := by
  change andThen m f c = _
  simp [andThen, h]

instance : LawfulMonad Check := by
  refine LawfulMonad.mk' Check (fun m => ?_) (fun a f => ?_) (fun m f g => ?_)
  · funext c
    change andThen m done c = m c
    rcases hm : m c with ⟨answer, c', log⟩
    cases answer <;> simp [andThen, done, hm]
  · funext c
    change andThen (done a) f c = f a c
    simp [andThen, done]
  · funext c
    change andThen (andThen m f) g c = andThen m (fun a => andThen (f a) g) c
    cases h : (m c).answer with
    | error err => simp [andThen, h]
    | ok a => cases h' : (f a (m c).checker).answer <;> simp [andThen, h, h', Function.comp_def]

def fail (site : Expr) (fault : TypeFault) : Check α := fun c => ⟨.error ⟨site, fault⟩, c, id⟩

def emit (ev : Event) : Check Unit := fun c => ⟨.ok (), c, (ev :: ·)⟩

def fresh : Check Ty := fun c => ⟨.ok (.var c.nextVar), { c with nextVar := c.nextVar + 1 }, id⟩

/-- The type as far as it is known by now. -/
def resolve (t : Ty) : Check Ty := fun c => ⟨.ok (c.subst.apply t), c, id⟩

/-- Makes the two types equal from here on. -/
def unifyAt (site : Expr) (expected found : Ty) : Check Unit := fun c =>
  -- Taken apart first, so that nothing else holds the substitution while it is composed.
  let ⟨nextVar, subst, fields, projections⟩ := c
  match unify (subst.apply expected) (subst.apply found) with
  | .ok s => ⟨.ok (), ⟨nextVar, s.compose subst, fields, projections⟩, id⟩
  | .error err =>
      ⟨.error ⟨site, .ofUnifyError err⟩, ⟨nextVar, subst, fields, projections⟩, id⟩

theorem unifyAt_apply (site : Expr) (expected found : Ty) (c : Checker) :
    unifyAt site expected found c =
      match unify (c.subst.apply expected) (c.subst.apply found) with
      | .ok s => ⟨.ok (), { c with subst := s.compose c.subst }, id⟩
      | .error err => ⟨.error ⟨site, .ofUnifyError err⟩, c, id⟩ := rfl

def recordField (p : FieldPremise) : Check Unit := fun c =>
  ⟨.ok (), { c with fields := c.fields ++ [p] }, id⟩

def recordProjection (p : ProjectionPremise) : Check Unit := fun c =>
  ⟨.ok (), { c with projections := c.projections ++ [p] }, id⟩

/-- Hands over the recorded field premises and forgets them. -/
def takeFields : Check (List FieldPremise) := fun c => ⟨.ok c.fields, { c with fields := [] }, id⟩

def takeProjections : Check (List ProjectionPremise) := fun c =>
  ⟨.ok c.projections, { c with projections := [] }, id⟩

/-- Demands a valid field, later if that is still open. -/
def requireField (site : Expr) (tag : Tag) (t : Ty) : Check Unit :=
  match fieldValidity tag t with
  | some true => pure ()
  | some false => fail site (.invalidField t tag)
  | none => recordField ⟨t, tag, site⟩

end Check

end CellCalculus
