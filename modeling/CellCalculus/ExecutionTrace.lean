import CellCalculus.Machine
import CellCalculus.TraceEvent

/-!
# The trace of an execution

Which events a heap call, a step and a run report. They are told from the configurations alone, so
the machine itself keeps no log.
-/

namespace CellCalculus

/-- A call that fails reports nothing. -/
def Heap.events (h : Heap) : HeapCall → List Event
  | .allocate size _ => if size ≤ 0 then [] else [.allocated h.nextFree size]
  | .free l => if h.isLive l then [.freed l] else []
  | .load _ => []
  | .store l v => if h.isLive l then [.stored l v] else []

def headStepEvents (r : Expr) (h : Heap) : List Event :=
  .contracting r ::
    match contract r with
    | .ok (.call call) => h.events call
    | _ => []

def decomposeEvents (e : Expr) : List Event :=
  match decompose e with
  | .value _ => []
  | .redex K r => [.decomposed K.length r]

def stepEvents (e : Expr) (h : Heap) : List Event :=
  match decompose e with
  | .value _ => []
  | .redex K r => .decomposed K.length r :: headStepEvents r h

/-- What the machine reports once a step is over and it has become `m`. -/
def Progress.events (m : Machine) : Progress → List Event
  | .stepped => [.stepped m.steps m.expr]
  | .done _ => []
  | .stuck err => [.stuck m.steps err]

namespace Machine

/-- One step with the events on the way. -/
def tracedStep (m : Machine) : List Event × Progress × Machine :=
  let before := stepEvents m.expr m.heap
  let (p, m') := m.step
  (before ++ p.events m', p, m')

/-- So many rounds of a run are traced: all of them if the machine is limited, and otherwise as many
as 64 bits count. -/
def rounds (m : Machine) : Nat :=
  match m.fuel with
  | some f => f - m.steps + 1
  | none => UInt64.size

/-- The events of so many rounds at most, after those in `earlier`. -/
def runEventsFor : Nat → Machine → Array Event → Array Event
  | 0, _, earlier => earlier
  | n + 1, m, earlier =>
      if m.exhausted then earlier
      else
        match m.tracedStep with
        | (events, .stepped, m') => runEventsFor n m' (earlier ++ events)
        | (events, _, _) => earlier ++ events

def runEvents (m : Machine) : List Event := (m.runEventsFor m.rounds #[]).toList

theorem tracedStep_step (m : Machine) : m.tracedStep.2 = m.step := rfl

end Machine

end CellCalculus
