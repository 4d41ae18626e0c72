import CellCalculus.StuckError
import CellCalculus.TextLines
import CellCalculus.TypeError

/-!
# Trace events

What the checker and the machine report while they work, each event with its severity, and the lines
that it is written as: more than one where a name in it holds a line feed.
-/

namespace CellCalculus

inductive Level where
  | error
  | warn
  | info
  | debug
  | trace
  deriving DecidableEq

namespace Level

def rank : Level → Nat
  | .error => 0
  | .warn => 1
  | .info => 2
  | .debug => 3
  | .trace => 4

/-- The name, set to the right in five columns. -/
def label : Level → String
  | .error => "ERROR"
  | .warn => " WARN"
  | .info => " INFO"
  | .debug => "DEBUG"
  | .trace => "TRACE"

end Level

inductive Event where
  | inferring (e : Expr)
  | projectionDeferred (operand : Ty)
  | projectionDefaulted (shape : Ty)
  | fieldDefaulted (t : Ty)
  | typed (t : Ty)
  | decomposed (depth : Nat) (redex : Expr)
  | contracting (redex : Expr)
  | allocated (base : Loc) (size : Int64)
  | freed (l : Loc)
  | stored (l : Loc) (v : Val)
  | stepped (steps : Nat) (e : Expr)
  | stuck (steps : Nat) (err : StuckError)
  | built (program : String)

namespace Event

def level : Event → Level
  | .inferring _ | .projectionDeferred _ | .decomposed .. | .contracting _ => .trace
  | .projectionDefaulted _ | .fieldDefaulted _ | .typed _ => .debug
  | .allocated .. | .freed _ | .stored .. | .stepped .. => .debug
  | .stuck .. => .warn
  | .built _ => .info

def source : Event → String
  | .inferring _ | .projectionDeferred _ | .projectionDefaulted _ | .fieldDefaulted _ | .typed _ =>
      "reflang::types::check"
  | .decomposed .. => "reflang::interpreter::context"
  | .contracting _ => "reflang::interpreter::head"
  | .allocated .. | .freed _ | .stored .. => "reflang::interpreter::heap"
  | .stepped .. | .stuck .. => "reflang::interpreter::machine"
  | .built _ => "reflang"

def quotedKind (e : Expr) : String := "\"" ++ e.kind ++ "\""

def body : Event → String
  | .inferring e => "infer kind=" ++ quotedKind e
  | .projectionDeferred t => "projection deferred operand=" ++ t.text
  | .projectionDefaulted t => "projection operand defaulted shape=" ++ t.text
  | .fieldDefaulted t => "field defaulted ty=" ++ t.text
  | .typed t => "expression typed ty=" ++ t.text
  | .decomposed depth r => "decomposed depth=" ++ toString depth ++ " redex=" ++ quotedKind r
  | .contracting r => "head step redex=" ++ quotedKind r
  | .allocated base size => "allocated base=" ++ base.text ++ " size=" ++ toString size.toInt
  | .freed l => "freed loc=" ++ l.text
  | .stored l v => "stored loc=" ++ l.text ++ " value=" ++ v.text
  | .stepped steps e => "stepped step=" ++ toString steps ++ " expr=" ++ quotedKind e
  | .stuck steps err => "stuck step=" ++ toString steps ++ " error=" ++ err.message
  | .built program => "built program=" ++ program

def text (ev : Event) : String := ev.level.label ++ " " ++ ev.source ++ ": " ++ ev.body

end Event

/-- The lines of the events that are at least as severe as `level`. -/
def logLines (level : Level) (events : List Event) : List String :=
  (events.filter fun ev => ev.level.rank ≤ level.rank).flatMap fun ev => textLines ev.text

end CellCalculus
