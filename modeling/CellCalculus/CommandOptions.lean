import CellCalculus.SamplePrograms

/-!
# Command-line options

A command line holds the name of a program and options around it in any order, and after a separator
every word is a name. Only the option for verbosity may be repeated.
-/

namespace CellCalculus

/-- What one word of a command line, or an option and its value, asks for. -/
inductive Setting where
  | program (name : String)
  | fuel (value : List Char)
  | noCheck
  | verbose (times : Nat)
  deriving DecidableEq

/-- The setting of a word that stands alone; a single dash counts as a name. -/
def Setting.ofWord? (s : String) : Option Setting :=
  match s.toList with
  | ['-', '-', 'n', 'o', '-', 'c', 'h', 'e', 'c', 'k'] => some .noCheck
  | ['-', '-', 'v', 'e', 'r', 'b', 'o', 's', 'e'] => some (.verbose 1)
  | '-' :: '-' :: 'f' :: 'u' :: 'e' :: 'l' :: '=' :: value => some (.fuel value)
  | '-' :: c :: letters =>
      if (c :: letters).all (· == 'v') then some (.verbose (letters.length + 1)) else none
  | _ => some (.program s)

def settings? : List String → Option (List Setting)
  | [] => some []
  | "--" :: names => some (names.map .program)
  | "--fuel" :: value :: rest => do return .fuel value.toList :: (← settings? rest)
  | s :: rest => do return (← Setting.ofWord? s) :: (← settings? rest)

/-- A decimal number below `2 ^ 64`, with or without a plus sign in front. -/
def readCount? (s : List Char) : Option Nat :=
  let digits := match s with
    | '+' :: rest => rest
    | _ => s
  let n := digits.foldl (fun n c => 10 * n + (c.toNat - '0'.toNat)) 0
  if !digits.isEmpty && digits.all Char.isDigit && n < UInt64.size then some n else none

structure Options where
  program : Option SampleProgram := none
  fuel : Option Nat := none
  noCheck : Bool := false
  verbosity : Nat := 0
  deriving DecidableEq

namespace Options

/-- Refuses what is malformed or set already. -/
def set? (o : Options) : Setting → Option Options
  | .program name =>
      match o.program, SampleProgram.ofName? name with
      | none, some p => some { o with program := some p }
      | _, _ => none
  | .fuel value =>
      match o.fuel, readCount? value with
      | none, some n => some { o with fuel := some n }
      | _, _ => none
  | .noCheck => if o.noCheck then none else some { o with noCheck := true }
  | .verbose times => some { o with verbosity := o.verbosity + times }

def parse? (words : List String) : Option Options := do
  (← settings? words).foldlM set? {}

end Options

end CellCalculus
