/-!
# The lines of a text

How a text reads line by line when a line feed follows it. A carriage return right before a line
feed belongs to the end of the line; any other one belongs to the text. A text without line feeds
is one line.
-/

namespace CellCalculus

/-- At most one carriage return is dropped. -/
def dropReturn (line : List Char) : List Char :=
  if line.getLast? = some '\r' then line.dropLast else line

@[simp] theorem dropReturn_nil : dropReturn [] = [] := rfl

@[simp] theorem dropReturn_return (line : List Char) : dropReturn (line ++ ['\r']) = line := by
  simp [dropReturn]

theorem dropReturn_of_ne {line : List Char} (h : line.getLast? ≠ some '\r') :
    dropReturn line = line := if_neg h

def textLines (s : String) : List String :=
  (s.toList.splitOn '\n').map fun line => .ofList (dropReturn line)

theorem textLines_of_notMem {s : String} (h : '\n' ∉ s.toList) :
    textLines s = [.ofList (dropReturn s.toList)] := by
  rw [textLines, List.splitOn_eq_singleton h]
  rfl

end CellCalculus
