import CellCalculus.ValueText

/-!
# The heap

The heap is the list of all cells handed out so far, at their addresses. A freed cell stays behind
empty, and new cells are appended, so an address belongs to one allocation for good. A call that
fails returns the heap it was given.
-/

namespace CellCalculus

/-- The cell at an address: its value while it is live, `none` once it is freed. -/
@[ext] structure Heap where
  cells : Array (Option Val) := #[]
  deriving DecidableEq

inductive HeapError where
  | invalidAddress (l : Loc)
  | nonPositiveSize (n : Int64)
  deriving DecidableEq

def HeapError.message : HeapError → String
  | .invalidAddress l => "invalid address " ++ l.text ++ ": not a live cell"
  | .nonPositiveSize n => "cannot allocate " ++ toString n.toInt ++ " cells"

/-- What a program asks of the heap. -/
inductive HeapCall where
  | allocate (size : Int64) (init : Val)
  | free (l : Loc)
  | load (l : Loc)
  | store (l : Loc) (v : Val)
  deriving DecidableEq

namespace Heap

def empty : Heap := {}

def read? (h : Heap) (l : Loc) : Option Val := h.cells[l.addr.toNat]?.join

def write (h : Heap) (l : Loc) (c : Option Val) : Heap :=
  { cells := h.cells.setIfInBounds l.addr.toNat c }

def nextFree (h : Heap) : Loc := ⟨UInt64.ofNat h.cells.size⟩

def isLive (h : Heap) (l : Loc) : Bool := (h.read? l).isSome

/-- Whether `l` was ever allocated, live or freed. -/
def wasIssued (h : Heap) (l : Loc) : Bool := decide (l.addr.toNat < h.cells.size)

def issuedCount (h : Heap) : Nat := h.cells.size

def liveCount (h : Heap) : Nat := h.cells.countP Option.isSome

def allocate (h : Heap) (size : Int64) (init : Val) : Except HeapError Loc × Heap :=
  if size ≤ 0 then (.error (.nonPositiveSize size), h)
  else (.ok h.nextFree, { cells := h.cells ++ Array.replicate size.toInt.toNat (some init) })

def free (h : Heap) (l : Loc) : Except HeapError Unit × Heap :=
  if h.isLive l then (.ok (), h.write l none) else (.error (.invalidAddress l), h)

def load (h : Heap) (l : Loc) : Except HeapError Val :=
  match h.read? l with
  | some v => .ok v
  | none => .error (.invalidAddress l)

def store (h : Heap) (l : Loc) (v : Val) : Except HeapError Unit × Heap :=
  if h.isLive l then (.ok (), h.write l (some v)) else (.error (.invalidAddress l), h)

def perform (h : Heap) : HeapCall → Except HeapError Val × Heap
  | .allocate size init => let r := h.allocate size init; (r.1.map .loc, r.2)
  | .free l => let r := h.free l; (r.1.map fun _ => .unit, r.2)
  | .load l => (h.load l, h)
  | .store l v => let r := h.store l v; (r.1.map fun _ => .unit, r.2)

@[simp] theorem read?_empty (l : Loc) : empty.read? l = none := by
  simp [empty, read?]

theorem read?_write_self (h : Heap) {l : Loc} (hl : h.wasIssued l = true) (c : Option Val) :
    (h.write l c).read? l = c := by
  have hb : l.addr.toNat < h.cells.size := by simpa [wasIssued] using hl
  simp [read?, write, hb]

theorem read?_write_of_ne (h : Heap) {l k : Loc} (hne : l ≠ k) (c : Option Val) :
    (h.write l c).read? k = h.read? k := by
  have ha : l.addr.toNat ≠ k.addr.toNat := fun he => hne (by
    cases l; cases k; exact congrArg Loc.mk (UInt64.toNat_inj.mp he))
  simp [read?, write, ha]

theorem wasIssued_of_isLive {h : Heap} {l : Loc} (hl : h.isLive l = true) :
    h.wasIssued l = true := by
  simp only [isLive, read?, wasIssued, decide_eq_true_eq] at *
  exact Classical.byContradiction fun hn => by
    simp [Array.getElem?_eq_none (Nat.le_of_not_lt hn)] at hl

theorem perform_error {h : Heap} {c : HeapCall} {err : HeapError}
    (he : (h.perform c).1 = .error err) : (h.perform c).2 = h := by
  cases c <;> simp only [perform, allocate, free, load, store] at * <;>
    split at he <;> simp_all [Except.map]

end Heap

end CellCalculus
