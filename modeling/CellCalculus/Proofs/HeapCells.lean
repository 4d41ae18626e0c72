import CellCalculus.Heap

/-!
# Cells and calls

`cell?` tells an address that was never issued from one whose cell is empty by now, and `Performs`
says in one place what a heap call can do to the cells: nothing, or what it is for.
-/

namespace CellCalculus

theorem Loc.addr_toNat_inj {l k : Loc} : l.addr.toNat = k.addr.toNat ↔ l = k := by
  rw [UInt64.toNat_inj]
  constructor
  · intro h
    cases l
    cases k
    exact congrArg Loc.mk h
  · rintro rfl
    rfl

/-- How many cells the call asks for; a size that is not positive asks for none. -/
def HeapCall.requested : HeapCall → Nat
  | .allocate size _ => size.toInt.toNat
  | _ => 0

namespace Heap

/-- The cell at an address, if there is one: empty or with its value. -/
def cell? (h : Heap) (l : Loc) : Option (Option Val) := h.cells[l.addr.toNat]?

/-- The heap in the middle of an allocation, with `i` of the new cells in place. -/
def extended (h : Heap) (i : Nat) (init : Val) : Heap :=
  { cells := h.cells ++ Array.replicate i (some init) }

theorem isLive_iff {h : Heap} {l : Loc} : h.isLive l = true ↔ ∃ v, h.cell? l = some (some v) := by
  simp [isLive, read?, cell?, Option.isSome_iff_exists, Option.join_eq_some_iff]

theorem load_eq_ok_iff {h : Heap} {l : Loc} {v : Val} :
    h.load l = .ok v ↔ h.cell? l = some (some v) := by
  have hread : h.read? l = some v ↔ h.cell? l = some (some v) := by
    simp [read?, cell?, Option.join_eq_some_iff]
  rw [← hread, load]
  cases h.read? l <;> simp

theorem cell?_eq_none_iff {h : Heap} {l : Loc} : h.cell? l = none ↔ h.wasIssued l = false := by
  simp [cell?, wasIssued]

theorem cell?_of_not_isLive {h : Heap} {l : Loc} (hissued : h.wasIssued l = true)
    (hdead : h.isLive l = false) : h.cell? l = some none := by
  cases hl : h.cell? l with
  | none =>
    rw [cell?_eq_none_iff.mp hl] at hissued
    cases hissued
  | some c =>
    cases c with
    | none => rfl
    | some v =>
      rw [isLive_iff.mpr ⟨v, hl⟩] at hdead
      cases hdead

theorem wasIssued_iff {h : Heap} {l : Loc} : h.wasIssued l = true ↔ l.addr.toNat < h.cells.size :=
  decide_eq_true_iff

@[simp] theorem size_extended (h : Heap) (n : Nat) (init : Val) :
    (h.extended n init).cells.size = h.cells.size + n := by
  simp [extended]

theorem cell?_extended (h : Heap) (n : Nat) (init : Val) (l : Loc) :
    (h.extended n init).cell? l =
      if h.cells.size ≤ l.addr.toNat ∧ l.addr.toNat < h.cells.size + n then some (some init)
      else h.cell? l := by
  rcases Nat.lt_or_ge l.addr.toNat h.cells.size with hold | hnew
  · rw [if_neg (by omega)]
    simp [cell?, extended, Array.getElem?_append_left, hold]
  · by_cases hn : l.addr.toNat < h.cells.size + n
    · have hi : l.addr.toNat - h.cells.size < n := by omega
      rw [if_pos ⟨hnew, hn⟩]
      simp [cell?, extended, Array.getElem?_append_right, hnew, hi]
    · rw [if_neg (by omega)]
      simp only [cell?, extended, Array.getElem?_eq_none hnew]
      exact Array.getElem?_eq_none (by simpa using hn)

@[simp] theorem size_write (h : Heap) (l : Loc) (c : Option Val) :
    (h.write l c).cells.size = h.cells.size := by
  simp [write]

theorem cell?_write (h : Heap) {l : Loc} (hl : h.wasIssued l = true) (c : Option Val) (k : Loc) :
    (h.write l c).cell? k = if l = k then some c else h.cell? k := by
  have hb : l.addr.toNat < h.cells.size := by simpa [wasIssued] using hl
  by_cases hlk : l = k
  · subst hlk
    simp [cell?, write, hb]
  · have hne : l.addr.toNat ≠ k.addr.toNat := fun he => hlk (Loc.addr_toNat_inj.mp he)
    simp [cell?, write, hne, hlk]

/-- What a call can come to: every call is refused without a trace, or does what it is for. -/
inductive Performs (h : Heap) : HeapCall → Except HeapError Val × Heap → Prop
  | refused {c err} : c.requested = 0 → Performs h c (.error err, h)
  | allocated {size init} : 0 < size →
      Performs h (.allocate size init) (.ok (.loc h.nextFree), h.extended size.toInt.toNat init)
  | freed {l} : h.isLive l = true → Performs h (.free l) (.ok .unit, h.write l none)
  | loaded {l v} : h.cell? l = some (some v) → Performs h (.load l) (.ok v, h)
  | stored {l v} : h.isLive l = true → Performs h (.store l v) (.ok .unit, h.write l (some v))

theorem performs (h : Heap) (c : HeapCall) : Performs h c (h.perform c) := by
  cases c with
  | allocate size init =>
    rw [perform, allocate]
    split
    · next hsize =>
      have hle : size.toInt ≤ 0 := by simpa [Int64.le_iff_toInt_le] using hsize
      exact .refused (Int.toNat_of_nonpos hle)
    · next hsize => exact .allocated (Int64.not_le.mp hsize)
  | free l =>
    rw [perform, free]
    split
    · next hl => exact .freed hl
    · exact .refused rfl
  | load l =>
    rw [perform]
    cases hv : h.load l with
    | ok v => exact .loaded (load_eq_ok_iff.mp hv)
    | error err => exact .refused rfl
  | store l v =>
    rw [perform, store]
    split
    · next hl => exact .stored hl
    · exact .refused rfl

end Heap

end CellCalculus
