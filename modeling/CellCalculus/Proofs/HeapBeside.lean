import CellCalculus.Proofs.Relocation

/-!
# A heap beside another

`base.beside h` keeps the cells of `base` and puts those of `h` after them, with every address in
`h` moved by as many cells. A call on `h` that names an address issued there, moved likewise, does
to these cells what it does to `h` and leaves those of `base` alone.
-/

namespace CellCalculus

/-- The address `k` cells further; the address space wraps around. -/
def Loc.shift (k : Nat) (l : Loc) : Loc := ⟨l.addr + UInt64.ofNat k⟩

theorem Loc.shift_injective (k : Nat) : (Loc.shift k).Injective := by
  intro l l' h
  have haddr : l.addr = l'.addr := (UInt64.add_left_inj _).mp (congrArg Loc.addr h)
  exact Loc.addr_toNat_inj.mp (congrArg UInt64.toNat haddr)

theorem Loc.toNat_shift {k : Nat} {l : Loc} (hroom : l.addr.toNat + k < UInt64.size) :
    (l.shift k).addr.toNat = l.addr.toNat + k := by
  have hk : (UInt64.ofNat k).toNat = k := UInt64.toNat_ofNat_of_lt (by omega)
  rw [shift, UInt64.toNat_add, hk]
  exact Nat.mod_eq_of_lt hroom

theorem Loc.exists_shift {k : Nat} {l : Loc} (hl : k ≤ l.addr.toNat) :
    ∃ l₀ : Loc, l₀.shift k = l ∧ l₀.addr.toNat + k < UInt64.size := by
  have hlt : l.addr.toNat < UInt64.size := l.addr.toNat_lt
  let l₀ : Loc := ⟨.ofNat (l.addr.toNat - k)⟩
  have hsub : l₀.addr.toNat = l.addr.toNat - k := UInt64.toNat_ofNat_of_lt (by omega)
  have hroom : l₀.addr.toNat + k < UInt64.size := by omega
  refine ⟨l₀, Loc.addr_toNat_inj.mp ?_, hroom⟩
  rw [toNat_shift hroom, hsub]
  omega

/-- The address that the call is about, if it is about one. -/
def HeapCall.loc? : HeapCall → Option Loc
  | .allocate _ _ => none
  | .free l | .load l | .store l _ => some l

namespace Heap

/-- The cells of `base`, and after them those of `h` with all addresses moved past `base`. -/
def beside (base h : Heap) : Heap :=
  { cells := base.cells ++ h.cells.map (Option.map (·.relocate (.shift base.issuedCount))) }

theorem issuedCount_beside (base h : Heap) :
    (base.beside h).issuedCount = base.issuedCount + h.issuedCount := by
  simp [issuedCount, beside]

theorem beside_empty (base : Heap) : base.beside .empty = base := by
  simp [beside, empty]

theorem nextFree_beside (base h : Heap) :
    (base.beside h).nextFree = h.nextFree.shift base.issuedCount := by
  have hcount : (base.beside h).cells.size = h.cells.size + base.issuedCount :=
    (issuedCount_beside base h).trans (Nat.add_comm _ _)
  rw [nextFree, hcount, UInt64.ofNat_add]
  rfl

variable {base h : Heap} {l : Loc}

theorem cell?_beside_of_lt (hl : l.addr.toNat < base.issuedCount) :
    (base.beside h).cell? l = base.cell? l :=
  Array.getElem?_append_left hl

theorem cell?_beside_shift (hroom : l.addr.toNat + base.issuedCount < UInt64.size) :
    (base.beside h).cell? (l.shift base.issuedCount) =
      (h.cell? l).map (Option.map (·.relocate (.shift base.issuedCount))) := by
  have hle : base.cells.size ≤ (l.shift base.issuedCount).addr.toNat := by
    rw [Loc.toNat_shift hroom]
    exact Nat.le_add_left _ _
  rw [cell?, beside, Array.getElem?_append_right hle, Loc.toNat_shift hroom, Array.getElem?_map]
  simp [cell?, issuedCount]

theorem read?_beside_shift (hroom : l.addr.toNat + base.issuedCount < UInt64.size) :
    (base.beside h).read? (l.shift base.issuedCount) =
      (h.read? l).map (·.relocate (.shift base.issuedCount)) := by
  have hcell := cell?_beside_shift (h := h) hroom
  rw [cell?, cell?] at hcell
  rw [read?, read?, hcell]
  rcases h.cells[l.addr.toNat]? with _ | _ | v <;> rfl

theorem isLive_beside_shift (hroom : l.addr.toNat + base.issuedCount < UInt64.size) :
    (base.beside h).isLive (l.shift base.issuedCount) = h.isLive l := by
  rw [isLive, isLive, read?_beside_shift hroom, Option.isSome_map]

theorem write_beside_shift (hroom : l.addr.toNat + base.issuedCount < UInt64.size)
    (c : Option Val) :
    (base.beside h).write (l.shift base.issuedCount)
        (c.map (·.relocate (.shift base.issuedCount))) = base.beside (h.write l c) := by
  have hle : base.cells.size ≤ l.addr.toNat + base.issuedCount := Nat.le_add_left _ _
  have hsub : l.addr.toNat + base.issuedCount - base.cells.size = l.addr.toNat :=
    Nat.add_sub_cancel _ _
  rw [write, Loc.toNat_shift hroom, beside, Array.setIfInBounds_append_right hle, hsub,
    ← Array.map_setIfInBounds]
  rfl

theorem extended_beside (base h : Heap) (n : Nat) (init : Val) :
    (base.beside h).extended n (init.relocate (.shift base.issuedCount)) =
      base.beside (h.extended n init) := by
  simp [extended, beside]

/-- A call about addresses issued in the second heap comes to the same beside the first one. -/
theorem perform_beside {c : HeapCall} (hroom : base.issuedCount + h.issuedCount ≤ UInt64.size)
    (hc : ∀ l, c.loc? = some l → l.addr.toNat < h.issuedCount) :
    (base.beside h).perform (c.relocate (.shift base.issuedCount)) =
      (((h.perform c).1.map (·.relocate (.shift base.issuedCount))).mapError
        (·.relocate (.shift base.issuedCount)), base.beside (h.perform c).2) := by
  have hshift : ∀ l, c.loc? = some l → l.addr.toNat + base.issuedCount < UInt64.size := by
    intro l hl
    have hlt := hc l hl
    omega
  cases c with
  | allocate size init =>
    have hext := extended_beside base h size.toInt.toNat init
    simp only [HeapCall.relocate, perform, allocate, nextFree_beside]
    split
    · rfl
    · exact Prod.ext rfl hext
  | free l =>
    have hl := hshift l rfl
    simp only [HeapCall.relocate, perform, free, isLive_beside_shift hl]
    split
    · exact Prod.ext rfl (write_beside_shift hl none)
    · rfl
  | load l =>
    simp only [HeapCall.relocate, perform, load, read?_beside_shift (hshift l rfl)]
    cases h.read? l <;> rfl
  | store l v =>
    have hl := hshift l rfl
    simp only [HeapCall.relocate, perform, store, isLive_beside_shift hl]
    split
    · exact Prod.ext rfl (write_beside_shift hl (some v))
    · rfl

end Heap

end CellCalculus
