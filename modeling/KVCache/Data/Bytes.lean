import KVCache.Data.Table

/-! Byte memory: ranges of cells are read and overwritten as wholes, and a
32-bit integer occupies four cells in little-endian order. The two rules that
matter are that a range reads back what was written to it, and that a write
leaves every disjoint range alone. -/

namespace Table

variable {α : Type*} [Inhabited α]

/-- Overwrite the cells from `offset` on by the given values (`memcpy`). -/
def setRange (t : Table α) (offset : Nat) : List α → Table α
  | [] => t
  | x :: rest => (t.set offset x).setRange (offset + 1) rest

/-- The `count` cells from `offset` on. -/
def getRange (t : Table α) (offset : Nat) : Nat → List α
  | 0 => []
  | count + 1 => t offset :: t.getRange (offset + 1) count

/-- Keep the first `count` cells and forget all later ones. -/
def truncate (t : Table α) (count : Nat) : Table α := ⟨t.cells.take count⟩

@[simp] theorem length_getRange (t : Table α) (offset count : Nat) :
    (t.getRange offset count).length = count := by
  induction count generalizing offset with
  | zero => rfl
  | succ count ih => simp [getRange, ih]

theorem getRange_congr {t u : Table α} {offset count : Nat}
    (h : ∀ i, offset ≤ i → i < offset + count → t i = u i) :
    t.getRange offset count = u.getRange offset count := by
  induction count generalizing offset with
  | zero => rfl
  | succ count ih =>
      simp only [getRange]
      rw [h offset (Nat.le_refl _) (by omega), ih fun i hl hu => h i (by omega) (by omega)]

theorem get_setRange_of_outside (t : Table α) (offset : Nat) (xs : List α) (i : Nat)
    (h : i < offset ∨ offset + xs.length ≤ i) : (t.setRange offset xs) i = t i := by
  induction xs generalizing t offset with
  | nil => rfl
  | cons x rest ih =>
      simp only [List.length_cons] at h
      rw [setRange, ih _ _ (by omega), get_set_of_ne _ _ (by omega)]

theorem getRange_setRange_of_disjoint (t : Table α) (offset : Nat) (xs : List α)
    (start count : Nat) (h : start + count ≤ offset ∨ offset + xs.length ≤ start) :
    (t.setRange offset xs).getRange start count = t.getRange start count := by
  apply getRange_congr
  intro i hl hu
  exact get_setRange_of_outside t offset xs i (by omega)

@[simp] theorem getRange_setRange_self (t : Table α) (offset : Nat) (xs : List α) :
    (t.setRange offset xs).getRange offset xs.length = xs := by
  induction xs generalizing t offset with
  | nil => rfl
  | cons x rest ih =>
      simp only [setRange, List.length_cons, getRange]
      rw [get_setRange_of_outside _ _ _ _ (by omega), get_set_self, ih]

theorem getRange_setRange_of_length (t : Table α) (offset : Nat) {xs : List α} {count : Nat}
    (h : xs.length = count) : (t.setRange offset xs).getRange offset count = xs := by
  subst count
  exact getRange_setRange_self t offset xs

/-- Copying a range from another memory. -/
theorem get_setRange_getRange (t u : Table α) (offset count i : Nat) :
    (t.setRange offset (u.getRange offset count)) i =
      if offset ≤ i ∧ i < offset + count then u i else t i := by
  induction count generalizing t offset with
  | zero =>
      rw [if_neg (by omega)]
      rfl
  | succ count ih =>
      rw [getRange, setRange, ih, get_set]
      by_cases hHere : i = offset
      · subst i
        rw [if_neg (by omega), if_pos rfl, if_pos (by omega)]
      · by_cases hIn : offset + 1 ≤ i ∧ i < offset + 1 + count
        · rw [if_pos hIn, if_pos (by omega)]
        · rw [if_neg hIn, if_neg hHere, if_neg (by omega)]

/-- Copying several parts of another table, one after the other. -/
theorem get_foldl_setRange (parts : List (Nat × Nat)) (t u : Table α) (i : Nat) :
    (parts.foldl (fun t part => t.setRange part.1 (u.getRange part.1 part.2)) t) i =
      if ∃ part ∈ parts, part.1 ≤ i ∧ i < part.1 + part.2 then u i else t i := by
  induction parts generalizing t with
  | nil => simp
  | cons part parts ih =>
      rw [List.foldl_cons, ih, get_setRange_getRange]
      by_cases hRest : ∃ other ∈ parts, other.1 ≤ i ∧ i < other.1 + other.2
      · obtain ⟨other, hOther, hIn⟩ := hRest
        rw [if_pos ⟨other, hOther, hIn⟩, if_pos ⟨other, List.mem_cons_of_mem part hOther, hIn⟩]
      · rw [if_neg hRest]
        by_cases hPart : part.1 ≤ i ∧ i < part.1 + part.2
        · rw [if_pos hPart, if_pos ⟨part, List.mem_cons_self, hPart⟩]
        · rw [if_neg hPart, if_neg]
          rintro ⟨other, hOther, hIn⟩
          rcases List.mem_cons.mp hOther with rfl | hOther
          · exact hPart hIn
          · exact hRest ⟨other, hOther, hIn⟩

/-- A range as a memory of its own. -/
theorem get_mk_getRange (t : Table α) (count i : Nat) :
    (⟨t.getRange 0 count⟩ : Table α) i = if i < count then t i else default := by
  have hCells : ∀ offset, ∀ j,
      (t.getRange offset count).getD j default = if j < count then t (offset + j) else default := by
    induction count with
    | zero => simp [getRange]
    | succ count ih =>
        intro offset j
        cases j with
        | zero => simp [getRange]
        | succ j =>
            rw [getRange, List.getD_cons_succ, ih, Nat.add_assoc, Nat.add_comm 1 j]
            simp only [Nat.add_lt_add_iff_right]
  simpa [get] using hCells 0 i

theorem getRange_shift {t u : Table α} {start : Nat} (h : ∀ i, t i = u (start + i))
    (offset count : Nat) : t.getRange offset count = u.getRange (start + offset) count := by
  induction count generalizing offset with
  | zero => rfl
  | succ count ih => rw [getRange, getRange, h, ih, Nat.add_assoc]

theorem setRange_shift {t u : Table α} {start : Nat} (h : ∀ i, t i = u (start + i))
    (offset : Nat) (xs : List α) (i : Nat) :
    (t.setRange offset xs) i = (u.setRange (start + offset) xs) (start + i) := by
  induction xs generalizing t u offset with
  | nil => exact h i
  | cons x rest ih =>
      rw [setRange, setRange, Nat.add_assoc]
      apply ih
      intro j
      rw [get_set, get_set, h]
      simp only [Nat.add_left_cancel_iff]

theorem get_truncate (t : Table α) (count i : Nat) (h : i < count) : (t.truncate count) i = t i := by
  simp [truncate, get, List.getD_eq_getElem?_getD, h]

end Table

namespace Bytes

/-- The four bytes of a 32-bit integer, least significant first. -/
def ofInt (n : Nat) : List UInt8 :=
  [UInt8.ofNat n, UInt8.ofNat (n / 256), UInt8.ofNat (n / 65536), UInt8.ofNat (n / 16777216)]

def toInt : List UInt8 → Nat
  | [] => 0
  | b :: rest => b.toNat + 256 * toInt rest

theorem toInt_lt (bytes : List UInt8) : toInt bytes < 256 ^ bytes.length := by
  induction bytes with
  | nil => decide
  | cons b rest ih =>
      have hByte : b.toNat < 256 := b.toNat_lt
      simp only [toInt, List.length_cons, Nat.pow_succ]
      omega

@[simp] theorem length_ofInt (n : Nat) : (ofInt n).length = 4 := rfl

theorem toInt_ofInt_mod (n : Nat) : toInt (ofInt n) = n % 2 ^ 32 := by
  simp only [ofInt, toInt, UInt8.toNat_ofNat']
  omega

theorem toInt_ofInt {n : Nat} (h : n < 2 ^ 32) : toInt (ofInt n) = n := by
  rw [toInt_ofInt_mod, Nat.mod_eq_of_lt h]

end Bytes
