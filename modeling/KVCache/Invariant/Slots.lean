import KVCache.Semantics.Slab

/-! Slots as records. A slot that was written reads back, a write to one slot
leaves the others alone, and the image of a slab on disk has the same slots.
Above this module no proof looks at bytes. -/

namespace KVCache

namespace Slot

variable {data : Table UInt8} {offset other : Nat} {key' : Key} {value' : Value}

/-- A slot depends on its own bytes only. -/
theorem congr_of_bytes (data data' : Table UInt8) (offset : Nat)
    (h : ∀ i, offset ≤ i → i < offset + max headerSize (size data offset) → data' i = data i) :
    key data' offset = key data offset ∧ value data' offset = value data offset ∧
      size data' offset = size data offset := by
  have hKeyLen : keyLen data' offset = keyLen data offset := by
    unfold keyLen
    rw [Table.getRange_congr fun i hl hu => h i hl (by simp only [headerSize]; omega)]
  have hValueLen : valueLen data' offset = valueLen data offset := by
    unfold valueLen
    rw [Table.getRange_congr fun i hl hu => h i (by omega) (by simp only [headerSize]; omega)]
  refine ⟨?_, ?_, by simp only [size, hKeyLen, hValueLen]⟩
  · unfold key
    rw [hKeyLen]
    exact Table.getRange_congr fun i hl hu =>
      h i (by omega) (by simp only [size]; omega)
  · unfold value valueOffset
    rw [hKeyLen, hValueLen]
    exact Table.getRange_congr fun i hl hu =>
      h i (by omega) (by simp only [size]; omega)

theorem get_write_of_outside (i : Nat)
    (h : i < offset ∨ offset + headerSize + key'.length + value'.length ≤ i) :
    (write data offset key' value') i = data i := by
  simp only [headerSize] at h
  simp only [write, headerSize]
  rw [Table.get_setRange_of_outside _ _ _ _ (by omega),
    Table.get_setRange_of_outside _ _ _ _ (by omega),
    Table.get_setRange_of_outside _ _ _ _ (by simp; omega),
    Table.get_setRange_of_outside _ _ _ _ (by simp; omega)]

/-- A write leaves a slot with disjoint bytes as it was. -/
theorem write_of_disjoint (data : Table UInt8) (offset other : Nat) (key' : Key) (value' : Value)
    (h : other + max headerSize (size data other) ≤ offset ∨
      offset + headerSize + key'.length + value'.length ≤ other) :
    key (write data offset key' value') other = key data other ∧
      value (write data offset key' value') other = value data other ∧
      size (write data offset key' value') other = size data other :=
  congr_of_bytes data _ other fun i hl hu => get_write_of_outside i (by omega)

theorem keyLen_write (hKey : key'.length < 2 ^ 32) :
    keyLen (write data offset key' value') offset = key'.length := by
  unfold keyLen write
  simp only [headerSize]
  rw [Table.getRange_setRange_of_disjoint _ _ _ _ _ (by omega),
    Table.getRange_setRange_of_disjoint _ _ _ _ _ (by omega),
    Table.getRange_setRange_of_disjoint _ _ _ _ _ (by omega),
    Table.getRange_setRange_of_length _ _ (Bytes.length_ofInt _), Bytes.toInt_ofInt hKey]

theorem valueLen_write (hValue : value'.length < 2 ^ 32) :
    valueLen (write data offset key' value') offset = value'.length := by
  unfold valueLen write
  simp only [headerSize]
  rw [Table.getRange_setRange_of_disjoint _ _ _ _ _ (by omega),
    Table.getRange_setRange_of_disjoint _ _ _ _ _ (by omega),
    Table.getRange_setRange_of_length _ _ (Bytes.length_ofInt _), Bytes.toInt_ofInt hValue]

/-- A slot reads back what was written to it. -/
theorem write_self (data : Table UInt8) (offset : Nat) {key' : Key} {value' : Value}
    (hKey : key'.length < 2 ^ 32) (hValue : value'.length < 2 ^ 32) :
    key (write data offset key' value') offset = key' ∧
      value (write data offset key' value') offset = value' ∧
      size (write data offset key' value') offset = headerSize + key'.length + value'.length := by
  refine ⟨?_, ?_, by simp only [size, keyLen_write hKey, valueLen_write hValue]⟩
  · unfold key
    rw [keyLen_write hKey]
    simp only [write]
    rw [Table.getRange_setRange_of_disjoint _ _ _ _ _ (by omega), Table.getRange_setRange_self]
  · unfold value valueOffset
    rw [keyLen_write hKey, valueLen_write hValue]
    simp only [write, Table.getRange_setRange_self]

end Slot

namespace Slab

/-- The slot keeps within its share of the data area. -/
def Fits (s : Slab) (i : Nat) : Prop := Slot.size s.data (s.slotOffset i) ≤ s.slotSize

/-- Every slot handed out so far keeps within its share. -/
def SlotsFit (s : Slab) : Prop := ∀ i < s.nrAlloc, s.Fits i

theorem headerSize_le_size (data : Table UInt8) (offset : Nat) :
    Slot.headerSize ≤ Slot.size data offset := by
  simp only [Slot.size]
  omega

theorem slotOffset_lt {s : Slab} {i j : Nat} (h : i < j) :
    s.slotOffset i + s.slotSize ≤ s.slotOffset j := by
  simp only [slotOffset]
  calc s.slotSize * i + s.slotSize = s.slotSize * (i + 1) := by rw [Nat.mul_add, Nat.mul_one]
    _ ≤ s.slotSize * j := Nat.mul_le_mul_left _ h

/-- Writing a slot stores the object and fits when the object does. -/
theorem slot_writeSlot_self {s : Slab} {i : Nat} {key : Key} {value : Value}
    (hSize : Slot.headerSize + key.length + value.length ≤ s.slotSize)
    (hSlot : s.slotSize < 2 ^ 31) :
    (s.writeSlot i key value).slot i = (key, value) ∧ (s.writeSlot i key value).Fits i := by
  have hKey : key.length < 2 ^ 32 := by omega
  have hValue : value.length < 2 ^ 32 := by omega
  have hWrite := Slot.write_self s.data (s.slotOffset i) hKey hValue
  exact ⟨by simp only [slot, slotKey, slotValue, writeSlot, slotOffset] at hWrite ⊢; rw [hWrite.1, hWrite.2.1],
    hWrite.2.2.trans_le hSize⟩

/-- Writing one slot does not change another one. -/
theorem slot_writeSlot_of_ne {s : Slab} {i j : Nat} {key : Key} {value : Value}
    (hSize : Slot.headerSize + key.length + value.length ≤ s.slotSize)
    (hFits : s.Fits j) (h : j ≠ i) :
    (s.writeSlot i key value).slot j = s.slot j ∧ (s.writeSlot i key value).Fits j := by
  have hHeader := headerSize_le_size s.data (s.slotOffset j)
  have hWrite := Slot.write_of_disjoint s.data (s.slotOffset i) (s.slotOffset j) key value (by
      rw [max_eq_right hHeader]
      unfold Fits at hFits
      rcases Nat.lt_or_gt_of_ne h with hLess | hMore
      · have := slotOffset_lt (s := s) hLess
        omega
      · have := slotOffset_lt (s := s) hMore
        omega)
  exact ⟨by simp only [slot, slotKey, slotValue, writeSlot, slotOffset] at hWrite ⊢; rw [hWrite.1, hWrite.2.1],
    hWrite.2.2.trans_le hFits⟩

/-- The image on disk has the slots of the slab, as far as they lie in it. -/
theorem slot_image {cfg : Config} {s : Slab} {i : Nat} (hFits : s.Fits i)
    (hIn : s.slotSize * (i + 1) ≤ cfg.slabSize - headerSize) :
    (s.image cfg).slot i = s.slot i ∧ (s.image cfg).Fits i := by
  have hHeader := headerSize_le_size s.data (s.slotOffset i)
  have hEnd : s.slotOffset i + s.slotSize ≤ cfg.slabSize - headerSize := by
    rw [Nat.mul_add, Nat.mul_one] at hIn
    exact hIn
  have hSame := Slot.congr_of_bytes s.data (s.data.truncate (cfg.slabSize - headerSize))
    (s.slotOffset i) (by
      intro j _ hu
      rw [max_eq_right hHeader] at hu
      unfold Fits at hFits
      exact Table.get_truncate _ _ _ (by omega))
  exact ⟨by simp only [slot, slotKey, slotValue, image, slotOffset] at hSame ⊢; rw [hSame.1, hSame.2.1],
    hSame.2.2.trans_le hFits⟩

@[simp] theorem writeSlot_slotSize (s : Slab) (i : Nat) (key : Key) (value : Value) :
    (s.writeSlot i key value).slotSize = s.slotSize := rfl

/-- The slab after an object was put into its next slot. -/
def push (s : Slab) (key : Key) (value : Value) : Slab :=
  { s with nrAlloc := s.nrAlloc + 1, nrUsed := s.nrUsed + 1 }.writeSlot s.nrAlloc key value

section

variable {s : Slab} {key : Key} {value : Value}

theorem slot_push_self (hSize : Slot.headerSize + key.length + value.length ≤ s.slotSize)
    (hSlot : s.slotSize < 2 ^ 31) : (s.push key value).slot s.nrAlloc = (key, value) :=
  (slot_writeSlot_self (s := { s with nrAlloc := s.nrAlloc + 1, nrUsed := s.nrUsed + 1 })
    hSize hSlot).1

theorem slot_push_of_lt (hSize : Slot.headerSize + key.length + value.length ≤ s.slotSize)
    (hFit : s.SlotsFit) {i : Nat} (hi : i < s.nrAlloc) : (s.push key value).slot i = s.slot i :=
  (slot_writeSlot_of_ne (s := { s with nrAlloc := s.nrAlloc + 1, nrUsed := s.nrUsed + 1 })
    hSize (hFit i hi) (Nat.ne_of_lt hi)).1

theorem slotsFit_push (hSize : Slot.headerSize + key.length + value.length ≤ s.slotSize)
    (hSlot : s.slotSize < 2 ^ 31) (hFit : s.SlotsFit) : (s.push key value).SlotsFit := by
  intro i hi
  by_cases h : i = s.nrAlloc
  · subst i
    exact (slot_writeSlot_self (s := { s with nrAlloc := s.nrAlloc + 1, nrUsed := s.nrUsed + 1 })
      hSize hSlot).2
  · have hLt : i < s.nrAlloc := by
      have : i < s.nrAlloc + 1 := hi
      omega
    exact (slot_writeSlot_of_ne (s := { s with nrAlloc := s.nrAlloc + 1, nrUsed := s.nrUsed + 1 })
      hSize (hFit i hLt) h).2

end

end Slab

end KVCache
