import KVCache.Semantics.Image
import KVCache.Semantics.Flush
import KVCache.Invariant.Slots
import KVCache.Properties.Lookup

/-! The bytes of a slab. The header fields and the data area keep out of each
other's way, so the bytes represent a slab as a record, through allocation and
writing of slots, the copy to a block and the way back. What is proved about
slots of records then holds of the bytes. -/

namespace KVCache

/-! ### Fields -/

namespace Image

theorem field_inHeader (f : Field) : f.offset + 4 ≤ Slab.headerSize := by
  cases f <;> decide

theorem field_apart {f g : Field} (h : f ≠ g) :
    g.offset + 4 ≤ f.offset ∨ f.offset + 4 ≤ g.offset := by
  cases f <;> cases g <;> first | exact absurd rfl h | decide

theorem field_congr {m m' : Image} (h : ∀ i < Slab.headerSize, m' i = m i) (f : Field) :
    m'.field f = m.field f := by
  have hHeader := field_inHeader f
  unfold field
  rw [Table.getRange_congr fun i _ hHigh => h i (by omega)]

@[simp] theorem field_setField_self (m : Image) (f : Field) (n : Nat) :
    (m.setField f n).field f = n % 2 ^ 32 := by
  rw [field, setField, Table.getRange_setRange_of_length _ _ (Bytes.length_ofInt n),
    Bytes.toInt_ofInt_mod]

@[simp] theorem field_setField_of_ne (m : Image) {f g : Field} (n : Nat) (h : f ≠ g) :
    (m.setField f n).field g = m.field g := by
  have hApart := field_apart h
  rw [field, setField, Table.getRange_setRange_of_disjoint _ _ _ _ _ (by
    rw [Bytes.length_ofInt]
    omega)]
  rfl

theorem field_lt (m : Image) (f : Field) : m.field f < 2 ^ 32 := by
  have hBytes := Bytes.toInt_lt (m.getRange f.offset 4)
  rwa [Table.length_getRange] at hBytes

theorem data_setField (m : Image) (f : Field) (n i : Nat) :
    (m.setField f n) (Slab.headerSize + i) = m (Slab.headerSize + i) := by
  have hHeader := field_inHeader f
  apply Table.get_setRange_of_outside
  rw [Bytes.length_ofInt]
  omega

/-- The two pointers of the list are not part of any field, nor of the data. -/
theorem field_setList (m : Image) {links : List UInt8} (hLinks : links.length = 16) (f : Field) :
    Image.field (m.setRange listOffset links) f = m.field f := by
  have hApart : f.offset + 4 ≤ listOffset ∨ listOffset + 16 ≤ f.offset := by
    cases f <;> decide
  rw [field, Table.getRange_setRange_of_disjoint _ _ _ _ _ (by omega)]
  rfl

theorem data_setList (m : Image) {links : List UInt8} (hLinks : links.length = 16) (i : Nat) :
    (m.setRange listOffset links) (Slab.headerSize + i) = m (Slab.headerSize + i) := by
  apply Table.get_setRange_of_outside
  simp only [hLinks, listOffset, Slab.headerSize]
  omega

/-- The assigned parts make up the header. -/
theorem get_assign (m other : Image) (i : Nat) :
    (m.assign other) i = if i < Slab.headerSize then other i else m i := by
  rw [assign, Table.get_foldl_setRange]
  congr 1
  simp only [List.mem_cons, List.not_mem_nil, or_false, exists_eq_or_imp, exists_eq_left, listOffset,
    Slab.headerSize, eq_iff_iff]
  omega

end Image

/-! ### Records as bytes -/

/-- The objects of a slab in the order of their slots. -/
def Slab.objects (s : Slab) : List (Key × Value) := (List.range s.nrAlloc).map s.slot

/-- Bytes that hold a slab. Of a number that may be negative they hold the
32 bits. -/
structure Image.Represents (m : Image) (s : Slab) : Prop where
  sid : m.field .sid = s.sid
  cid : (m.field .cid : Int) = s.cid % 2 ^ 32
  nrAlloc : m.field .nrAlloc = s.nrAlloc
  slotSize : m.field .slotSize = s.slotSize
  nrSlots : m.field .nrSlots = s.nrSlots
  nrUsed : (m.field .nrUsed : Int) = s.nrUsed % 2 ^ 32
  blockId : (m.field .blockId : Int) = s.blockId % 2 ^ 32
  data : ∀ i, s.data i = m (Slab.headerSize + i)

/-- Any bytes hold some slab. -/
theorem Image.exists_represents (m : Image) : ∃ s, m.Represents s := by
  have hBits : ∀ f, (m.field f : Int) = (m.field f : Int) % 2 ^ 32 := by
    intro f
    have hLess := m.field_lt f
    omega
  refine ⟨⟨m.field .sid, m.field .cid, m.field .nrAlloc, m.field .slotSize, m.field .nrSlots,
    m.field .nrUsed, m.field .blockId, ⟨m.cells.drop Slab.headerSize⟩⟩,
    rfl, hBits _, rfl, rfl, rfl, hBits _, hBits _, fun i => ?_⟩
  simp [Table.get, List.getD_eq_getElem?_getD]

namespace Image.Represents

variable {m : Image} {s : Slab}

theorem slotOffset (h : m.Represents s) (i : Nat) :
    m.slotOffset i = Slab.headerSize + s.slotOffset i := by
  rw [Image.slotOffset, h.slotSize]
  rfl

theorem slot (h : m.Represents s) (i : Nat) : m.slot i = s.slot i := by
  have hKeyLen : Slot.keyLen m (m.slotOffset i) = Slot.keyLen s.data (s.slotOffset i) := by
    rw [Slot.keyLen, Slot.keyLen, h.slotOffset, Table.getRange_shift h.data]
  have hValueLen : Slot.valueLen m (m.slotOffset i) = Slot.valueLen s.data (s.slotOffset i) := by
    rw [Slot.valueLen, Slot.valueLen, h.slotOffset, Table.getRange_shift h.data, Nat.add_assoc]
  have hKey : Slot.key m (m.slotOffset i) = s.slotKey i := by
    rw [Slot.key, hKeyLen, Slab.slotKey, Slot.key, Table.getRange_shift h.data, h.slotOffset,
      Nat.add_assoc]
  have hValue : Slot.value m (m.slotOffset i) = s.slotValue i := by
    rw [Slot.value, hValueLen, Slab.slotValue, Slot.value, Table.getRange_shift h.data,
      Slot.valueOffset, Slot.valueOffset, hKeyLen, h.slotOffset]
    simp only [Nat.add_assoc]
  rw [Image.slot, Slab.slot, hKey, hValue]

theorem forEachSlot (h : m.Represents s) : m.forEachSlot = s.objects := by
  rw [Image.forEachSlot, Slab.objects, h.nrAlloc, funext h.slot]

/-- A write to a slot leaves the header alone. -/
theorem writeSlot (h : m.Represents s) (i : Nat) (key : Key) (value : Value) :
    (show Image from Slot.write m (m.slotOffset i) key value).Represents
      (s.writeSlot i key value) := by
  have hField := fun f => @field_congr m (Slot.write m (m.slotOffset i) key value)
    (fun j hj => Slot.get_write_of_outside j (.inl (by rw [Image.slotOffset]; omega))) f
  refine ⟨(hField _).trans h.sid, ?_, (hField _).trans h.nrAlloc, (hField _).trans h.slotSize,
    (hField _).trans h.nrSlots, ?_, ?_, fun j => ?_⟩
  · rw [hField]
    exact h.cid
  · rw [hField]
    exact h.nrUsed
  · rw [hField]
    exact h.blockId
  · simp only [Slab.writeSlot, Slot.write, h.slotOffset, Nat.add_assoc]
    apply Table.setRange_shift
    apply Table.setRange_shift
    apply Table.setRange_shift
    exact Table.setRange_shift h.data _ _

theorem slotAlloc (h : m.Represents s) (build : Build) (hRoom : s.nrAlloc < s.nrSlots) :
    ∃ m', m.slotAlloc build = .ok (m', m'.slotOffset s.nrAlloc) ∧
      m'.Represents { s with nrAlloc := s.nrAlloc + 1, nrUsed := s.nrUsed + 1 } := by
  have hFull : m.isFull = false := by
    rw [Image.isFull, h.nrAlloc, h.nrSlots]
    exact beq_false_of_ne (Nat.ne_of_lt hRoom)
  have hSlots := m.field_lt .nrSlots
  rw [h.nrSlots] at hSlots
  let m' := (m.setField .nrAlloc (m.field .nrAlloc + 1)).setField .nrUsed
    ((m.setField .nrAlloc (m.field .nrAlloc + 1)).field .nrUsed + 1)
  have hAlloc : m.slotAlloc build = .ok (m', m'.slotOffset s.nrAlloc) := by
    have hSize : m'.field .slotSize = m.field .slotSize := by simp [m']
    rw [Image.slotAlloc, hFull, Image.slotOffset, hSize, ← h.nrAlloc]
    cases build <;> rfl
  refine ⟨m', hAlloc, ?_, ?_, ?_, ?_, ?_, ?_, ?_, fun i => ?_⟩
  · simp [m', h.sid]
  · simp [m', h.cid]
  · simp [m', h.nrAlloc]
    omega
  · simp [m', h.slotSize]
  · simp [m', h.nrSlots]
  · have hUsed := h.nrUsed
    simp only [m', field_setField_self, field_setField_of_ne _ _ (show Field.nrAlloc ≠ .nrUsed by
      decide)]
    omega
  · simp [m', h.blockId]
  · rw [data_setField, data_setField]
    exact h.data i

/-- Taking the next slot and writing it, as long as there is one. -/
theorem push (h : m.Represents s) (build : Build) (hRoom : s.nrAlloc < s.nrSlots)
    (object : Key × Value) :
    ∃ m', m.push build object = .ok m' ∧ m'.Represents (s.push object.1 object.2) := by
  obtain ⟨m', hAlloc, hTaken⟩ := h.slotAlloc build hRoom
  refine ⟨Slot.write m' (m'.slotOffset s.nrAlloc) object.1 object.2, ?_,
    hTaken.writeSlot s.nrAlloc object.1 object.2⟩
  rw [Image.push, hAlloc]
  rfl

theorem reset (h : m.Represents s) (address : Nat) : (m.reset address).Represents s.reset := by
  have hData : ∀ i, (m.reset address) (Slab.headerSize + i) = m (Slab.headerSize + i) := by
    intro i
    rw [Image.reset, data_setList _ rfl, data_setField, data_setField, data_setField,
      data_setField, data_setField]
  refine ⟨?_, ?_, ?_, ?_, ?_, ?_, ?_, fun i => (h.data i).trans (hData i).symm⟩ <;>
    rw [Image.reset, field_setList _ rfl]
  · simp [Slab.reset, h.sid]
  · simp [Slab.reset]
  · simp [Slab.reset]
  · simp [Slab.reset]
  · simp [Slab.reset]
  · simp [Slab.reset]
  · simp [Slab.reset, h.blockId]

theorem openFor (h : m.Represents s) {slabSize cid slotSize : Nat} (hSlot : slotSize < 2 ^ 32)
    (hSlab : slabSize < 2 ^ 32) :
    (m.openFor slabSize cid slotSize).Represents
      { s with
        cid := cid, slotSize := slotSize
        nrSlots := (slabSize - Slab.headerSize) / slotSize } := by
  have hSlots : (slabSize - Slab.headerSize) / slotSize < 2 ^ 32 :=
    Nat.lt_of_le_of_lt (Nat.div_le_self _ _) (by omega)
  refine ⟨?_, ?_, ?_, ?_, ?_, ?_, ?_, fun i => ?_⟩
  · simp [Image.openFor, h.sid]
  · simp [Image.openFor]
  · simp [Image.openFor, h.nrAlloc]
  · simpa [Image.openFor] using hSlot
  · simpa [Image.openFor] using hSlots
  · simp [Image.openFor, h.nrUsed]
  · simp [Image.openFor, h.blockId]
  · rw [Image.openFor, data_setField, data_setField, data_setField]
    exact h.data i

/-- The header of a disk slab after a flush. -/
theorem flushHeader (h : m.Represents s) {d : Image} {t : Slab} (hDisk : d.Represents t)
    (slabSize : Nat) :
    (flushMslabToDslab slabSize m d).2.Represents
      { t with
        cid := s.cid, slotSize := s.slotSize, nrSlots := s.nrSlots
        nrAlloc := s.nrAlloc, nrUsed := s.nrUsed } := by
  refine ⟨?_, ?_, ?_, ?_, ?_, ?_, ?_, fun i => ?_⟩
  · simp [flushMslabToDslab, hDisk.sid]
  · simp [flushMslabToDslab, h.cid]
  · simpa [flushMslabToDslab, ← h.nrAlloc] using m.field_lt .nrAlloc
  · simpa [flushMslabToDslab, ← h.slotSize] using m.field_lt .slotSize
  · simpa [flushMslabToDslab, ← h.nrSlots] using m.field_lt .nrSlots
  · simp [flushMslabToDslab, h.nrUsed]
  · simp [flushMslabToDslab, hDisk.blockId]
  · simp only [flushMslabToDslab, data_setField]
    exact hDisk.data i

/-- What is read back has the header of the disk slab and the data of the block,
as far as the block goes. -/
theorem readDslab (h : m.Represents s) {d : Image} {t : Slab} (hDisk : d.Represents t)
    (cfg : Config) :
    (Image.readDslab d (m.getRange 0 cfg.slabSize)).Represents
      { t with data := (s.image cfg).data } := by
  have hField := fun f => @field_congr d (Image.readDslab d (m.getRange 0 cfg.slabSize))
    (fun j hj => by rw [Image.readDslab, get_assign, if_pos hj]) f
  refine ⟨(hField _).trans hDisk.sid, ?_, (hField _).trans hDisk.nrAlloc,
    (hField _).trans hDisk.slotSize, (hField _).trans hDisk.nrSlots, ?_, ?_, fun i => ?_⟩
  · rw [hField]
    exact hDisk.cid
  · rw [hField]
    exact hDisk.nrUsed
  · rw [hField]
    exact hDisk.blockId
  · rw [Image.readDslab, get_assign, if_neg (by omega), Table.get_mk_getRange]
    simp only [Slab.image]
    by_cases hIn : Slab.headerSize + i < cfg.slabSize
    · rw [if_pos hIn, Table.get_truncate _ _ _ (by omega), h.data]
    · rw [if_neg hIn]
      simp only [Table.truncate, Table.get, List.getD_eq_getElem?_getD]
      rw [List.getElem?_eq_none]
      · rfl
      · rw [List.length_take]
        omega

/-- The flush of the cache is the flush of the bytes. -/
theorem flushMslabToDslab_readDslab {cfg : Config} {c : Cache} {src dst : Nat}
    (h : m.Represents (c.slabs src)) {d : Image} (hDisk : d.Represents (c.slabs dst)) :
    (Image.readDslab (Image.flushMslabToDslab cfg.slabSize m d).2
      (Image.flushMslabToDslab cfg.slabSize m d).1).Represents
        ((c.flushMslabToDslab cfg src dst).readDslab dst) := by
  have hRead := h.readDslab (h.flushHeader hDisk cfg.slabSize) cfg
  simpa [Cache.flushMslabToDslab, Cache.writeBlock, Cache.copyHeader, Cache.readDslab,
    Cache.block, Image.flushMslabToDslab] using hRead

end Image.Represents

/-! ### Filling a slab -/

theorem Slab.objects_push {s : Slab} {object : Key × Value}
    (hSize : Slot.headerSize + object.1.length + object.2.length ≤ s.slotSize)
    (hSlot : s.slotSize < 2 ^ 31) (hFit : s.SlotsFit) :
    (s.push object.1 object.2).objects = s.objects ++ [object] := by
  have hAlloc : (s.push object.1 object.2).nrAlloc = s.nrAlloc + 1 := rfl
  rw [Slab.objects, hAlloc, List.range_succ, List.map_append, List.map_singleton,
    Slab.slot_push_self hSize hSlot, Slab.objects]
  congr 1
  apply List.map_congr_left
  intro i hi
  exact Slab.slot_push_of_lt hSize hFit (List.mem_range.mp hi)

/-- The image on disk has the objects of the slab under any header with the same
number and size of slots. -/
theorem Slab.objects_image {cfg : Config} {s t : Slab} (hFit : s.SlotsFit)
    (hIn : s.slotSize * s.nrAlloc ≤ cfg.slabSize - Slab.headerSize)
    (hAlloc : t.nrAlloc = s.nrAlloc) (hSlot : t.slotSize = s.slotSize) :
    { t with data := (s.image cfg).data }.objects = s.objects := by
  simp only [Slab.objects, hAlloc]
  apply List.map_congr_left
  intro i hi
  have hLess := List.mem_range.mp hi
  have hImage := (Slab.slot_image (hFit i hLess)
    (Nat.le_trans (Nat.mul_le_mul_left _ hLess) hIn)).1
  rw [← hImage]
  simp only [Slab.slot, Slab.slotKey, Slab.slotValue, Slab.slotOffset, hSlot, Slab.image]

/-- Objects put one after the other into a slab that has room for them. -/
theorem Image.Represents.pushAll {m : Image} {s : Slab} (h : m.Represents s) (build : Build)
    {objects : List (Key × Value)} (hFit : s.SlotsFit) (hSlot : s.slotSize < 2 ^ 31)
    (hRoom : s.nrAlloc + objects.length ≤ s.nrSlots)
    (hSizes : ∀ o ∈ objects, Slot.headerSize + o.1.length + o.2.length ≤ s.slotSize) :
    ∃ m' s', objects.foldlM (Image.push build) m = .ok m' ∧ m'.Represents s' ∧ s'.SlotsFit ∧
      s'.objects = s.objects ++ objects ∧ s'.slotSize = s.slotSize ∧
      s'.nrAlloc = s.nrAlloc + objects.length := by
  induction objects generalizing m s with
  | nil => exact ⟨m, s, rfl, h, hFit, (List.append_nil _).symm, rfl, rfl⟩
  | cons object rest ih =>
      rw [List.length_cons] at hRoom
      obtain ⟨hSize, hRest⟩ := List.forall_mem_cons.mp hSizes
      obtain ⟨m₁, hPush, hNext⟩ := h.push build (by omega) object
      have hAlloc : (s.push object.1 object.2).nrAlloc = s.nrAlloc + 1 := rfl
      have hMore : s.nrAlloc + 1 + rest.length ≤ s.nrSlots := by omega
      obtain ⟨m', s', hAll, hEnd, hFit', hObjects, hSlot', hCount⟩ :=
        ih hNext (Slab.slotsFit_push hSize hSlot hFit) hSlot hMore hRest
      refine ⟨m', s', ?_, hEnd, hFit', ?_, hSlot', ?_⟩
      · rw [List.foldlM_cons, hPush]
        exact hAll
      · rw [hObjects, Slab.objects_push hSize hSlot hFit, List.append_assoc]
        rfl
      · rw [hCount, hAlloc, List.length_cons]
        omega

/-- Objects that are put into a slab one after the other are read back from its
bytes, and from the block after a flush, whatever the slab held before. -/
theorem image_roundTrip (build : Build) (cfg : Config) (hSlab : cfg.slabSize < 2 ^ 31)
    (m : Image) (address cid slotSize : Nat) (hSlot : slotSize < 2 ^ 31)
    (objects : List (Key × Value))
    (hCount : objects.length ≤ (cfg.slabSize - Slab.headerSize) / slotSize)
    (hSizes : ∀ o ∈ objects, Slot.headerSize + o.1.length + o.2.length ≤ slotSize) :
    ∃ m', objects.foldlM (Image.push build)
        ((m.reset address).openFor cfg.slabSize cid slotSize) = .ok m' ∧
      (∀ (i : Nat) (h : i < objects.length), m'.slot i = objects[i]) ∧
      ∀ dslab : Image,
        let flushed := Image.flushMslabToDslab cfg.slabSize m' dslab
        (Image.readDslab flushed.2 flushed.1).forEachSlot = objects := by
  obtain ⟨s, hStart⟩ := m.exists_represents
  have hOpen := @Image.Represents.openFor _ _ (hStart.reset address) cfg.slabSize cid slotSize
    (Nat.lt_trans hSlot (by decide)) (Nat.lt_trans hSlab (by decide))
  obtain ⟨m', s', hPush, hEnd, hFit, hObjects, hSlot', hAlloc⟩ :=
    hOpen.pushAll build (fun i hi => absurd hi (Nat.not_lt_zero i)) hSlot
      (Nat.le_trans (Nat.le_of_eq (Nat.zero_add _)) hCount) hSizes
  have hAll : s'.objects = objects := hObjects
  have hLength : s'.nrAlloc = objects.length := hAlloc.trans (Nat.zero_add _)
  refine ⟨m', hPush, fun i hi => ?_, fun dslab => ?_⟩
  · have hSlots : s'.objects[i]? = some objects[i] := by
      rw [hAll]
      exact List.getElem?_eq_getElem hi
    rw [Slab.objects, List.getElem?_map, List.getElem?_range (by omega)] at hSlots
    rw [hEnd.slot]
    exact Option.some.inj hSlots
  · obtain ⟨t, hDisk⟩ := dslab.exists_represents
    have hRead := hEnd.readDslab (hEnd.flushHeader hDisk cfg.slabSize) cfg
    have hIn : s'.slotSize * s'.nrAlloc ≤ cfg.slabSize - Slab.headerSize := by
      rw [hSlot', hLength]
      exact Nat.le_trans (Nat.mul_le_mul_left _ hCount) (Nat.mul_div_le _ _)
    exact hRead.forEachSlot.trans ((Slab.objects_image hFit hIn rfl rfl).trans hAll)

/-- Two objects in a slab of 100 bytes that was full of other bytes. -/
theorem image_roundTrip_two :
    ∃ m', [([1], [7]), ([2, 3], [])].foldlM (Image.push .debug)
        ((Image.reset ⟨List.replicate 100 255⟩ 4096).openFor 100 0 16) = .ok m' ∧
      (Image.readDslab (Image.flushMslabToDslab 100 m' ⟨[]⟩).2
        (Image.flushMslabToDslab 100 m' ⟨[]⟩).1).forEachSlot = [([1], [7]), ([2, 3], [])] := by
  obtain ⟨m', hPush, -, hRead⟩ := image_roundTrip .debug { Config.small with slabSize := 100 }
    (by decide) ⟨List.replicate 100 255⟩ 4096 0 16 (by decide) [([1], [7]), ([2, 3], [])]
    (by decide) (by decide)
  exact ⟨m', hPush, hRead ⟨[]⟩⟩

end KVCache
