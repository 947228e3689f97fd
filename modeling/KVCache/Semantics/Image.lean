import KVCache.Semantics.Slab

/-! A slab as the bytes of `struct Slab`. The header fields are at the offsets
of a 64-bit machine, and the slots follow right behind the last of them, in the
padding of the structure. A block of the SSD keeps these bytes; what is read
back gets the header of the disk slab, field by field. -/

namespace KVCache

/-- The `int` fields of `struct Slab`. -/
inductive Field where
  | sid
  | cid
  | nrAlloc
  | slotSize
  | nrSlots
  | nrUsed
  | blockId
  deriving DecidableEq, Repr

def Field.offset : Field → Nat
  | .sid => 0
  | .cid => 4
  | .nrAlloc => 8
  | .slotSize => 12
  | .nrSlots => 16
  | .nrUsed => 20
  | .blockId => 40

/-- Offset of the two pointers of `list`, which are between the fields. -/
def listOffset : Nat := 24

abbrev Image := Table UInt8

namespace Image

/-- The 32 bits of a field. -/
def field (m : Image) (f : Field) : Nat := Bytes.toInt (m.getRange f.offset 4)

def setField (m : Image) (f : Field) (n : Nat) : Image := m.setRange f.offset (Bytes.ofInt n)

def isFull (m : Image) : Bool := m.field .nrAlloc == m.field .nrSlots

/-- Where `slot(i)` starts. -/
def slotOffset (m : Image) (i : Nat) : Nat := Slab.headerSize + m.field .slotSize * i

/-- Key and value that `slot(i)` decodes to. -/
def slot (m : Image) (i : Nat) : Key × Value :=
  (Slot.key m (m.slotOffset i), Slot.value m (m.slotOffset i))

/-- `Slab::reset` of a slab at an address: the list points to itself. -/
def reset (m : Image) (address : Nat) : Image :=
  let m := m.setField .cid (2 ^ 32 - 1)
  let m := m.setField .nrAlloc 0
  let m := m.setField .slotSize 0
  let m := m.setField .nrSlots 0
  let m := m.setField .nrUsed 0
  let self := Bytes.ofInt (address + listOffset) ++ Bytes.ofInt ((address + listOffset) / 2 ^ 32)
  m.setRange listOffset (self ++ self)

/-- What `KVCache::slot_alloc` sets in a slab that it opens for a class. -/
def openFor (m : Image) (slabSize cid slotSize : Nat) : Image :=
  let m := m.setField .cid cid
  let m := m.setField .slotSize slotSize
  m.setField .nrSlots ((slabSize - Slab.headerSize) / slotSize)

/-- `Slab::slot_alloc`, with the offset of the slot. -/
def slotAlloc (build : Build) (m : Image) : Except Stop (Image × Nat) := do
  assertThat build .slabSlotAllocFull (!m.isFull)
  let slot := Slab.headerSize + m.field .slotSize * m.field .nrAlloc
  let m := m.setField .nrAlloc (m.field .nrAlloc + 1)
  let m := m.setField .nrUsed (m.field .nrUsed + 1)
  return (m, slot)

/-- Take the next slot and write an object to it. -/
def push (build : Build) (m : Image) (object : Key × Value) : Except Stop Image := do
  let (m, slot) ← m.slotAlloc build
  return Slot.write m slot object.1 object.2

/-- The objects that `for_each_slot` passes to a function that never stops it. -/
def forEachSlot (m : Image) : List (Key × Value) := (List.range (m.field .nrAlloc)).map m.slot

/-- `Slab::operator=`. The data is not part of it, nor is the padding. -/
def assign (m other : Image) : Image :=
  [(0, 4), (4, 4), (8, 4), (12, 4), (16, 4), (20, 4), (listOffset, 16), (40, 4)].foldl
    (fun m (part : Nat × Nat) => m.setRange part.1 (other.getRange part.1 part.2)) m

/-- `flush_mslab_to_dslab`: the bytes of the block and the header of the disk
slab. -/
def flushMslabToDslab (slabSize : Nat) (mslab dslab : Image) : List UInt8 × Image :=
  let blockData := mslab.getRange 0 slabSize
  let dslab := dslab.setField .cid (mslab.field .cid)
  let dslab := dslab.setField .slotSize (mslab.field .slotSize)
  let dslab := dslab.setField .nrSlots (mslab.field .nrSlots)
  let dslab := dslab.setField .nrAlloc (mslab.field .nrAlloc)
  let dslab := dslab.setField .nrUsed (mslab.field .nrUsed)
  (blockData, dslab)

/-- `read_dslab`: the bytes of the block under the header of the disk slab. -/
def readDslab (dslab : Image) (block : List UInt8) : Image := assign ⟨block⟩ dslab

end Image

end KVCache
