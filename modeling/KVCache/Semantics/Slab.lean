import KVCache.Data.Bytes
import KVCache.Semantics.Config

/-! Slots and slabs. A slab is a header and a data area in which equal slots
follow each other; a slot is two length fields, the key and the value. Slots
are read and written as bytes, so a slab that is reused for another class
still holds the bytes of its earlier slots. -/

namespace KVCache

namespace Slot

/-- `Slot::Write` at an offset of the data area. -/
def write (data : Table UInt8) (offset : Nat) (key : Key) (value : Value) : Table UInt8 :=
  let data := data.setRange offset (Bytes.ofInt key.length)
  let data := data.setRange (offset + 4) (Bytes.ofInt value.length)
  let data := data.setRange (offset + headerSize) key
  data.setRange (offset + headerSize + key.length) value

def keyLen (data : Table UInt8) (offset : Nat) : Nat := Bytes.toInt (data.getRange offset 4)

def valueLen (data : Table UInt8) (offset : Nat) : Nat := Bytes.toInt (data.getRange (offset + 4) 4)

def key (data : Table UInt8) (offset : Nat) : Key :=
  data.getRange (offset + headerSize) (keyLen data offset)

/-- Where the bytes of the value start; `Slot::value` is a view of them. -/
def valueOffset (data : Table UInt8) (offset : Nat) : Nat :=
  offset + headerSize + keyLen data offset

def value (data : Table UInt8) (offset : Nat) : Value :=
  data.getRange (valueOffset data offset) (valueLen data offset)

/-- Bytes of the slot that are in use. -/
def size (data : Table UInt8) (offset : Nat) : Nat :=
  headerSize + keyLen data offset + valueLen data offset

end Slot

/-- Header and data area of a slab. A disk slab has its data in its block, so
its own data area is not used. -/
structure Slab where
  sid : Nat
  cid : Int
  nrAlloc : Nat
  slotSize : Nat
  nrSlots : Nat
  nrUsed : Int
  blockId : Int
  data : Table UInt8
  deriving DecidableEq, Repr

instance : Inhabited Slab := ⟨⟨0, -1, 0, 0, 0, 0, -1, ⟨[]⟩⟩⟩

namespace Slab

def isFull (s : Slab) : Bool := s.nrAlloc == s.nrSlots

def imMemory (s : Slab) : Bool := s.blockId == -1

def reset (s : Slab) : Slab :=
  { s with cid := -1, nrAlloc := 0, slotSize := 0, nrSlots := 0, nrUsed := 0 }

/-- `Slab::slot_alloc`: the next slot, with its number. -/
def slotAlloc (build : Build) (s : Slab) : Except Stop (Slab × Nat) := do
  assertThat build .slabSlotAllocFull (!s.isFull)
  return ({ s with nrAlloc := s.nrAlloc + 1, nrUsed := s.nrUsed + 1 }, s.nrAlloc)

def slotOffset (s : Slab) (i : Nat) : Nat := s.slotSize * i

def slotKey (s : Slab) (i : Nat) : Key := Slot.key s.data (s.slotOffset i)

def slotValue (s : Slab) (i : Nat) : Value := Slot.value s.data (s.slotOffset i)

/-- Key and value of a slot. -/
def slot (s : Slab) (i : Nat) : Key × Value := (s.slotKey i, s.slotValue i)

def writeSlot (s : Slab) (i : Nat) (key : Key) (value : Value) : Slab :=
  { s with data := Slot.write s.data (s.slotOffset i) key value }

/-- The bytes of the slab that `flush_mslab_to_dslab` writes to a block. -/
def image (cfg : Config) (s : Slab) : Slab :=
  { s with data := s.data.truncate (cfg.slabSize - headerSize) }

end Slab

end KVCache
