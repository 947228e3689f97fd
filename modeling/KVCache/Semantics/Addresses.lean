import KVCache.Data.Words
import KVCache.Semantics.Config

/-! Where the slabs are in memory. One mapped area holds the memory slabs, which
start at a multiple of their size, and behind them the headers of the disk
slabs. The products are formed in `int`, the pointers in 64 bits. -/

namespace KVCache

/-- `sizeof(Slab)`: the header, padded to the alignment of its pointers. -/
def Slab.size : Nat := 48

def alignPtrUp (ptr alignment : Nat) : Nat :=
  let remainder := ptr % alignment
  if remainder = 0 then ptr else Word.size (ptr + (alignment - remainder))

def alignPtrDown (ptr alignment : Nat) : Nat :=
  let remainder := ptr % alignment
  ptr - remainder

def Config.mslabAreaSize (cfg : Config) : Int := Word.int (cfg.nrMslab * cfg.slabSize)

def Config.dslabAreaSize (cfg : Config) : Nat := Word.size (cfg.nrDslab * Slab.size)

/-- The length that `slab_init` asks `mmap` for. -/
def Config.mapLength (cfg : Config) : Nat :=
  Word.size (cfg.mslabAreaSize + cfg.dslabAreaSize + cfg.slabSize)

/-- The pointers that `slab_init` keeps. -/
structure SlabArea where
  mslabBase : Nat
  mslabEnd : Nat
  gcBuffer : Nat
  dslabBase : Nat
  dslabEnd : Nat
  deriving DecidableEq, Repr

/-- The pointers after `mmap` returned an address. -/
def SlabArea.init (cfg : Config) (address : Nat) : SlabArea :=
  let mslabBase := alignPtrUp address cfg.slabSize
  let mslabEnd := Word.size (mslabBase + cfg.mslabAreaSize)
  { mslabBase := mslabBase
    mslabEnd := mslabEnd
    gcBuffer := Word.size (mslabBase + cfg.mslabAreaSize - cfg.slabSize)
    dslabBase := mslabEnd
    dslabEnd := Word.size (mslabEnd + cfg.nrDslab * Slab.size) }

/-- `Slab::slot`, for a slab at an address. -/
def Slab.slotPtr (slab slotSize i : Nat) : Nat :=
  Word.size (slab + Slab.headerSize + Word.int (slotSize * i))

namespace SlabArea

variable (cfg : Config) (a : SlabArea)

def slabBySid (sid : Nat) : Nat :=
  if sid < cfg.nrMslab then Word.size (a.mslabBase + Word.int (sid * cfg.slabSize))
  else Word.size (a.dslabBase + (sid - cfg.nrMslab) * Slab.size)

def slotToSlab (slot : Nat) : Nat :=
  let diff := Word.size (slot - a.mslabBase)
  alignPtrDown (Word.size (a.mslabBase + diff)) cfg.slabSize

/-- `slot_id`. The slot size is read from the header of the slab. -/
def slotId (slotSizeAt : Nat → Nat) (slot : Nat) : Int :=
  let slab := a.slotToSlab cfg slot
  let diff := Word.size (slot - (slab + Slab.headerSize))
  Word.int (diff / slotSizeAt slab : Nat)

end SlabArea

end KVCache
