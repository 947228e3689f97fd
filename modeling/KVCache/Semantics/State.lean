import KVCache.Semantics.Slab

/-! The state of a cache, and how its slots are found. The intrusive lists of
slabs and of index entries are lists of their ids, most recently added first.
Blocks of the SSD hold the slab images last written to them. -/

namespace KVCache

structure IndexEntry where
  digest : Digest
  slabId : Nat
  slotId : Nat
  deriving DecidableEq, Repr

instance : Inhabited IndexEntry := ⟨⟨0, 0, 0⟩⟩

/-- The hash table over a fixed area of entries, and the unused entries. -/
structure Index where
  entries : Table IndexEntry
  table : Table (List Nat)
  freeIndexEntry : List Nat
  nrFreeIndexEntry : Int
  deriving DecidableEq, Repr

/-- A list with its separately kept length (`class List`). -/
structure SlabList where
  list : List Nat
  size : Int
  deriving DecidableEq, Repr

instance : Inhabited SlabList := ⟨⟨[], 0⟩⟩

namespace SlabList

/-- `list_add` and `size_++`. -/
def add (l : SlabList) (x : Nat) : SlabList := ⟨x :: l.list, l.size + 1⟩

/-- `list_del` of a member and `size_--`. -/
def del (l : SlabList) (x : Nat) : SlabList := ⟨l.list.erase x, l.size - 1⟩

end SlabList

structure Cache where
  /-- headers of all slabs, and the data of the memory slabs, by slab id -/
  slabs : Table Slab
  /-- what each block of the SSD stores -/
  disk : Table Slab
  index : Index
  mslabFree : SlabList
  mslabFull : SlabList
  /-- `slab_partial` of each slab class -/
  slabPartial : Table (List Nat)
  dslabFree : Table SlabList
  dslabFull : Table SlabList
  opsPool : Table SlabList
  maxOpsPoolSize : Int
  opsPoolSize : Int
  nrFreeDslab : Int
  nrFullDslab : Int
  nextMslabFlushChannel : Nat
  nextOpsPoolRemoveChannel : Nat
  freeBlockWaterMarkLow : Int
  freeBlockWaterMarkHigh : Int
  freeBlockWaterMarkLowMin : Int
  freeBlockWaterMarkHighMax : Int
  deriving DecidableEq, Repr

namespace Index

/-- The entry of the key's bucket with the key's digest. Another key with the
same bucket and digest finds the same entry. -/
def getIndexEntry (cfg : Config) (ix : Index) (key : Key) : Option Nat :=
  (ix.table (cfg.bucketOf key)).find? fun e => (ix.entries e).digest = cfg.makeDigest key

def putIndexEntry (cfg : Config) (ix : Index) (key : Key) (entry : Nat) : Index :=
  { ix with table := ix.table.modify (cfg.bucketOf key) (entry :: ·) }

def indexEntryAlloc (ix : Index) : Option (Nat × Index) :=
  match ix.freeIndexEntry with
  | [] => none
  | entry :: rest =>
      some (entry, { ix with freeIndexEntry := rest, nrFreeIndexEntry := ix.nrFreeIndexEntry - 1 })

def indexEntryFree (ix : Index) (entry : Nat) : Index :=
  { ix with
    freeIndexEntry := entry :: ix.freeIndexEntry
    nrFreeIndexEntry := ix.nrFreeIndexEntry + 1 }

/-- `list_del` of an entry that was found under the key. -/
def unlink (cfg : Config) (ix : Index) (key : Key) (entry : Nat) : Index :=
  { ix with table := ix.table.modify (cfg.bucketOf key) (·.erase entry) }

def delIndexEntry (cfg : Config) (ix : Index) (key : Key) : Index :=
  match ix.getIndexEntry cfg key with
  | none => ix
  | some entry => (ix.unlink cfg key entry).indexEntryFree entry

/-- Let an entry point to another slot. -/
def repoint (ix : Index) (entry slabId slotId : Nat) : Index :=
  { ix with
    entries := ix.entries.modify entry fun e => { e with slabId := slabId, slotId := slotId } }

/-- All entries of the hash table. -/
def indexed (ix : Index) : List Nat := ix.table.flatMap id

/-- Number of entries of the hash table that point into a slab. -/
def refs (ix : Index) (slabId : Nat) : Nat :=
  ix.indexed.countP fun e => (ix.entries e).slabId == slabId

end Index

namespace Cache

def block (c : Cache) (x : Nat) : Slab := c.disk (c.slabs x).blockId.toNat

/-- `read_dslab`: the bytes of the block under the header of the disk slab. -/
def readDslab (c : Cache) (x : Nat) : Slab := { c.slabs x with data := (c.block x).data }

/-- The slab through which the slots of `x` are read. -/
def source (c : Cache) (x : Nat) : Slab :=
  if (c.slabs x).imMemory then c.slabs x else c.readDslab x

/-- Key and value found at a slot, in memory or on disk. -/
def slotAt (c : Cache) (x i : Nat) : Key × Value := (c.source x).slot i

/-- What the index entry of a key points to. -/
def view (cfg : Config) (c : Cache) (key : Key) : Option (Key × Value) :=
  (c.index.getIndexEntry cfg key).map fun e =>
    c.slotAt (c.index.entries e).slabId (c.index.entries e).slotId

/-- The lookup of `get_slice` under the index lock. -/
def getSlice (build : Build) (cfg : Config) (c : Cache) (key : Key) :
    Except Stop (Status × Option Value) :=
  match c.index.getIndexEntry cfg key with
  | none => .ok (.notFound, none)
  | some e => do
      let entry := c.index.entries e
      let slab := c.slabs entry.slabId
      if slab.imMemory then
        assertThat build .getSliceSlotId (entry.slotId < slab.nrAlloc)
      let (k, v) := c.slotAt entry.slabId entry.slotId
      if key ≠ k then return (.notFound, none)
      return (.ok, some v)

/-- `Get` into a string. -/
def get (build : Build) (cfg : Config) (c : Cache) (key : Key) :
    Except Stop (Status × Option Value) :=
  c.getSlice build cfg key

/-- `Get` into a buffer, for the C API. -/
def getBuffer (build : Build) (cfg : Config) (c : Cache) (key : Key) (bufferLen : Nat) :
    Except Stop (Status × Option Value) := do
  match ← c.getSlice build cfg key with
  | (status, none) => return (status, none)
  | (status, some v) =>
      if v.length > bufferLen then return (.bufferTooSmall, none)
      return (status, some v)

def resetSlab (c : Cache) (x : Nat) : Cache := { c with slabs := c.slabs.modify x Slab.reset }

/-- `check_ops_pool`: the lists have their recorded sizes, which add up. -/
def checkOpsPool (c : Cache) : Bool :=
  c.opsPool.cells.all (fun l => l.list.length == l.size) &&
    (c.opsPool.cells.map SlabList.size).sum == c.opsPoolSize

end Cache

end KVCache
