import Mathlib

/-! What a cache is built from: the SSD geometry, the options and the two hash
functions. The sizes are those of the C++ structures on a 64-bit machine. -/

namespace KVCache

/-- Length of a SHA-1 digest in bytes. -/
def kDigestLength : Nat := 20

abbrev Key := List UInt8
abbrev Value := List UInt8
abbrev Digest := BitVec (8 * kDigestLength)

/-- `offsetof(Slot, data)`: the two length fields. -/
def Slot.headerSize : Nat := 8

/-- `offsetof(Slab, data)`: seven 4-byte fields and the two list pointers. -/
def Slab.headerSize : Nat := 44

/-- `sizeof(IndexEntry)`: digest, two ids, padding and the two list pointers. -/
def IndexEntry.size : Nat := 48

/-- Whether `assert` evaluates its argument. CMake defines NDEBUG in Release. -/
inductive Build where
  | debug
  | release
  deriving DecidableEq, Repr

/-- Geometry and options. The rates are read as exact rationals. The hash of
`std::hash` and the SHA-1 digest are arbitrary functions of the key. -/
structure Config where
  nrChannels : Nat
  blocksPerChannel : Nat
  /-- `block_size_` of the SSD, which is the size of a slab -/
  slabSize : Nat
  /-- The blocks in the order in which `iterate_all_blocks` delivers them -/
  blockOrder : List Nat
  slabMemBudget : Nat
  indexMemBudget : Nat
  indexTableSize : Nat
  opsRate : Rat
  freeBlockWaterMarkLow : Rat
  freeBlockWaterMarkHigh : Rat
  freeBlockSlabWaterMarkLowMin : Rat
  freeBlockSlabWaterMarkHighMax : Rat
  slabClassSize : List Nat
  hasher : Key → Nat
  makeDigest : Key → Digest

/-- Conversion of a product `rate * n` to `int`, which truncates. -/
def truncMul (rate : Rat) (n : Nat) : Int :=
  let product := rate * n
  product.num.tdiv product.den

/-- `a < b` for a `size_t` on the left and an `int` on the right: the
conversion makes a negative right side larger than every size. -/
def sizeLt (a b : Int) : Bool := b < 0 || a < b

namespace Config

def nrBlocks (cfg : Config) : Nat := cfg.nrChannels * cfg.blocksPerChannel
def nrDslab (cfg : Config) : Nat := cfg.nrBlocks
def nrMslab (cfg : Config) : Nat := cfg.slabMemBudget / cfg.slabSize
def nrSlab (cfg : Config) : Nat := cfg.nrMslab + cfg.nrDslab

/-- The last memory slab is set aside for the garbage collector. -/
def gcBuffer (cfg : Config) : Nat := cfg.nrMslab - 1

def channelId (cfg : Config) (blockId : Int) : Nat := blockId.toNat / cfg.blocksPerChannel

def nextChannel (cfg : Config) (channel : Nat) : Nat := (channel + 1) % cfg.nrChannels

def opsSize (cfg : Config) : Int := truncMul cfg.opsRate cfg.blocksPerChannel

def nrSlabClass (cfg : Config) : Nat := cfg.slabClassSize.length

def classSize (cfg : Config) (cid : Nat) : Nat := cfg.slabClassSize.getD cid 0

/-- `slots_per_slab` of `slab_class_init`, which counts the header as data. -/
def slotsPerSlab (cfg : Config) (slotSize : Nat) : Nat := cfg.slabSize / slotSize

/-- Slots of an opened slab, as `slot_alloc` computes them. -/
def slabSlots (cfg : Config) (slotSize : Nat) : Nat := (cfg.slabSize - Slab.headerSize) / slotSize

def nrIndexEntry (cfg : Config) : Nat := cfg.indexMemBudget / IndexEntry.size

/-- Bucket of a key in the index table. -/
def bucketOf (cfg : Config) (key : Key) : Nat := cfg.hasher key % cfg.indexTableSize

/-- Without this the constructor or the first `Put` runs into undefined
behaviour: `iterate_all_blocks` delivers every block once, the size of a slab
is an `int`, there is a slab for the collector, and slots fit into a slab. -/
structure Sound (cfg : Config) : Prop where
  order : cfg.blockOrder.Perm (List.range cfg.nrBlocks)
  slabSize : cfg.slabSize < 2 ^ 31
  memory : 1 ≤ cfg.nrMslab
  classes : ∀ z ∈ cfg.slabClassSize, z ≤ cfg.slabSize - Slab.headerSize

/-- What the options and the SSD have to satisfy. `iterate_all_blocks` delivers
every block once, and the size of a slab is an `int`. -/
structure WellFormed (cfg : Config) : Prop where
  channels : 1 ≤ cfg.nrChannels
  blocks : 1 ≤ cfg.blocksPerChannel
  order : cfg.blockOrder.Perm (List.range cfg.nrBlocks)
  slabSize : cfg.slabSize < 2 ^ 31
  memory : 2 ≤ cfg.nrMslab
  ops : cfg.opsSize ≠ 0
  classes : ∀ z ∈ cfg.slabClassSize, z ≤ cfg.slabSize - Slab.headerSize

theorem WellFormed.sound {cfg : Config} (h : cfg.WellFormed) : cfg.Sound :=
  ⟨h.order, h.slabSize, Nat.le_of_succ_le h.memory, h.classes⟩

end Config

inductive Code where
  | kOK
  | kNotFound
  | kCorruption
  | kObjectTooLarge
  | kBufferTooSmall
  | kShutdown
  deriving DecidableEq, Repr

structure Status where
  code : Code
  msg : String
  deriving DecidableEq, Repr

namespace Status

def ok : Status := ⟨.kOK, ""⟩
def notFound : Status := ⟨.kNotFound, "Key not found"⟩
def objectTooLarge : Status := ⟨.kObjectTooLarge, "Object is too large"⟩
def bufferTooSmall : Status := ⟨.kBufferTooSmall, "Buffer is too small"⟩
def shutdown : Status := ⟨.kShutdown, "KVCache is shutting down"⟩

end Status

/-- The assertions of the source that the model evaluates, by function. -/
inductive Assertion where
  | initChannel
  | getSliceSlotId
  | putOldNrUsed
  | deleteNrUsed
  | slabSlotAllocFull
  | slotAllocPartialFull
  | slotAllocPartialCid
  | flushMslabCid
  | flushDslabFree
  | flushNrFree
  | flushCidEq
  | flushCid
  | gcNrFree
  | quickOpsPoolSize
  | quickSid
  | nrFreeRange
  | checkOpsPool
  | normalCid
  | normalNrUsed
  | normalReclaimed
  | normalOpsPoolSize
  | gcOpsSlab
  | gcSize
  | gcDslabCid
  | gcDslabCidEq
  | gcBufferCid
  deriving DecidableEq, Repr

/-- Why an operation has no next state. -/
inductive Stop where
  /-- an assertion failed in a debug build -/
  | assertion (site : Assertion)
  /-- `index_init` rejects the options -/
  | invalidArgument
  /-- a wait that only another thread can end -/
  | blocked
  /-- a loop that did not end within the given number of iterations -/
  | outOfFuel
  /-- undefined behaviour of the language, such as `top()` of an empty queue -/
  | undefined
  deriving DecidableEq, Repr

/-- `assert(cond)`: not evaluated in a release build. -/
def assertThat (build : Build) (site : Assertion) (cond : Bool) : Except Stop Unit :=
  match build with
  | .release => .ok ()
  | .debug => if cond then .ok () else .error (.assertion site)

theorem assertThat_ok {build : Build} {site : Assertion} {cond : Bool} (h : cond = true) :
    assertThat build site cond = .ok () := by
  subst h
  cases build <;> rfl

end KVCache
