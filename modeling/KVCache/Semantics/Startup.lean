import KVCache.Semantics.State

/-! Construction of a cache: all memory slabs but the last are free, every
block of the SSD gets a disk slab, and each channel sets its first blocks
aside as over-provisioned space. -/

namespace KVCache.Cache

/-- The memory slabs that `slab_init` links into `mslab_free_`. -/
def initMslabFree (cfg : Config) : SlabList :=
  (List.range cfg.nrSlab).foldl
    (fun l (i : Nat) => if sizeLt i ((cfg.nrMslab : Int) - 1) then l.add i else l) default

/-- The state after the loop over all slabs and before any block is assigned,
with the index area of `index_init` and the water marks of the constructor. -/
def initEmpty (cfg : Config) : Cache :=
  let lowMin := max 1 (truncMul cfg.freeBlockSlabWaterMarkLowMin cfg.nrBlocks)
  let highMax := max (lowMin + 10) (truncMul cfg.freeBlockSlabWaterMarkHighMax cfg.nrBlocks)
  { slabs := ⟨(List.range cfg.nrSlab).map fun i => { (default : Slab) with sid := i }⟩
    disk := ⟨[]⟩
    index :=
      { entries := ⟨List.replicate cfg.nrIndexEntry default⟩
        table := ⟨List.replicate cfg.indexTableSize []⟩
        freeIndexEntry := (List.range cfg.nrIndexEntry).reverse
        nrFreeIndexEntry := cfg.nrIndexEntry }
    mslabFree := initMslabFree cfg
    mslabFull := default
    slabPartial := ⟨List.replicate cfg.nrSlabClass []⟩
    dslabFree := ⟨List.replicate cfg.nrChannels default⟩
    dslabFull := ⟨List.replicate cfg.nrChannels default⟩
    opsPool := ⟨List.replicate cfg.nrChannels default⟩
    maxOpsPoolSize := 0
    opsPoolSize := 0
    nrFreeDslab := 0
    nrFullDslab := 0
    nextMslabFlushChannel := 0
    nextOpsPoolRemoveChannel := 0
    freeBlockWaterMarkLow := max lowMin (truncMul cfg.freeBlockWaterMarkLow cfg.nrBlocks)
    freeBlockWaterMarkHigh := min highMax (truncMul cfg.freeBlockWaterMarkHigh cfg.nrBlocks)
    freeBlockWaterMarkLowMin := lowMin
    freeBlockWaterMarkHighMax := highMax }

/-- One call of the function that `slab_init` passes to `iterate_all_blocks`. -/
def initBlock (build : Build) (cfg : Config) (state : Cache × Nat) (blockId : Nat) :
    Except Stop (Cache × Nat) := do
  let (c, slabId) := state
  let channel := cfg.channelId blockId
  let c := { c with slabs := c.slabs.modify slabId fun s => { s with blockId := blockId } }
  assertThat build .initChannel (channel < cfg.nrChannels)
  if sizeLt (c.opsPool channel).size cfg.opsSize then
    return ({ c with
      opsPool := c.opsPool.modify channel (·.add slabId)
      opsPoolSize := c.opsPoolSize + 1 }, slabId + 1)
  else
    let c := { c with
      dslabFree := c.dslabFree.modify channel (·.add slabId)
      nrFreeDslab := c.nrFreeDslab + 1 }
    assertThat build .nrFreeRange (0 ≤ c.nrFreeDslab ∧ c.nrFreeDslab ≤ (cfg.nrBlocks : Int))
    return (c, slabId + 1)

def slabInit (build : Build) (cfg : Config) : Except Stop Cache := do
  let (c, _) ← cfg.blockOrder.foldlM (initBlock build cfg) (initEmpty cfg, cfg.nrMslab)
  let c := { c with maxOpsPoolSize := c.opsPoolSize }
  assertThat build .checkOpsPool c.checkOpsPool
  return c

/-- Entries for one slab of every class, the least that `index_init` accepts. -/
def minNrIndexEntry (cfg : Config) : Nat :=
  (cfg.slabClassSize.map cfg.slotsPerSlab).sum

/-- The constructor. -/
def create (build : Build) (cfg : Config) : Except Stop Cache := do
  let c ← slabInit build cfg
  if cfg.nrIndexEntry < minNrIndexEntry cfg then throw .invalidArgument
  return c

end KVCache.Cache

namespace KVCache

/-! ### Default options -/

def kMaxNumSlabClass : Nat := 50
def KB : Nat := 1024
def MB : Nat := 1024 * 1024
def GB : Nat := 1024 * MB

/-- The loop of `default_slab_class_size` from class `i` on, with the size of the
class before. The sizes double up to the largest slot; the class at which the
loop notices this is not counted. -/
def slabClassSizes (maxSlotSize : Int) : Nat → Nat → Int → Int → List Int
  | 0, _, _, _ => []
  | left + 1, i, last, currSize =>
      if 1 < i ∧ maxSlotSize ≤ last then []
      else currSize :: slabClassSizes maxSlotSize left (i + 1) currSize
        (min (2 * currSize) maxSlotSize)

def defaultSlabClassSize (slabSize minKvSize maxNrSlabClass : Nat) : List Int :=
  slabClassSizes (slabSize - Slab.headerSize) maxNrSlabClass 0 0 (minKvSize + Slot.headerSize)

/-- `DefaultOptions` for an SSD, which delivers its blocks in some order. -/
def Config.defaultOptions (nrChannels blocksPerChannel blockSize : Nat) (blockOrder : List Nat)
    (hasher : Key → Nat) (makeDigest : Key → Digest) : Config where
  nrChannels := nrChannels
  blocksPerChannel := blocksPerChannel
  slabSize := blockSize
  blockOrder := blockOrder
  slabMemBudget := 1 * GB
  indexMemBudget := 100 * MB
  indexTableSize := 512 * KB
  opsRate := 2 / 10
  freeBlockSlabWaterMarkLowMin := 2 / 100
  freeBlockSlabWaterMarkHighMax := 90 / 100
  freeBlockWaterMarkLow := 7 / 100
  freeBlockWaterMarkHigh := 80 / 100
  slabClassSize := (defaultSlabClassSize blockSize 32 kMaxNumSlabClass).map Int.toNat
  hasher := hasher
  makeDigest := makeDigest

end KVCache
