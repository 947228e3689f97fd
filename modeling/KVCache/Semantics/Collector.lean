import KVCache.Semantics.Flush

/-! `do_slab_gc`. Under pressure, quick GC drops full disk slabs with all that
is in them. Otherwise normal GC gathers the live slots of several disk slabs
of one class in `gc_buffer_`, writes them to one over-provisioned slab and
frees the slabs they came from. -/

namespace KVCache.Cache

/-! ### Quick GC -/

/-- Selection loop of `do_quick_gc`. It ends only when enough full disk slabs
were found, so its iterations are bounded from outside. -/
def selectDrop (cfg : Config) : Nat → Int → Cache → List Nat → Except Stop (List Nat × Cache)
  | fuel, nrDslabToDrop, c, toDrop =>
      if nrDslabToDrop ≤ 0 then .ok (toDrop, c)
      else
        match fuel with
        | 0 => .error .outOfFuel
        | fuel + 1 =>
            let channel := cfg.nextChannel c.nextOpsPoolRemoveChannel % cfg.nrChannels
            let c := { c with
              nextOpsPoolRemoveChannel := (c.nextOpsPoolRemoveChannel + 1) % cfg.nrChannels }
            match (c.dslabFull channel).list with
            | [] => selectDrop cfg fuel nrDslabToDrop c toDrop
            | d :: _ =>
                let c := { c with
                  dslabFull := c.dslabFull.modify channel (·.del d)
                  nrFullDslab := c.nrFullDslab - 1 }
                selectDrop cfg fuel (nrDslabToDrop - 1) c (d :: toDrop)

/-- The loop of `evict_dslab`. It reads its slab a second time into the buffer
that already holds it; the assignment of the header to itself does nothing,
so the header is the one stored in the block. Every key found in the slab
loses its entry, wherever that entry points. -/
def evictDslab (cfg : Config) (c : Cache) (d : Nat) : Cache :=
  let fake := c.block d
  { c with
    index := (List.range fake.nrAlloc).foldl
      (fun ix slotId => ix.delIndexEntry cfg (fake.slotKey slotId)) c.index }

/-- One dropped slab under the index lock: its entries go and its own count is
cleared. -/
def dropDslab (build : Build) (cfg : Config) (c : Cache) (d : Nat) : Except Stop Cache := do
  assertThat build .quickSid ((c.readDslab d).sid = (c.slabs d).sid)
  let c := c.evictDslab cfg d
  return { c with slabs := c.slabs.modify d fun s => { s with nrUsed := 0 } }

/-- First loop over the dropped slabs, with its counter `i`. The slab at which
the counter reaches the number wanted has been unlinked before the loop is
left. -/
def backToOpsPool (cfg : Config) (nrBackToOpsPool : Int) : Int → List Nat → Cache → List Nat × Cache
  | _, [], c => ([], c)
  | i, d :: rest, c =>
      let c := c.resetSlab d
      if i ≥ nrBackToOpsPool then (rest, c)
      else
        let channel := cfg.channelId (c.slabs d).blockId
        backToOpsPool cfg nrBackToOpsPool (i + 1) rest { c with
          opsPool := c.opsPool.modify channel (·.add d)
          opsPoolSize := c.opsPoolSize + 1 }

/-- Link a slab into the free list of a channel. -/
def linkDslabFree (build : Build) (cfg : Config) (channel : Nat) (c : Cache) (d : Nat) :
    Except Stop Cache := do
  let c := c.resetSlab d
  let c := { c with
    dslabFree := c.dslabFree.modify channel (·.add d)
    nrFreeDslab := c.nrFreeDslab + 1 }
  assertThat build .nrFreeRange (0 ≤ c.nrFreeDslab ∧ c.nrFreeDslab ≤ (cfg.nrBlocks : Int))
  return c

/-- Second loop over the dropped slabs. -/
def backToDslabFree (build : Build) (cfg : Config) (c : Cache) (d : Nat) : Except Stop Cache :=
  c.linkDslabFree build cfg (cfg.channelId (c.slabs d).blockId) d

def opsPoolSizeOk (c : Cache) : Bool := 0 < c.opsPoolSize ∧ c.opsPoolSize ≤ c.maxOpsPoolSize

def doQuickGc (build : Build) (cfg : Config) (fuel : Nat)
    (nrBackToFreeDslab nrBackToOpsPool : Int) (c : Cache) : Except Stop Cache := do
  assertThat build .quickOpsPoolSize c.opsPoolSizeOk
  assertThat build .checkOpsPool c.checkOpsPool
  let (toDrop, c) ← selectDrop cfg fuel (nrBackToFreeDslab + nrBackToOpsPool) c []
  let c ← toDrop.foldlM (dropDslab build cfg) c
  let (rest, c) := backToOpsPool cfg nrBackToOpsPool 0 toDrop c
  let c ← rest.foldlM (backToDslabFree build cfg) c
  assertThat build .checkOpsPool c.checkOpsPool
  return c

/-- The two water marks after `quick_gc` raised them. -/
def quickWaterMarks (c : Cache) : Int × Int :=
  let high := min ((15 * c.freeBlockWaterMarkHigh).tdiv 10) c.freeBlockWaterMarkHighMax
  let low := min ((15 * c.freeBlockWaterMarkLow).tdiv 10) ((9 * high).tdiv 10)
  (min low c.maxOpsPoolSize, high)

/-- How many slabs `quick_gc` asks for, for the free lists and the pool. -/
def quickAmounts (c : Cache) : Int × Int :=
  let low := c.quickWaterMarks.1
  ((10 * (low - c.nrFreeDslab) + 3 * low).tdiv 10,
    min c.opsPoolSize (c.maxOpsPoolSize - c.opsPoolSize))

def quickGc (build : Build) (cfg : Config) (fuel : Nat) (c : Cache) : Except Stop Cache := do
  assertThat build .gcNrFree (-1 < c.nrFreeDslab)
  assertThat build .quickOpsPoolSize c.opsPoolSizeOk
  let (low, high) := c.quickWaterMarks
  let (nrBackToFreeDslab, nrBackToOpsPool) := c.quickAmounts
  doQuickGc build cfg fuel nrBackToFreeDslab nrBackToOpsPool
    { c with freeBlockWaterMarkLow := low, freeBlockWaterMarkHigh := high }

/-! ### Choosing the victims of normal GC -/

/-- What `SlabGCPriorityComparator` compares. -/
def gcWeight (c : Cache) (d : Nat) : Int := (c.slabs d).nrUsed * (c.slabs d).slotSize

/-- `push` of a priority queue, kept as a list with the largest weight first. -/
def pqPush (weight : Nat → Int) (d : Nat) : List Nat → List Nat
  | [] => [d]
  | x :: rest => if weight x ≤ weight d then d :: x :: rest else x :: pqPush weight d rest

/-- One full disk slab of the bounded scan. -/
def scanDslab (c : Cache) (pq : List Nat) (d : Nat) : Except Stop (List Nat) :=
  if sizeLt pq.length (3 * c.opsPoolSize) then .ok (pqPush c.gcWeight d pq)
  else
    match pq with
    | [] => .error .undefined
    | top :: rest =>
        if c.gcWeight d < c.gcWeight top then .ok (pqPush c.gcWeight d rest) else .ok pq

/-- The slabs kept by the scan over all channels, largest weight first. -/
def scanDslabs (cfg : Config) (c : Cache) : Except Stop (List Nat) :=
  ((List.range cfg.nrChannels).flatMap fun channel => (c.dslabFull channel).list).foldlM
    c.scanDslab []

/-- The kept slabs of one class, from the back of its vector. -/
def classToDrop (c : Cache) (kept : List Nat) (cid : Nat) : List Nat :=
  (kept.filter fun d => (c.slabs d).cid = cid).reverse

/-- The slabs of a class whose live slots together fit into one slab. -/
def takeBatch (build : Build) (c : Cache) : List Nat → Int → Except Stop (List Nat)
  | [], _ => .ok []
  | d :: rest, nrSlotsMoved => do
      let nrUsed := (c.slabs d).nrUsed
      assertThat build .normalNrUsed (0 ≤ nrUsed)
      if nrUsed + nrSlotsMoved > (c.slabs d).nrSlots then return []
      return d :: (← takeBatch build c rest (nrSlotsMoved + nrUsed))

/-! ### Collecting one batch -/

/-- The search of `gc_dslabs` over the channels for an over-provisioned slab. -/
def takeOpsFrom (cfg : Config) (begin : Nat) : Nat → Cache → Option Nat × Cache
  | 0, c => (none, c)
  | rounds + 1, c =>
      let channel := c.nextOpsPoolRemoveChannel
      let c := { c with nextOpsPoolRemoveChannel := cfg.nextChannel channel }
      match (c.opsPool channel).list with
      | d :: _ =>
          (some d, { c with
            opsPool := c.opsPool.modify channel (·.del d)
            opsPoolSize := c.opsPoolSize - 1 })
      | [] =>
          if begin ≠ c.nextOpsPoolRemoveChannel then takeOpsFrom cfg begin rounds c else (none, c)

def takeOps (cfg : Config) (c : Cache) : Option Nat × Cache :=
  takeOpsFrom cfg c.nextOpsPoolRemoveChannel cfg.nrChannels c

/-- The over-provisioned slab becomes a full slab, before it holds anything. -/
def linkOps (cfg : Config) (c : Cache) (ops : Nat) : Cache :=
  let c := c.resetSlab ops
  { c with dslabFull := c.dslabFull.modify (cfg.channelId (c.slabs ops).blockId) (·.add ops) }

/-- A slab of the batch leaves the full list of its channel for `free_list`. -/
def unlinkDrop (cfg : Config) (state : Cache × Table SlabList) (d : Nat) : Cache × Table SlabList :=
  let (c, freeList) := state
  let channel := cfg.channelId (c.slabs d).blockId
  ({ c with
      dslabFull := c.dslabFull.modify channel (·.del d)
      nrFullDslab := c.nrFullDslab - 1 },
    freeList.modify channel (·.add d))

/-- The section of `gc_dslabs` under the lock of the full lists. -/
def relinkFull (cfg : Config) (c : Cache) (ops : Nat) (toDrop : List Nat)
    (freeList : Table SlabList) : Cache × Table SlabList :=
  toDrop.foldl (unlinkDrop cfg) (c.linkOps cfg ops, freeList)

/-- The buffer is set up for the class of the batch. -/
def prepareBuffer (cfg : Config) (c : Cache) (d : Nat) : Cache :=
  let s := c.slabs d
  { c with
    slabs := c.slabs.modify cfg.gcBuffer fun g =>
      { g.reset with slotSize := s.slotSize, nrSlots := s.nrSlots, cid := s.cid } }

/-- One slot of a dropped slab: when the index points to it, it is copied to
the buffer and the index follows. -/
def moveSlot (build : Build) (cfg : Config) (d : Nat) (fake : Slab) (c : Cache) (slotId : Nat) :
    Except Stop Cache :=
  match c.index.getIndexEntry cfg (fake.slotKey slotId) with
  | none => .ok c
  | some e =>
      let entry := c.index.entries e
      if entry.slabId = (c.slabs d).sid ∧ entry.slotId = slotId then do
        let (slab, newSlot) ← (c.slabs cfg.gcBuffer).slotAlloc build
        let slab := slab.writeSlot newSlot (fake.slotKey slotId) (fake.slotValue slotId)
        return { c with
          slabs := c.slabs.set cfg.gcBuffer slab
          index := c.index.repoint e slab.sid newSlot }
      else .ok c

/-- The live slots of one dropped slab move to the buffer, under the index
lock; `fake` is what was read from its block before. -/
def moveLive (build : Build) (cfg : Config) (c : Cache) (d : Nat) (fake : Slab) :
    Except Stop Cache := do
  let c ← (List.range fake.nrAlloc).foldlM (moveSlot build cfg d fake) c
  return { c with slabs := c.slabs.modify d fun s => { s with nrUsed := 0 } }

/-- The checks before a dropped slab is read, with the running size. -/
def checkMove (build : Build) (cfg : Config) (c : Cache) (size : Int) (d : Nat) :
    Except Stop Int := do
  let size := size + (c.slabs d).nrUsed
  assertThat build .gcSize (size ≤ (c.slabs cfg.gcBuffer).nrSlots)
  assertThat build .gcDslabCid ((c.slabs d).cid ≠ -1)
  assertThat build .gcDslabCidEq ((c.slabs d).cid = (c.slabs cfg.gcBuffer).cid)
  return size

def moveDslab (build : Build) (cfg : Config) (state : Cache × Int) (d : Nat) :
    Except Stop (Cache × Int) := do
  let (c, size) := state
  let size ← c.checkMove build cfg size d
  let c ← c.moveLive build cfg d (c.readDslab d)
  return (c, size)

def gcDslabs (build : Build) (cfg : Config) (toDrop : List Nat) (c : Cache)
    (freeList : Table SlabList) : Except Stop (Cache × Table SlabList) := do
  match c.takeOps cfg, toDrop with
  | (some ops, c), first :: _ => do
      let (c, freeList) := c.relinkFull cfg ops toDrop freeList
      let c := c.prepareBuffer cfg first
      let (c, _) ← toDrop.foldlM (moveDslab build cfg) (c, 0)
      assertThat build .gcBufferCid ((c.slabs cfg.gcBuffer).cid ≠ -1)
      let c := c.flushMslabToDslab cfg cfg.gcBuffer ops
      return (c.modifyIndexTo cfg cfg.gcBuffer ops, freeList)
  | (some _, _), [] => throw .undefined
  | (none, _), _ => do
      assertThat build .gcOpsSlab false
      throw .undefined

/-! ### Normal GC -/

/-- The loop over the classes. It is left for good when a batch is ready and
the pool of over-provisioned slabs is empty. -/
def collectClasses (build : Build) (cfg : Config) (kept : Nat → List Nat) :
    List Nat → Cache → Table SlabList → Except Stop (Cache × Table SlabList)
  | [], c, freeList => .ok (c, freeList)
  | cid :: rest, c, freeList => do
      let toDrop ← c.takeBatch build (kept cid) 0
      if toDrop.length > 1 then
        if c.opsPoolSize ≤ 0 then return (c, freeList)
        let (c, freeList) ← c.gcDslabs build cfg toDrop freeList
        collectClasses build cfg kept rest c freeList
      else collectClasses build cfg kept rest c freeList

/-- Water marks and the size wanted for the pool of over-provisioned slabs. -/
def tuneOpsPool (c : Cache) (oldOpsSize : Int) : Int × Cache :=
  if c.nrFreeDslab > c.freeBlockWaterMarkHigh then
    let low := max (c.freeBlockWaterMarkLow - 10) c.freeBlockWaterMarkLowMin
    let high := max (c.freeBlockWaterMarkHigh - 10) ((11 * low).tdiv 10)
    (max 10 (oldOpsSize - 1),
      { c with freeBlockWaterMarkLow := low, freeBlockWaterMarkHigh := high })
  else (oldOpsSize, c)

/-- A freed slab of a channel goes back to the pool. -/
def refillOps (c : Cache) (freeList : Table SlabList) (channel d : Nat) : Cache × Table SlabList :=
  let c := c.resetSlab d
  ({ c with
      opsPool := c.opsPool.modify channel (·.add d)
      opsPoolSize := c.opsPoolSize + 1 },
    freeList.modify channel fun l => { l with list := l.list.erase d })

/-- Refill loop: `left` slabs are still to be given back, one channel at a
time, with the iterations bounded from outside. -/
def refillOpsPool (cfg : Config) : Nat → Int → Nat → Cache → Table SlabList →
    Except Stop (Cache × Table SlabList)
  | fuel, left, channel, c, freeList =>
      if left ≤ 0 then .ok (c, freeList)
      else
        match fuel with
        | 0 => .error .outOfFuel
        | fuel + 1 =>
            match (freeList channel).list with
            | [] => refillOpsPool cfg fuel left (cfg.nextChannel channel) c freeList
            | d :: _ =>
                let (c, freeList) := c.refillOps freeList channel d
                refillOpsPool cfg fuel (left - 1) (cfg.nextChannel channel) c freeList

/-- One iteration of the loop that shrinks the pool. -/
def shrinkOps (cfg : Config) (c : Cache) (freeList : Table SlabList) : Cache × Table SlabList :=
  let channel := cfg.nextChannel c.nextOpsPoolRemoveChannel
  let c := { c with
    nextOpsPoolRemoveChannel := (c.nextOpsPoolRemoveChannel + 1) % cfg.nrChannels }
  match (c.opsPool channel).list with
  | [] => (c, freeList)
  | d :: _ =>
      let c := { c with
        opsPool := c.opsPool.modify channel (·.del d)
        opsPoolSize := c.opsPoolSize - 1 }
      (c.resetSlab d, freeList.modify channel (·.add d))

def shrinkOpsPool (cfg : Config) : Nat → Cache → Table SlabList → Cache × Table SlabList
  | 0, c, freeList => (c, freeList)
  | count + 1, c, freeList =>
      let (c, freeList) := c.shrinkOps cfg freeList
      shrinkOpsPool cfg count c freeList

/-- All slabs left on `free_list` become free. -/
def reclaim (build : Build) (cfg : Config) (c : Cache) (freeList : Table SlabList) :
    Except Stop Cache :=
  (List.range cfg.nrChannels).foldlM
    (fun c channel => (freeList channel).list.foldlM (linkDslabFree build cfg channel) c) c

def nrReclaimed (freeList : Table SlabList) : Int := (freeList.cells.map SlabList.size).sum

/-- The part of `normal_gc` after the label `tune_ops_pool_size`. -/
def finishNormalGc (build : Build) (cfg : Config) (fuel : Nat) (oldOpsSize : Int) (c : Cache)
    (freeList : Table SlabList) : Except Stop Cache := do
  let (newOpsSize, c) := c.tuneOpsPool oldOpsSize
  let opsDslabConsumed := oldOpsSize - c.opsPoolSize
  assertThat build .normalReclaimed
    (nrReclaimed freeList = 0 ∨ opsDslabConsumed ≤ nrReclaimed freeList)
  let (c, freeList) ← refillOpsPool cfg fuel opsDslabConsumed 0 c freeList
  assertThat build .normalOpsPoolSize (c.opsPoolSize ≤ oldOpsSize)
  let (c, freeList) := shrinkOpsPool cfg (c.opsPoolSize - newOpsSize).toNat c freeList
  let c ← c.reclaim build cfg freeList
  assertThat build .checkOpsPool c.checkOpsPool
  return c

def normalGc (build : Build) (cfg : Config) (fuel : Nat) (c : Cache) : Except Stop Cache := do
  let pq ← c.scanDslabs cfg
  assertThat build .normalCid (pq.all fun d => (c.slabs d).cid ≠ -1)
  let oldOpsSize := c.opsPoolSize
  let freeList : Table SlabList := ⟨List.replicate cfg.nrChannels default⟩
  let (c', freeList) ←
    collectClasses build cfg (c.classToDrop pq) (List.range cfg.nrSlabClass) c freeList
  c'.finishNormalGc build cfg fuel oldOpsSize freeList

/-- One round of `do_slab_gc`, once a full disk slab has been reported. -/
def doSlabGc (build : Build) (cfg : Config) (fuel : Nat) (c : Cache) : Except Stop Cache := do
  if c.nrFullDslab ≤ 0 then throw .blocked
  assertThat build .gcNrFree (0 ≤ c.nrFreeDslab)
  if c.index.nrFreeIndexEntry = 0 then doQuickGc build cfg fuel 1 0 c
  else if c.nrFreeDslab < c.freeBlockWaterMarkLow then quickGc build cfg fuel c
  else normalGc build cfg fuel c

end KVCache.Cache
