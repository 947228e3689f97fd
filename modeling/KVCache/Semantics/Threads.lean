import KVCache.Semantics.System

/-! The writer, the flush thread and the collector, interleaved. A step is one
critical section of the code, or a stretch of code that no other thread can
look into; between two steps any other thread may run. Every thread keeps its
place in the code together with its local variables. `Delete` and the lookup
of `Get` are single critical sections and may come from any thread. -/

namespace KVCache

/-- The writer in `Put`. -/
inductive WriterAt where
  | idle
  /-- before the index update -/
  | written (p : PendingPut)
  /-- in the wait for an unused index entry -/
  | waiting (p : PendingPut)
  /-- after the index update -/
  | indexed (sid : Nat)
  deriving DecidableEq, Repr

/-- The flush thread in `do_slab_flush`, with the full memory slab, the disk
slab and its channel. -/
inductive FlushAt where
  | idle
  | holding (m : Nat)
  | found (m d channel : Nat)
  | written (m d channel : Nat)
  | copied (m d channel : Nat)
  | moved (m d channel : Nat)
  | reset (m d channel : Nat)
  | freed (d channel : Nat)
  deriving DecidableEq, Repr

/-- Local variables of `normal_gc`. -/
structure NormalGc where
  /-- `slab_class_to_drop`, every vector from its back -/
  slabClassToDrop : Table (List Nat)
  freeList : Table SlabList
  oldOpsSize : Int
  deriving DecidableEq, Repr

/-- The collector in `do_slab_gc`. -/
inductive GcAt where
  | idle
  | awake
  | decide (nrFreeDslab : Int)
  /-- `quick_gc` before the water marks are raised -/
  | quickTune
  | quickSelect (nrBackToFreeDslab nrBackToOpsPool : Int)
  /-- the loop over the dropped slabs, with those not yet evicted -/
  | quickEvict (nrBackToOpsPool : Int) (toDrop todo : List Nat)
  | quickFree (rest : List Nat)
  /-- `normal_gc` before the scan of a channel -/
  | scan (channel : Nat) (pq : List Nat)
  /-- the inner loop for a class, with the candidates that are left -/
  | batch (n : NormalGc) (cid : Nat) (toDrop : List Nat) (nrSlotsMoved : Int) (left : List Nat)
  /-- `gc_dslabs` from its start on -/
  | take (n : NormalGc) (cid : Nat) (toDrop : List Nat)
  | relink (n : NormalGc) (cid ops : Nat) (toDrop : List Nat)
  | prepare (n : NormalGc) (cid ops : Nat) (toDrop : List Nat)
  /-- the loop over the batch -/
  | check (n : NormalGc) (cid ops : Nat) (size : Int) (todo : List Nat)
  /-- the same with the next slab read and the index lock not yet taken -/
  | move (n : NormalGc) (cid ops : Nat) (size : Int) (d : Nat) (fake : Slab) (todo : List Nat)
  | copy (n : NormalGc) (cid ops : Nat)
  | modify (n : NormalGc) (cid ops : Nat)
  /-- the label `tune_ops_pool_size` -/
  | tune (n : NormalGc)
  | refill (n : NormalGc) (newOpsSize left : Int) (channel : Nat)
  | shrink (n : NormalGc) (count : Nat)
  | reclaim (n : NormalGc)
  deriving DecidableEq, Repr

/-- The collector is in `normal_gc`. -/
def GcAt.InNormalGc : GcAt → Prop
  | .idle | .awake | .decide _ | .quickTune | .quickSelect _ _ | .quickEvict _ _ _
  | .quickFree _ => False
  | _ => True

structure Threads where
  cache : Cache
  writer : WriterAt
  flush : FlushAt
  gc : GcAt
  deriving DecidableEq, Repr

/-- Who makes the next step. A step of the collector comes with what the model
leaves open: the selection of the heap and a bound for a loop. -/
inductive Act where
  | put (key : Key) (value : Value)
  | writer
  | delete (key : Key)
  | flush
  | gc (pick : List Nat) (fuel : Nat)
  deriving DecidableEq, Repr

namespace Threads

/-- No operation is in progress. -/
def rest (c : Cache) : Threads := ⟨c, .idle, .idle, .idle⟩

/-! ### The writer -/

/-- `Put` up to the written slot. -/
def beginPut (build : Build) (cfg : Config) (t : Threads) (key : Key) (value : Value) :
    Except Stop Threads :=
  match t.writer with
  | .idle => do
      match ← t.cache.putSlot build cfg key value with
      | .tooLarge => return t
      | .wait => throw .blocked
      | .slot c sid slotId => return { t with cache := c, writer := .written ⟨key, value, sid, slotId⟩ }
  | _ => .error .blocked

def stepWriter (build : Build) (cfg : Config) (t : Threads) : Except Stop (Threads × List Event) :=
  match t.writer with
  | .idle => .error .blocked
  | .written p => do
      match ← t.cache.putIndex build cfg p.key p.sid p.slotId with
      | some c => return ({ t with cache := c, writer := .indexed p.sid }, [.put p.key p.value])
      | none => return ({ t with writer := .waiting p }, [])
  | .waiting p =>
      match t.cache.insertEntry cfg p.key p.sid p.slotId with
      | some c => .ok ({ t with cache := c, writer := .indexed p.sid }, [.put p.key p.value])
      | none => .error .blocked
  | .indexed sid => .ok ({ t with cache := t.cache.putFull sid, writer := .idle }, [])

/-! ### The flush thread -/

def stepFlush (build : Build) (cfg : Config) (c : Cache) : FlushAt → Except Stop (Cache × FlushAt)
  | .idle => do
      let (m, c) ← c.takeFull build
      return (c, .holding m)
  | .holding m => do
      match ← c.takeFree build cfg with
      | (some (d, channel), c) => return (c, .found m d channel)
      | (none, c) => return (c, .holding m)
  | .found m d channel => .ok (c.writeBlock cfg m d, .written m d channel)
  | .written m d channel => .ok (c.copyHeader m d, .copied m d channel)
  | .copied m d channel => do
      assertThat build .flushCidEq ((c.slabs d).cid = (c.slabs m).cid)
      assertThat build .flushCid ((c.slabs d).cid ≠ -1)
      return (c.modifyIndexTo cfg m d, .moved m d channel)
  | .moved m d channel => .ok (c.resetSlab m, .reset m d channel)
  | .reset m d channel => .ok (c.linkMslabFree m, .freed d channel)
  | .freed d channel => .ok (c.linkDslabFull d channel, .idle)

/-! ### The collector -/

/-- How many slabs the heap holds once it has seen `count` more. -/
def heapSize (limit : Int) : Nat → Nat → Nat
  | size, 0 => size
  | size, count + 1 => heapSize limit (if sizeLt size limit then size + 1 else size) count

/-- The heap after the scan of a channel. Use counts change while the heap is
ordered by them, so of the slabs it has seen it may keep any, in any order;
only their number is certain. -/
def HeapKeeps (c : Cache) (channel : Nat) (pq pick : List Nat) : Prop :=
  pick.Nodup ∧ (∀ d ∈ pick, d ∈ pq ∨ d ∈ (c.dslabFull channel).list) ∧
    pick.length = heapSize (3 * c.opsPoolSize) pq.length (c.dslabFull channel).list.length

instance (c : Cache) (channel : Nat) (pq pick : List Nat) :
    Decidable (HeapKeeps c channel pq pick) := inferInstanceAs (Decidable (_ ∧ _))

/-- The start of the outer loop of `normal_gc` for a class, or its end. -/
def startClass (cfg : Config) (n : NormalGc) (cid : Nat) : GcAt :=
  if cid < cfg.nrSlabClass then .batch n cid [] 0 (n.slabClassToDrop cid) else .tune n

/-- What follows once the batch of a class is complete. -/
def endBatch (cfg : Config) (c : Cache) (n : NormalGc) (cid : Nat) (toDrop : List Nat) : GcAt :=
  if toDrop.length > 1 then
    if c.opsPoolSize ≤ 0 then .tune n else .take n cid toDrop
  else startClass cfg n (cid + 1)

/-- `do_slab_gc` outside of `normal_gc`. -/
def stepQuick (build : Build) (cfg : Config) (fuel : Nat) (c : Cache) :
    GcAt → Except Stop (Cache × GcAt)
  | .idle => if c.nrFullDslab ≤ 0 then .error .blocked else .ok (c, .awake)
  | .awake => do
      assertThat build .gcNrFree (0 ≤ c.nrFreeDslab)
      return (c, .decide c.nrFreeDslab)
  | .decide nrFreeDslab =>
      if c.index.nrFreeIndexEntry = 0 then .ok (c, .quickSelect 1 0)
      else if nrFreeDslab < c.freeBlockWaterMarkLow then .ok (c, .quickTune)
      else .ok (c, .scan 0 [])
  | .quickTune => do
      assertThat build .gcNrFree (-1 < c.nrFreeDslab)
      assertThat build .quickOpsPoolSize c.opsPoolSizeOk
      let (low, high) := c.quickWaterMarks
      let (nrBackToFreeDslab, nrBackToOpsPool) := c.quickAmounts
      return ({ c with freeBlockWaterMarkLow := low, freeBlockWaterMarkHigh := high },
        .quickSelect nrBackToFreeDslab nrBackToOpsPool)
  | .quickSelect nrBackToFreeDslab nrBackToOpsPool => do
      assertThat build .quickOpsPoolSize c.opsPoolSizeOk
      assertThat build .checkOpsPool c.checkOpsPool
      let (toDrop, c) ← c.selectDrop cfg fuel (nrBackToFreeDslab + nrBackToOpsPool) []
      return (c, .quickEvict nrBackToOpsPool toDrop toDrop)
  | .quickEvict nrBackToOpsPool toDrop (d :: todo) => do
      return (← c.dropDslab build cfg d, .quickEvict nrBackToOpsPool toDrop todo)
  | .quickEvict nrBackToOpsPool toDrop [] =>
      let (rest, c) := Cache.backToOpsPool cfg nrBackToOpsPool 0 toDrop c
      .ok (c, .quickFree rest)
  | .quickFree rest => do
      let c ← rest.foldlM (Cache.backToDslabFree build cfg) c
      assertThat build .checkOpsPool c.checkOpsPool
      return (c, .idle)
  | _ => .error .blocked

/-- `normal_gc` up to a complete batch. -/
def stepChoose (build : Build) (cfg : Config) (pick : List Nat) (c : Cache) :
    GcAt → Except Stop (Cache × GcAt)
  | .scan channel pq =>
      if channel < cfg.nrChannels then
        if pq = [] ∧ (c.dslabFull channel).list ≠ [] ∧ ¬sizeLt 0 (3 * c.opsPoolSize) then
          .error .undefined
        else if HeapKeeps c channel pq pick then .ok (c, .scan (channel + 1) pick)
        else .error .blocked
      else do
        assertThat build .normalCid (pq.all fun d => (c.slabs d).cid ≠ -1)
        return (c, startClass cfg
          ⟨⟨(List.range cfg.nrSlabClass).map (c.classToDrop pq)⟩,
            ⟨List.replicate cfg.nrChannels default⟩, c.opsPoolSize⟩ 0)
  | .batch n cid toDrop nrSlotsMoved (d :: left) => do
      let nrUsed := (c.slabs d).nrUsed
      assertThat build .normalNrUsed (0 ≤ nrUsed)
      if nrUsed + nrSlotsMoved > (c.slabs d).nrSlots then return (c, endBatch cfg c n cid toDrop)
      return (c, .batch n cid (toDrop ++ [d]) (nrSlotsMoved + nrUsed) left)
  | .batch n cid toDrop _ [] => .ok (c, endBatch cfg c n cid toDrop)
  | _ => .error .blocked

/-- `gc_dslabs`. -/
def stepCollect (build : Build) (cfg : Config) (c : Cache) : GcAt → Except Stop (Cache × GcAt)
  | .take n cid toDrop =>
      match c.takeOps cfg with
      | (some ops, c) => .ok (c, .relink n cid ops toDrop)
      | (none, _) => do
          assertThat build .gcOpsSlab false
          throw .undefined
  | .relink n cid ops toDrop =>
      let (c, freeList) := c.relinkFull cfg ops toDrop n.freeList
      .ok (c, .prepare { n with freeList := freeList } cid ops toDrop)
  | .prepare n cid ops toDrop =>
      match toDrop with
      | first :: _ => .ok (c.prepareBuffer cfg first, .check n cid ops 0 toDrop)
      | [] => .error .undefined
  | .check n cid ops size (d :: todo) => do
      return (c, .move n cid ops (← c.checkMove build cfg size d) d (c.readDslab d) todo)
  | .check n cid ops _ [] => do
      assertThat build .gcBufferCid ((c.slabs cfg.gcBuffer).cid ≠ -1)
      return (c.writeBlock cfg cfg.gcBuffer ops, .copy n cid ops)
  | .move n cid ops size d fake todo => do
      return (← c.moveLive build cfg d fake, .check n cid ops size todo)
  | .copy n cid ops => .ok (c.copyHeader cfg.gcBuffer ops, .modify n cid ops)
  | .modify n cid ops => .ok (c.modifyIndexTo cfg cfg.gcBuffer ops, startClass cfg n (cid + 1))
  | _ => .error .blocked

/-- `normal_gc` from the label `tune_ops_pool_size` on. -/
def stepHandBack (build : Build) (cfg : Config) (c : Cache) : GcAt → Except Stop (Cache × GcAt)
  | .tune n => do
      let (newOpsSize, c) := c.tuneOpsPool n.oldOpsSize
      let opsDslabConsumed := n.oldOpsSize - c.opsPoolSize
      assertThat build .normalReclaimed
        (Cache.nrReclaimed n.freeList = 0 ∨ opsDslabConsumed ≤ Cache.nrReclaimed n.freeList)
      return (c, .refill n newOpsSize opsDslabConsumed 0)
  | .refill n newOpsSize left channel =>
      if left ≤ 0 then do
        assertThat build .normalOpsPoolSize (c.opsPoolSize ≤ n.oldOpsSize)
        return (c, .shrink n (c.opsPoolSize - newOpsSize).toNat)
      else
        match (n.freeList channel).list with
        | [] => .ok (c, .refill n newOpsSize left (cfg.nextChannel channel))
        | d :: _ =>
            let (c, freeList) := c.refillOps n.freeList channel d
            .ok (c, .refill { n with freeList := freeList } newOpsSize (left - 1)
              (cfg.nextChannel channel))
  | .shrink n 0 => .ok (c, .reclaim n)
  | .shrink n (count + 1) =>
      let (c, freeList) := c.shrinkOps cfg n.freeList
      .ok (c, .shrink { n with freeList := freeList } count)
  | .reclaim n => do
      let c ← c.reclaim build cfg n.freeList
      assertThat build .checkOpsPool c.checkOpsPool
      return (c, .idle)
  | _ => .error .blocked

/-- A step of the collector. -/
def stepGc (build : Build) (cfg : Config) (pick : List Nat) (fuel : Nat) (c : Cache) (a : GcAt) :
    Except Stop (Cache × GcAt) :=
  match a with
  | .scan _ _ | .batch _ _ _ _ _ => stepChoose build cfg pick c a
  | .take _ _ _ | .relink _ _ _ _ | .prepare _ _ _ _ | .check _ _ _ _ _ | .move _ _ _ _ _ _ _
  | .copy _ _ _ | .modify _ _ _ => stepCollect build cfg c a
  | .tune _ | .refill _ _ _ _ | .shrink _ _ | .reclaim _ => stepHandBack build cfg c a
  | _ => stepQuick build cfg fuel c a

/-! ### Runs -/

/-- A step of any thread, with the writes that it completes. -/
def step (build : Build) (cfg : Config) (t : Threads) : Act → Except Stop (Threads × List Event)
  | .put key value => do return (← t.beginPut build cfg key value, [])
  | .writer => t.stepWriter build cfg
  | .delete key => do
      return ({ t with cache := ← t.cache.delete build cfg key }, [.delete key])
  | .flush => do
      let (c, flush) ← stepFlush build cfg t.cache t.flush
      return ({ t with cache := c, flush := flush }, [])
  | .gc pick fuel => do
      let (c, gc) ← stepGc build cfg pick fuel t.cache t.gc
      return ({ t with cache := c, gc := gc }, [])

/-- Run a schedule, with the completed writes, latest first. -/
def run (build : Build) (cfg : Config) (t : Threads) (acts : List Act) :
    Except Stop (Threads × List Event) :=
  Runs.run (step build cfg) t acts

/-- Construction, followed by a schedule. -/
def start (build : Build) (cfg : Config) (acts : List Act) : Except Stop (Threads × List Event) := do
  run build cfg (rest (← Cache.create build cfg)) acts

/-- States that some schedule reaches from construction. -/
def Reachable (build : Build) (cfg : Config) (t : Threads) : Prop :=
  ∃ acts events, start build cfg acts = .ok (t, events)

end Threads

end KVCache
