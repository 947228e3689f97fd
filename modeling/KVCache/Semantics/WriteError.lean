import KVCache.Semantics.System

/-! `do_slab_flush` when the SSD reports an error for a write. The function
`flush_mslab_to_dslab` throws, nothing on the way to the C API catches, and the
call returns -1. The next call then finds the cache as the steps before the
write have left it. The block may hold anything.

In the foreground the flush runs the collector itself, as long as it finds no
free disk slab, so the write that fails is its own or one of `gc_dslabs`. -/

namespace KVCache

/-- The write that fails: that of the flush, or that of a batch of the
collector after so many batches were collected in its round. -/
inductive FailedWrite where
  | flush
  | gc (batches : Nat)
  deriving DecidableEq, Repr

/-- A flush that has thrown, with the slabs it had unlinked. -/
structure Thrown where
  cache : Cache
  mslab : Nat
  dslab : Option Nat
  deriving DecidableEq, Repr

namespace Cache

/-- A write that fails leaves some contents in its block. -/
def failBlock (c : Cache) (dst : Nat) (left : Slab) : Cache :=
  { c with disk := c.disk.set (c.slabs dst).blockId.toNat left }

/-! ### The collector -/

/-- `gc_dslabs` up to its write, with the slab that is to be written. -/
def gatherDslabs (build : Build) (cfg : Config) (toDrop : List Nat) (c : Cache)
    (freeList : Table SlabList) : Except Stop (Nat × Cache × Table SlabList) := do
  match c.takeOps cfg, toDrop with
  | (some ops, c), first :: _ => do
      let (c, freeList) := c.relinkFull cfg ops toDrop freeList
      let c := c.prepareBuffer cfg first
      let (c, _) ← toDrop.foldlM (moveDslab build cfg) (c, 0)
      assertThat build .gcBufferCid ((c.slabs cfg.gcBuffer).cid ≠ -1)
      return (ops, c, freeList)
  | (some _, _), [] => throw .undefined
  | (none, _), _ => do
      assertThat build .gcOpsSlab false
      throw .undefined

theorem gcDslabs_eq_gatherDslabs (build : Build) (cfg : Config) (toDrop : List Nat) (c : Cache)
    (freeList : Table SlabList) :
    c.gcDslabs build cfg toDrop freeList = do
      let (ops, c, freeList) ← c.gatherDslabs build cfg toDrop freeList
      let c := c.flushMslabToDslab cfg cfg.gcBuffer ops
      return (c.modifyIndexTo cfg cfg.gcBuffer ops, freeList) := by
  unfold gcDslabs gatherDslabs
  cases hOps : c.takeOps cfg with
  | mk found c₁ =>
      cases found with
      | none => simp only [bind_assoc]; rfl
      | some ops =>
          cases toDrop with
          | nil => rfl
          | cons first rest => simp only [bind_assoc, pure_bind]

/-- The loop over the classes, up to the write that fails; nothing if the loop
ends before. -/
def collectThrows (build : Build) (cfg : Config) (kept : Nat → List Nat) (left : Slab) :
    Nat → List Nat → Cache → Table SlabList → Except Stop (Option Cache)
  | _, [], _, _ => .ok none
  | batches, cid :: rest, c, freeList => do
      let toDrop ← c.takeBatch build (kept cid) 0
      if toDrop.length > 1 then
        if c.opsPoolSize ≤ 0 then return none
        match batches with
        | 0 =>
            let (ops, c, _) ← c.gatherDslabs build cfg toDrop freeList
            return some (c.failBlock ops left)
        | batches + 1 =>
            let (c, freeList) ← c.gcDslabs build cfg toDrop freeList
            collectThrows build cfg kept left batches rest c freeList
      else collectThrows build cfg kept left batches rest c freeList

def normalGcThrows (build : Build) (cfg : Config) (batches : Nat) (left : Slab) (c : Cache) :
    Except Stop (Option Cache) := do
  let pq ← c.scanDslabs cfg
  assertThat build .normalCid (pq.all fun d => (c.slabs d).cid ≠ -1)
  collectThrows build cfg (c.classToDrop pq) left batches (List.range cfg.nrSlabClass) c
    ⟨List.replicate cfg.nrChannels default⟩

/-- A round of `do_slab_gc` with an error. Quick GC does not write. -/
def doSlabGcThrows (build : Build) (cfg : Config) (batches : Nat) (left : Slab) (c : Cache) :
    Except Stop (Option Cache) := do
  if c.nrFullDslab ≤ 0 then throw .blocked
  assertThat build .gcNrFree (0 ≤ c.nrFreeDslab)
  if c.index.nrFreeIndexEntry = 0 ∨ c.nrFreeDslab < c.freeBlockWaterMarkLow then return none
  c.normalGcThrows build cfg batches left

/-! ### The flush -/

/-- The loop of `do_slab_flush` that searches a free disk slab. After every
search without success follows a round of the collector, whose loops have the
next bound on their iterations. -/
def findDslab (build : Build) (cfg : Config) :
    List Nat → Cache → Except Stop (Option (Nat × Nat) × Cache)
  | [], c => c.takeFree build cfg
  | fuel :: rounds, c => do
      match ← c.takeFree build cfg with
      | (some found, c) => return (some found, c)
      | (none, c) => findDslab build cfg rounds (← c.doSlabGc build cfg fuel)

/-- `do_slab_flush` in which the given write fails; nothing if that write does
not take place. -/
def flushThrows (build : Build) (cfg : Config) (rounds : List Nat) (failed : FailedWrite)
    (left : Slab) (c : Cache) : Except Stop (Option Thrown) := do
  let (m, c) ← c.takeFull build
  match ← findDslab build cfg rounds c, failed with
  | (some (d, _), c), .flush => return some ⟨c.failBlock d left, m, some d⟩
  | (none, c), .gc batches =>
      return (← c.doSlabGcThrows build cfg batches left).map fun c => ⟨c, m, none⟩
  | (some _, _), .gc _ => return none
  | (none, _), .flush => return none

end Cache

/-- The operations that a flush in the foreground amounts to, after its first
search. -/
def Sys.resumeOps : List Nat → List Op
  | [] => []
  | fuel :: rounds => .gc fuel :: .flushResume :: Sys.resumeOps rounds

end KVCache
