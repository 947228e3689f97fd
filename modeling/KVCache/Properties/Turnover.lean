import KVCache.Invariant.Raising
import KVCache.Invariant.Selection
import KVCache.Invariant.Transitions
import KVCache.Properties.Containment
import KVCache.Properties.Overflow

/-! How disk slabs pass through the full lists. A flush adds one slab and writes
one block for it. Normal GC replaces a batch of at least two slabs by one, for
which it writes one block and which it does not count. So it writes no more
blocks than the flush does, and the counter falls behind by one with every
batch, until the collector is never woken again. -/

namespace KVCache

variable {build : Build} {cfg : Config} {c c' : Cache} {g : Ghost} {t t' : Threads} {act : Act}
  {done : List Event} {pick : List Nat} {fuel : Nat} {a a' : GcAt}

/-! ### The full lists in one step -/

/-- The full lists and the counter kept beside them. -/
def Cache.fulls (c : Cache) : Table SlabList × Int := (c.dslabFull, c.nrFullDslab)

theorem fullCount_of_fulls (h : c'.fulls = c.fulls) :
    c'.fullCount = c.fullCount ∧ c'.nrFullDslab = c.nrFullDslab :=
  ⟨congrArg (fun p : Table SlabList × Int => (p.1.flatMap SlabList.list).length) h,
    congrArg Prod.snd h⟩

theorem fulls_of_diskSide (h : c'.diskSide = c.diskSide) : c'.fulls = c.fulls :=
  congrArg (fun d : DiskSide => (d.dslabFull, d.nrFullDslab)) h

/-- The next step of the collector replaces a batch on the full lists. -/
def GcAt.relinks : GcAt → Bool
  | .relink _ _ _ _ => true
  | _ => false

/-- The collector changes the full lists when it selects the slabs to drop, and
when it replaces a batch. -/
theorem GcStep.fulls (h : GcStep build cfg pick fuel c a c' a') :
    (a.relinks = false ∧ c'.fulls = c.fulls) ∨
      (∃ f o toDrop, a = .quickSelect f o ∧ a' = .quickEvict o toDrop toDrop ∧
        c.selectDrop cfg fuel (f + o) [] = .ok (toDrop, c')) ∨
      ∃ n cid ops toDrop freeList, a = .relink n cid ops toDrop ∧
        a' = .prepare { n with freeList := freeList } cid ops toDrop ∧
        c.relinkFull cfg ops toDrop n.freeList = (c', freeList) := by
  cases h with
  | quickSelect hSelect => exact .inr (.inl ⟨_, _, _, rfl, rfl, hSelect⟩)
  | relink hRelink => exact .inr (.inr ⟨_, _, _, _, _, rfl, rfl, hRelink⟩)
  | quickEvict hDrop =>
      rw [dropDslab_changes hDrop]
      exact .inl ⟨rfl, rfl⟩
  | @backToOpsPool o toDrop rest c' hBack =>
      obtain ⟨_, _, _, hChanges⟩ := backToOpsPool_changes cfg o 0 toDrop c
      rw [hBack] at hChanges
      obtain rfl : c' = _ := hChanges
      exact .inl ⟨rfl, rfl⟩
  | backToDslabFree hBack =>
      obtain ⟨_, _, _, rfl⟩ := backToDslabFree_frees hBack
      exact .inl ⟨rfl, rfl⟩
  | @take n cid ops toDrop c' hTake =>
      obtain ⟨_, _, _, hChanges⟩ :=
        takeOpsFrom_changes cfg c.nextOpsPoolRemoveChannel cfg.nrChannels c
      rw [Cache.takeOps] at hTake
      rw [hTake] at hChanges
      obtain rfl : c' = _ := hChanges
      exact .inl ⟨rfl, rfl⟩
  | move hMove =>
      obtain ⟨_, _, rfl⟩ := moveLive_changes hMove
      exact .inl ⟨rfl, rfl⟩
  | @modify n cid ops =>
      obtain ⟨_, _, hChanges⟩ := modifyIndexTo_changes cfg c cfg.gcBuffer ops
      rw [hChanges]
      exact .inl ⟨rfl, rfl⟩
  | @tune n =>
      refine .inl ⟨rfl, ?_⟩
      unfold Cache.tuneOpsPool
      split <;> rfl
  | refill _ _ hRefill =>
      obtain ⟨rfl, -⟩ := Prod.mk.inj hRefill
      exact .inl ⟨rfl, rfl⟩
  | @shrink n count c' freeList hShrink =>
      unfold Cache.shrinkOps at hShrink
      dsimp only at hShrink
      split at hShrink <;> (obtain ⟨rfl, -⟩ := Prod.mk.inj hShrink; exact .inl ⟨rfl, rfl⟩)
  | reclaim hReclaim =>
      obtain ⟨_, _, _, rfl⟩ := reclaim_frees hReclaim
      exact .inl ⟨rfl, rfl⟩
  | _ => exact .inl ⟨rfl, rfl⟩

/-- A batch leaves the full lists, one slab enters, and the counter misses it. -/
theorem ThreadsInv.relink {n : NormalGc} {cid ops : Nat} {toDrop : List Nat}
    {freeList : Table SlabList} (h : ThreadsInv cfg t g) (hAt : t.gc = .relink n cid ops toDrop)
    (hRun : t.cache.relinkFull cfg ops toDrop n.freeList = (c', freeList)) :
    c'.nrFullDslab + toDrop.length = t.cache.nrFullDslab ∧
      c'.fullCount + toDrop.length = t.cache.fullCount + 1 := by
  have hOk := h.gc
  rw [hAt] at hOk
  obtain ⟨hRound, hBatch, -, hOps⟩ := hOk
  obtain ⟨-, hSilent, -⟩ :=
    h.inv.relinkFull hOps hRound.freeList hBatch.full hBatch.nodup hRun
  have hCounter := nrFullDslab_relinkFull hRun
  have hBefore : t.cache.nrFullDslab + g.drift = t.cache.fullCount := h.inv.lists.nrFullDslab
  have hAfter : c'.nrFullDslab + ((g.drift + 1 : Nat) : Int) = c'.fullCount :=
    hSilent.inv.lists.nrFullDslab
  exact ⟨hCounter, by omega⟩

/-- Quick GC takes slabs off the full lists and counts them. -/
theorem ThreadsInv.quickSelect {f o : Int} {toDrop : List Nat} (h : ThreadsInv cfg t g)
    (hAt : t.gc = .quickSelect f o)
    (hRun : t.cache.selectDrop cfg fuel (f + o) [] = .ok (toDrop, c')) :
    c'.nrFullDslab - c'.fullCount = t.cache.nrFullDslab - t.cache.fullCount ∧
      c'.fullCount ≤ t.cache.fullCount := by
  have hIdle := h.gc
  rw [hAt] at hIdle
  obtain ⟨_, -, -, -, -, hSilent⟩ := h.inv.selectDrop (fun x => Ghost.GcIdle.full hIdle) hRun
  obtain ⟨-, hCount, -⟩ := selectDrop_counts hRun
  have hBefore : t.cache.nrFullDslab + g.drift = t.cache.fullCount := h.inv.lists.nrFullDslab
  have hAfter : c'.nrFullDslab + (g.drift : Int) = c'.fullCount := hSilent.inv.lists.nrFullDslab
  exact ⟨by omega, by omega⟩

/-! ### Blocks written -/

/-- The next step of the flush writes a block. -/
def FlushAt.writes : FlushAt → Bool
  | .found _ _ _ => true
  | _ => false

/-- The next step of the collector writes a block. -/
def GcAt.writes : GcAt → Bool
  | .check _ _ _ _ [] => true
  | _ => false

/-- The thread that writes a block in a step. -/
def Threads.writesBlock (t : Threads) : Act → Option Worker
  | .flush => if t.flush.writes then some .flush else none
  | .gc _ _ => if t.gc.writes then some .gc else none
  | _ => none

/-- How many blocks a thread writes along a schedule. -/
def Threads.blocksWritten (build : Build) (cfg : Config) (w : Worker) (t : Threads)
    (acts : List Act) : Nat :=
  Runs.count (Threads.step build cfg) (fun t act => t.writesBlock act = some w) t acts

/-- The slab of a flush has been written and is not on a full list yet. -/
def FlushAt.unlinked : FlushAt → Nat
  | .written _ _ _ | .copied _ _ _ | .moved _ _ _ | .reset _ _ _ | .freed _ _ => 1
  | _ => 0

/-- The slab of a batch is on a full list and has not been written yet. -/
def GcAt.unwritten : GcAt → Nat
  | .prepare _ _ _ _ | .check _ _ _ _ _ | .move _ _ _ _ _ _ _ => 1
  | _ => 0

@[simp] theorem unwritten_startClass (n : NormalGc) (cid : Nat) :
    (Threads.startClass cfg n cid).unwritten = 0 := by
  unfold Threads.startClass
  split <;> rfl

@[simp] theorem unwritten_endBatch (n : NormalGc) (cid : Nat) (toDrop : List Nat) :
    (Threads.endBatch cfg c n cid toDrop).unwritten = 0 := by
  unfold Threads.endBatch
  split
  · split <;> rfl
  · exact unwritten_startClass n (cid + 1)

/-- A step writes the block that is due, or makes none due. -/
theorem GcStep.due (h : GcStep build cfg pick fuel c a c' a') (hNot : a.relinks = false) :
    (if a.writes then 1 else 0) + a'.unwritten ≤ a.unwritten := by
  cases h with
  | scanned =>
      rw [unwritten_startClass]
      exact Nat.le_refl 0
  | batchEnd =>
      rw [unwritten_endBatch]
      exact Nat.le_refl 0
  | modify =>
      rw [unwritten_startClass]
      exact Nat.le_refl 0
  | relink => cases hNot
  | _ => exact Nat.le_refl _

/-- What the collector writes, it has paid for with a slab less on the lists. -/
theorem GcStep.blocks (h : GcStep build cfg pick fuel t.cache t.gc c' a') (hInv : ThreadsInv cfg t g)
    (hPool : PoolOk t.cache t.gc) :
    (if t.gc.writes then 1 else 0) + c'.fullCount + a'.unwritten ≤
      t.cache.fullCount + t.gc.unwritten := by
  rcases h.fulls with ⟨hNot, hSame⟩ | ⟨f, o, toDrop, hAt, rfl, hSelect⟩ |
    ⟨n, cid, ops, toDrop, freeList, hAt, rfl, hRelink⟩
  · have hCount := (fullCount_of_fulls hSame).1
    have hDue := h.due hNot
    omega
  · have hLess := (hInv.quickSelect hAt hSelect).2
    rw [hAt]
    simpa [GcAt.writes, GcAt.unwritten] using hLess
  · have hLess := (hInv.relink hAt hRelink).2
    rw [hAt] at hPool
    have hTwo : 1 < toDrop.length := hPool.2
    rw [hAt]
    show 0 + c'.fullCount + 1 ≤ t.cache.fullCount + 0
    omega

/-- The flush links the slab for which it wrote a block, and counts it. -/
theorem FlushStep.blocks {a a' : FlushAt} (h : FlushStep build cfg c a c' a') :
    c'.fullCount + a'.unlinked = c.fullCount + a.unlinked + (if a.writes then 1 else 0) ∧
      c'.nrFullDslab - c'.fullCount = c.nrFullDslab - c.fullCount := by
  have hSame : c'.fulls = c.fulls → c'.fullCount = c.fullCount ∧
      c'.nrFullDslab - c'.fullCount = c.nrFullDslab - c.fullCount := by
    intro hFulls
    obtain ⟨hCount, hCounter⟩ := fullCount_of_fulls hFulls
    exact ⟨hCount, by rw [hCount, hCounter]⟩
  cases h with
  | find hTake =>
      obtain ⟨_, _, _, rfl⟩ := takeFreeFrom_changes hTake
      exact hSame rfl
  | miss hTake =>
      obtain ⟨_, _, _, rfl⟩ := takeFreeFrom_changes hTake
      exact hSame rfl
  | @move m d channel =>
      obtain ⟨_, _, hChanges⟩ := modifyIndexTo_changes cfg c m d
      rw [hChanges]
      exact ⟨rfl, rfl⟩
  | @link d channel =>
      have hCount : (c.linkDslabFull d channel).fullCount = c.fullCount + 1 :=
        Lists.length_add _ _ _
      have hCounter : (c.linkDslabFull d channel).nrFullDslab = c.nrFullDslab + 1 := rfl
      exact ⟨hCount, by omega⟩
  | _ => exact ⟨rfl, rfl⟩

/-- What holds of the numbers of written blocks in a state. -/
structure BlocksPaid (cfg : Config) (t : Threads) (n : Worker → Nat) : Prop where
  inv : ∃ g, ThreadsInv cfg t g
  pool : PoolOk t.cache t.gc
  paid : n .gc + t.cache.fullCount + t.flush.unlinked + t.gc.unwritten ≤ n .flush

theorem BlocksPaid.step {n : Worker → Nat} (h : BlocksPaid cfg t n)
    (hStep : t.step build cfg act = .ok (t', done)) :
    BlocksPaid cfg t' fun w => n w + if t.writesBlock act = some w then 1 else 0 := by
  obtain ⟨g, hInv⟩ := h.inv
  obtain ⟨g', hNext⟩ := hInv.step hStep
  refine ⟨⟨g', hNext.inv⟩, h.pool.step hStep, ?_⟩
  have hPaid := h.paid
  rcases Threads.step_sides hStep with ⟨hSame, hGc, hFlush, hNotFlush, hNotGc⟩ |
    ⟨rfl, hGc, -, -, hRun⟩ | ⟨pick, fuel, rfl, hFlush, -, -, hRun⟩
  · have hNone : t.writesBlock act = none := by
      cases act with
      | flush => exact absurd rfl hNotFlush
      | gc pick fuel => exact absurd rfl (hNotGc pick fuel)
      | _ => rfl
    rw [hNone, hGc, hFlush, (fullCount_of_fulls (fulls_of_diskSide hSame)).1]
    exact hPaid
  · have hBlocks := (stepFlush_inv hRun).blocks.1
    rw [hGc]
    cases hWrites : t.flush.writes <;>
      simp only [Threads.writesBlock, hWrites, reduceCtorEq, if_true, if_false, Option.some.injEq,
        Bool.false_eq_true] at hBlocks ⊢ <;> omega
  · have hBlocks := (stepGc_inv hRun).blocks hInv h.pool
    rw [hFlush]
    cases hWrites : t.gc.writes <;>
      simp only [Threads.writesBlock, hWrites, reduceCtorEq, if_true, if_false, Option.some.injEq,
        Bool.false_eq_true] at hBlocks ⊢ <;> omega

/-- No list of a new cache holds a full slab. -/
theorem create_fullCount (hCfg : cfg.Sound) (hRun : Cache.create build cfg = .ok c) :
    c.fullCount = 0 ∧ c.nrFullDslab = 0 := by
  obtain ⟨g, hFresh⟩ := create_fresh hCfg hRun
  have hCounter := (create_untouched hRun).nrFullDslab
  have hCount : c.nrFullDslab + g.drift = c.fullCount := hFresh.inv.lists.nrFullDslab
  rw [hFresh.drift] at hCount
  exact ⟨by omega, hCounter⟩

/-- Along every schedule normal GC writes no more blocks than the flush does,
and fewer by the slabs that are full now. So a cache never writes more than two
blocks for a memory slab that filled up. -/
theorem gc_blocksWritten_le {acts : List Act} {events : List Event} (hCfg : cfg.WellFormed)
    (hCreate : Cache.create build cfg = .ok c)
    (hRun : Threads.run build cfg (.rest c) acts = .ok (t, events)) :
    Threads.blocksWritten build cfg .gc (.rest c) acts + t.cache.fullCount ≤
      Threads.blocksWritten build cfg .flush (.rest c) acts := by
  obtain ⟨g, hInv, -⟩ := ThreadsInv.create hCfg.sound hCreate
  have hStart : BlocksPaid cfg (.rest c) fun _ => 0 :=
    ⟨⟨g, hInv⟩, create_inBounds hCreate, by
      have hZero := (create_fullCount hCfg.sound hCreate).1
      simp only [Threads.rest, FlushAt.unlinked, GcAt.unwritten]
      omega⟩
  have hEnd := Runs.run_counts (R := fun w t act => t.writesBlock act = some w)
    (P := BlocksPaid cfg) (fun _ _ _ _ _ h _ hStep => h.step hStep) hRun
    (Runs.along_true _ acts) hStart
  have hPaid : 0 + Threads.blocksWritten build cfg .gc (.rest c) acts + t.cache.fullCount +
      t.flush.unlinked + t.gc.unwritten ≤
        0 + Threads.blocksWritten build cfg .flush (.rest c) acts := hEnd.paid
  omega

/-- Two flushes, and the round of normal GC that collects what they wrote. -/
def Act.flushTwiceAndCollect : List Act :=
  Act.putFlushed [1] [7] ++ Act.putFlushed [1] [8] ++ List.replicate 23 (Act.gc [5, 6] 0)

theorem gc_blocksWritten_collected :
    ∃ c t events, Cache.create .debug .small = .ok c ∧
      Threads.run .debug .small (.rest c) Act.flushTwiceAndCollect = .ok (t, events) ∧
      t.gc = .idle ∧ t.cache.fullCount = 1 ∧
      Threads.blocksWritten .debug .small .gc (.rest c) Act.flushTwiceAndCollect = 1 ∧
      1 + t.cache.fullCount ≤
        Threads.blocksWritten .debug .small .flush (.rest c) Act.flushTwiceAndCollect := by
  obtain ⟨c, hCreate, hCheck⟩ := Execution.ok_of_check (x := Cache.create .debug .small)
    (fun c => decide (
      ((Threads.run .debug .small (.rest c) Act.flushTwiceAndCollect).map fun r =>
        (r.1.gc, r.1.cache.fullCount)) = .ok (.idle, 1) ∧
      Threads.blocksWritten .debug .small .gc (.rest c) Act.flushTwiceAndCollect = 1))
    (by decide +kernel)
  obtain ⟨hState, hWritten⟩ := of_decide_eq_true hCheck
  cases hRun : Threads.run .debug .small (.rest c) Act.flushTwiceAndCollect with
  | error stop =>
      rw [hRun] at hState
      cases hState
  | ok r =>
      rw [hRun] at hState
      obtain ⟨hGc, hFull⟩ := Prod.mk.inj (Except.ok.inj hState)
      have hLe := gc_blocksWritten_le Config.small_wellFormed hCreate hRun
      rw [hWritten] at hLe
      exact ⟨c, r.1, r.2, hCreate, hRun, hGc, hFull, hWritten, hLe⟩

/-! ### Batches collected -/

/-- A step of the collector that replaces a batch. -/
def Threads.Relinks (t : Threads) : Act → Prop
  | .gc _ _ => t.gc.relinks = true
  | _ => False

instance (t : Threads) : (act : Act) → Decidable (t.Relinks act)
  | .gc _ _ => inferInstanceAs (Decidable (t.gc.relinks = true))
  | .put _ _ | .writer | .delete _ | .flush => isFalse id

/-- How many batches the collector replaces along a schedule. -/
def Threads.batches (build : Build) (cfg : Config) (t : Threads) (acts : List Act) : Nat :=
  Runs.count (Threads.step build cfg) Threads.Relinks t acts

/-- How many batches there can have been at a place of a round. A round is
entered only with a counter above zero, and has at most one batch a class. -/
def BatchesWithin (cfg : Config) (n : Nat) : GcAt → Prop
  | .idle | .tune _ | .refill _ _ _ _ | .shrink _ _ | .reclaim _ =>
      n < cfg.nrBlocks + cfg.nrSlabClass
  | .awake | .decide _ | .quickTune | .quickSelect _ _ | .quickEvict _ _ _ | .quickFree _
  | .scan _ _ => n < cfg.nrBlocks
  | .batch _ cid _ _ _ | .take _ cid _ | .relink _ cid _ _ =>
      cid < cfg.nrSlabClass ∧ n < cfg.nrBlocks + cid
  | .prepare _ cid _ _ | .check _ cid _ _ _ | .move _ cid _ _ _ _ _ | .copy _ cid _
  | .modify _ cid _ => cid < cfg.nrSlabClass ∧ n < cfg.nrBlocks + cid + 1

theorem batchesWithin_startClass {n cid : Nat} (r : NormalGc) (hClass : cid ≤ cfg.nrSlabClass)
    (h : n < cfg.nrBlocks + cid) : BatchesWithin cfg n (Threads.startClass cfg r cid) := by
  unfold Threads.startClass
  split
  · exact ⟨‹_›, h⟩
  · exact Nat.lt_of_lt_of_le h (Nat.add_le_add_left hClass _)

theorem batchesWithin_endBatch {n cid : Nat} {toDrop : List Nat} (r : NormalGc)
    (h : cid < cfg.nrSlabClass ∧ n < cfg.nrBlocks + cid) :
    BatchesWithin cfg n (Threads.endBatch cfg c r cid toDrop) := by
  obtain ⟨hClass, hLess⟩ := h
  unfold Threads.endBatch
  split
  · split
    · show n < cfg.nrBlocks + cfg.nrSlabClass
      omega
    · exact ⟨hClass, hLess⟩
  · exact batchesWithin_startClass r hClass (by omega)

/-- A step of the collector, with the counter and the number of batches so far. -/
theorem GcStep.batchesWithin {n : Nat} (h : GcStep build cfg pick fuel c a c' a')
    (hFull : c.nrFullDslab + n ≤ cfg.nrBlocks) (hWithin : BatchesWithin cfg n a) :
    BatchesWithin cfg (n + if a.relinks then 1 else 0) a' := by
  cases h with
  | wake hWake =>
      show n < cfg.nrBlocks
      omega
  | relaxed _ _ => exact hWithin
  | scanned => exact batchesWithin_startClass _ (Nat.zero_le _) hWithin
  | batchEnd => exact batchesWithin_endBatch _ hWithin
  | relink => exact ⟨hWithin.1, Nat.succ_lt_succ hWithin.2⟩
  | modify => exact batchesWithin_startClass _ hWithin.1 hWithin.2
  | backToDslabFree => exact Nat.lt_of_lt_of_le hWithin (Nat.le_add_right _ _)
  | _ => exact hWithin

theorem Inv.fullCount_le (hInv : Inv cfg c g) : c.fullCount ≤ cfg.nrBlocks := by
  have hCount : c.fullCount = g.disksAt cfg .dslabFull :=
    hInv.length_flatMap (p := .dslabFull) rfl fun _ => rfl
  rw [hCount]
  exact disksAt_le _

/-- The counter of full slabs has missed as many slabs as there were batches. -/
structure CountsBatches (cfg : Config) (t : Threads) (n : Nat) : Prop where
  inv : ∃ g, ThreadsInv cfg t g
  counter : t.cache.nrFullDslab + n = t.cache.fullCount
  within : BatchesWithin cfg n t.gc

theorem CountsBatches.step {n : Nat} (h : CountsBatches cfg t n)
    (hStep : t.step build cfg act = .ok (t', done)) :
    CountsBatches cfg t' (n + if t.Relinks act then 1 else 0) := by
  obtain ⟨g, hInv⟩ := h.inv
  obtain ⟨g', hNext⟩ := hInv.step hStep
  have hCounter := h.counter
  have hLe := hInv.inv.fullCount_le
  rcases Threads.step_sides hStep with ⟨hSame, hGc, -, -, hNotGc⟩ | ⟨rfl, hGc, -, -, hRun⟩ |
    ⟨pick, fuel, rfl, -, -, -, hRun⟩
  · have hNot : ¬t.Relinks act := by
      cases act with
      | gc pick fuel => exact absurd rfl (hNotGc pick fuel)
      | _ => exact id
    obtain ⟨hCount, hNr⟩ := fullCount_of_fulls (fulls_of_diskSide hSame)
    rw [if_neg hNot]
    exact ⟨⟨g', hNext.inv⟩, by rw [hCount, hNr]; exact hCounter, hGc ▸ h.within⟩
  · have hBlocks := (stepFlush_inv hRun).blocks.2
    rw [if_neg (show ¬t.Relinks .flush from id)]
    exact ⟨⟨g', hNext.inv⟩, by omega, hGc ▸ h.within⟩
  · have hGcStep := stepGc_inv hRun
    have hWithin := hGcStep.batchesWithin (n := n) (by omega) h.within
    refine ⟨⟨g', hNext.inv⟩, ?_, hWithin⟩
    rcases hGcStep.fulls with ⟨hNot, hSame⟩ | ⟨f, o, toDrop, hAt, -, hSelect⟩ |
      ⟨r, cid, ops, toDrop, freeList, hAt, -, hRelink⟩
    · obtain ⟨hCount, hNr⟩ := fullCount_of_fulls hSame
      simp only [Threads.Relinks, hNot, Bool.false_eq_true, if_false]
      omega
    · have hDrift := (hInv.quickSelect hAt hSelect).1
      simp only [Threads.Relinks, hAt, GcAt.relinks, Bool.false_eq_true, if_false]
      omega
    · obtain ⟨hNr, hCount⟩ := hInv.relink hAt hRelink
      simp only [Threads.Relinks, hAt, GcAt.relinks, if_true]
      omega

/-- The number of batches and the counter after a schedule. -/
theorem run_countsBatches {acts : List Act} {events : List Event} (hCfg : cfg.WellFormed)
    (hCreate : Cache.create build cfg = .ok c)
    (hRun : Threads.run build cfg (.rest c) acts = .ok (t, events)) :
    CountsBatches cfg t (Threads.batches build cfg (.rest c) acts) := by
  obtain ⟨g, hInv, -⟩ := ThreadsInv.create hCfg.sound hCreate
  obtain ⟨hCount, hNr⟩ := create_fullCount hCfg.sound hCreate
  have hPos : 0 < cfg.nrBlocks := Nat.mul_pos hCfg.channels hCfg.blocks
  have hStart : CountsBatches cfg (.rest c) 0 := by
    refine ⟨⟨g, hInv⟩, ?_, ?_⟩
    · simp only [Threads.rest]
      omega
    · show 0 < cfg.nrBlocks + cfg.nrSlabClass
      omega
  have hEnd := Runs.run_count (Q := Threads.Relinks) (P := CountsBatches cfg)
    (fun _ _ _ _ _ h hStep => h.step hStep) hRun hStart
  rwa [Nat.zero_add] at hEnd

/-- Between two rounds, the collector starts the next one exactly when the full
slabs outnumber the batches that were ever collected: the counter that wakes it
misses a slab with every batch. So however long a cache runs, there are fewer
batches than blocks and classes. -/
theorem collector_wears_out {acts : List Act} {events : List Event} (hCfg : cfg.WellFormed)
    (hCreate : Cache.create build cfg = .ok c)
    (hRun : Threads.run build cfg (.rest c) acts = .ok (t, events)) :
    Threads.batches build cfg (.rest c) acts < cfg.nrBlocks + cfg.nrSlabClass ∧
      (t.gc = .idle → ∀ pick fuel, (∃ r, t.step build cfg (.gc pick fuel) = .ok r) ↔
        Threads.batches build cfg (.rest c) acts < t.cache.fullCount) := by
  have hCounts := run_countsBatches hCfg hCreate hRun
  have hCounter := hCounts.counter
  constructor
  · have hWithin := hCounts.within
    generalize t.gc = a at hWithin
    cases a <;> simp only [BatchesWithin] at hWithin <;> omega
  · intro hIdle pick fuel
    simp only [Threads.step, hIdle, Threads.stepGc, Threads.stepQuick]
    split
    · rename_i hLow
      refine iff_of_false ?_ (by omega)
      rintro ⟨r, hOk⟩
      cases hOk
    · exact iff_of_true ⟨_, rfl⟩ (by omega)

/-- After one batch, one full slab does not wake the collector any more. -/
theorem collector_asleep_after_batch :
    ∃ c t events, Cache.create .debug .small = .ok c ∧
      Threads.run .debug .small (.rest c) Act.flushTwiceAndCollect = .ok (t, events) ∧
      t.gc = .idle ∧ t.cache.fullCount = 1 ∧
      ∀ pick fuel, ¬∃ r, t.step .debug .small (.gc pick fuel) = .ok r := by
  obtain ⟨c, hCreate, hCheck⟩ := Execution.ok_of_check (x := Cache.create .debug .small)
    (fun c => decide (
      ((Threads.run .debug .small (.rest c) Act.flushTwiceAndCollect).map fun r =>
        (r.1.gc, r.1.cache.fullCount)) = .ok (.idle, 1) ∧
      Threads.batches .debug .small (.rest c) Act.flushTwiceAndCollect = 1))
    (by decide +kernel)
  obtain ⟨hState, hBatches⟩ := of_decide_eq_true hCheck
  cases hRun : Threads.run .debug .small (.rest c) Act.flushTwiceAndCollect with
  | error stop =>
      rw [hRun] at hState
      cases hState
  | ok r =>
      rw [hRun] at hState
      obtain ⟨hGc, hFull⟩ := Prod.mk.inj (Except.ok.inj hState)
      refine ⟨c, r.1, r.2, hCreate, hRun, hGc, hFull, fun pick fuel hSteps => ?_⟩
      have hMore := ((collector_wears_out Config.small_wellFormed hCreate hRun).2 hGc pick fuel).mp
        hSteps
      rw [hBatches, hFull] at hMore
      exact absurd hMore (Nat.lt_irrefl 1)

/-! ### A worn-out collector -/

/-- The search of the flush takes one slab, or none. -/
theorem takeFreeFrom_nrFree {beginning rounds : Nat} {found : Option (Nat × Nat)}
    (hRun : Cache.takeFreeFrom build cfg beginning rounds c = .ok (found, c')) :
    c'.nrFreeDslab + found.toList.length = c.nrFreeDslab := by
  induction rounds generalizing c with
  | zero =>
      obtain ⟨rfl, rfl⟩ := Prod.mk.inj (Except.ok.inj hRun)
      exact Int.add_zero _
  | succ rounds ih =>
      simp only [Cache.takeFreeFrom] at hRun
      split at hRun
      · simp only [Execution.bind_eq_ok, Execution.pure_eq_ok] at hRun
        obtain ⟨_, -, _, -, hEnd⟩ := hRun
        obtain ⟨rfl, rfl⟩ := Prod.mk.inj hEnd
        exact Int.sub_add_cancel _ _
      · split at hRun
        · have hRest := ih hRun
          exact hRest
        · obtain ⟨rfl, rfl⟩ := Prod.mk.inj (Execution.pure_eq_ok.mp hRun)
          exact Int.add_zero _

/-- A slab that is not free any more is written next. -/
theorem FlushStep.nrFreeDslab {a a' : FlushAt} (h : FlushStep build cfg c a c' a') :
    c'.nrFreeDslab + (if a'.writes then 1 else 0) = c.nrFreeDslab := by
  cases h with
  | find hTake => exact takeFreeFrom_nrFree hTake
  | miss hTake => exact takeFreeFrom_nrFree hTake
  | @move m d channel =>
      obtain ⟨_, _, hChanges⟩ := modifyIndexTo_changes cfg c m d
      rw [hChanges]
      exact Int.add_zero _
  | _ => exact Int.add_zero _

/-- There have been so many batches that the full slabs cannot outnumber them. -/
structure Worn (cfg : Config) (t : Threads) (n : Nat) : Prop where
  counts : CountsBatches cfg t n
  idle : t.gc = .idle
  many : (cfg.nrBlocks : Int) ≤ n + t.cache.opsPoolSize

theorem Worn.blocked {n : Nat} (h : Worn cfg t n) (pick : List Nat) (fuel : Nat) :
    Threads.stepGc build cfg pick fuel t.cache t.gc = .error .blocked := by
  obtain ⟨g, hInv⟩ := h.counts.inv
  have hCounter := h.counts.counter
  have hPartition := hInv.inv.partition
  have hFree := hInv.inv.nrFreeDslab_range.1
  have hMany := h.many
  rw [h.idle]
  exact if_pos (by omega)

/-- No other thread changes this. -/
theorem Worn.step {n : Nat} (h : Worn cfg t n) (hStep : t.step build cfg act = .ok (t', done)) :
    Worn cfg t' n ∧ t'.cache.nrFreeDslab + (if t'.flush.writes then 1 else 0) +
        (if t.writesBlock act = some .flush then 1 else 0) =
      t.cache.nrFreeDslab + if t.flush.writes then 1 else 0 := by
  have hCounts := h.counts.step hStep
  have hGauges := Threads.step_cases hStep
  rcases Threads.step_sides hStep with ⟨hSame, hGc, hFlush, hNotFlush, hNotGc⟩ |
    ⟨rfl, hGc, -, -, hRun⟩ | ⟨pick, fuel, rfl, -, -, -, hRun⟩
  · have hNot : ¬t.Relinks act := by
      cases act with
      | gc pick fuel => exact absurd rfl (hNotGc pick fuel)
      | _ => exact id
    have hNone : t.writesBlock act = none := by
      cases act with
      | flush => exact absurd rfl hNotFlush
      | gc pick fuel => exact absurd rfl (hNotGc pick fuel)
      | _ => rfl
    have hOps : t'.cache.opsPoolSize = t.cache.opsPoolSize :=
      congrArg (fun d : DiskSide => d.steering.1.opsPoolSize) hSame
    have hFree : t'.cache.nrFreeDslab = t.cache.nrFreeDslab :=
      congrArg DiskSide.nrFreeDslab hSame
    rw [if_neg hNot] at hCounts
    refine ⟨⟨hCounts, hGc.trans h.idle, by rw [hOps]; exact h.many⟩, ?_⟩
    rw [hNone, hFlush, hFree]
    exact Int.add_zero _
  · have hOps : t'.cache.opsPoolSize = t.cache.opsPoolSize :=
      congrArg Gauges.opsPoolSize (gauges_stepFlush hRun)
    have hFree := (stepFlush_inv hRun).nrFreeDslab
    rw [if_neg (show ¬t.Relinks .flush from id)] at hCounts
    refine ⟨⟨hCounts, hGc.trans h.idle, by rw [hOps]; exact h.many⟩, ?_⟩
    cases hWrites : t.flush.writes <;> simp [Threads.writesBlock, hWrites] <;> omega
  · rw [h.blocked] at hRun
    cases hRun

/-- Once the batches and the pool together are as many as the blocks, the
collector does nothing more, and along every schedule from there the flush
writes no more blocks than are free now, and one that it holds. -/
theorem flushes_of_worn {acts later : List Act} {events events' : List Event}
    (hCfg : cfg.WellFormed) (hCreate : Cache.create build cfg = .ok c)
    (hRun : Threads.run build cfg (.rest c) acts = .ok (t, events)) (hIdle : t.gc = .idle)
    (hMany : (cfg.nrBlocks : Int) ≤
      Threads.batches build cfg (.rest c) acts + t.cache.opsPoolSize)
    (hLater : Threads.run build cfg t later = .ok (t', events')) :
    (∀ pick fuel, t'.step build cfg (.gc pick fuel) = .error .blocked) ∧
      (Threads.blocksWritten build cfg .flush t later : Int) ≤
        t.cache.nrFreeDslab + if t.flush.writes then 1 else 0 := by
  have hWorn : Worn cfg t (Threads.batches build cfg (.rest c) acts) :=
    ⟨run_countsBatches hCfg hCreate hRun, hIdle, hMany⟩
  have hEnd := Runs.run_count (Q := fun t act => t.writesBlock act = some .flush)
    (P := fun s k => Worn cfg s (Threads.batches build cfg (.rest c) acts) ∧
      s.cache.nrFreeDslab + (if s.flush.writes then 1 else 0) + (k : Int) =
        t.cache.nrFreeDslab + if t.flush.writes then 1 else 0)
    (fun s act s' done k h hStep => ?_) hLater (n := 0) ⟨hWorn, by simp⟩
  · obtain ⟨hWorn', hCount⟩ := hEnd
    constructor
    · intro pick fuel
      simp only [Threads.step, hWorn'.blocked]
      rfl
    · obtain ⟨g, hInv⟩ := hWorn'.counts.inv
      have hFree := hInv.inv.nrFreeDslab_range.1
      have hWritten : t'.cache.nrFreeDslab + (if t'.flush.writes then 1 else 0) +
          ((0 + Threads.blocksWritten build cfg .flush t later : Nat) : Int) =
            t.cache.nrFreeDslab + if t.flush.writes then 1 else 0 := hCount
      split at hWritten <;> omega
  · obtain ⟨hWorn', hCount⟩ := h.1.step hStep
    refine ⟨hWorn', ?_⟩
    have hBefore := h.2
    push_cast
    linarith

/-- Seven blocks, two of them over-provisioned, and two classes of which a slab
holds one object. -/
def Config.sevenBlocks : Config :=
  { Config.small with
    blocksPerChannel := 7
    slabSize := 64
    blockOrder := [0, 1, 2, 3, 4, 5, 6]
    slabMemBudget := 192
    indexMemBudget := 336
    opsRate := 2 / 7
    freeBlockWaterMarkLow := 1 / 7
    freeBlockSlabWaterMarkLowMin := 1 / 7
    slabClassSize := [16, 20] }

theorem Config.sevenBlocks_wellFormed : Config.sevenBlocks.WellFormed where
  channels := by decide
  blocks := by decide
  order := by decide
  slabSize := by decide
  memory := by decide
  ops := by decide +kernel
  classes := by decide

/-- Objects of both classes are overwritten, and five batches are collected. -/
def Act.wearOut : List Act :=
  let small := Act.putFlushed [1] [7]
  let large := Act.putFlushed [2] [7, 0, 0, 0, 0, 0, 0, 0, 0, 0]
  small ++ large ++ small ++ large ++ List.replicate 37 (Act.gc [6, 7, 8, 9] 0) ++
    small ++ List.replicate 25 (Act.gc [9, 3, 4] 0) ++
    small ++ large ++ List.replicate 37 (Act.gc [7, 4, 8, 3] 0)

/-- With three blocks free, three more slabs are flushed, and then none. -/
theorem flushes_of_worn_three :
    ∃ c t events t' events', Cache.create .debug .sevenBlocks = .ok c ∧
      Threads.run .debug .sevenBlocks (.rest c) Act.wearOut = .ok (t, events) ∧
      Threads.run .debug .sevenBlocks t (List.replicate 3 (Act.putFlushed [1] [8])).flatten =
        .ok (t', events') ∧
      Threads.blocksWritten .debug .sevenBlocks .flush t
        (List.replicate 3 (Act.putFlushed [1] [8])).flatten = 3 ∧
      (3 : Int) ≤ t.cache.nrFreeDslab + (if t.flush.writes then 1 else 0) ∧
      ∀ pick fuel, t'.step .debug .sevenBlocks (.gc pick fuel) = .error .blocked := by
  obtain ⟨c, hCreate, hCheck⟩ := Execution.ok_of_check (x := Cache.create .debug .sevenBlocks)
    (fun c => decide (
      ((Threads.run .debug .sevenBlocks (.rest c) Act.wearOut).map fun r =>
        (r.1.gc, r.1.cache.opsPoolSize,
          (Threads.run .debug .sevenBlocks r.1
            (List.replicate 3 (Act.putFlushed [1] [8])).flatten).toBool,
          Threads.blocksWritten .debug .sevenBlocks .flush r.1
            (List.replicate 3 (Act.putFlushed [1] [8])).flatten)) = .ok (.idle, 2, true, 3) ∧
      Threads.batches .debug .sevenBlocks (.rest c) Act.wearOut = 5))
    (by decide +kernel)
  obtain ⟨hState, hBatches⟩ := of_decide_eq_true hCheck
  cases hRun : Threads.run .debug .sevenBlocks (.rest c) Act.wearOut with
  | error stop =>
      rw [hRun] at hState
      cases hState
  | ok r =>
      rw [hRun] at hState
      obtain ⟨hGc, hState⟩ := Prod.mk.inj (Except.ok.inj hState)
      obtain ⟨hOps, hState⟩ := Prod.mk.inj hState
      obtain ⟨hOk, hWritten⟩ := Prod.mk.inj hState
      cases hLater : Threads.run .debug .sevenBlocks r.1
          (List.replicate 3 (Act.putFlushed [1] [8])).flatten with
      | error stop =>
          rw [hLater] at hOk
          cases hOk
      | ok r' =>
          have hWorn := flushes_of_worn Config.sevenBlocks_wellFormed hCreate hRun hGc
            (by rw [hBatches, hOps]; decide) hLater
          rw [hWritten] at hWorn
          exact ⟨c, r.1, r.2, r'.1, r'.2, hCreate, hRun, hLater, hWritten, hWorn.2, hWorn.1⟩

end KVCache
