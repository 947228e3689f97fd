import KVCache.Invariant.Gauges

/-! The pool of over-provisioned slabs keeps within its bounds. A round of normal
GC gives back what it took, and shrinks the pool by at most one slab and not
below ten; quick GC at most doubles it, up to the largest size. -/

namespace KVCache

variable {build : Build} {cfg : Config} {c c' : Cache} {t t' : Threads}

/-- The bounds of the pool between two rounds. -/
def Cache.InBounds (c : Cache) (size : Int) : Prop :=
  0 ≤ c.maxOpsPoolSize ∧ min 10 c.maxOpsPoolSize ≤ size ∧ size ≤ c.maxOpsPoolSize

/-- In normal GC the pool has given no more slabs away than were reclaimed for
it, up to `due` slabs. -/
def Consumes (c : Cache) (n : NormalGc) (due : Int) : Prop :=
  c.InBounds n.oldOpsSize ∧ c.opsPoolSize ≤ n.oldOpsSize ∧
    n.oldOpsSize ≤ c.opsPoolSize + Cache.nrReclaimed n.freeList + due

/-- What the collector knows about the pool at each place of a round. -/
def PoolOk (c : Cache) : GcAt → Prop
  | .idle | .awake | .decide _ | .quickTune | .quickFree _ | .scan _ _ | .reclaim _ =>
      c.InBounds c.opsPoolSize
  | .quickSelect _ o | .quickEvict o _ _ =>
      c.InBounds c.opsPoolSize ∧ 0 ≤ o ∧ c.opsPoolSize + o ≤ c.maxOpsPoolSize
  | .batch n _ _ _ _ | .prepare n _ _ _ | .check n _ _ _ _ | .move n _ _ _ _ _ _
  | .copy n _ _ | .modify n _ _ | .tune n => Consumes c n 0
  | .take n _ toDrop => Consumes c n 0 ∧ 0 < c.opsPoolSize ∧ 1 < toDrop.length
  | .relink n _ _ toDrop => Consumes c n 1 ∧ 1 < toDrop.length
  | .refill n newOpsSize left _ =>
      c.InBounds n.oldOpsSize ∧ c.opsPoolSize + left = n.oldOpsSize ∧ 0 ≤ left ∧
        min 10 c.maxOpsPoolSize ≤ newOpsSize
  | .shrink _ count => c.InBounds (c.opsPoolSize - count) ∧ c.opsPoolSize ≤ c.maxOpsPoolSize

/-- Only two of the numbers matter. -/
theorem PoolOk.congr {a : GcAt} (h : PoolOk c a) (hMarks : c'.waterMarks = c.waterMarks)
    (hSize : c'.opsPoolSize = c.opsPoolSize) : PoolOk c' a := by
  have hMax : c'.maxOpsPoolSize = c.maxOpsPoolSize := congrArg WaterMarks.maxOpsPoolSize hMarks
  cases a <;> simpa only [PoolOk, Consumes, Cache.InBounds, hSize, hMax] using h

theorem PoolOk.of_gauges {a : GcAt} (h : PoolOk c a) (hSame : c'.gauges = c.gauges) :
    PoolOk c' a :=
  h.congr (congrArg Gauges.marks hSame) (congrArg Gauges.opsPoolSize hSame)

theorem maxOps_of_marks (h : c'.waterMarks = c.waterMarks) :
    c'.maxOpsPoolSize = c.maxOpsPoolSize :=
  congrArg WaterMarks.maxOpsPoolSize h

theorem nrReclaimed_empty (n : Nat) : Cache.nrReclaimed ⟨List.replicate n default⟩ = 0 := by
  simp only [Cache.nrReclaimed, List.map_replicate]
  exact List.sum_eq_zero fun x hx => List.eq_of_mem_replicate hx

/-- Linking a slab into a local list is counted there. -/
theorem nrReclaimed_add (freeList : Table SlabList) (channel d : Nat) :
    Cache.nrReclaimed (freeList.modify channel (·.add d)) = Cache.nrReclaimed freeList + 1 := by
  have hSum := freeList.sum_map_set SlabList.size rfl channel ((freeList channel).add d)
  simp only [Cache.nrReclaimed, Table.modify]
  simp only [SlabList.add] at hSum ⊢
  omega

/-- All slabs of the batch are reclaimed. -/
theorem nrReclaimed_relinkFull {ops : Nat} {toDrop : List Nat} {freeList freeList' : Table SlabList}
    (hRun : c.relinkFull cfg ops toDrop freeList = (c', freeList')) :
    Cache.nrReclaimed freeList' = Cache.nrReclaimed freeList + toDrop.length := by
  have hLoop : Cache.nrReclaimed (c.relinkFull cfg ops toDrop freeList).2 + 0 =
      Cache.nrReclaimed freeList + toDrop.length :=
    Execution.foldl_rule (fun rest (state : Cache × Table SlabList) =>
        Cache.nrReclaimed state.2 + rest.length = Cache.nrReclaimed freeList + toDrop.length)
      (fun d rest state h => by
        simp only [Cache.unlinkDrop, nrReclaimed_add]
        simp only [List.length_cons] at h
        omega) rfl
  rw [hRun] at hLoop
  simpa using hLoop

namespace PoolOk

variable {a a' : GcAt}

theorem startClass {n : NormalGc} {cid : Nat} (h : PoolOk c (.tune n)) :
    PoolOk c (Threads.startClass cfg n cid) := by
  unfold Threads.startClass
  split <;> exact h

theorem endBatch {n : NormalGc} {cid : Nat} {toDrop : List Nat} (h : PoolOk c (.tune n)) :
    PoolOk c (Threads.endBatch cfg c n cid toDrop) := by
  unfold Threads.endBatch
  split
  · rename_i hLong
    split
    · exact h
    · rename_i hEmpty
      exact ⟨h, Int.not_le.mp hEmpty, hLong⟩
  · exact h.startClass

/-- A new round of normal GC has taken nothing yet. -/
theorem startRound {n : NormalGc} (h : c.InBounds c.opsPoolSize) (hOld : n.oldOpsSize = c.opsPoolSize)
    (hEmpty : Cache.nrReclaimed n.freeList = 0) : PoolOk c (.tune n) := by
  refine ⟨?_, ?_, ?_⟩
  · rw [hOld]
    exact h
  · omega
  · omega

theorem gcStep {pick : List Nat} {fuel : Nat} (h : PoolOk c a)
    (hStep : GcStep build cfg pick fuel c a c' a') : PoolOk c' a' := by
  cases hStep with
  | wake | look | pressed | relaxed | scan => exact h
  | exhausted =>
      obtain ⟨hMax, hLow, hHigh⟩ := h
      exact ⟨⟨hMax, hLow, hHigh⟩, Int.le_refl 0, by omega⟩
  | quickTune =>
      obtain ⟨hMax, hLow, hHigh⟩ := h
      have hAmount : c.quickAmounts.2 = min c.opsPoolSize (c.maxOpsPoolSize - c.opsPoolSize) := rfl
      refine ⟨⟨hMax, hLow, hHigh⟩, ?_, ?_⟩
      · omega
      · show c.opsPoolSize + c.quickAmounts.2 ≤ c.maxOpsPoolSize
        omega
  | quickSelect hSelect =>
      obtain ⟨hMarks, hSize, -⟩ := gauges_selectDrop hSelect
      exact congr h hMarks hSize
  | quickEvict hDrop => exact of_gauges h (gauges_dropDslab hDrop)
  | @backToOpsPool o toDrop rest _ hBack =>
      obtain ⟨⟨hPos, hLow, hHigh⟩, hAsked, hRoom⟩ := h
      obtain ⟨hMarks, hSize, -⟩ := gauges_backToOpsPool cfg o 0 toDrop c
      simp only [hBack] at hMarks hSize
      have hMax := maxOps_of_marks hMarks
      simp only [PoolOk, Cache.InBounds, hMax, hSize]
      refine ⟨hPos, ?_, ?_⟩ <;> omega
  | backToDslabFree hBack => exact of_gauges h (gauges_frees (backToDslabFree_frees hBack))
  | scanned => exact startClass (startRound h rfl (nrReclaimed_empty cfg.nrChannels))
  | batchNext => exact h
  | batchEnd => exact endBatch h
  | take hTake =>
      obtain ⟨hMarks, hSize, -⟩ := gauges_takeOpsFrom hTake
      obtain ⟨⟨hBounds, hLe, hDue⟩, -, hLong⟩ := h
      refine ⟨⟨?_, by omega, by omega⟩, hLong⟩
      rw [Cache.InBounds, maxOps_of_marks hMarks]
      exact hBounds
  | relink hRelink =>
      obtain ⟨hConsumes, hLong⟩ := of_gauges h (gauges_relinkFull hRelink)
      obtain ⟨hBounds, hLe, hDue⟩ := hConsumes
      have hReclaimed := nrReclaimed_relinkFull hRelink
      exact ⟨hBounds, hLe, by dsimp only; omega⟩
  | prepare | check | write | copy => exact h
  | @move n cid ops d size fake todo _ hMove =>
      exact of_gauges (a := .copy n cid ops) h (gauges_moveLive hMove)
  | @modify n cid ops => exact startClass (of_gauges (a := .tune n) h (gauges_modifyIndexTo _ _))
  | tune =>
      obtain ⟨⟨hMax, hLow, hHigh⟩, hLe, -⟩ := h
      unfold Cache.tuneOpsPool
      split
      · refine ⟨⟨hMax, hLow, hHigh⟩, ?_, ?_, ?_⟩ <;> dsimp only <;> omega
      · refine ⟨⟨hMax, hLow, hHigh⟩, ?_, ?_, ?_⟩ <;> dsimp only <;> omega
  | refillSkip => exact h
  | refill hLeft hList hRefill =>
      obtain ⟨⟨hMax, hLow, hHigh⟩, hSum, -, hNew⟩ := h
      obtain ⟨rfl, rfl⟩ := Prod.mk.inj hRefill
      refine ⟨⟨hMax, hLow, hHigh⟩, ?_, by omega, hNew⟩
      simp only [Cache.resetSlab]
      omega
  | refilled hLeft =>
      obtain ⟨⟨hMax, hLow, hHigh⟩, hSum, hNonneg, hNew⟩ := h
      refine ⟨⟨hMax, ?_, ?_⟩, ?_⟩ <;> omega
  | shrink hShrink =>
      obtain ⟨⟨hPos, hLow, -⟩, hHigh⟩ := h
      obtain ⟨hMarks, hSize, -⟩ := gauges_shrinkOps hShrink
      have hMax := maxOps_of_marks hMarks
      simp only [PoolOk, Cache.InBounds, hMax]
      refine ⟨⟨hPos, ?_, ?_⟩, ?_⟩ <;> omega
  | shrunk =>
      obtain ⟨⟨hPos, hLow, -⟩, hHigh⟩ := h
      exact ⟨hPos, by omega, hHigh⟩
  | reclaim hReclaim => exact of_gauges (a := .idle) h (gauges_frees (reclaim_frees hReclaim))

end PoolOk

/-- The cursor only moves to channels, and the largest size of the pool is fixed. -/
def Cache.Steady (cfg : Config) (c c' : Cache) : Prop :=
  c.Turned cfg c' ∧ c'.maxOpsPoolSize = c.maxOpsPoolSize

theorem steady_of_gauges (h : c'.gauges = c.gauges) : c.Steady cfg c' :=
  ⟨turned_of_gauges h, maxOps_of_marks (congrArg Gauges.marks h)⟩

theorem GcStep.steady {pick : List Nat} {fuel : Nat} {a a' : GcAt}
    (h : GcStep build cfg pick fuel c a c' a') : c.Steady cfg c' := by
  cases h with
  | quickSelect hSelect =>
      obtain ⟨hMarks, -, hTurned⟩ := gauges_selectDrop hSelect
      exact ⟨hTurned, maxOps_of_marks hMarks⟩
  | quickEvict hDrop => exact steady_of_gauges (gauges_dropDslab hDrop)
  | @backToOpsPool o toDrop rest _ hBack =>
      obtain ⟨hMarks, -, hTurned⟩ := gauges_backToOpsPool cfg o 0 toDrop c
      rw [hBack] at hMarks hTurned
      exact ⟨hTurned, maxOps_of_marks hMarks⟩
  | backToDslabFree hBack => exact steady_of_gauges (gauges_frees (backToDslabFree_frees hBack))
  | take hTake =>
      obtain ⟨hMarks, -, hTurned⟩ := gauges_takeOpsFrom hTake
      exact ⟨hTurned, maxOps_of_marks hMarks⟩
  | relink hRelink => exact steady_of_gauges (gauges_relinkFull hRelink)
  | move hMove => exact steady_of_gauges (gauges_moveLive hMove)
  | modify => exact steady_of_gauges (gauges_modifyIndexTo _ _)
  | tune =>
      unfold Cache.tuneOpsPool
      split <;> exact ⟨.inl rfl, rfl⟩
  | refill _ _ hRefill =>
      obtain ⟨rfl, -⟩ := Prod.mk.inj hRefill
      exact ⟨.inl rfl, rfl⟩
  | shrink hShrink =>
      obtain ⟨hMarks, -, hTurned⟩ := gauges_shrinkOps hShrink
      exact ⟨hTurned, maxOps_of_marks hMarks⟩
  | reclaim hReclaim => exact steady_of_gauges (gauges_frees (reclaim_frees hReclaim))
  | _ => exact ⟨.inl rfl, rfl⟩

theorem Threads.step_steady {act : Act} {done : List Event}
    (hRun : t.step build cfg act = .ok (t', done)) : t.cache.Steady cfg t'.cache := by
  rcases Threads.step_cases hRun with ⟨hSame, -⟩ | ⟨pick, fuel, hGc⟩
  · exact steady_of_gauges hSame
  · exact (stepGc_inv hGc).steady

/-- Every step keeps the pool within its bounds. -/
theorem PoolOk.step {act : Act} {done : List Event} (h : PoolOk t.cache t.gc)
    (hRun : t.step build cfg act = .ok (t', done)) : PoolOk t'.cache t'.gc := by
  rcases Threads.step_cases hRun with ⟨hSame, hGc⟩ | ⟨pick, fuel, hStep⟩
  · rw [hGc]
    exact h.of_gauges hSame
  · exact h.gcStep (stepGc_inv hStep)

/-! ### Construction -/

/-- What `slab_init` does to the pool with one block. -/
theorem initBlock_pool {n n' blockId : Nat}
    (hRun : Cache.initBlock build cfg (c, n) blockId = .ok (c', n')) :
    (sizeLt (c.opsPool (cfg.channelId blockId)).size cfg.opsSize ∧
        c'.opsPoolSize = c.opsPoolSize + 1) ∨
      (¬sizeLt (c.opsPool (cfg.channelId blockId)).size cfg.opsSize ∧
        c'.opsPoolSize = c.opsPoolSize ∧ c'.opsPool = c.opsPool) := by
  simp only [Cache.initBlock, Execution.bind_eq_ok] at hRun
  obtain ⟨_, -, hRun⟩ := hRun
  split at hRun
  · rename_i hRoom
    obtain ⟨rfl, -⟩ := Prod.mk.inj (Execution.pure_eq_ok.mp hRun)
    exact .inl ⟨hRoom, rfl⟩
  · rename_i hRoom
    simp only [Execution.bind_eq_ok] at hRun
    obtain ⟨_, -, hRun⟩ := hRun
    obtain ⟨rfl, -⟩ := Prod.mk.inj (Execution.pure_eq_ok.mp hRun)
    exact .inr ⟨hRoom, rfl, rfl⟩

theorem initBlock_cursors {n n' blockId : Nat}
    (hRun : Cache.initBlock build cfg (c, n) blockId = .ok (c', n')) :
    c'.nextOpsPoolRemoveChannel = c.nextOpsPoolRemoveChannel ∧
      c'.nextMslabFlushChannel = c.nextMslabFlushChannel := by
  simp only [Cache.initBlock, Execution.bind_eq_ok] at hRun
  obtain ⟨_, -, hRun⟩ := hRun
  split at hRun
  · obtain ⟨rfl, -⟩ := Prod.mk.inj (Execution.pure_eq_ok.mp hRun)
    exact ⟨rfl, rfl⟩
  · simp only [Execution.bind_eq_ok] at hRun
    obtain ⟨_, -, hRun⟩ := hRun
    obtain ⟨rfl, -⟩ := Prod.mk.inj (Execution.pure_eq_ok.mp hRun)
    exact ⟨rfl, rfl⟩

/-- The constructor keeps the size of the pool after the loop of `slab_init` as
its largest. -/
theorem create_loop (hRun : Cache.create build cfg = .ok c) :
    ∃ c₁ n, c = { c₁ with maxOpsPoolSize := c₁.opsPoolSize } ∧
      cfg.blockOrder.foldlM (Cache.initBlock build cfg) (Cache.initEmpty cfg, cfg.nrMslab) =
        .ok (c₁, n) := by
  simp only [Cache.create, Cache.slabInit, Execution.bind_eq_ok] at hRun
  obtain ⟨c₂, ⟨⟨c₁, n⟩, hLoop, _, -, hInit⟩, hRun⟩ := hRun
  obtain rfl := Execution.pure_eq_ok.mp hInit
  split at hRun
  · cases hRun
  · obtain rfl := Execution.pure_eq_ok.mp hRun
    exact ⟨c₁, n, rfl, hLoop⟩

/-- The pool starts at its largest size. -/
theorem create_inBounds (hRun : Cache.create build cfg = .ok c) : c.InBounds c.opsPoolSize := by
  obtain ⟨c₁, n, rfl, hLoop⟩ := create_loop hRun
  have hPos : 0 ≤ c₁.opsPoolSize := by
    refine Execution.foldlM_rule (fun _ (state : Cache × Nat) => 0 ≤ state.1.opsPoolSize) ?_ hLoop
      (Int.le_refl 0)
    rintro blockId _ ⟨c₂, n₂⟩ ⟨c₃, n₃⟩ h hStep
    rcases initBlock_pool hStep with ⟨-, hOne⟩ | ⟨-, hSame, -⟩ <;> dsimp only at h ⊢ <;> omega
  exact ⟨hPos, min_le_right _ _, Int.le_refl _⟩

/-- Both cursors start at the first channel. -/
theorem create_cursors (hRun : Cache.create build cfg = .ok c) :
    c.nextOpsPoolRemoveChannel = 0 ∧ c.nextMslabFlushChannel = 0 := by
  obtain ⟨c₁, n, rfl, hLoop⟩ := create_loop hRun
  refine Execution.foldlM_rule (fun _ (state : Cache × Nat) =>
    state.1.nextOpsPoolRemoveChannel = 0 ∧ state.1.nextMslabFlushChannel = 0) ?_ hLoop ⟨rfl, rfl⟩
  rintro blockId _ ⟨c₂, n₂⟩ ⟨c₃, n₃⟩ ⟨hOps, hFlush⟩ hStep
  obtain ⟨hSameOps, hSameFlush⟩ := initBlock_cursors hStep
  exact ⟨hSameOps.trans hOps, hSameFlush.trans hFlush⟩

/-- There is a pool unless its share of a channel is truncated to nothing. -/
theorem create_maxOps_pos (hBlocks : cfg.blockOrder ≠ []) (hRun : Cache.create build cfg = .ok c) :
    1 ≤ c.maxOpsPoolSize ↔ cfg.opsSize ≠ 0 := by
  obtain ⟨c₁, n, rfl, hLoop⟩ := create_loop hRun
  show 1 ≤ c₁.opsPoolSize ↔ _
  obtain ⟨first, rest, hOrder⟩ := List.exists_cons_of_ne_nil hBlocks
  have hEmpty : ∀ channel, ((Cache.initEmpty cfg).opsPool channel).size = 0 := fun channel => by
    simp only [Cache.initEmpty, Table.get_replicate_default]
    rfl
  constructor
  · -- without a share no block enters the pool
    intro hPos hZero
    have hNone := Execution.foldlM_rule (fun _ (state : Cache × Nat) =>
      state.1.opsPoolSize = 0 ∧ state.1.opsPool = (Cache.initEmpty cfg).opsPool)
      (fun blockId _ state state' h hStep => by
        rcases initBlock_pool hStep with ⟨hRoom, -⟩ | ⟨-, hSize, hPool⟩
        · rw [h.2, hEmpty, hZero] at hRoom
          cases hRoom
        · exact ⟨hSize.trans h.1, hPool.trans h.2⟩) hLoop ⟨rfl, rfl⟩
    have hSize : c₁.opsPoolSize = 0 := hNone.1
    omega
  · -- the first block enters it
    intro hShare
    rw [hOrder, List.foldlM_cons, Execution.bind_eq_ok] at hLoop
    obtain ⟨⟨c₂, n₂⟩, hFirst, hRest⟩ := hLoop
    have hOne : 1 ≤ c₂.opsPoolSize := by
      rcases initBlock_pool hFirst with ⟨-, hSize⟩ | ⟨hFull, -⟩
      · rw [hSize]
        exact Int.le_refl 1
      · rw [hEmpty, sizeLt, Bool.or_eq_true, decide_eq_true_iff, decide_eq_true_iff] at hFull
        omega
    refine Execution.foldlM_rule (fun _ (state : Cache × Nat) => 1 ≤ state.1.opsPoolSize)
      (fun blockId _ state state' h hStep => ?_) hRest hOne
    rcases initBlock_pool hStep with ⟨-, hSize⟩ | ⟨-, hSize, -⟩ <;> omega

/-- What the steps preserve holds along every schedule, whatever the options. -/
theorem Threads.Reachable.induct {P : Threads → Prop}
    (hCreate : ∀ c, Cache.create build cfg = .ok c → P (.rest c))
    (hStep : ∀ t act t' done, P t → t.step build cfg act = .ok (t', done) → P t')
    (h : Threads.Reachable build cfg t) : P t := by
  obtain ⟨acts, events, hRun⟩ := h
  obtain ⟨c, hc, hRun⟩ := Execution.bind_eq_ok.mp hRun
  exact Runs.run_invariant (fun t act t' done h _ => hStep t act t' done h) hRun
    (Runs.along_true _ acts) (hCreate c hc)

/-- The pool keeps within its bounds. -/
theorem Threads.Reachable.pool (h : Threads.Reachable build cfg t) : PoolOk t.cache t.gc :=
  h.induct (P := fun t => PoolOk t.cache t.gc) (fun _ => create_inBounds)
    fun _ _ _ _ h hStep => h.step hStep

/-- The cursor over the pool is a channel. -/
theorem Threads.Reachable.cursor (hChannels : 1 ≤ cfg.nrChannels)
    (h : Threads.Reachable build cfg t) :
    t.cache.nextOpsPoolRemoveChannel < cfg.nrChannels := by
  refine h.induct (P := fun t => t.cache.nextOpsPoolRemoveChannel < cfg.nrChannels)
    (fun c hCreate => ?_) fun t act t' done hLt hStep => ?_
  · show c.nextOpsPoolRemoveChannel < cfg.nrChannels
    rw [(create_cursors hCreate).1]
    exact hChannels
  · exact (Threads.step_steady hStep).1.lt hLt

theorem Threads.Reachable.maxOps_pos (hBlocks : cfg.blockOrder ≠ [])
    (h : Threads.Reachable build cfg t) : 1 ≤ t.cache.maxOpsPoolSize ↔ cfg.opsSize ≠ 0 :=
  h.induct (P := fun t => 1 ≤ t.cache.maxOpsPoolSize ↔ cfg.opsSize ≠ 0)
    (fun _ hCreate => create_maxOps_pos hBlocks hCreate)
    fun _ _ _ _ h hStep => (Threads.step_steady hStep).2.symm ▸ h

end KVCache
