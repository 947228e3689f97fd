import KVCache.Invariant.Interleaving
import KVCache.Invariant.Pool

/-! Whether the collector always has an over-provisioned slab to work with. The
pool gets its share of every channel, rounded down, so with the default options
it is empty on devices with fewer than five blocks in a channel; the bounds of
the pool are kept after that. -/

namespace KVCache

variable {build : Build} {cfg : Config} {c c' : Cache} {t t' : Threads}

open Execution

/-! ### The share of the pool -/

/-- An assertion stops a program in no other way. -/
theorem avoids_assertThat {S : Stop → Prop} {site : Assertion} {cond : Bool}
    (h : ¬S (.assertion site)) : Avoids S (assertThat build site cond) := by
  cases build with
  | release => exact .ok ()
  | debug =>
      unfold assertThat
      dsimp only
      split
      · exact .ok ()
      · exact .error h

/-- What the collector relies on: a slab at the start of a round, with which the
assertions of `quick_gc` and `do_quick_gc` hold and `normal_gc` never looks at
the top of an empty heap. -/
structure HasOps (cfg : Config) (t : Threads) : Prop where
  size : t.gc = .awake → 1 ≤ t.cache.opsPoolSize
  quick : (t.gc = .quickTune ∨ ∃ f o, t.gc = .quickSelect f o) → t.cache.opsPoolSizeOk = true
  top : ∀ channel pq, t.gc = .scan channel pq → ∀ build pick fuel,
    t.step build cfg (.gc pick fuel) ≠ .error .undefined

/-- A pool within its bounds is not empty. -/
theorem hasOps_of_pool (hMax : 1 ≤ t.cache.maxOpsPoolSize) (hPool : PoolOk t.cache t.gc) :
    HasOps cfg t where
  size hAwake := by
    rw [hAwake] at hPool
    obtain ⟨-, hLow, -⟩ := hPool
    omega
  quick hQuick := by
    have hBounds : t.cache.InBounds t.cache.opsPoolSize := by
      rcases hQuick with hTune | ⟨f, o, hSelect⟩
      · rwa [hTune] at hPool
      · rw [hSelect] at hPool
        exact hPool.1
    obtain ⟨-, hLow, hHigh⟩ := hBounds
    exact decide_eq_true ⟨by omega, hHigh⟩
  top channel pq hScan build pick fuel := by
    rw [hScan] at hPool
    obtain ⟨-, hLow, -⟩ := hPool
    have hRoom : sizeLt 0 (3 * t.cache.opsPoolSize) = true := by
      simp only [sizeLt, Bool.or_eq_true, decide_eq_true_eq]
      omega
    have hChoose : Avoids (· = Stop.undefined)
        (Threads.stepChoose build cfg pick t.cache (.scan channel pq)) := by
      simp only [Threads.stepChoose, hRoom, not_true_eq_false, and_false, if_false]
      split
      · split
        · exact .ok _
        · exact .error (by simp)
      · exact (avoids_assertThat (by simp)).bind fun _ _ => .ok _
    have hStep : Avoids (· = Stop.undefined) (t.step build cfg (.gc pick fuel)) := by
      simp only [Threads.step, Threads.stepGc, hScan]
      exact hChoose.bind fun _ _ => .ok _
    exact fun hUndefined => hStep .undefined hUndefined rfl

/-- The default share is a slab from five blocks on. -/
theorem opsSize_default_ne {nrChannels blocksPerChannel blockSize : Nat} {order : List Nat}
    {hasher : Key → Nat} {makeDigest : Key → Digest} :
    (Config.defaultOptions nrChannels blocksPerChannel blockSize order hasher makeDigest).opsSize
      ≠ 0 ↔ 5 ≤ blocksPerChannel := by
  have hShare : (2 / 10 : Rat) * blocksPerChannel = blocksPerChannel / 5 := by ring
  have hNonneg : (0 : Rat) ≤ blocksPerChannel / 5 := by positivity
  have hFloor : truncMul (2 / 10) blocksPerChannel = ⌊(blocksPerChannel : Rat) / 5⌋ := by
    rw [truncMul, hShare, Rat.floor_def']
    exact Int.tdiv_eq_ediv_of_nonneg (Rat.num_nonneg.mpr hNonneg)
  have hLow : 0 ≤ ⌊(blocksPerChannel : Rat) / 5⌋ := Int.floor_nonneg.mpr hNonneg
  have hOne : 1 ≤ ⌊(blocksPerChannel : Rat) / 5⌋ ↔ 5 ≤ blocksPerChannel := by
    rw [Int.le_floor, Int.cast_one, le_div_iff₀ (by norm_num), one_mul]
    exact_mod_cast Iff.rfl
  simp only [Config.opsSize, Config.defaultOptions, hFloor, ← hOne]
  omega

/-- Between construction and the end of every run the collector has a slab to
work with if a channel has five blocks; at the start of a round, only then. -/
theorem hasOps_iff {nrChannels blocksPerChannel blockSize : Nat} {order : List Nat}
    {hasher : Key → Nat} {makeDigest : Key → Digest}
    (hCfg : cfg = .defaultOptions nrChannels blocksPerChannel blockSize order hasher makeDigest)
    (hChannels : 1 ≤ nrChannels) (hBlocks : 1 ≤ blocksPerChannel)
    (hOrder : order.Perm (List.range (nrChannels * blocksPerChannel)))
    (hReach : Threads.Reachable build cfg t) :
    (5 ≤ blocksPerChannel → HasOps cfg t) ∧
      (t.gc = .awake → (HasOps cfg t ↔ 5 ≤ blocksPerChannel)) := by
  have hSome : cfg.blockOrder ≠ [] := by
    rw [hCfg]
    intro hEmpty
    have hLength := hOrder.length_eq
    rw [show order = [] from hEmpty, List.length_nil, List.length_range] at hLength
    exact absurd hLength.symm (Nat.mul_pos hChannels hBlocks).ne'
  have hMax : 1 ≤ t.cache.maxOpsPoolSize ↔ 5 ≤ blocksPerChannel := by
    rw [hReach.maxOps_pos hSome, hCfg]
    exact opsSize_default_ne
  have hHas : 5 ≤ blocksPerChannel → HasOps cfg t :=
    fun hFive => hasOps_of_pool (hMax.mpr hFive) hReach.pool
  refine ⟨hHas, fun hAwake => ⟨fun h => ?_, hHas⟩⟩
  have hSize := h.size hAwake
  have hPool := hReach.pool
  rw [hAwake] at hPool
  obtain ⟨-, -, hHigh⟩ := hPool
  exact hMax.mp (by omega)

/-! ### A first round -/

/-- A run can be continued. -/
theorem Threads.Reachable.next (h : Threads.Reachable build cfg t) (act : Act) (t' : Threads)
    (done : List Event) (hStep : t.step build cfg act = .ok (t', done)) :
    Threads.Reachable build cfg t' := by
  obtain ⟨acts, events, hRun⟩ := h
  obtain ⟨c, hCreate, hRun⟩ := Execution.bind_eq_ok.mp hRun
  exact ⟨acts ++ [act], done ++ events,
    Execution.bind_eq_ok.mpr ⟨c, hCreate, Runs.run_snoc hRun hStep⟩⟩

section

variable {key : Key} {value : Value} {k : Nat}

/-- An object that fills a slab alone gets a slab that is full at once. -/
theorem putSlot_fills {m : Nat} {rest : List Nat}
    (hClass : getSlabClass cfg (slotSize key value) = some k)
    (hOne : cfg.slabSlots (cfg.classSize k) = 1) (hPartial : c.slabPartial k = [])
    (hFree : c.mslabFree.list = m :: rest) (hEmpty : (c.slabs m).nrAlloc = 0) :
    ∃ c', c.putSlot .release cfg key value = .ok (.slot c' m 0) ∧ (c'.slabs m).isFull ∧
      c'.index = c.index ∧ c'.dslabFree = c.dslabFree ∧
      c'.nextMslabFlushChannel = c.nextMslabFlushChannel ∧ c'.nrFullDslab = c.nrFullDslab := by
  simp only [Cache.putSlot, Cache.slotAlloc, hClass, hPartial, hFree, Cache.allocPartial,
    Cache.openSlab, Slab.slotAlloc, Table.get_modify_self, hOne, hEmpty, assertThat, Slab.isFull,
    pure, Except.pure, bind, Except.bind, beq_self_eq_true, if_true, Nat.zero_add]
  refine ⟨_, rfl, ?_, rfl, rfl, rfl, rfl⟩
  simp [Cache.writeSlot, Slab.writeSlot]

/-- A new key gets an entry while there is one. -/
theorem putIndex_inserts (build : Build) (sid slotId : Nat) (hNew : c.index.getIndexEntry cfg key = none)
    (hEntry : c.index.freeIndexEntry ≠ []) :
    ∃ c', c.putIndex build cfg key sid slotId = .ok (some c') ∧ c'.slabs = c.slabs ∧
      c'.dslabFree = c.dslabFree ∧ c'.nextMslabFlushChannel = c.nextMslabFlushChannel ∧
      c'.nrFullDslab = c.nrFullDslab := by
  obtain ⟨e, rest, hList⟩ := List.exists_cons_of_ne_nil hEntry
  simp only [Cache.putIndex, hNew, Cache.insertEntry, Index.indexEntryAlloc, hList]
  exact ⟨_, rfl, rfl, rfl, rfl, rfl⟩

theorem modifyIndexTo_nrFull (src dst : Nat) :
    (c.modifyIndexTo cfg src dst).nrFullDslab = c.nrFullDslab := by
  obtain ⟨index, nrUsed, hChanges⟩ := modifyIndexTo_changes cfg c src dst
  rw [hChanges]

/-- With a full memory slab and a free disk slab, the flush thread gets through. -/
theorem reaches_flushed {writer : WriterAt} {gc : GcAt} {m d : Nat} {ms ds : List Nat}
    (hReach : Threads.Reachable .release cfg ⟨c, writer, .idle, gc⟩)
    (hFull : c.mslabFull.list = m :: ms) (hChannels : 1 ≤ cfg.nrChannels)
    (hFree : (c.dslabFree c.nextMslabFlushChannel).list = d :: ds) :
    ∃ c', Threads.Reachable .release cfg ⟨c', writer, .idle, gc⟩ ∧
      c'.nrFullDslab = c.nrFullDslab + 1 := by
  obtain ⟨n, hn⟩ : ∃ n, cfg.nrChannels = n + 1 := ⟨cfg.nrChannels - 1, by omega⟩
  have hHolding := hReach.next .flush
    ⟨{ c with mslabFull := c.mslabFull.del m }, writer, .holding m, gc⟩ []
    (by simp only [Threads.step, Threads.stepFlush, Cache.takeFull, hFull]; rfl)
  have hFound := hHolding.next .flush ⟨_, writer, .found m d c.nextMslabFlushChannel, gc⟩ []
    (by simp only [Threads.step, Threads.stepFlush, Cache.takeFree, hn, Cache.takeFreeFrom, hFree]
        rfl)
  have hWritten := hFound.next .flush _ [] rfl
  have hCopied := hWritten.next .flush _ [] rfl
  have hMoved := hCopied.next .flush _ [] rfl
  have hReset := hMoved.next .flush _ [] rfl
  have hFreed := hReset.next .flush _ [] rfl
  have hIdle := hFreed.next .flush _ [] rfl
  refine ⟨_, hIdle, ?_⟩
  dsimp only [Cache.linkDslabFull, Cache.linkMslabFree, Cache.resetSlab]
  rw [modifyIndexTo_nrFull]
  rfl

/-- No slab is partial before the first `Put`. -/
theorem Starting.slabPartial_nil {g : Ghost} (h : Starting cfg cfg.nrSlab c g) (k : Nat) :
    c.slabPartial k = [] := by
  refine List.eq_nil_iff_forall_not_mem.mpr fun x hx => ?_
  have hPlace : (g.role x).place = .slabPartial k := h.lists.mem_slabPartial.mp hx
  by_cases hDisk : cfg.nrMslab ≤ x ∧ x < cfg.nrSlab
  · rcases h.done x hDisk.1 hDisk.2 with hRole | hRole <;> simp [hRole, Role.place] at hPlace
  · rw [h.rest x (by omega), emptyRole_place] at hPlace
    split at hPlace <;> cases hPlace

/-- A `Put` of an object that fills a slab alone, a flush, and the collector
starts a round. -/
theorem reaches_awake (hCfg : cfg.Sound) (hMemory : 2 ≤ cfg.nrMslab)
    (hEntries : 1 ≤ cfg.nrIndexEntry) (hChannels : 1 ≤ cfg.nrChannels)
    (hClass : getSlabClass cfg (slotSize key value) = some k)
    (hOne : cfg.slabSlots (cfg.classSize k) = 1) (hCreate : Cache.create .release cfg = .ok c)
    (hFree : (c.dslabFree c.nextMslabFlushChannel).list ≠ []) (hNone : c.nrFullDslab = 0) :
    ∃ t, Threads.Reachable .release cfg t ∧ t.gc = .awake := by
  obtain ⟨c₁, n, hc, hLoop⟩ := create_loop hCreate
  obtain ⟨g, hStart⟩ := Starting.loop hCfg.stocked hLoop
  have hRole : g.role 0 = .memFree := by
    rw [hStart.rest 0 (.inl (by omega)), Config.emptyRole, if_pos (by simp [Config.gcBuffer]; omega)]
  obtain ⟨m, ms, hFirst⟩ : ∃ m ms, c.mslabFree.list = m :: ms := by
    have hMem := hStart.lists.mem_mslabFree.mpr (congrArg Role.place hRole)
    rw [hc]
    exact List.exists_cons_of_ne_nil (List.ne_nil_of_mem hMem)
  have hEmpty : (c.slabs m).nrAlloc = 0 := by
    rw [hc, hStart.slab m]
    rfl
  have hPartial : c.slabPartial k = [] := by
    rw [hc]
    exact hStart.slabPartial_nil k
  have hIndex : c.index = (Cache.initEmpty cfg).index := by
    rw [hc]
    exact hStart.index
  obtain ⟨e, hLast⟩ : ∃ e, cfg.nrIndexEntry = e + 1 := ⟨cfg.nrIndexEntry - 1, by omega⟩
  -- the three parts of `Put`
  obtain ⟨c₂, hSlot, hFull, hIndex₂, hFree₂, hCursor₂, hNone₂⟩ :=
    putSlot_fills hClass hOne hPartial hFirst hEmpty
  have hNew : c₂.index.getIndexEntry cfg key = none := by
    rw [hIndex₂, hIndex, Index.getIndexEntry, initEmpty_table, List.find?_nil]
  have hEntry : c₂.index.freeIndexEntry ≠ [] := by
    rw [hIndex₂, hIndex]
    simp [Cache.initEmpty, hLast, List.range_succ]
  obtain ⟨c₃, hInsert, hSlabs₃, hFree₃, hCursor₃, hNone₃⟩ :=
    putIndex_inserts .release m 0 hNew hEntry
  have hRest : Threads.Reachable .release cfg (.rest c) :=
    ⟨[], [], Execution.bind_eq_ok.mpr ⟨c, hCreate, rfl⟩⟩
  have hWritten := hRest.next (.put key value) ⟨c₂, .written ⟨key, value, m, 0⟩, .idle, .idle⟩ []
    (by simp only [Threads.step, Threads.beginPut, Threads.rest, hSlot]; rfl)
  have hIndexed := hWritten.next .writer ⟨c₃, .indexed m, .idle, .idle⟩ [.put key value]
    (by simp only [Threads.step, Threads.stepWriter, hInsert]; rfl)
  have hPut := hIndexed.next .writer _ [] rfl
  have hIsFull : (c₃.slabs m).isFull = true := hSlabs₃ ▸ hFull
  simp only [Cache.putFull, hIsFull, if_true] at hPut
  -- the flush and the first step of the collector
  obtain ⟨d, ds, hDisk⟩ := List.exists_cons_of_ne_nil hFree
  obtain ⟨c₄, hFlushed, hCount⟩ := reaches_flushed hPut rfl hChannels
    (by rw [show _ = c.dslabFree from hFree₃.trans hFree₂,
      show _ = c.nextMslabFlushChannel from hCursor₃.trans hCursor₂]; exact hDisk)
  have hMore : ¬c₄.nrFullDslab ≤ 0 := by
    dsimp only at hCount
    omega
  refine ⟨⟨c₄, .idle, .idle, .awake⟩, hFlushed.next (.gc [] 0) _ [] ?_, rfl⟩
  simp only [Threads.step, Threads.stepGc, Threads.stepQuick, if_neg hMore]
  rfl

end

/-- The default options for a channel of blocks of a hundred bytes. -/
def Config.oneChannel (blocks : Nat) : Config :=
  .defaultOptions 1 blocks 100 (List.range blocks) (fun _ => 0) (fun _ => 0)

theorem Config.oneChannel_order (blocks : Nat) :
    (List.range blocks).Perm (List.range (1 * blocks)) := by
  rw [Nat.one_mul]

/-- The first round on such a device. -/
theorem oneChannel_awake {blocks : Nat}
    (hCreate : Cache.create .release (.oneChannel blocks) = .ok c)
    (hFree : (c.dslabFree c.nextMslabFlushChannel).list ≠ []) (hNone : c.nrFullDslab = 0) :
    ∃ t, Threads.Reachable .release (.oneChannel blocks) t ∧ t.gc = .awake := by
  have hClasses : (Config.oneChannel blocks).slabClassSize = [40, 56] := rfl
  have hSound : (Config.oneChannel blocks).Sound :=
    { order := Config.oneChannel_order blocks
      slabSize := by simp [Config.oneChannel, Config.defaultOptions]
      memory := by simp [Config.nrMslab, Config.oneChannel, Config.defaultOptions, GB, MB]
      classes := fun z hz => by
        change z ≤ 100 - 44
        rw [hClasses, List.mem_pair] at hz
        omega }
  have hClass : getSlabClass (.oneChannel blocks) (slotSize [] []) = some 0 := by
    simp [getSlabClass, lowerBound, Config.nrSlabClass, Config.classSize, hClasses, slotSize,
      Slot.headerSize]
  have hSlots : (Config.oneChannel blocks).slabSlots ((Config.oneChannel blocks).classSize 0) = 1 := by
    rw [Config.classSize, hClasses]
    change (100 - 44) / 40 = 1
    decide
  exact reaches_awake hSound
    (by simp [Config.nrMslab, Config.oneChannel, Config.defaultOptions, GB, MB])
    (by simp [Config.nrIndexEntry, Config.oneChannel, Config.defaultOptions, MB, IndexEntry.size])
    (Nat.le_refl 1) hClass hSlots hCreate hFree hNone

/-- With five blocks, one of them is over-provisioned. -/
theorem hasOps_five :
    ∃ t, Threads.Reachable .release (.oneChannel 5) t ∧ t.gc = .awake ∧ HasOps (.oneChannel 5) t := by
  obtain ⟨c, hCreate, hState⟩ := Execution.ok_of_check
    (x := Cache.create .release (.oneChannel 5))
    (fun c => decide ((c.dslabFree c.nextMslabFlushChannel).list ≠ [] ∧ c.nrFullDslab = 0))
    (by decide +kernel)
  obtain ⟨hFree, hNone⟩ := of_decide_eq_true hState
  obtain ⟨t, hReach, hAwake⟩ := oneChannel_awake hCreate hFree hNone
  exact ⟨t, hReach, hAwake, (hasOps_iff rfl (by decide) (by decide) (Config.oneChannel_order 5)
    hReach).1 (by decide)⟩

/-- With four blocks the pool is empty when the first round starts. -/
theorem hasOps_four :
    ¬∀ (nrChannels blocksPerChannel blockSize : Nat) (order : List Nat) (hasher : Key → Nat)
      (makeDigest : Key → Digest) (t : Threads), 1 ≤ nrChannels → 1 ≤ blocksPerChannel →
      order.Perm (List.range (nrChannels * blocksPerChannel)) →
      Threads.Reachable .release
        (.defaultOptions nrChannels blocksPerChannel blockSize order hasher makeDigest) t →
      t.gc = .awake → 1 ≤ t.cache.opsPoolSize := by
  intro hAll
  obtain ⟨c, hCreate, hState⟩ := Execution.ok_of_check
    (x := Cache.create .release (.oneChannel 4))
    (fun c => decide ((c.dslabFree c.nextMslabFlushChannel).list ≠ [] ∧ c.nrFullDslab = 0))
    (by decide +kernel)
  obtain ⟨hFree, hNone⟩ := of_decide_eq_true hState
  obtain ⟨t, hReach, hAwake⟩ := oneChannel_awake hCreate hFree hNone
  have hSize := hAll _ _ _ _ _ _ t (by decide) (by decide) (Config.oneChannel_order 4) hReach hAwake
  have hPool := hReach.pool
  rw [hAwake] at hPool
  obtain ⟨-, -, hHigh⟩ := hPool
  have hMax := (hReach.maxOps_pos (by decide)).mp (by omega)
  exact absurd (opsSize_default_ne.mp hMax) (by decide)

end KVCache
