import KVCache.Invariant.Census
import KVCache.Invariant.Pool
import KVCache.Invariant.Scans
import KVCache.Invariant.Interleaving

/-! No assertion of the source ever fails, whatever the interleaving. Those about
headers and counts follow from the roles of the slabs, those about the pool of
over-provisioned slabs from its bounds. -/

namespace KVCache

open Execution

variable {build : Build} {cfg : Config} {c c' : Cache} {g g' : Ghost} {t : Threads} {d : Nat}

/-- The failure of an assertion. -/
def Stop.Failed : Stop → Prop
  | .assertion _ => True
  | _ => False

/-- An assertion that holds. -/
theorem avoids_holds {α : Type} {S : Stop → Prop} {site : Assertion} {cond : Bool}
    {next : Unit → Except Stop α} (hCond : cond = true) (hNext : Avoids S (next ())) :
    Avoids S (assertThat build site cond >>= next) := by
  rw [assertThat_ok hCond]
  exact hNext

theorem Slab.OfClass.cid_ne {s : Slab} {k : Nat} (h : s.OfClass cfg k) : s.cid ≠ -1 := by
  rw [h.cid]
  omega

/-! ### The writer -/

/-- A slab that an entry points into counts at least one slot. -/
theorem Inv.nrUsed_pos (hInv : Inv cfg c g) {e : Nat} (he : e ∈ c.index.indexed) :
    0 < (c.slabs (c.index.entries e).slabId).nrUsed := by
  have hCounts := (hInv.slab (c.index.entries e).slabId).counts
  have hRefs := Index.refs_pos he
  omega

/-- A partial slab has a slot left. -/
theorem Inv.avoids_allocPartial {cid sid : Nat} (hInv : Inv cfg c g)
    (hRole : g.role sid = .memPartial cid) :
    Avoids Stop.Failed (c.allocPartial build cid sid) := by
  have hShape := (hInv.slab sid).shape
  rw [hRole] at hShape
  obtain ⟨hClass, -, hRoom⟩ := hShape
  have hFull : (!(c.slabs sid).isFull) = true := by
    simp only [Slab.isFull, Bool.not_eq_true', beq_eq_false_iff_ne]
    omega
  have hCid := hClass.cid
  refine avoids_holds (decide_eq_true (by omega)) (avoids_holds hFull ?_)
  refine Avoids.bind (avoids_holds hFull (.ok _)) fun _ _ => ?_
  dsimp only
  split <;> exact .ok _

theorem Inv.avoids_slotAlloc {size : Nat} (hInv : Inv cfg c g) (hPend : g.pend = none)
    (hSize : 0 < size) : Avoids Stop.Failed (c.slotAlloc build cfg size) := by
  unfold Cache.slotAlloc
  split
  · exact .ok _
  · rename_i cid hGet
    obtain ⟨hClass, hFits⟩ := getSlabClass_some hGet
    split
    · rename_i sid rest hList
      have hPlace : g.place sid = .slabPartial cid :=
        hInv.lists.mem_slabPartial.mp (by rw [hList]; simp)
      exact (hInv.avoids_allocPartial (Role.eq_atRest hPlace (by simp) (by simp))).bind
        fun _ _ => .ok _
    · rename_i sid rest hPartial hList
      have hFree : sid ∈ c.mslabFree.list := by rw [hList]; simp
      have hOpen := hInv.openSlab hPend hFree hClass (by omega)
      exact (hOpen.inv.avoids_allocPartial (g.become_self _ _)).bind fun _ _ => .ok _
    · exact .ok _

theorem ThreadsInv.avoids_beginPut {key : Key} {value : Value} (h : ThreadsInv cfg t g) :
    Avoids Stop.Failed (t.beginPut build cfg key value) := by
  have hWriter := h.writer
  unfold Threads.beginPut
  split
  · rename_i hIdle
    rw [hIdle] at hWriter
    have hSize : 0 < slotSize key value := by
      simp only [slotSize, Slot.headerSize]
      omega
    refine Avoids.bind ((h.inv.avoids_slotAlloc hWriter hSize).bind fun alloc _ => ?_)
      fun alloc _ => ?_
    · cases alloc <;> exact .ok _
    · cases alloc with
      | wait => exact .error id
      | _ => exact .ok _
  · exact .error id

theorem Inv.avoids_putIndex (hInv : Inv cfg c g) {key : Key} {sid slotId : Nat} :
    Avoids Stop.Failed (c.putIndex build cfg key sid slotId) := by
  unfold Cache.putIndex
  split
  · rename_i e hGet
    have hPos := hInv.nrUsed_pos (hInv.index.indexed_of_get hGet)
    refine Avoids.bind ?_ fun _ _ => .ok _
    exact avoids_holds (decide_eq_true hPos) (.ok _)
  · exact .ok _

theorem Inv.avoids_delete (hInv : Inv cfg c g) {key : Key} :
    Avoids Stop.Failed (c.delete build cfg key) := by
  unfold Cache.delete
  split
  · exact .ok _
  · rename_i e hGet
    have hPos := hInv.nrUsed_pos (hInv.index.indexed_of_get hGet)
    cases build with
    | release => exact .ok _
    | debug => exact avoids_holds (decide_eq_true hPos) (.ok _)

theorem Inv.avoids_stepWriter (hInv : Inv cfg t.cache g) :
    Avoids Stop.Failed (t.stepWriter build cfg) := by
  unfold Threads.stepWriter
  split
  · exact .error id
  · refine hInv.avoids_putIndex.bind fun found _ => ?_
    cases found <;> exact .ok _
  · split
    · exact .ok _
    · exact .error id
  · exact .ok _

/-! ### The flush -/

theorem Inv.avoids_takeFull (hInv : Inv cfg c g) : Avoids Stop.Failed (c.takeFull build) := by
  unfold Cache.takeFull
  split
  · exact .error id
  · rename_i m rest hList
    have hPlace : g.place m = .mslabFull := hInv.lists.mem_mslabFull.mp (by rw [hList]; simp)
    have hShape := (hInv.slab m).shape
    rw [Role.eq_atRest hPlace (by simp) (by simp)] at hShape
    obtain ⟨⟨k, hClass⟩, -⟩ := hShape
    exact avoids_holds (decide_eq_true hClass.cid_ne) (.ok _)

theorem Inv.avoids_takeFreeFrom {S : Stop → Prop} {beginning rounds : Nat} (hInv : Inv cfg c g) :
    Avoids S (Cache.takeFreeFrom build cfg beginning rounds c) := by
  induction rounds generalizing c with
  | zero => exact .ok _
  | succ rounds ih =>
      have hCursor : Silent cfg .flush c g
          { c with nextMslabFlushChannel := cfg.nextChannel c.nextMslabFlushChannel } g :=
        hInv.unrelated rfl rfl rfl hInv.lists.congr
      simp only [Cache.takeFreeFrom]
      split
      · rename_i d rest hList
        have hMem : d ∈ (c.dslabFree c.nextMslabFlushChannel).list := by rw [hList]; simp
        obtain ⟨hRole, -, hTaken⟩ := hCursor.inv.takeFree_of_head hMem
        have hShape := (hInv.slab d).shape
        rw [hRole] at hShape
        refine avoids_holds (decide_eq_true hShape.cid) (avoids_holds (decide_eq_true ?_) (.ok _))
        exact hTaken.inv.nrFreeDslab_range.1
      · split
        · exact ih hCursor.inv
        · exact .ok _

theorem FlushOk.avoids_step {a : FlushAt} (h : FlushOk cfg g a) (hInv : Inv cfg c g) :
    Avoids Stop.Failed (Threads.stepFlush build cfg c a) := by
  cases a with
  | idle => exact hInv.avoids_takeFull.bind fun _ _ => .ok _
  | holding m =>
      refine hInv.avoids_takeFreeFrom.bind fun found _ => ?_
      obtain ⟨found, c₁⟩ := found
      cases found <;> exact .ok _
  | copied m d channel =>
      obtain ⟨hSource, hCopy, -⟩ := h
      have hShape := (hInv.slab d).shape
      have hFrom := (hInv.slab m).shape
      rw [hCopy] at hShape
      rw [hSource] at hFrom
      obtain ⟨⟨k, hClass⟩, -⟩ := hFrom
      have hSame : (c.slabs d).cid = (c.slabs m).cid := hShape.1.cid
      refine avoids_holds (decide_eq_true hSame) (avoids_holds (decide_eq_true ?_) (.ok _))
      rw [hSame]
      exact hClass.cid_ne
  | _ => exact .ok _

/-! ### Quick GC -/

theorem avoids_selectDrop {fuel : Nat} {n : Int} {toDrop : List Nat} :
    Avoids Stop.Failed (Cache.selectDrop cfg fuel n c toDrop) := by
  induction fuel generalizing c n toDrop with
  | zero =>
      simp only [Cache.selectDrop]
      split
      · exact .ok _
      · exact .error id
  | succ fuel ih =>
      simp only [Cache.selectDrop]
      split
      · exact .ok _
      · split <;> exact ih

/-- One slab more is free, and there are no more free slabs than blocks. -/
theorem Inv.avoids_linkDslabFree {S : Stop → Prop} {channel : Nat} (hInv : Inv cfg c g)
    (hRole : g.role d = .diskClean) (hChannel : g.channel cfg d = channel) :
    Avoids S (Cache.linkDslabFree build cfg channel c d) := by
  refine avoids_holds (decide_eq_true ?_) (.ok _)
  have hRelease : Cache.linkDslabFree .release cfg channel c d = .ok _ := rfl
  exact (hInv.linkDslabFree hRole hChannel hRelease).inv.nrFreeDslab_range

theorem Inv.avoids_backToDslabFree {ds : List Nat} (hInv : Inv cfg c g)
    (hRoles : ∀ d ∈ ds, g.role d = .diskClean) (hNodup : ds.Nodup) :
    Avoids Stop.Failed (ds.foldlM (Cache.backToDslabFree build cfg) c) := by
  refine Avoids.foldlM_rule
    (fun rest c => ∃ g, Inv cfg c g ∧ (∀ d ∈ rest, g.role d = .diskClean) ∧ rest.Nodup)
    ?_ ?_ ⟨g, hInv, hRoles, hNodup⟩
  · rintro d rest c ⟨g, hInv, hRoles, -⟩
    exact hInv.avoids_linkDslabFree (hRoles d (by simp)) (hInv.channel_eq d).symm
  · rintro d rest c c' ⟨g, hInv, hRoles, hNodup⟩ hRun
    obtain ⟨hNot, hRest⟩ := List.nodup_cons.mp hNodup
    have hLink := hInv.linkDslabFree (hRoles d (by simp)) (hInv.channel_eq d).symm hRun
    exact ⟨_, hLink.inv, g.become_tail _ hNot hRoles, hRest⟩

theorem opsPoolSizeOk_of_inBounds (hMax : 1 ≤ c.maxOpsPoolSize)
    (h : c.InBounds c.opsPoolSize) : c.opsPoolSizeOk = true := by
  obtain ⟨-, hLow, hHigh⟩ := h
  simp only [Cache.opsPoolSizeOk]
  exact decide_eq_true ⟨by omega, hHigh⟩

theorem GcOk.avoids_stepQuick {fuel : Nat} {a : GcAt} (h : GcOk cfg c g a) (hInv : Inv cfg c g)
    (hPool : PoolOk c a) (hMax : 1 ≤ c.maxOpsPoolSize) :
    Avoids Stop.Failed (Threads.stepQuick build cfg fuel c a) := by
  have hFree := hInv.nrFreeDslab_range.1
  cases a with
  | idle =>
      simp only [Threads.stepQuick]
      split
      · exact .error id
      · exact .ok _
  | awake => exact avoids_holds (decide_eq_true hFree) (.ok _)
  | decide nrFree =>
      simp only [Threads.stepQuick]
      split
      · exact .ok _
      · split <;> exact .ok _
  | quickTune =>
      exact avoids_holds (decide_eq_true (by omega))
        (avoids_holds (opsPoolSizeOk_of_inBounds hMax hPool) (.ok _))
  | quickSelect f o =>
      exact avoids_holds (opsPoolSizeOk_of_inBounds hMax hPool.1)
        (avoids_holds hInv.lists.checkOpsPool (avoids_selectDrop.bind fun _ _ => .ok _))
  | quickEvict o toDrop todo =>
      cases todo with
      | nil => exact .ok _
      | cons d todo =>
          exact Avoids.bind (avoids_holds (decide_eq_true rfl) (.ok _)) fun _ _ => .ok _
  | quickFree rest =>
      have hClean : ∀ d ∈ rest, g.role d = .diskClean := fun d hd => h.clean d hd (by simp)
      refine (hInv.avoids_backToDslabFree hClean h.nodup).bind fun c' hRun => ?_
      exact avoids_holds (hInv.backToDslabFree hClean h.nodup hRun).inv.lists.checkOpsPool (.ok _)
  | _ => exact .error id

/-! ### Normal GC -/

theorem GcOk.avoids_stepChoose {pick : List Nat} {a : GcAt} (h : GcOk cfg c g a)
    (hInv : Inv cfg c g) : Avoids Stop.Failed (Threads.stepChoose build cfg pick c a) := by
  cases a with
  | scan channel pq =>
      simp only [Threads.stepChoose]
      split
      · split
        · exact .error id
        · split
          · exact .ok _
          · exact .error id
      · refine avoids_holds (List.all_eq_true.mpr fun d hd => decide_eq_true ?_) (.ok _)
        have hShape := (hInv.slab d).shape
        rw [h.2.2 d hd] at hShape
        obtain ⟨⟨k, hClass⟩, -⟩ := hShape
        exact hClass.cid_ne
  | batch n cid toDrop moved left =>
      cases left with
      | nil => exact .ok _
      | cons d left =>
          refine avoids_holds (decide_eq_true (hInv.slab d).nrUsed_nonneg) ?_
          split <;> exact .ok _
  | _ => exact .error id

/-- The search for an over-provisioned slab fails only when all pools are empty. -/
theorem takeOps_none (hCursor : c.nextOpsPoolRemoveChannel < cfg.nrChannels)
    (hRun : c.takeOps cfg = (none, c')) {channel : Nat} (hChannel : channel < cfg.nrChannels) :
    (c.opsPool channel).list = [] := by
  rcases (takeOps_cases hCursor).2 with ⟨k, ⟨-, hSome, -⟩, hFound⟩ | ⟨hNone, -⟩
  · obtain ⟨d, rest, hList⟩ := List.exists_cons_of_ne_nil hSome
    rw [hRun, Cache.opsFound, hList] at hFound
    cases hFound
  · exact hNone channel hChannel

/-- A pool that is not empty is searched with success. -/
theorem Inv.takeOps_some (hInv : Inv cfg c g)
    (hCursor : c.nextOpsPoolRemoveChannel < cfg.nrChannels) (hPos : 0 < c.opsPoolSize) :
    ∃ ops c', c.takeOps cfg = (some ops, c') := by
  generalize hTake : c.takeOps cfg = taken
  obtain ⟨found, c'⟩ := taken
  cases found with
  | some ops => exact ⟨ops, c', rfl⟩
  | none =>
      have hNone : c.opsPool.flatMap SlabList.list = [] := by
        refine List.eq_nil_iff_forall_not_mem.mpr fun x hx => ?_
        obtain ⟨channel, hMem⟩ := (Table.mem_flatMap rfl).mp hx
        obtain ⟨hPlace, hAt⟩ := hInv.lists.mem_opsPool.mp hMem
        have hDisk := Finset.mem_Ico.mp (hInv.disk_of_place rfl hPlace)
        rw [takeOps_none hCursor hTake (hAt ▸ hInv.channel_lt hDisk)] at hMem
        cases hMem
      have hSize := hInv.lists.opsPoolSize
      rw [hNone, List.length_nil] at hSize
      omega

/-- The checks before the next slab of a batch is read. -/
theorem Filling.avoids_checkMove {S : Stop → Prop} {ds : List Nat} {size : Int}
    (h : Filling cfg c g (d :: ds))
    (hSize : size + c.usedSum (d :: ds) ≤ (c.slabs cfg.gcBuffer).nrSlots) :
    Avoids S (c.checkMove build cfg size d) := by
  have hShape := (h.inv.slab d).shape
  rw [h.dropped d (by simp)] at hShape
  obtain ⟨⟨k, hClass⟩, -⟩ := hShape
  have hRest := Cache.usedSum_nonneg h.inv ds
  rw [Cache.usedSum_cons] at hSize
  refine avoids_holds (decide_eq_true (by omega)) ?_
  refine avoids_holds (decide_eq_true hClass.cid_ne) ?_
  exact avoids_holds (decide_eq_true (h.cid d (by simp))) (.ok _)

/-- A buffer that is being filled belongs to a class. -/
theorem Inv.buffer_cid (hInv : Inv cfg c g) (hBuffer : g.role cfg.gcBuffer = .bufferBusy) :
    (c.slabs cfg.gcBuffer).cid ≠ -1 := by
  have hShape := (hInv.slab cfg.gcBuffer).shape
  rw [hBuffer] at hShape
  obtain ⟨⟨k, hClass⟩, -⟩ := hShape
  exact hClass.cid_ne

theorem GcOk.avoids_stepCollect {a : GcAt} (h : GcOk cfg c g a) (hInv : Inv cfg c g)
    (hPool : PoolOk c a) (hCursor : c.nextOpsPoolRemoveChannel < cfg.nrChannels) :
    Avoids Stop.Failed (Threads.stepCollect build cfg c a) := by
  cases a with
  | take n cid toDrop =>
      obtain ⟨ops, c', hTake⟩ := hInv.takeOps_some hCursor hPool.2.1
      simp only [Threads.stepCollect, hTake]
      exact .ok _
  | prepare n cid ops toDrop =>
      cases toDrop with
      | nil => exact .error id
      | cons first rest => exact .ok _
  | check n cid ops size todo =>
      obtain ⟨-, hFilling, -, hSize⟩ := h
      cases todo with
      | nil => exact avoids_holds (decide_eq_true (hInv.buffer_cid hFilling.buffer)) (.ok _)
      | cons d todo => exact (hFilling.avoids_checkMove hSize).bind fun _ _ => .ok _
  | move n cid ops size d fake todo =>
      obtain ⟨-, hFilling, -, -, hFake⟩ := h
      obtain ⟨c', hMove, -⟩ := hFilling.move build
      simp only [Threads.stepCollect, Cache.moveLive_same hFake, hMove]
      exact .ok _
  | relink n cid ops toDrop => exact .ok _
  | copy n cid ops => exact .ok _
  | modify n cid ops => exact .ok _
  | _ => exact .error id

theorem Between.avoids_reclaim {S : Stop → Prop} {freeList : Table SlabList}
    (h : Between cfg c g freeList) : Avoids S (c.reclaim build cfg freeList) := by
  refine Avoids.foldlM_rule
    (fun channels c' => ∃ g', Reclaiming cfg freeList c g channels c' g') ?_ ?_ ⟨g, h.reclaiming⟩
  · rintro channel channels c₁ ⟨g₁, hBefore⟩
    refine Avoids.foldlM_rule
      (fun rest c => ∃ g, Inv cfg c g ∧ (∀ d ∈ rest, g.role d = .diskClean) ∧
        (∀ d ∈ rest, g.channel cfg d = channel) ∧ rest.Nodup) ?_ ?_
      ⟨g₁, hBefore.round.silent.inv, fun d hd => (hBefore.clean d).mpr ⟨channel, by simp, hd⟩,
        fun d hd => ?_, h.freeList.nodup channel⟩
    · rintro d rest c ⟨g, hInv, hRoles, hChannel, -⟩
      exact hInv.avoids_linkDslabFree (hRoles d (by simp)) (hChannel d (by simp))
    · rintro d rest c c' ⟨g, hInv, hRoles, hChannel, hNodup⟩ hRun
      obtain ⟨hNot, hRest⟩ := List.nodup_cons.mp hNodup
      have hLink := hInv.linkDslabFree (hRoles d (by simp)) (hChannel d (by simp)) hRun
      exact ⟨_, hLink.inv, g.become_tail _ hNot hRoles, fun x hx => hChannel x (by simp [hx]), hRest⟩
    · rw [hBefore.round.silent.frame.channel_eq]
      exact ((h.freeList.mem channel d).mp hd).2
  · rintro channel channels c₁ c₂ ⟨g₁, hBefore⟩ hRun
    exact ⟨_, hBefore.step h.freeList hRun⟩

theorem GcOk.avoids_stepHandBack {a : GcAt} (h : GcOk cfg c g a) (hInv : Inv cfg c g)
    (hPool : PoolOk c a) : Avoids Stop.Failed (Threads.stepHandBack build cfg c a) := by
  cases a with
  | tune n =>
      obtain ⟨-, -, hDue⟩ := hPool
      have hSize : (c.tuneOpsPool n.oldOpsSize).2.opsPoolSize = c.opsPoolSize := by
        unfold Cache.tuneOpsPool
        split <;> rfl
      refine avoids_holds (decide_eq_true (.inr ?_)) (.ok _)
      show n.oldOpsSize - (c.tuneOpsPool n.oldOpsSize).2.opsPoolSize ≤ Cache.nrReclaimed n.freeList
      omega
  | refill n newOpsSize left channel =>
      obtain ⟨-, hSum, hLeft, -⟩ := hPool
      simp only [Threads.stepHandBack]
      split
      · exact avoids_holds (decide_eq_true (by omega)) (.ok _)
      · split <;> exact .ok _
  | shrink n count => cases count <;> exact .ok _
  | reclaim n =>
      have hBetween := h.between hInv
      refine hBetween.avoids_reclaim.bind fun c' hRun => ?_
      obtain ⟨g', hRound, -⟩ := hBetween.reclaim hRun
      exact avoids_holds hRound.silent.inv.lists.checkOpsPool (.ok _)
  | _ => exact .error id

/-! ### Any step -/

theorem GcOk.avoids_stepGc {a : GcAt} {pick : List Nat} {fuel : Nat} (h : GcOk cfg c g a)
    (hInv : Inv cfg c g) (hPool : PoolOk c a) (hMax : 1 ≤ c.maxOpsPoolSize)
    (hCursor : c.nextOpsPoolRemoveChannel < cfg.nrChannels) :
    Avoids Stop.Failed (Threads.stepGc build cfg pick fuel c a) := by
  unfold Threads.stepGc
  split
  iterate 2 exact h.avoids_stepChoose hInv
  iterate 7 exact h.avoids_stepCollect hInv hPool hCursor
  iterate 4 exact h.avoids_stepHandBack hInv hPool
  exact h.avoids_stepQuick hInv hPool hMax

/-- No step fails an assertion. -/
theorem ThreadsInv.avoids_step (h : ThreadsInv cfg t g) (hPool : PoolOk t.cache t.gc)
    (hMax : 1 ≤ t.cache.maxOpsPoolSize)
    (hCursor : t.cache.nextOpsPoolRemoveChannel < cfg.nrChannels) (act : Act) :
    Avoids Stop.Failed (t.step build cfg act) := by
  cases act with
  | put key value => exact h.avoids_beginPut.bind fun _ _ => .ok _
  | writer => exact h.inv.avoids_stepWriter
  | delete key => exact h.inv.avoids_delete.bind fun _ _ => .ok _
  | flush => exact (h.flush.avoids_step h.inv).bind fun _ _ => .ok _
  | gc pick fuel => exact (h.gc.avoids_stepGc h.inv hPool hMax hCursor).bind fun _ _ => .ok _

/-! ### Construction -/

theorem avoids_initBlock {n blockId : Nat} (hBlock : blockId < cfg.nrBlocks)
    (hFree : 0 ≤ c.nrFreeDslab) (hRoom : c.nrFreeDslab + 1 ≤ cfg.nrBlocks) :
    Avoids Stop.Failed (Cache.initBlock build cfg (c, n) blockId) := by
  have hChannel : cfg.channelId (blockId : Int) < cfg.nrChannels := by
    rw [Config.nrBlocks, Nat.mul_comm] at hBlock
    exact Nat.div_lt_of_lt_mul hBlock
  refine avoids_holds (decide_eq_true hChannel) ?_
  split
  · exact .ok _
  · exact avoids_holds (decide_eq_true ⟨Int.add_nonneg hFree (by decide), hRoom⟩) (.ok _)

theorem initBlock_nrFree {n n' blockId : Nat}
    (hRun : Cache.initBlock build cfg (c, n) blockId = .ok (c', n')) :
    c'.nrFreeDslab = c.nrFreeDslab ∨ c'.nrFreeDslab = c.nrFreeDslab + 1 := by
  simp only [Cache.initBlock, Execution.bind_eq_ok] at hRun
  obtain ⟨_, -, hRun⟩ := hRun
  split at hRun
  · obtain ⟨rfl, -⟩ := Prod.mk.inj (Execution.pure_eq_ok.mp hRun)
    exact .inl rfl
  · simp only [Execution.bind_eq_ok] at hRun
    obtain ⟨_, -, hRun⟩ := hRun
    obtain ⟨rfl, -⟩ := Prod.mk.inj (Execution.pure_eq_ok.mp hRun)
    exact .inr rfl

/-- The constructor fails no assertion. -/
theorem avoids_create (hCfg : cfg.Sound) : Avoids Stop.Failed (Cache.create build cfg) := by
  have hLength : cfg.blockOrder.length = cfg.nrBlocks := length_blockOrder hCfg.stocked
  have hLoop : Avoids Stop.Failed
      (cfg.blockOrder.foldlM (Cache.initBlock build cfg) (Cache.initEmpty cfg, cfg.nrMslab)) := by
    refine Avoids.foldlM_rule (fun rest (state : Cache × Nat) => (∀ b ∈ rest, b < cfg.nrBlocks) ∧
      0 ≤ state.1.nrFreeDslab ∧ state.1.nrFreeDslab + rest.length ≤ cfg.nrBlocks) ?_ ?_
      ⟨fun b hb => List.mem_range.mp (hCfg.order.mem_iff.mp hb), Int.le_refl 0, ?_⟩
    · rintro blockId rest ⟨c, n⟩ ⟨hBlocks, hFree, hRoom⟩
      rw [List.length_cons] at hRoom
      dsimp only at hRoom
      exact avoids_initBlock (hBlocks blockId (by simp)) hFree (by omega)
    · rintro blockId rest ⟨c, n⟩ ⟨c', n'⟩ ⟨hBlocks, hFree, hRoom⟩ hRun
      rw [List.length_cons] at hRoom
      dsimp only at hFree hRoom ⊢
      refine ⟨fun b hb => hBlocks b (by simp [hb]), ?_⟩
      rcases initBlock_nrFree hRun with hSame | hMore <;> omega
    · show (0 : Int) + cfg.blockOrder.length ≤ cfg.nrBlocks
      omega
  refine Avoids.bind (hLoop.bind fun state hRun => ?_) fun c _ => ?_
  · obtain ⟨c, n⟩ := state
    obtain ⟨g, hStart⟩ := Starting.loop hCfg.stocked hRun
    have hLists : Lists cfg { c with maxOpsPoolSize := c.opsPoolSize } g := hStart.lists.congr
    exact avoids_holds hLists.checkOpsPool (.ok _)
  · dsimp only
    split
    · exact .error id
    · exact .ok _

/-! ### All runs -/

theorem Config.WellFormed.blockOrder_ne (hCfg : cfg.WellFormed) : cfg.blockOrder ≠ [] := by
  intro hNil
  have hLength := length_blockOrder hCfg.sound.stocked
  rw [hNil, List.length_nil, Config.nrDslab, Config.nrBlocks] at hLength
  have := Nat.mul_pos hCfg.channels hCfg.blocks
  omega

theorem Threads.Reachable.avoids (hCfg : cfg.WellFormed) (h : Threads.Reachable build cfg t)
    (build' : Build) (act : Act) : Avoids Stop.Failed (t.step build' cfg act) := by
  obtain ⟨g, hInv⟩ := h.inv hCfg.sound
  exact hInv.avoids_step h.pool ((h.maxOps_pos hCfg.blockOrder_ne).mpr hCfg.ops)
    (h.cursor hCfg.channels) act

/-- No run fails an assertion, from construction on. -/
theorem Threads.avoids_start (hCfg : cfg.WellFormed) (acts : List Act) :
    Avoids Stop.Failed (Threads.start build cfg acts) := by
  refine (avoids_create hCfg.sound).bind fun c hCreate => ?_
  have hReach : ∀ {done : List Act} {t : Threads} {events : List Event},
      Threads.run build cfg (.rest c) done = .ok (t, events) → Threads.Reachable build cfg t :=
    fun {done t events} hRun => ⟨done, events, Execution.bind_eq_ok.mpr ⟨c, hCreate, hRun⟩⟩
  exact Runs.avoids_run fun done t events act hRun => (hReach hRun).avoids hCfg build act

end KVCache
