import KVCache.Invariant.Startup
import KVCache.Invariant.Census
import KVCache.Properties.Lookup

/-! The layout of a new cache. The blocks may be delivered in any order; the
share of over-provisioned slabs of a channel is filled first, by whichever of
its blocks come first. -/

namespace KVCache

variable {build : Build} {cfg : Config} {c c' : Cache}

/-- What `slab_init` leaves behind. -/
structure Cache.Layout (cfg : Config) (c : Cache) : Prop where
  sid : ∀ x < cfg.nrSlab, (c.slabs x).sid = x
  memory : ∀ x < cfg.nrMslab, (c.slabs x).blockId = -1
  blocks : Set.BijOn (fun x => (c.slabs x).blockId) (Set.Ico cfg.nrMslab cfg.nrSlab)
    (Set.Ico 0 (cfg.nrBlocks : Int))
  channel : ∀ channel < cfg.nrChannels, ∀ x,
    x ∈ (c.opsPool channel).list ∨ x ∈ (c.dslabFree channel).list ↔
      cfg.nrMslab ≤ x ∧ x < cfg.nrSlab ∧ cfg.channelId (c.slabs x).blockId = channel
  once : ∀ channel < cfg.nrChannels,
    ((c.opsPool channel).list ++ (c.dslabFree channel).list).Nodup
  pool : ∀ channel < cfg.nrChannels,
    ((c.opsPool channel).list.length : Int) = min cfg.opsSize cfg.blocksPerChannel
  free : ∀ channel < cfg.nrChannels,
    (c.opsPool channel).list.length + (c.dslabFree channel).list.length = cfg.blocksPerChannel
  mslabFree : c.mslabFree.list.Perm (List.range (cfg.nrMslab - 1))
  gcBuffer : cfg.gcBuffer = cfg.nrMslab - 1 ∧ cfg.gcBuffer ∉ c.mslabFree.list ∧
    ∀ channel, cfg.gcBuffer ∉ (c.opsPool channel).list ∧ cfg.gcBuffer ∉ (c.dslabFree channel).list
  empty : c.mslabFull.list = [] ∧ (∀ k, c.slabPartial k = []) ∧
    ∀ channel, (c.dslabFull channel).list = []
  sizes : c.mslabFree.size = c.mslabFree.list.length ∧ c.mslabFull.size = 0 ∧
    ∀ channel, (c.opsPool channel).size = (c.opsPool channel).list.length ∧
      (c.dslabFree channel).size = (c.dslabFree channel).list.length ∧
      (c.dslabFull channel).size = 0
  nrFreeDslab : c.nrFreeDslab =
    (((List.range cfg.nrChannels).map fun channel => (c.dslabFree channel).list.length).sum : Nat)
  opsPoolSize : c.opsPoolSize =
    (((List.range cfg.nrChannels).map fun channel => (c.opsPool channel).list.length).sum : Nat)
  maxOpsPoolSize : c.maxOpsPoolSize = c.opsPoolSize
  nrFullDslab : c.nrFullDslab = 0

/-! ### The share of a channel -/

/-- The blocks of a channel among those delivered. -/
def Config.blocksOf (cfg : Config) (channel : Nat) (blocks : List Nat) : Nat :=
  blocks.countP fun b : Nat => cfg.channelId b = channel

theorem blocksOf_concat (channel b : Nat) (blocks : List Nat) :
    cfg.blocksOf channel (blocks ++ [b]) =
      cfg.blocksOf channel blocks + if cfg.channelId b = channel then 1 else 0 := by
  rw [Config.blocksOf, List.countP_append, List.countP_singleton]
  simp only [decide_eq_true_eq]
  rfl

/-- All blocks of a channel are delivered in the end. -/
theorem blocksOf_all {blocks : List Nat} (hOrder : blocks.Perm (List.range cfg.nrBlocks))
    {channel : Nat} (hChannel : channel < cfg.nrChannels) :
    cfg.blocksOf channel blocks = cfg.blocksPerChannel := by
  have hNodup : (blocks.filter fun b : Nat => cfg.channelId b = channel).Nodup :=
    (hOrder.nodup_iff.mpr List.nodup_range).filter _
  rw [Config.blocksOf, List.countP_eq_length_filter, ← List.toFinset_card_of_nodup hNodup]
  have hSame : (blocks.filter fun b : Nat => cfg.channelId b = channel).toFinset =
      Finset.Ico (channel * cfg.blocksPerChannel)
        (channel * cfg.blocksPerChannel + cfg.blocksPerChannel) := by
    ext b
    have hDiv : cfg.channelId (b : Int) = b / cfg.blocksPerChannel := rfl
    rw [List.mem_toFinset, List.mem_filter, hOrder.mem_iff, List.mem_range, Finset.mem_Ico,
      decide_eq_true_eq, hDiv]
    rcases Nat.eq_zero_or_pos cfg.blocksPerChannel with hNone | hPos
    · rw [Config.nrBlocks, hNone]
      omega
    · have hLast : channel * cfg.blocksPerChannel + cfg.blocksPerChannel ≤ cfg.nrBlocks := by
        rw [← Nat.succ_mul]
        exact Nat.mul_le_mul_right _ hChannel
      rw [Nat.div_eq_iff hPos]
      omega
  rw [hSame, Nat.card_Ico, Nat.add_sub_cancel_left]

/-- How the delivered blocks are shared out. -/
structure Cache.SharedOut (cfg : Config) (seen : List Nat) (c : Cache) : Prop where
  pool : ∀ channel, (c.opsPool channel).size = min cfg.opsSize (cfg.blocksOf channel seen)
  both : ∀ channel,
    (c.opsPool channel).size + (c.dslabFree channel).size = cfg.blocksOf channel seen
  range : 0 ≤ c.nrFreeDslab ∧ c.nrFreeDslab ≤ seen.length

/-- A delivered block that goes to the pool of its channel. -/
def Cache.blockToPool (cfg : Config) (c : Cache) (n b : Nat) : Cache :=
  { c with
    slabs := c.slabs.modify n fun s => { s with blockId := b }
    opsPool := c.opsPool.modify (cfg.channelId b) (·.add n)
    opsPoolSize := c.opsPoolSize + 1 }

/-- A delivered block that goes to the free list of its channel. -/
def Cache.blockToFree (cfg : Config) (c : Cache) (n b : Nat) : Cache :=
  { c with
    slabs := c.slabs.modify n fun s => { s with blockId := b }
    dslabFree := c.dslabFree.modify (cfg.channelId b) (·.add n)
    nrFreeDslab := c.nrFreeDslab + 1 }

/-- The function passed to `iterate_all_blocks` returns. -/
theorem initBlock_eq {n b : Nat} (hOps : 0 ≤ cfg.opsSize) (hBlock : b < cfg.nrBlocks)
    (hFree : 0 ≤ c.nrFreeDslab) (hRoom : c.nrFreeDslab < cfg.nrBlocks) :
    Cache.initBlock build cfg (c, n) b =
      .ok (if (c.opsPool (cfg.channelId b)).size < cfg.opsSize then c.blockToPool cfg n b
        else c.blockToFree cfg n b, n + 1) := by
  have hChannel : cfg.channelId (b : Int) < cfg.nrChannels := by
    rw [Config.nrBlocks, Nat.mul_comm] at hBlock
    exact Nat.div_lt_of_lt_mul hBlock
  have hLess : sizeLt (c.opsPool (cfg.channelId b)).size cfg.opsSize =
      decide ((c.opsPool (cfg.channelId b)).size < cfg.opsSize) := by
    rw [sizeLt, decide_eq_false (Int.not_lt.mpr hOps), Bool.false_or]
  have hRange : 0 ≤ c.nrFreeDslab + 1 ∧ c.nrFreeDslab + 1 ≤ (cfg.nrBlocks : Int) := by omega
  simp only [Cache.initBlock, assertThat_ok (decide_eq_true hChannel), hLess, decide_eq_true_eq,
    assertThat_ok (decide_eq_true hRange)]
  by_cases hShare : (c.opsPool (cfg.channelId b)).size < cfg.opsSize
  · simp only [if_pos hShare]
    rfl
  · simp only [if_neg hShare]
    rfl

/-- A share that is not filled grows with the next block of its channel. -/
theorem Cache.SharedOut.blockToPool {seen : List Nat} {n b : Nat} (h : c.SharedOut cfg seen)
    (hShare : (c.opsPool (cfg.channelId b)).size < cfg.opsSize) :
    (c.blockToPool cfg n b).SharedOut cfg (seen ++ [b]) := by
  refine ⟨fun channel => ?_, fun channel => ?_, ?_⟩
  · have hSize := h.pool channel
    rw [blocksOf_concat, Cache.blockToPool, Table.get_modify]
    by_cases hHere : channel = cfg.channelId b
    · subst hHere
      simp only [SlabList.add, if_true]
      omega
    · rw [if_neg hHere, if_neg (Ne.symm hHere)]
      exact hSize
  · have hSize := h.both channel
    rw [blocksOf_concat, Cache.blockToPool, Table.get_modify]
    by_cases hHere : channel = cfg.channelId b
    · subst hHere
      simp only [SlabList.add, if_true]
      omega
    · rw [if_neg hHere, if_neg (Ne.symm hHere)]
      exact hSize
  · have hRange := h.range
    rw [List.length_append, List.length_singleton]
    exact ⟨hRange.1, by simp only [Cache.blockToPool]; omega⟩

theorem Cache.SharedOut.blockToFree {seen : List Nat} {n b : Nat} (h : c.SharedOut cfg seen)
    (hShare : ¬(c.opsPool (cfg.channelId b)).size < cfg.opsSize) :
    (c.blockToFree cfg n b).SharedOut cfg (seen ++ [b]) := by
  refine ⟨fun channel => ?_, fun channel => ?_, ?_⟩
  · have hSize := h.pool channel
    rw [blocksOf_concat]
    by_cases hHere : channel = cfg.channelId b
    · subst hHere
      simp only [Cache.blockToFree, if_true]
      omega
    · rw [if_neg (Ne.symm hHere)]
      exact hSize
  · have hSize := h.both channel
    rw [blocksOf_concat, Cache.blockToFree, Table.get_modify]
    by_cases hHere : channel = cfg.channelId b
    · subst hHere
      simp only [SlabList.add, if_true]
      omega
    · rw [if_neg hHere, if_neg (Ne.symm hHere)]
      exact hSize
  · have hRange := h.range
    rw [List.length_append, List.length_singleton]
    simp only [Cache.blockToFree]
    omega

/-- The loop over the blocks that are still to come. -/
theorem Cache.SharedOut.loop {seen rest : List Nat} {n : Nat} (hOps : 0 ≤ cfg.opsSize)
    (h : c.SharedOut cfg seen) (hBlocks : ∀ b ∈ rest, b < cfg.nrBlocks)
    (hCount : seen.length + rest.length ≤ cfg.nrBlocks) :
    ∃ c' n', rest.foldlM (Cache.initBlock build cfg) (c, n) = .ok (c', n') ∧
      c'.SharedOut cfg (seen ++ rest) := by
  induction rest generalizing seen c n with
  | nil => exact ⟨c, n, rfl, by rwa [List.append_nil]⟩
  | cons b rest ih =>
      obtain ⟨hBlock, hRest⟩ := List.forall_mem_cons.mp hBlocks
      rw [List.length_cons] at hCount
      have hRange := h.range
      have hStep := @initBlock_eq build cfg c n b hOps hBlock hRange.1 (by omega)
      have hMore : (seen ++ [b]).length + rest.length ≤ cfg.nrBlocks := by
        rw [List.length_append, List.length_singleton]
        omega
      have hNext : (if (c.opsPool (cfg.channelId b)).size < cfg.opsSize then c.blockToPool cfg n b
          else c.blockToFree cfg n b).SharedOut cfg (seen ++ [b]) := by
        by_cases hShare : (c.opsPool (cfg.channelId b)).size < cfg.opsSize
        · rw [if_pos hShare]
          exact h.blockToPool hShare
        · rw [if_neg hShare]
          exact h.blockToFree hShare
      obtain ⟨c', n', hRun, hEnd⟩ := @ih _ _ (n + 1) hNext hRest hMore
      refine ⟨c', n', ?_, ?_⟩
      · rw [List.foldlM_cons, hStep]
        exact hRun
      · rwa [List.append_assoc] at hEnd

theorem sharedOut_initEmpty (hOps : 0 ≤ cfg.opsSize) : (Cache.initEmpty cfg).SharedOut cfg [] where
  pool := fun channel => by
    simp only [Cache.initEmpty, Table.get_replicate_default, Config.blocksOf, List.countP_nil]
    exact (Int.min_eq_right hOps).symm
  both := fun channel => by
    simp only [Cache.initEmpty, Table.get_replicate_default]
    rfl
  range := ⟨Int.le_refl 0, Int.le_refl 0⟩

/-! ### The layout -/

namespace Starting

variable {g : Ghost}

theorem place_cases (h : Starting cfg cfg.nrSlab c g) (x : Nat) :
    (x < cfg.nrMslab - 1 ∧ g.place x = .mslabFree) ∨
      ((cfg.nrMslab ≤ x ∧ x < cfg.nrSlab) ∧ (g.place x = .opsPool ∨ g.place x = .dslabFree)) ∨
      (¬x < cfg.nrMslab - 1 ∧ ¬(cfg.nrMslab ≤ x ∧ x < cfg.nrSlab) ∧ g.place x = .nowhere) := by
  by_cases hDisk : cfg.nrMslab ≤ x ∧ x < cfg.nrSlab
  · refine .inr (.inl ⟨hDisk, ?_⟩)
    rcases h.done x hDisk.1 hDisk.2 with hRole | hRole
    · exact .inr (congrArg Role.place hRole)
    · exact .inl (congrArg Role.place hRole)
  · have hPlace : g.place x = if x < cfg.gcBuffer then .mslabFree else .nowhere := by
      rw [Ghost.place, h.rest x (by omega), emptyRole_place]
    rw [Config.gcBuffer] at hPlace
    by_cases hFree : x < cfg.nrMslab - 1
    · rw [if_pos hFree] at hPlace
      exact .inl ⟨hFree, hPlace⟩
    · rw [if_neg hFree] at hPlace
      exact .inr (.inr ⟨hFree, hDisk, hPlace⟩)

theorem mem_mslabFree (h : Starting cfg cfg.nrSlab c g) (x : Nat) :
    x ∈ c.mslabFree.list ↔ x < cfg.nrMslab - 1 := by
  rw [h.lists.mem_mslabFree]
  rcases h.place_cases x with ⟨hFree, hPlace⟩ | ⟨hDisk, hPlace | hPlace⟩ | ⟨hNot, -, hPlace⟩
  · simp [hPlace, hFree]
  · simp only [hPlace, reduceCtorEq, false_iff]
    omega
  · simp only [hPlace, reduceCtorEq, false_iff]
    omega
  · simp [hPlace, hNot]

/-- The disk slabs are in the pool or free. -/
theorem place_disk_iff (h : Starting cfg cfg.nrSlab c g) (x : Nat) :
    g.place x = .opsPool ∨ g.place x = .dslabFree ↔ cfg.nrMslab ≤ x ∧ x < cfg.nrSlab := by
  rcases h.place_cases x with ⟨hFree, hPlace⟩ | ⟨hDisk, hPlace | hPlace⟩ | ⟨-, hNot, hPlace⟩
  · simp only [hPlace, reduceCtorEq, or_self, false_iff]
    omega
  · simp [hPlace, hDisk]
  · simp [hPlace, hDisk]
  · simp [hPlace, hNot]

/-- No other list has a slab. -/
theorem list_nil (h : Starting cfg cfg.nrSlab c g) {p : Place} (hNowhere : p ≠ .nowhere)
    (hFree : p ≠ .mslabFree) (hPool : p ≠ .opsPool) (hDisk : p ≠ .dslabFree) (channel : Nat) :
    (c.listAt p channel).list = [] := by
  refine List.eq_nil_iff_forall_not_mem.mpr fun x hx => ?_
  rw [(h.lists.holds p channel hNowhere).mem] at hx
  rcases h.place_cases x with ⟨-, hPlace⟩ | ⟨-, hPlace | hPlace⟩ | ⟨-, -, hPlace⟩ <;>
    rw [hPlace] at hx
  · exact hFree hx.1.symm
  · exact hPool hx.1.symm
  · exact hDisk hx.1.symm
  · exact hNowhere hx.1.symm

theorem blockId_eq (h : Starting cfg cfg.nrSlab c g) {x : Nat} (hx : x < cfg.nrSlab) :
    (c.slabs x).blockId = cfg.initialBlock x := by
  rw [h.slab x]
  exact if_pos hx

theorem channel_eq (h : Starting cfg cfg.nrSlab c g) {x : Nat} (hx : x < cfg.nrSlab) :
    g.channel cfg x = cfg.channelId (c.slabs x).blockId := by
  rw [h.blockId_eq hx, Ghost.channel, h.ghost]
  rfl

/-- The lists beyond the channels are empty, so all lists are counted. -/
theorem sum_lists (hCfg : cfg.Stocked) (h : Starting cfg cfg.nrSlab c g) {p : Place}
    {t : Table SlabList} (hp : p = .opsPool ∨ p = .dslabFree)
    (ht : ∀ channel, t channel = c.listAt p channel) :
    (t.flatMap SlabList.list).length =
      ((List.range cfg.nrChannels).map fun channel => (t channel).list.length).sum := by
  refine Table.length_flatMap_eq_sum rfl _ fun channel hLe => ?_
  refine List.eq_nil_iff_forall_not_mem.mpr fun x hMem => ?_
  have hGeometry : Geometry cfg g.block := by
    rw [h.ghost]
    exact geometry_initialBlock hCfg
  have hPer : p.perChannel = true ∧ p ≠ .nowhere := by
    rcases hp with rfl | rfl <;> exact ⟨rfl, by simp⟩
  rw [ht, (h.lists.holds p channel hPer.2).mem] at hMem
  have hDisk := (h.place_disk_iff x).mp (by rw [hMem.1]; exact hp)
  have hLt := hGeometry.channel_lt hDisk
  rw [hMem.2 hPer.1] at hLt
  omega

end Starting

/-- The blocks are numbered one after the other. -/
theorem bijOn_initialBlock (hCfg : cfg.Stocked) :
    Set.BijOn cfg.initialBlock (Set.Ico cfg.nrMslab cfg.nrSlab) (Set.Ico 0 (cfg.nrBlocks : Int)) := by
  have hGeometry := geometry_initialBlock hCfg
  refine ⟨fun x hx => hGeometry.disk x hx.1 hx.2, fun x hx y hy hEq => ?_, fun b hb => ?_⟩
  · exact hGeometry.injective x y hx.1 hx.2 hy.1 hy.2 hEq
  · obtain ⟨hLow, hHigh⟩ := hb
    have hMem : b.toNat ∈ cfg.blockOrder :=
      hCfg.order.mem_iff.mpr (List.mem_range.mpr (by omega))
    obtain ⟨i, hi, hBlock⟩ := List.mem_iff_getElem.mp hMem
    have hLength := length_blockOrder hCfg
    have hIn : cfg.nrMslab ≤ cfg.nrMslab + i ∧ cfg.nrMslab + i < cfg.nrSlab := by
      simp only [Config.nrSlab]
      omega
    refine ⟨cfg.nrMslab + i, hIn, ?_⟩
    rw [Config.initialBlock, if_pos hIn, Nat.add_sub_cancel_left, List.getD_eq_getElem _ _ hi,
      hBlock]
    omega

/-- All blocks assigned and all shares handed out: the layout is complete. -/
theorem Starting.layout {g : Ghost} (hCfg : cfg.Stocked) (h : Starting cfg cfg.nrSlab c g)
    (hShared : c.SharedOut cfg cfg.blockOrder) :
    { c with maxOpsPoolSize := c.opsPoolSize }.Layout cfg := by
  have hPool := fun channel => h.lists.holds .opsPool channel (by simp)
  have hFree := fun channel => h.lists.holds .dslabFree channel (by simp)
  have hMslab := h.lists.holds .mslabFree 0 (by simp)
  have hMemory := hCfg.memory
  constructor
  case sid =>
    intro x hx
    show (c.slabs x).sid = x
    rw [h.slab x]
    exact if_pos hx
  case memory =>
    intro x hx
    show (c.slabs x).blockId = -1
    rw [h.blockId_eq (Nat.lt_of_lt_of_le hx (Nat.le_add_right _ _))]
    exact (geometry_initialBlock hCfg).memory x hx
  case blocks =>
    refine (bijOn_initialBlock hCfg).congr fun x hx => ?_
    exact (h.blockId_eq hx.2).symm
  case channel =>
    intro channel _ x
    show x ∈ (c.opsPool channel).list ∨ x ∈ (c.dslabFree channel).list ↔ _
    rw [h.lists.mem_opsPool, h.lists.mem_dslabFree, ← or_and_right, h.place_disk_iff, and_assoc]
    constructor
    · rintro ⟨hLow, hHigh, hChannel⟩
      exact ⟨hLow, hHigh, (h.channel_eq hHigh).symm.trans hChannel⟩
    · rintro ⟨hLow, hHigh, hChannel⟩
      exact ⟨hLow, hHigh, (h.channel_eq hHigh).trans hChannel⟩
  case once =>
    intro channel _
    refine List.nodup_append.mpr ⟨(hPool channel).nodup, (hFree channel).nodup, ?_⟩
    intro x hx y hy hEq
    subst hEq
    have hPlace := (h.lists.mem_opsPool.mp hx).1
    rw [(h.lists.mem_dslabFree.mp hy).1] at hPlace
    cases hPlace
  case pool =>
    intro channel hChannel
    have hShare := hShared.pool channel
    rw [blocksOf_all hCfg.order hChannel, show (c.opsPool channel).size = _ from
      (hPool channel).size] at hShare
    exact hShare
  case free =>
    intro channel hChannel
    have hBoth := hShared.both channel
    rw [blocksOf_all hCfg.order hChannel, show (c.opsPool channel).size = _ from
      (hPool channel).size, show (c.dslabFree channel).size = _ from (hFree channel).size] at hBoth
    exact Int.ofNat.inj hBoth
  case mslabFree =>
    refine (List.perm_ext_iff_of_nodup hMslab.nodup List.nodup_range).mpr fun x => ?_
    rw [List.mem_range]
    exact h.mem_mslabFree x
  case gcBuffer =>
    refine ⟨rfl, fun hMem => ?_, fun channel => ⟨fun hMem => ?_, fun hMem => ?_⟩⟩
    · exact Nat.lt_irrefl _ ((h.mem_mslabFree _).mp hMem)
    · have hDisk := (h.place_disk_iff cfg.gcBuffer).mp (.inl (h.lists.mem_opsPool.mp hMem).1)
      simp only [Config.gcBuffer] at hDisk
      omega
    · have hDisk := (h.place_disk_iff cfg.gcBuffer).mp (.inr (h.lists.mem_dslabFree.mp hMem).1)
      simp only [Config.gcBuffer] at hDisk
      omega
  case empty =>
    refine ⟨?_, fun k => ?_, fun channel => ?_⟩
    · exact @Starting.list_nil _ _ _ h .mslabFull (by simp) (by simp) (by simp) (by simp) 0
    · exact @Starting.list_nil _ _ _ h (.slabPartial k) (by simp) (by simp) (by simp) (by simp) 0
    · exact @Starting.list_nil _ _ _ h .dslabFull (by simp) (by simp) (by simp) (by simp) channel
  case sizes =>
    have hFull : ∀ p, p = .mslabFull ∨ p = .dslabFull → ∀ channel, (c.listAt p channel).size = 0 := by
      rintro p (rfl | rfl) channel <;>
        rw [(h.lists.holds _ channel (by simp)).size,
          h.list_nil (by simp) (by simp) (by simp) (by simp)] <;> rfl
    exact ⟨hMslab.size, hFull .mslabFull (.inl rfl) 0, fun channel => ⟨(hPool channel).size,
      (hFree channel).size, hFull .dslabFull (.inr rfl) channel⟩⟩
  case nrFreeDslab =>
    show c.nrFreeDslab = _
    rw [h.lists.nrFreeDslab, h.sum_lists hCfg (.inr rfl) fun _ => rfl]
  case opsPoolSize =>
    show c.opsPoolSize = _
    rw [h.lists.opsPoolSize, h.sum_lists hCfg (.inl rfl) fun _ => rfl]
  case maxOpsPoolSize => rfl
  case nrFullDslab =>
    have hDrift : g.drift = 0 := by rw [h.ghost]; rfl
    have hCount := h.lists.nrFullDslab
    rw [hDrift, Table.length_flatMap_eq_sum rfl 0 fun channel _ =>
      @Starting.list_nil _ _ _ h .dslabFull (by simp) (by simp) (by simp) (by simp) channel] at hCount
    exact (Int.add_zero _).symm.trans hCount

/-- Whatever the order of the blocks, `slab_init` returns, with the layout. -/
theorem slabInit_layout (build : Build) (hOrder : cfg.blockOrder.Perm (List.range cfg.nrBlocks))
    (hMemory : 1 ≤ cfg.nrMslab) (hOps : 0 ≤ cfg.opsSize) :
    ∃ c, Cache.slabInit build cfg = .ok c ∧ c.Layout cfg := by
  have hCfg : cfg.Stocked := ⟨hOrder, hMemory⟩
  have hBlocks : ∀ b ∈ cfg.blockOrder, b < cfg.nrBlocks := fun b hb =>
    List.mem_range.mp (hOrder.mem_iff.mp hb)
  have hLength : cfg.blockOrder.length = cfg.nrBlocks := length_blockOrder hCfg
  obtain ⟨c, n, hLoop, hShared⟩ := @Cache.SharedOut.loop build cfg (Cache.initEmpty cfg) []
    cfg.blockOrder cfg.nrMslab hOps (sharedOut_initEmpty hOps) hBlocks (by
      rw [List.length_nil]
      omega)
  obtain ⟨g, hStart⟩ := Starting.loop hCfg hLoop
  have hLists : Lists cfg { c with maxOpsPoolSize := c.opsPoolSize } g := hStart.lists.congr
  refine ⟨{ c with maxOpsPoolSize := c.opsPoolSize }, ?_, hStart.layout hCfg hShared⟩
  rw [Cache.slabInit, Execution.bind_eq_ok]
  refine ⟨(c, n), hLoop, ?_⟩
  dsimp only
  rw [assertThat_ok hLists.checkOpsPool]
  rfl

/-- Two channels of three blocks each, delivered in an order that mixes them;
each channel keeps the first block that comes. -/
theorem slabInit_layout_mixed :
    let cfg := { Config.small with
      nrChannels := 2, blocksPerChannel := 3, blockOrder := [3, 0, 5, 1, 4, 2], opsRate := 1 / 2 }
    ∃ c, Cache.slabInit .debug cfg = .ok c ∧ c.opsPoolSize = 2 ∧ c.nrFreeDslab = 4 ∧
      (c.opsPool 0).list.length = 1 := by
  intro cfg
  obtain ⟨c, hInit, hLayout⟩ := @slabInit_layout cfg .debug (by decide) (by decide)
    (by decide +kernel)
  obtain ⟨c', hInit', hCheck⟩ := Execution.ok_of_check (x := Cache.slabInit .debug cfg)
    (fun c => c.opsPoolSize = 2 ∧ c.nrFreeDslab = 4) (by decide +kernel)
  obtain rfl := Except.ok.inj (hInit.symm.trans hInit')
  obtain ⟨hPool, hFree⟩ := of_decide_eq_true hCheck
  have hShare := hLayout.pool 0 (by decide)
  rw [show min cfg.opsSize cfg.blocksPerChannel = 1 by decide +kernel] at hShare
  exact ⟨c, hInit, hPool, hFree, Int.ofNat.inj hShare⟩

end KVCache
