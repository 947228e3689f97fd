import KVCache.Invariant.Assertions
import KVCache.Properties.Overflow

/-! Lists, headers and counters between two rounds of the collector. What list a
slab is on tells what its header says, and the counters kept beside the lists
are their lengths; so the assertions about both never fail. -/

namespace KVCache

variable {build : Build} {cfg : Config} {c : Cache} {g : Ghost} {t : Threads} {x : Nat}

/-! ### Headers -/

namespace Slab

/-- The header of a slab that is not in use. -/
structure Blank (s : Slab) : Prop where
  cid : s.cid = -1
  nrAlloc : s.nrAlloc = 0
  nrUsed : s.nrUsed = 0

/-- The block agrees with the header about the slots. -/
structure StoredAs (s b : Slab) : Prop where
  nrAlloc : s.nrAlloc = b.nrAlloc
  slotSize : s.slotSize = b.slotSize

end Slab

/-- The lists and the headers agree. -/
structure HeadersAgree (cfg : Config) (c : Cache) : Prop where
  mslabFree : ∀ x ∈ c.mslabFree.list, (c.slabs x).Blank
  dslabFree : ∀ channel, ∀ x ∈ (c.dslabFree channel).list, (c.slabs x).Blank
  opsPool : ∀ channel, ∀ x ∈ (c.opsPool channel).list, (c.slabs x).Blank
  slabPartial : ∀ k, ∀ x ∈ c.slabPartial k,
    (c.slabs x).OfClass cfg k ∧ (c.slabs x).nrAlloc < (c.slabs x).nrSlots
  mslabFull : ∀ x ∈ c.mslabFull.list, (c.slabs x).nrAlloc = (c.slabs x).nrSlots
  dslabFull : ∀ channel, ∀ x ∈ (c.dslabFull channel).list,
    (∃ k, (c.slabs x).OfClass cfg k) ∧ (c.slabs x).StoredAs (c.block x)
  channel : ∀ channel x, x ∈ (c.dslabFree channel).list ∨ x ∈ (c.dslabFull channel).list ∨
    x ∈ (c.opsPool channel).list → cfg.channelId (c.slabs x).blockId = channel

/-- The failure of an assertion about class ids, in `do_slab_flush`,
`normal_gc` or `gc_dslabs`. -/
def Stop.OnCid : Stop → Prop
  | .assertion .flushMslabCid | .assertion .flushDslabFree | .assertion .flushCidEq
  | .assertion .flushCid | .assertion .normalCid | .assertion .gcDslabCid
  | .assertion .gcDslabCidEq | .assertion .gcBufferCid => True
  | _ => False

theorem Stop.OnCid.failed {stop : Stop} (h : stop.OnCid) : stop.Failed := by
  cases stop with
  | assertion site => trivial
  | _ => exact h

/-- A slab without slots has none in use. -/
theorem Inv.blank (hInv : Inv cfg c g) (hFresh : (c.slabs x).Fresh) : (c.slabs x).Blank := by
  have hUsed := (hInv.slab x).nrUsed_nonneg
  have hBound := (hInv.slab x).bounds.1
  have hAlloc := hFresh.nrAlloc
  exact ⟨hFresh.cid, hAlloc, by omega⟩

theorem Inv.headersAgree (hInv : Inv cfg c g) (hIdle : g.GcIdle) : HeadersAgree cfg c := by
  -- what a slab on a list looks like, by the role of the slabs at rest there
  have hRest : ∀ {x p}, g.place x = p → p ≠ .nowhere → p ≠ .dslabFull →
      Shape cfg c x (Role.atRest p) := by
    intro x p hPlace hp hFull
    have hShape := (hInv.slab x).shape
    rwa [Role.eq_atRest hPlace hp hFull] at hShape
  constructor
  case mslabFree =>
    intro x hx
    exact hInv.blank (hRest (hInv.lists.mem_mslabFree.mp hx) (by simp) (by simp))
  case dslabFree =>
    intro channel x hx
    exact hInv.blank (hRest (hInv.lists.mem_dslabFree.mp hx).1 (by simp) (by simp))
  case opsPool =>
    intro channel x hx
    exact hInv.blank (hRest (hInv.lists.mem_opsPool.mp hx).1 (by simp) (by simp))
  case slabPartial =>
    intro k x hx
    obtain ⟨hClass, -, hRoom⟩ := hRest (hInv.lists.mem_slabPartial.mp hx) (by simp) (by simp)
    exact ⟨hClass, hRoom⟩
  case mslabFull =>
    intro x hx
    exact (hRest (hInv.lists.mem_mslabFull.mp hx) (by simp) (by simp)).2.2
  case dslabFull =>
    intro channel x hx
    have hShape := (hInv.slab x).shape
    rw [hIdle.full (hInv.lists.mem_dslabFull.mp hx).1] at hShape
    obtain ⟨hClass, hBacks⟩ := hShape
    exact ⟨hClass, hBacks.nrAlloc.symm, hBacks.slotSize.symm⟩
  case channel =>
    intro channel x hx
    rw [hInv.channel_eq x]
    rcases hx with hx | hx | hx
    · exact (hInv.lists.mem_dslabFree.mp hx).2
    · exact (hInv.lists.mem_dslabFull.mp hx).2
    · exact (hInv.lists.mem_opsPool.mp hx).2

theorem ThreadsInv.gcIdle (h : ThreadsInv cfg t g) (hIdle : t.gc = .idle) : g.GcIdle := by
  have hGc := h.gc
  rw [hIdle] at hGc
  exact hGc

/-- Between two rounds of the collector, lists and headers agree, wherever the
other threads are; and the assertions about class ids never fail. -/
theorem headers_agree_of_wellFormed (hCfg : cfg.WellFormed) :
    (∀ build t, Threads.Reachable build cfg t → t.gc = .idle → HeadersAgree cfg t.cache) ∧
      ∀ acts stop, Threads.start .debug cfg acts = .error stop → ¬stop.OnCid := by
  constructor
  · intro build t hReach hIdle
    obtain ⟨g, hInv⟩ := hReach.inv hCfg.sound
    exact hInv.inv.headersAgree (hInv.gcIdle hIdle)
  · intro acts stop hStop hCid
    exact Threads.avoids_start hCfg acts stop hStop hCid.failed

/-- Two slabs were collected into a third one. -/
theorem headers_agree_collected :
    ∃ t, Threads.Reachable .debug .small t ∧ t.gc = .idle ∧ (t.cache.dslabFull 0).list = [3] ∧
      HeadersAgree .small t.cache := by
  obtain ⟨⟨t, events⟩, hRun, hCheck⟩ := Execution.ok_of_check
    (x := Threads.start .debug .small (Act.putFlushed [1] [7] ++ Act.putFlushed [1] [8] ++
      List.replicate 23 (Act.gc [5, 6] 0)))
    (fun r => decide (r.1.gc = .idle ∧ (r.1.cache.dslabFull 0).list = [3])) (by decide +kernel)
  obtain ⟨hIdle, hFull⟩ := of_decide_eq_true hCheck
  have hReach : Threads.Reachable .debug .small t := ⟨_, events, hRun⟩
  exact ⟨t, hReach, hIdle, hFull,
    (headers_agree_of_wellFormed Config.small_wellFormed).1 .debug t hReach hIdle⟩

/-! ### Counters -/

/-- The counters of free and of over-provisioned slabs agree with the lists, and
the pool is within its bounds. -/
structure FreeCounted (cfg : Config) (c : Cache) : Prop where
  nrFreeDslab : c.nrFreeDslab =
    ((List.range cfg.nrChannels).map fun channel => (c.dslabFree channel).list.length).sum
  range : 0 ≤ c.nrFreeDslab ∧ c.nrFreeDslab ≤ cfg.nrBlocks
  opsPoolSize : c.opsPoolSize =
    ((List.range cfg.nrChannels).map fun channel => (c.opsPool channel).list.length).sum
  sizes : ∀ channel, (c.dslabFree channel).size = (c.dslabFree channel).list.length ∧
    (c.opsPool channel).size = (c.opsPool channel).list.length
  bounds : min 10 c.maxOpsPoolSize ≤ c.opsPoolSize ∧ c.opsPoolSize ≤ c.maxOpsPoolSize

theorem Inv.freeCounted (hInv : Inv cfg c g) (hPool : c.InBounds c.opsPoolSize) :
    FreeCounted cfg c where
  nrFreeDslab := by
    rw [hInv.sum_lists (p := .dslabFree) rfl fun _ => rfl]
    exact hInv.lists.nrFreeDslab
  range := hInv.nrFreeDslab_range
  opsPoolSize := by
    rw [hInv.sum_lists (p := .opsPool) rfl fun _ => rfl]
    exact hInv.lists.opsPoolSize
  sizes := fun channel => ⟨(hInv.lists.holds .dslabFree channel (by simp)).size,
    (hInv.lists.holds .opsPool channel (by simp)).size⟩
  bounds := hPool.2

/-- Between two rounds of the collector, free and over-provisioned slabs are
counted, wherever the other threads are; and `check_ops_pool` never fails. -/
theorem free_counted_of_wellFormed (hCfg : cfg.WellFormed) :
    (∀ build t, Threads.Reachable build cfg t → t.gc = .idle → FreeCounted cfg t.cache) ∧
      ∀ acts, Threads.start .debug cfg acts ≠ .error (.assertion .checkOpsPool) := by
  constructor
  · intro build t hReach hIdle
    obtain ⟨g, hInv⟩ := hReach.inv hCfg.sound
    have hPool := hReach.pool
    rw [hIdle] at hPool
    exact hInv.inv.freeCounted hPool
  · intro acts hStop
    exact Threads.avoids_start hCfg acts _ hStop trivial

/-- The round that collected two slabs gave one of them to the pool. -/
theorem free_counted_collected :
    ∃ t, Threads.Reachable .debug .small t ∧ t.gc = .idle ∧ t.cache.nrFreeDslab = 2 ∧
      t.cache.opsPoolSize = 1 ∧ FreeCounted .small t.cache := by
  obtain ⟨⟨t, events⟩, hRun, hCheck⟩ := Execution.ok_of_check
    (x := Threads.start .debug .small (Act.putFlushed [1] [7] ++ Act.putFlushed [1] [8] ++
      List.replicate 23 (Act.gc [5, 6] 0)))
    (fun r => decide (r.1.gc = .idle ∧ r.1.cache.nrFreeDslab = 2 ∧ r.1.cache.opsPoolSize = 1))
    (by decide +kernel)
  obtain ⟨hIdle, hFree, hOps⟩ := of_decide_eq_true hCheck
  have hReach : Threads.Reachable .debug .small t := ⟨_, events, hRun⟩
  exact ⟨t, hReach, hIdle, hFree, hOps,
    (free_counted_of_wellFormed Config.small_wellFormed).1 .debug t hReach hIdle⟩

end KVCache
