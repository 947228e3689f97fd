import KVCache.Invariant.Interleaving
import KVCache.Invariant.Pool
import KVCache.Properties.Overflow

/-! The two waits of `Put`. For a slot it waits until the flush thread frees a
memory slab; that it does so in time depends on how many classes can hold a
memory slab each. For an index entry it waits until the collector releases one;
the least number of entries that the constructor accepts is enough for that. -/

namespace KVCache

variable {build : Build} {cfg : Config} {c : Cache} {g : Ghost} {t : Threads}

/-! ### The wait for a slot -/

/-- The memory slab that `do_slab_flush` holds. -/
def FlushAt.memory : FlushAt → Option Nat
  | .idle | .freed _ _ => none
  | .holding m | .found m _ _ | .written m _ _ | .copied m _ _ | .moved m _ _ | .reset m _ _ => some m

/-- A memory slab waits for the flush or is in its hands. -/
def Threads.CanFlush (t : Threads) : Prop :=
  t.cache.mslabFull.list ≠ [] ∨ t.flush.memory ≠ none

/-- The classes other than `k` of which a slab can be partial: some object
selects the class, and one object does not fill a slab. -/
def Config.otherPartials (cfg : Config) (k : Nat) : Finset Nat :=
  (Finset.range cfg.nrSlabClass).filter fun j =>
    j ≠ k ∧ 2 ≤ cfg.slabSlots (cfg.classSize j) ∧ cfg.Selects j

/-- When the flush has nothing to do, all memory slabs are free or partial. -/
theorem ThreadsInv.mem_role (h : ThreadsInv cfg t g) (hIdle : t.writer = .idle)
    (hFlush : ¬t.CanFlush) {x : Nat} (hx : x < cfg.gcBuffer) :
    g.role x = .memFree ∨ ∃ k, g.role x = .memPartial k := by
  simp only [Threads.CanFlush, not_or, not_not] at hFlush
  obtain ⟨hFull, hMemory⟩ := hFlush
  have hRange := (h.inv.slab x).range
  have hFlushing : ¬(g.role x).Flushing ∨ g.role x = .diskFilled := by
    by_contra hNot
    obtain ⟨hRole, hDisk⟩ := not_or.mp hNot
    have hHeld := h.flushHolds x (not_not.mp hRole)
    have hOk := h.flush
    cases hAt : t.flush with
    | idle => rw [hAt] at hHeld; cases hHeld
    | freed d channel =>
        rw [hAt] at hHeld hOk
        rw [List.mem_singleton.mp hHeld] at hDisk
        exact hDisk hOk.1
    | _ => rw [hAt] at hMemory; cases hMemory
  have hDisk : cfg.gcBuffer < cfg.nrMslab := by
    have := h.inv.config.memory
    simp only [Config.gcBuffer]
    omega
  cases hRole : g.role x with
  | memFree => exact .inl rfl
  | memPartial k => exact .inr ⟨k, rfl⟩
  | memWriter =>
      have hSlab := h.writerHolds.slab x hRole
      rw [hIdle] at hSlab
      cases hSlab
  | memFull =>
      have hMem := h.inv.lists.mem_mslabFull.mpr (congrArg Role.place hRole)
      rw [hFull] at hMem
      cases hMem
  | memFlush | memSource dst | memDone | memReset =>
      rw [hRole] at hFlushing
      exact absurd trivial (hFlushing.resolve_right (by simp))
  | _ =>
      rw [hRole] at hRange
      simp only [Role.InRange, Config.nrSlab] at hRange
      omega

/-- What a waiting `slot_alloc` has found. -/
theorem slotAlloc_wait {size : Nat} (hWait : c.slotAlloc build cfg size = .ok .wait) :
    ∃ k, getSlabClass cfg size = some k ∧ c.slabPartial k = [] ∧ c.mslabFree.list = [] := by
  unfold Cache.slotAlloc at hWait
  split at hWait
  · cases hWait
  · rename_i k hClass
    split at hWait
    · obtain ⟨_, -, hEnd⟩ := Execution.bind_eq_ok.mp hWait
      cases Execution.pure_eq_ok.mp hEnd
    · obtain ⟨_, -, hEnd⟩ := Execution.bind_eq_ok.mp hWait
      cases Execution.pure_eq_ok.mp hEnd
    · rename_i hPartial hFree
      exact ⟨k, hClass, hPartial, hFree⟩

/-- A partial slab is one of a class that can have one. -/
theorem ThreadsInv.mem_otherPartials (h : ThreadsInv cfg t g) {k j x : Nat}
    (hPartial : t.cache.slabPartial k = []) (hRole : g.role x = .memPartial j) :
    j ∈ cfg.otherPartials k ∧ (t.cache.slabs x).cid = j := by
  have hShape := (h.inv.slab x).shape
  rw [hRole] at hShape
  obtain ⟨hClass, -, hLess⟩ := hShape
  have hAlloc := h.writerHolds.opened j x hRole
  rw [hClass.nrSlots] at hLess
  have hNe : j ≠ k := by
    rintro rfl
    have hMem := h.inv.lists.mem_slabPartial.mpr (congrArg Role.place hRole)
    rw [hPartial] at hMem
    cases hMem
  refine ⟨Finset.mem_filter.mpr ⟨Finset.mem_range.mpr hClass.isClass, hNe, by omega, ?_⟩,
    hClass.cid⟩
  exact h.writerHolds.selected j x hRole

/-- One memory slab for the writer and two classes. -/
def Config.twoClasses : Config :=
  { Config.small with
    slabSize := 76
    slabMemBudget := 152
    slabClassSize := [16, 32] }

/-- The slabs in the hands of the collector. -/
def GcAt.slabs (cfg : Config) : GcAt → List Nat
  | .quickEvict _ toDrop _ => toDrop
  | .quickFree rest => rest
  | .relink _ _ ops _ => [ops]
  | .prepare _ _ ops toDrop => ops :: toDrop
  | .check _ _ ops _ todo => cfg.gcBuffer :: ops :: todo
  | .move _ _ ops _ d _ todo => cfg.gcBuffer :: ops :: d :: todo
  | .copy _ _ ops | .modify _ _ ops => [cfg.gcBuffer, ops]
  | _ => []

/-- A slab that flushing or collecting can take the entries from. -/
def Threads.Reclaimable (cfg : Config) (t : Threads) (x : Nat) : Prop :=
  x ∈ t.cache.mslabFull.list ∨ (∃ channel, x ∈ (t.cache.dslabFull channel).list) ∨
    x ∈ t.flush.slabs ∨ x ∈ t.gc.slabs cfg

/-- What the collector is at is still in use, or in its hands. -/
theorem GcOk.mem_slabs {a : GcAt} {x : Nat} (h : GcOk cfg c g a) (hx : (g.role x).Collecting)
    (hClean : g.role x ≠ .diskClean) : x ∈ a.slabs cfg := by
  cases a with
  | idle | awake | decide nrFree | quickTune | quickSelect f o => exact absurd hx (h x)
  | quickEvict o toDrop todo => exact h.all x hx
  | quickFree rest => exact h.all x hx
  | scan channel pq => exact absurd hx (h.1 x)
  | batch n cid toDrop nrSlotsMoved left => exact (h.1.held x hx).resolve_left hClean
  | take n cid toDrop => exact (h.1.held x hx).resolve_left hClean
  | relink n cid ops toDrop => exact absurd ((h.1.held x hx).resolve_left hClean) (by simp)
  | prepare n cid ops toDrop => exact (h.1.held x hx).resolve_left hClean
  | check n cid ops size todo => exact (h.1.held x hx).resolve_left hClean
  | move n cid ops size d fake todo => exact (h.1.held x hx).resolve_left hClean
  | copy n cid ops => exact (h.1.held x hx).resolve_left hClean
  | modify n cid ops => exact (h.1.held x hx).resolve_left hClean
  | tune n => exact (h.held x hx).resolve_left hClean
  | refill n newOpsSize left channel => exact (h.held x hx).resolve_left hClean
  | shrink n count => exact (h.held x hx).resolve_left hClean
  | reclaim n => exact (h.held x hx).resolve_left hClean

/-- A slab with entries that is neither partial nor the writer's. -/
theorem ThreadsInv.reclaimable {x : Nat} (h : ThreadsInv cfg t g) (hRefs : t.cache.index.refs x ≠ 0)
    (hPartial : ∀ k, g.role x ≠ .memPartial k) (hWriter : g.role x ≠ .memWriter) :
    t.Reclaimable cfg x := by
  have hAlive := h.inv.alive_of_refs hRefs
  cases hRole : g.role x with
  | memPartial k => exact absurd hRole (hPartial k)
  | memWriter => exact absurd hRole hWriter
  | memFull => exact .inl (h.inv.lists.mem_mslabFull.mpr (congrArg Role.place hRole))
  | diskFull =>
      exact .inr (.inl ⟨_, h.inv.lists.mem_dslabFull.mpr ⟨congrArg Role.place hRole, rfl⟩⟩)
  | memFlush | memSource dst | diskFilled =>
      exact .inr (.inr (.inl (h.flushHolds x (by rw [hRole]; trivial))))
  | bufferBusy | bufferSource dst | diskDropped =>
      exact .inr (.inr (.inr (h.gc.mem_slabs (by rw [hRole]; trivial) (by rw [hRole]; simp))))
  | _ =>
      rw [hRole] at hAlive
      exact absurd trivial hAlive

/-- Without unused entries all entries are in the hash table. -/
theorem Index.Ok.length_of_exhausted {ix : Index} {keyAt : Nat → Nat → Key} {alloc : Nat → Nat}
    (hOk : ix.Ok cfg keyAt alloc) (hNone : ix.indexEntryAlloc = none) :
    ix.indexed.length = cfg.nrIndexEntry := by
  have hFree : ix.freeIndexEntry = [] := by
    unfold Index.indexEntryAlloc at hNone
    split at hNone
    · assumption
    · cases hNone
  have hPerm : ix.indexed.Perm (List.range cfg.nrIndexEntry) := by
    refine (List.perm_ext_iff_of_nodup hOk.nodup List.nodup_range).mpr fun e => ?_
    have hOnce := hOk.once e
    rw [hFree, List.count_nil, Nat.add_zero] at hOnce
    rw [List.mem_range, ← List.count_pos_iff, hOnce]
    split <;> simp_all
  rw [hPerm.length_eq, List.length_range]

/-- Every entry points into one slab. -/
theorem Index.sum_refs {ix : Index} {slabs : Finset Nat}
    (hAll : ∀ e ∈ ix.indexed, (ix.entries e).slabId ∈ slabs) :
    ∑ x ∈ slabs, ix.refs x = ix.indexed.length := by
  simp only [Index.refs]
  generalize ix.indexed = l at hAll
  induction l with
  | nil => simp
  | cons e rest ih =>
      simp only [List.countP_cons, Finset.sum_add_distrib, List.length_cons]
      rw [ih fun e' he => hAll e' (List.mem_cons_of_mem _ he)]
      simp only [beq_iff_eq]
      rw [Finset.sum_ite_eq, if_pos (hAll e List.mem_cons_self)]

/-- The sum over the classes, by their numbers. -/
theorem minNrIndexEntry_eq :
    Cache.minNrIndexEntry cfg =
      ∑ k ∈ Finset.range cfg.nrSlabClass, cfg.slotsPerSlab (cfg.classSize k) := by
  simp only [Cache.minNrIndexEntry, Config.nrSlabClass, Config.classSize]
  induction cfg.slabClassSize with
  | nil => rfl
  | cons z rest ih =>
      rw [List.map_cons, List.sum_cons, ih, List.length_cons, Finset.sum_range_succ']
      simp [Nat.add_comm]

/-- The constructor accepts no less than one slab of every class. -/
theorem create_entries (hRun : Cache.create build cfg = .ok c) :
    Cache.minNrIndexEntry cfg ≤ cfg.nrIndexEntry := by
  obtain ⟨c₁, -, hRun⟩ := Execution.bind_eq_ok.mp hRun
  by_contra hFew
  rw [if_pos (Nat.lt_of_not_le hFew)] at hRun
  cases hRun

/-! Slabs into which the writer puts objects. -/

/-- The slab is partial or the writer's. -/
def Role.Open (r : Role) : Prop := r = .memWriter ∨ ∃ k, r = .memPartial k

namespace ThreadsInv

variable {p : PendingPut} {x y : Nat}

theorem open_class (h : ThreadsInv cfg t g) (hx : (g.role x).Open) :
    ∃ k, (t.cache.slabs x).OfClass cfg k := by
  have hShape := (h.inv.slab x).shape
  rcases hx with hRole | ⟨k, hRole⟩
  · rw [hRole] at hShape
    exact hShape.1
  · rw [hRole] at hShape
    exact ⟨k, hShape.1⟩

/-- Two open slabs are of different classes. -/
theorem open_injective (h : ThreadsInv cfg t g) (hx : (g.role x).Open) (hy : (g.role y).Open)
    (hSame : (t.cache.slabs x).cid = (t.cache.slabs y).cid) : x = y := by
  have hCid : ∀ z k, g.role z = .memPartial k → (t.cache.slabs z).cid = k := by
    intro z k hz
    have hShape := (h.inv.slab z).shape
    rw [hz] at hShape
    exact hShape.1.cid
  rcases hx with hx | ⟨i, hx⟩ <;> rcases hy with hy | ⟨j, hy⟩
  · exact Option.some.inj ((h.writerHolds.slab x hx).symm.trans (h.writerHolds.slab y hy))
  · exact absurd hy (h.writerHolds.closed j x y hx (hSame.trans (hCid y j hy)))
  · exact absurd hx (h.writerHolds.closed i y x hy (hSame.symm.trans (hCid x i hx)))
  · rw [hCid x i hx, hCid y j hy] at hSame
    obtain rfl : i = j := Int.ofNat.inj hSame
    exact h.writerHolds.single i x y hx hy

/-- While a `Put` has no entry yet, an open slab has a slot without entry. -/
theorem refs_lt (h : ThreadsInv cfg t g) (hPend : g.pend = some p)
    (hSlab : t.writer.slab = some p.sid) (hx : (g.role x).Open) :
    t.cache.index.refs x < cfg.slabSlots (cfg.classSize (t.cache.slabs x).cid.toNat) := by
  obtain ⟨k, hClass⟩ := h.open_class hx
  have hSlots := hClass.nrSlots
  obtain ⟨hUsed, hAlloc⟩ := (h.inv.slab x).bounds
  have hCounts := (h.inv.slab x).counts
  rw [hClass.cid, Int.toNat_natCast]
  rcases hx with hRole | ⟨j, hRole⟩
  · have hSelf : p.sid = x := Option.some.inj (hSlab.symm.trans (h.writerHolds.slab x hRole))
    have hPending : g.pending x = 1 := by simp [Ghost.pending, hPend, hSelf]
    omega
  · have hLess : (t.cache.slabs x).nrAlloc < (t.cache.slabs x).nrSlots := by
      have hShape := (h.inv.slab x).shape
      rw [hRole] at hShape
      exact hShape.2.2
    have hPending : 0 ≤ g.pending x := by
      unfold Ghost.pending
      split <;> simp
    omega

/-- The entries of open slabs are fewer than the slots of one slab of each class. -/
theorem sum_refs_lt (h : ThreadsInv cfg t g) (hPend : g.pend = some p)
    (hSlab : t.writer.slab = some p.sid) (slabs : Finset Nat) (hSome : slabs.Nonempty)
    (hOpen : ∀ x ∈ slabs, (g.role x).Open) :
    ∑ x ∈ slabs, t.cache.index.refs x < Cache.minNrIndexEntry cfg := by
  let cid : Nat → Nat := fun x => (t.cache.slabs x).cid.toNat
  have hCid : ∀ x ∈ slabs, cid x < cfg.nrSlabClass ∧ (t.cache.slabs x).cid = cid x := by
    intro x hx
    obtain ⟨k, hClass⟩ := h.open_class (hOpen x hx)
    simp only [cid, hClass.cid, Int.toNat_natCast]
    exact ⟨hClass.isClass, trivial⟩
  have hInjective : Set.InjOn cid slabs := by
    intro x hx y hy hSame
    refine h.open_injective (hOpen x hx) (hOpen y hy) ?_
    rw [(hCid x hx).2, (hCid y hy).2, hSame]
  calc ∑ x ∈ slabs, t.cache.index.refs x
      < ∑ x ∈ slabs, cfg.slabSlots (cfg.classSize (cid x)) :=
        Finset.sum_lt_sum_of_nonempty hSome fun x hx => h.refs_lt hPend hSlab (hOpen x hx)
    _ = ∑ k ∈ slabs.image cid, cfg.slabSlots (cfg.classSize k) :=
        (Finset.sum_image hInjective (f := fun k => cfg.slabSlots (cfg.classSize k))).symm
    _ ≤ ∑ k ∈ Finset.range cfg.nrSlabClass, cfg.slabSlots (cfg.classSize k) := by
        refine Finset.sum_le_sum_of_subset fun k hk => ?_
        obtain ⟨x, hx, rfl⟩ := Finset.mem_image.mp hk
        exact Finset.mem_range.mpr (hCid x hx).1
    _ ≤ ∑ k ∈ Finset.range cfg.nrSlabClass, cfg.slotsPerSlab (cfg.classSize k) :=
        Finset.sum_le_sum fun k _ => Nat.div_le_div_right (Nat.sub_le _ _)
    _ = Cache.minNrIndexEntry cfg := minNrIndexEntry_eq.symm

end ThreadsInv

/-- When a `Put` finds no unused entry, flushing and collecting can release one:
an entry points to a slab that is not partial and not the one of its own slot. -/
theorem reclaimable_of_exhausted {p : PendingPut} (hCfg : cfg.Sound)
    (hReach : Threads.Reachable build cfg t) (hAt : t.writer = .written p ∨ t.writer = .waiting p)
    (hNone : t.cache.index.indexEntryAlloc = none) :
    ∃ e ∈ t.cache.index.indexed, ∃ x, (t.cache.index.entries e).slabId = x ∧ x ≠ p.sid ∧
      (∀ k, x ∉ t.cache.slabPartial k) ∧ t.Reclaimable cfg x := by
  obtain ⟨g, hInv⟩ := hReach.inv hCfg
  have hEntries : Cache.minNrIndexEntry cfg ≤ cfg.nrIndexEntry := by
    obtain ⟨acts, events, hRun⟩ := hReach
    obtain ⟨c, hCreate, -⟩ := Execution.bind_eq_ok.mp hRun
    exact create_entries hCreate
  have hPend : g.pend = some p := by
    have hOk := hInv.writer
    rcases hAt with hAt | hAt <;> rw [hAt] at hOk
    · exact hOk
    · exact hOk.1
  have hSlab : t.writer.slab = some p.sid := by
    rcases hAt with hAt | hAt <;> rw [hAt] <;> rfl
  have hSelf : (g.role p.sid).Open := ((hInv.inv.pend p hPend).role).symm
  by_contra hNot
  push Not at hNot
  -- otherwise every entry points to an open slab
  have hOpen : ∀ e ∈ t.cache.index.indexed, (g.role (t.cache.index.entries e).slabId).Open := by
    intro e he
    by_contra hClosed
    have hPartial : ∀ k, g.role (t.cache.index.entries e).slabId ≠ .memPartial k :=
      fun k hk => hClosed (.inr ⟨k, hk⟩)
    refine hNot e he _ rfl ?_ ?_ ?_
    · intro hEq
      rw [hEq] at hClosed
      exact hClosed hSelf
    · intro k hMem
      have hPlace := hInv.inv.lists.mem_slabPartial.mp hMem
      exact hPartial k (Role.eq_atRest hPlace (by simp) (by simp))
    · exact hInv.reclaimable (Nat.pos_iff_ne_zero.mp (Index.refs_pos he)) hPartial fun hk => hClosed (.inl hk)
  let slabs : Finset Nat :=
    insert p.sid (t.cache.index.indexed.map fun e => (t.cache.index.entries e).slabId).toFinset
  have hSum : ∑ x ∈ slabs, t.cache.index.refs x = t.cache.index.indexed.length := by
    refine Index.sum_refs fun e he => Finset.mem_insert_of_mem ?_
    exact List.mem_toFinset.mpr (List.mem_map_of_mem he)
  have hLess := hInv.sum_refs_lt hPend hSlab slabs ⟨_, Finset.mem_insert_self _ _⟩ (by
    intro x hx
    rcases Finset.mem_insert.mp hx with rfl | hx
    · exact hSelf
    · obtain ⟨e, he, rfl⟩ := List.mem_map.mp (List.mem_toFinset.mp hx)
      exact hOpen e he)
  rw [hSum, hInv.inv.index.length_of_exhausted hNone] at hLess
  omega

/-- As many entries as the constructor asks for. -/
def Config.fewEntries : Config := { Config.small with indexMemBudget := 144 }

/-- Two objects are on disk and one waits for the flush when the fourth `Put`
finds no entry. -/
theorem reclaimable_three_entries :
    ∃ t p, Threads.Reachable .debug .fewEntries t ∧ t.writer = .written p ∧
      ∃ e ∈ t.cache.index.indexed, ∃ x, (t.cache.index.entries e).slabId = x ∧ x ≠ p.sid ∧
        (∀ k, x ∉ t.cache.slabPartial k) ∧ t.Reclaimable .fewEntries x := by
  obtain ⟨⟨t, events⟩, hRun, hState⟩ := Execution.ok_of_check
    (x := Threads.start .debug .fewEntries
      (.put [1] [7] :: .writer :: .writer ::
        (Act.putFlushed [2] [8] ++ Act.putFlushed [3] [9] ++ [.put [4] [1]])))
    (fun r => decide (r.1.writer = .written ⟨[4], [1], 0, 0⟩ ∧
      r.1.cache.index.indexEntryAlloc = none))
    (by decide +kernel)
  obtain ⟨hAt, hNone⟩ := of_decide_eq_true hState
  have hSound : Config.fewEntries.Sound :=
    { order := by decide, slabSize := by decide, memory := by decide, classes := by decide }
  have hReach : Threads.Reachable .debug .fewEntries t := ⟨_, events, hRun⟩
  exact ⟨t, _, hReach, hAt, reclaimable_of_exhausted hSound hReach (.inl hAt) hNone⟩

end KVCache
