import KVCache.Invariant.Gauges

/-! What `Put` and `Delete` change: headers and data of memory slabs, the lists
of memory slabs, and the index. Blocks, the lists of disk slabs and all that
steers the background threads are the same before and after. -/

namespace KVCache

variable {build : Build} {cfg : Config} {c c' : Cache} {t t' : Threads} {done : List Event}
  {cid sid slotId : Nat} {key : Key} {value : Value}

/-- The parts of a cache that the writer and `Delete` leave alone. -/
structure DiskSide where
  disk : Table Slab
  dslabFree : Table SlabList
  dslabFull : Table SlabList
  opsPool : Table SlabList
  nrFreeDslab : Int
  nrFullDslab : Int
  steering : Gauges × Nat
  deriving DecidableEq, Repr

def Cache.diskSide (c : Cache) : DiskSide :=
  ⟨c.disk, c.dslabFree, c.dslabFull, c.opsPool, c.nrFreeDslab, c.nrFullDslab, c.steering⟩

theorem diskSide_allocPartial (hRun : c.allocPartial build cid sid = .ok (c', slotId)) :
    c'.diskSide = c.diskSide ∧ c'.index = c.index ∧ c'.mslabFree = c.mslabFree ∧
      c'.mslabFull = c.mslabFull := by
  simp only [Cache.allocPartial, Execution.bind_eq_ok] at hRun
  obtain ⟨_, -, _, -, ⟨slab, slot⟩, -, hEnd⟩ := hRun
  split at hEnd
  · obtain ⟨rfl, -⟩ := Prod.mk.inj (Execution.pure_eq_ok.mp hEnd)
    exact ⟨rfl, rfl, rfl, rfl⟩
  · obtain ⟨rfl, -⟩ := Prod.mk.inj (Execution.pure_eq_ok.mp hEnd)
    exact ⟨rfl, rfl, rfl, rfl⟩

/-- A slot is taken in a partial slab, or in the first free one. -/
theorem diskSide_putSlot (hRun : c.putSlot build cfg key value = .ok (.slot c' sid slotId)) :
    c'.diskSide = c.diskSide ∧ c'.index = c.index ∧ c'.mslabFull = c.mslabFull ∧
      (c'.mslabFree = c.mslabFree ∨
        ∃ m rest, c.mslabFree.list = m :: rest ∧ c'.mslabFree = c.mslabFree.del m) := by
  simp only [Cache.putSlot, Execution.bind_eq_ok] at hRun
  obtain ⟨alloc, hAlloc, hEnd⟩ := hRun
  cases alloc with
  | tooLarge => cases hEnd
  | wait => cases hEnd
  | slot c₁ sid' slotId' =>
      obtain ⟨rfl, rfl, rfl⟩ := SlotAlloc.slot.inj (Execution.pure_eq_ok.mp hEnd)
      show c₁.diskSide = c.diskSide ∧ c₁.index = c.index ∧ c₁.mslabFull = c.mslabFull ∧
        (c₁.mslabFree = c.mslabFree ∨
          ∃ m rest, c.mslabFree.list = m :: rest ∧ c₁.mslabFree = c.mslabFree.del m)
      unfold Cache.slotAlloc at hAlloc
      split at hAlloc
      · cases hAlloc
      · split at hAlloc
        · obtain ⟨⟨c₂, slot⟩, hPartial, hEnd⟩ := Execution.bind_eq_ok.mp hAlloc
          obtain ⟨rfl, -, -⟩ := SlotAlloc.slot.inj (Execution.pure_eq_ok.mp hEnd)
          obtain ⟨hDisk, hIndex, hFree, hFull⟩ := diskSide_allocPartial hPartial
          exact ⟨hDisk, hIndex, hFull, .inl hFree⟩
        · rename_i m rest _ hList
          obtain ⟨⟨c₂, slot⟩, hPartial, hEnd⟩ := Execution.bind_eq_ok.mp hAlloc
          obtain ⟨rfl, -, -⟩ := SlotAlloc.slot.inj (Execution.pure_eq_ok.mp hEnd)
          obtain ⟨hDisk, hIndex, hFree, hFull⟩ := diskSide_allocPartial hPartial
          exact ⟨hDisk, hIndex, hFull, .inr ⟨m, rest, hList, hFree⟩⟩
        · cases hAlloc

/-- An unused entry is taken for the key. -/
theorem diskSide_insertEntry (hRun : c.insertEntry cfg key sid slotId = some c') :
    c' = { c with index := c'.index } ∧
      ∃ e, c.index.freeIndexEntry = e :: c'.index.freeIndexEntry ∧
        c'.index.nrFreeIndexEntry = c.index.nrFreeIndexEntry - 1 := by
  unfold Cache.insertEntry Index.indexEntryAlloc at hRun
  cases hFree : c.index.freeIndexEntry with
  | nil =>
      rw [hFree] at hRun
      cases hRun
  | cons e rest =>
      rw [hFree] at hRun
      obtain rfl := Option.some.inj hRun
      exact ⟨rfl, e, rfl, rfl⟩

theorem diskSide_putIndex (hRun : c.putIndex build cfg key sid slotId = .ok (some c')) :
    c' = { c with index := c'.index, slabs := c'.slabs } ∧
      (c'.index.freeIndexEntry = c.index.freeIndexEntry ∧
          c'.index.nrFreeIndexEntry = c.index.nrFreeIndexEntry ∨
        ∃ e, c.index.freeIndexEntry = e :: c'.index.freeIndexEntry ∧
          c'.index.nrFreeIndexEntry = c.index.nrFreeIndexEntry - 1) := by
  unfold Cache.putIndex at hRun
  split at hRun
  · simp only [Cache.overwriteEntry, Execution.bind_eq_ok, Execution.pure_eq_ok] at hRun
    obtain ⟨_, ⟨_, -, rfl⟩, hEnd⟩ := hRun
    obtain rfl := Option.some.inj hEnd
    exact ⟨rfl, .inl ⟨rfl, rfl⟩⟩
  · obtain ⟨hSame, hTaken⟩ := diskSide_insertEntry (Except.ok.inj hRun)
    refine ⟨?_, .inr hTaken⟩
    rw [hSame]

theorem diskSide_putFull : (c.putFull sid).diskSide = c.diskSide ∧
    (c.putFull sid).index = c.index ∧ (c.putFull sid).mslabFree = c.mslabFree := by
  unfold Cache.putFull
  split <;> exact ⟨rfl, rfl, rfl⟩

/-- `Delete` changes the index, and the use count of one slab. -/
theorem diskSide_delete (hRun : c.delete build cfg key = .ok c') :
    c' = { c with index := c'.index, slabs := c'.slabs } := by
  unfold Cache.delete at hRun
  split at hRun
  · obtain rfl := Except.ok.inj hRun
    rfl
  · cases build with
    | release =>
        obtain rfl := Except.ok.inj hRun
        rfl
    | debug =>
        simp only [Execution.bind_eq_ok, Execution.pure_eq_ok] at hRun
        obtain ⟨_, -, rfl⟩ := hRun
        rfl

theorem diskSide_beginPut (hRun : t.beginPut build cfg key value = .ok t') :
    t'.cache.diskSide = t.cache.diskSide := by
  unfold Threads.beginPut at hRun
  split at hRun
  · obtain ⟨alloc, hAlloc, hRun⟩ := Execution.bind_eq_ok.mp hRun
    cases alloc with
    | tooLarge =>
        obtain rfl := Execution.pure_eq_ok.mp hRun
        rfl
    | wait => cases hRun
    | slot c sid slotId =>
        obtain rfl := Execution.pure_eq_ok.mp hRun
        exact (diskSide_putSlot hAlloc).1
  · cases hRun

theorem diskSide_stepWriter (hRun : t.stepWriter build cfg = .ok (t', done)) :
    t'.cache.diskSide = t.cache.diskSide := by
  unfold Threads.stepWriter at hRun
  split at hRun
  · cases hRun
  · obtain ⟨found, hIndex, hRun⟩ := Execution.bind_eq_ok.mp hRun
    cases found with
    | none =>
        obtain ⟨rfl, -⟩ := Prod.mk.inj (Execution.pure_eq_ok.mp hRun)
        rfl
    | some c =>
        obtain ⟨rfl, -⟩ := Prod.mk.inj (Execution.pure_eq_ok.mp hRun)
        exact (congrArg Cache.diskSide (diskSide_putIndex hIndex).1).trans rfl
  · split at hRun
    · rename_i hInsert
      obtain ⟨rfl, -⟩ := Prod.mk.inj (Except.ok.inj hRun)
      exact (congrArg Cache.diskSide (diskSide_insertEntry hInsert).1).trans rfl
    · cases hRun
  · obtain ⟨rfl, -⟩ := Prod.mk.inj (Except.ok.inj hRun)
    exact diskSide_putFull.1

/-- A step is one of the writer or a `Delete`, which leave the disk alone, or
one of the flush thread or of the collector. -/
theorem Threads.step_sides {act : Act} (hRun : t.step build cfg act = .ok (t', done)) :
    (t'.cache.diskSide = t.cache.diskSide ∧ t'.gc = t.gc ∧ t'.flush = t.flush ∧
        act ≠ .flush ∧ ∀ pick fuel, act ≠ .gc pick fuel) ∨
      (act = .flush ∧ t'.gc = t.gc ∧ t'.writer = t.writer ∧ done = [] ∧
        Threads.stepFlush build cfg t.cache t.flush = .ok (t'.cache, t'.flush)) ∨
      ∃ pick fuel, act = .gc pick fuel ∧ t'.flush = t.flush ∧ t'.writer = t.writer ∧ done = [] ∧
        Threads.stepGc build cfg pick fuel t.cache t.gc = .ok (t'.cache, t'.gc) := by
  cases act with
  | put key value =>
      simp only [Threads.step, Execution.bind_eq_ok, Execution.pure_eq_ok] at hRun
      obtain ⟨t₁, hPut, hEnd⟩ := hRun
      obtain ⟨rfl, -⟩ := Prod.mk.inj hEnd
      obtain ⟨-, hGc, hFlush⟩ := steering_beginPut hPut
      exact .inl ⟨diskSide_beginPut hPut, hGc, hFlush, Act.noConfusion, fun _ _ => Act.noConfusion⟩
  | writer =>
      obtain ⟨-, hGc, hFlush⟩ := steering_stepWriter hRun
      exact .inl ⟨diskSide_stepWriter hRun, hGc, hFlush, Act.noConfusion,
        fun _ _ => Act.noConfusion⟩
  | delete key =>
      simp only [Threads.step, Execution.bind_eq_ok, Execution.pure_eq_ok] at hRun
      obtain ⟨c, hDelete, hEnd⟩ := hRun
      obtain ⟨rfl, -⟩ := Prod.mk.inj hEnd
      exact .inl ⟨(congrArg Cache.diskSide (diskSide_delete hDelete)).trans rfl, rfl, rfl,
        Act.noConfusion, fun _ _ => Act.noConfusion⟩
  | flush =>
      simp only [Threads.step, Execution.bind_eq_ok, Execution.pure_eq_ok] at hRun
      obtain ⟨⟨c, a⟩, hFlush, hEnd⟩ := hRun
      obtain ⟨rfl, rfl⟩ := Prod.mk.inj hEnd
      exact .inr (.inl ⟨rfl, rfl, rfl, rfl, hFlush⟩)
  | gc pick fuel =>
      simp only [Threads.step, Execution.bind_eq_ok, Execution.pure_eq_ok] at hRun
      obtain ⟨⟨c, a⟩, hGc, hEnd⟩ := hRun
      obtain ⟨rfl, rfl⟩ := Prod.mk.inj hEnd
      exact .inr (.inr ⟨pick, fuel, rfl, rfl, rfl, rfl, hGc⟩)

end KVCache
