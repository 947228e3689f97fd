import KVCache.Invariant.CollectorSteps

/-! The invariant over all interleavings of the three threads, and over all
orders in which lookups and deletions come in between. -/

namespace KVCache

variable {build : Build} {cfg : Config} {c c' : Cache} {g g' : Ghost} {w : Worker}
  {t t' : Threads} {events done : List Event} {act : Act}

/-- The invariant between two steps. -/
structure ThreadsInv (cfg : Config) (t : Threads) (g : Ghost) : Prop where
  inv : Inv cfg t.cache g
  writer : WriterOk cfg t.cache g t.writer
  flush : FlushOk cfg g t.flush
  gc : GcOk cfg t.cache g t.gc
  writerHolds : WriterHolds cfg t.cache g t.writer
  flushHolds : FlushHolds g t.flush.slabs

/-- A step of the flush thread, or of the collector in `normal_gc`. -/
def Act.Background (t : Threads) : Act → Prop
  | .flush => True
  | .gc _ _ => t.gc.InNormalGc
  | _ => False

/-- What a step guarantees. -/
structure ThreadStep (cfg : Config) (t : Threads) (act : Act) (t' : Threads) (done : List Event)
    (g' : Ghost) : Prop where
  inv : ThreadsInv cfg t' g'
  recorded : ∀ events, Recorded cfg t.cache events → Recorded cfg t'.cache (done ++ events)
  view : act.Background t → ∀ key, t'.cache.view cfg key = t.cache.view cfg key

theorem view_eq_none {key : Key} :
    c.view cfg key = none ↔ c.index.getIndexEntry cfg key = none := by
  simp [Cache.view]

namespace ThreadsInv

/-! ### The writer -/

theorem beginPut {key : Key} {value : Value} (h : ThreadsInv cfg t g)
    (hRun : t.beginPut build cfg key value = .ok t') :
    ∃ g', ThreadStep cfg t (.put key value) t' [] g' := by
  have hWriter := h.writer
  unfold Threads.beginPut at hRun
  cases hAt : t.writer with
  | idle =>
      rw [hAt] at hRun hWriter
      obtain ⟨alloc, hAlloc, hRun⟩ := Execution.bind_eq_ok.mp hRun
      cases alloc with
      | tooLarge =>
          obtain rfl := Execution.pure_eq_ok.mp hRun
          exact ⟨g, h, fun _ hRec => hRec, False.elim⟩
      | wait => cases hRun
      | slot c sid slotId =>
          obtain rfl := Execution.pure_eq_ok.mp hRun
          obtain ⟨cid, r, hTaken, hSilent⟩ := h.inv.putSlot hWriter hAlloc
          have hHolds := h.writerHolds
          rw [hAt] at hHolds
          refine ⟨_, ⟨hSilent.inv, rfl, ?_, ?_, ?_, ?_⟩, fun _ hRec => hSilent.recorded hRec,
            False.elim⟩
          · exact h.flush.stable hSilent.frame (by simp)
          · exact h.gc.stable hSilent.frame (by simp) hSilent.inv
          · exact hHolds.putSlot hTaken (hSilent.inv.pend _ rfl).alloc
          · exact h.flushHolds.stable hSilent.frame (by simp)
  | _ =>
      rw [hAt] at hRun
      cases hRun

/-- The index update of a `Put`. -/
theorem indexPut {p : PendingPut} (h : ThreadsInv cfg t g) (hp : g.pend = some p)
    (hSlab : t.writer.slab = some p.sid)
    (hReindex : Reindex cfg t.cache g c' { g with pend := none })
    (hView : ∀ key, c'.view cfg key = viewSet cfg t.cache p.key (some (p.key, p.value)) key) :
    ∃ g', ThreadStep cfg t .writer { t with cache := c', writer := .indexed p.sid }
      [.put p.key p.value] g' := by
  have hInv := hReindex.inv h.inv
  have hFrame : Frame cfg .writer t.cache g c' { g with pend := none } :=
    hReindex.frame (fun hw => absurd rfl hw) fun hw => absurd rfl hw
  refine ⟨_, ⟨hInv, ⟨rfl, (h.inv.pend p hp).role.symm⟩, ?_, ?_, ?_, ?_⟩,
    fun _ hRec => hRec.put h.inv hView, False.elim⟩
  · exact h.flush.stable hFrame (by simp)
  · exact h.gc.stable hFrame (by simp) hInv
  · exact h.writerHolds.reindex hReindex hSlab.symm
  · exact h.flushHolds.stable hFrame (by simp)

theorem stepWriter (h : ThreadsInv cfg t g) (hRun : t.stepWriter build cfg = .ok (t', done)) :
    ∃ g', ThreadStep cfg t .writer t' done g' := by
  have hWriter := h.writer
  unfold Threads.stepWriter at hRun
  cases hAt : t.writer with
  | idle =>
      rw [hAt] at hRun
      cases hRun
  | written p =>
      rw [hAt] at hRun hWriter
      obtain ⟨found, hIndex, hRun⟩ := Execution.bind_eq_ok.mp hRun
      cases found with
      | none =>
          obtain ⟨rfl, rfl⟩ := Prod.mk.inj (Execution.pure_eq_ok.mp hRun)
          have hHolds := h.writerHolds
          rw [hAt] at hHolds
          refine ⟨g, ⟨h.inv, ⟨hWriter, putIndex_none hIndex⟩, h.flush, h.gc, ?_, h.flushHolds⟩,
            fun _ hRec => hRec, False.elim⟩
          exact ⟨hHolds.single, hHolds.opened, hHolds.selected, hHolds.slab, hHolds.closed⟩
      | some c =>
          obtain ⟨rfl, rfl⟩ := Prod.mk.inj (Execution.pure_eq_ok.mp hRun)
          obtain ⟨hReindex, hView⟩ := h.inv.putIndex hWriter hIndex
          exact h.indexPut hWriter (by rw [hAt]; rfl) hReindex hView
  | waiting p =>
      simp only [hAt] at hRun hWriter
      split at hRun
      · rename_i c hInsert
        obtain ⟨rfl, rfl⟩ := Prod.mk.inj (Except.ok.inj hRun)
        obtain ⟨hReindex, hView⟩ := h.inv.insertEntry hWriter.1 hWriter.2 hInsert
        exact h.indexPut hWriter.1 (by rw [hAt]; rfl) hReindex hView
      · cases hRun
  | indexed sid =>
      rw [hAt] at hRun hWriter
      obtain ⟨rfl, rfl⟩ := Prod.mk.inj (Except.ok.inj hRun)
      obtain ⟨r, hr, hSilent⟩ := h.inv.putFull hWriter.1 hWriter.2
      have hHolds := h.writerHolds
      rw [hAt] at hHolds
      have hSlabs : (t.cache.putFull sid).slabs = t.cache.slabs := by
        unfold Cache.putFull
        split <;> rfl
      refine ⟨_, ⟨hSilent.inv, hWriter.1, ?_, ?_, ?_, ?_⟩, fun _ hRec => hSilent.recorded hRec,
        False.elim⟩
      · exact h.flush.stable hSilent.frame (by simp)
      · exact h.gc.stable hSilent.frame (by simp) hSilent.inv
      · exact hHolds.putFull hr hSlabs
      · exact h.flushHolds.stable hSilent.frame (by simp)

/-! ### The other steps -/

/-- A `Delete` concerns no thread. -/
theorem delete {key : Key} (h : ThreadsInv cfg t g)
    (hRun : t.cache.delete build cfg key = .ok c') :
    ∃ g', ThreadStep cfg t (.delete key) { t with cache := c' } [.delete key] g' := by
  obtain ⟨hReindex, hView⟩ := h.inv.delete hRun
  have hInv := hReindex.inv h.inv
  have hLookup : ∀ key', t.cache.index.getIndexEntry cfg key' = none →
      c'.index.getIndexEntry cfg key' = none := by
    intro key' hNone
    rw [← view_eq_none] at hNone ⊢
    rw [hView, viewSet, hNone, ite_self]
  have hFrame : ∀ w, Frame cfg w t.cache g c' { g with exact := g.exact && build = .debug } :=
    fun w => hReindex.frame (fun _ => rfl) fun _ => hLookup
  refine ⟨_, ⟨hInv, ?_, ?_, ?_, ?_, ?_⟩, fun _ hRec => hRec.delete h.inv hView, False.elim⟩
  · exact h.writer.stable (hFrame .flush) (by simp)
  · exact h.flush.stable (hFrame .gc) (by simp)
  · exact h.gc.stable (hFrame .flush) (by simp) hInv
  · exact h.writerHolds.stable (hFrame .flush) (by simp)
  · exact h.flushHolds.stable (hFrame .gc) (by simp)

theorem stepFlush {a : FlushAt} (h : ThreadsInv cfg t g)
    (hRun : Threads.stepFlush build cfg t.cache t.flush = .ok (c', a)) :
    ∃ g', ThreadStep cfg t .flush { t with cache := c', flush := a } [] g' := by
  obtain ⟨g', hSilent, hFlush, hHolds⟩ := h.flush.step h.inv hRun
  refine ⟨g', ⟨hSilent.inv, ?_, hFlush, ?_, ?_, hHolds h.flushHolds⟩,
    fun _ hRec => hSilent.recorded hRec, fun _ => hSilent.view⟩
  · exact h.writer.stable hSilent.frame (by simp)
  · exact h.gc.stable hSilent.frame (by simp) hSilent.inv
  · exact h.writerHolds.stable hSilent.frame (by simp)

theorem stepGc {pick : List Nat} {fuel : Nat} {a : GcAt} (h : ThreadsInv cfg t g)
    (hRun : Threads.stepGc build cfg pick fuel t.cache t.gc = .ok (c', a)) :
    ∃ g', ThreadStep cfg t (.gc pick fuel) { t with cache := c', gc := a } [] g' := by
  obtain ⟨g', hForgets, hGc, hView⟩ := h.gc.step h.inv hRun
  refine ⟨g', ⟨hForgets.inv, ?_, ?_, hGc, ?_, ?_⟩, fun _ hRec => hRec.mono hForgets.view, hView⟩
  · exact h.writer.stable hForgets.frame (by simp)
  · exact h.flush.stable hForgets.frame (by simp)
  · exact h.writerHolds.stable hForgets.frame (by simp)
  · exact h.flushHolds.stable hForgets.frame (by simp)

/-- A step of any thread keeps what all threads know. -/
theorem step (h : ThreadsInv cfg t g) (hRun : t.step build cfg act = .ok (t', done)) :
    ∃ g', ThreadStep cfg t act t' done g' := by
  cases act with
  | put key value =>
      simp only [Threads.step, Execution.bind_eq_ok, Execution.pure_eq_ok] at hRun
      obtain ⟨t₁, hPut, hEnd⟩ := hRun
      obtain ⟨rfl, rfl⟩ := Prod.mk.inj hEnd
      exact h.beginPut hPut
  | writer => exact h.stepWriter hRun
  | delete key =>
      simp only [Threads.step, Execution.bind_eq_ok, Execution.pure_eq_ok] at hRun
      obtain ⟨c, hDelete, hEnd⟩ := hRun
      obtain ⟨rfl, rfl⟩ := Prod.mk.inj hEnd
      exact h.delete hDelete
  | flush =>
      simp only [Threads.step, Execution.bind_eq_ok, Execution.pure_eq_ok] at hRun
      obtain ⟨⟨c, a⟩, hFlush, hEnd⟩ := hRun
      obtain ⟨rfl, rfl⟩ := Prod.mk.inj hEnd
      exact h.stepFlush hFlush
  | gc pick fuel =>
      simp only [Threads.step, Execution.bind_eq_ok, Execution.pure_eq_ok] at hRun
      obtain ⟨⟨c, a⟩, hGc, hEnd⟩ := hRun
      obtain ⟨rfl, rfl⟩ := Prod.mk.inj hEnd
      exact h.stepGc hGc

end ThreadsInv

/-! ### Runs -/

theorem ThreadsInv.create (hCfg : cfg.Sound) (hRun : Cache.create build cfg = .ok c) :
    ∃ g, ThreadsInv cfg (.rest c) g ∧ Recorded cfg c [] := by
  obtain ⟨g, hFresh⟩ := create_fresh hCfg hRun
  have hShared := fun x => (hFresh.resting x).1
  have hPartial : ∀ x k, g.role x ≠ .memPartial k := by
    intro x k hx
    have hNot := hShared x
    rw [hx] at hNot
    exact hNot
  have hWriter : ∀ x, g.role x ≠ .memWriter := by
    intro x hx
    have hNot := hShared x
    rw [hx] at hNot
    exact hNot
  refine ⟨g, ⟨hFresh.inv, hFresh.pend, trivial, fun x hx => ?_, ?_, fun x hx => ?_⟩,
    fun key k v hView => ?_⟩
  · exact hx.not_resting (hShared x).resting
  · exact ⟨fun k x _ hx => absurd hx (hPartial x k), fun k x hx => absurd hx (hPartial x k),
      fun k x hx => absurd hx (hPartial x k), fun x hx => absurd hx (hWriter x),
      fun _ x _ hx => absurd hx (hWriter x)⟩
  · exact absurd (hShared x).resting hx.not_resting
  · rw [hFresh.view] at hView
    cases hView

/-- The invariant holds along every schedule. -/
theorem run_threadsInv {acts : List Act} (h : ThreadsInv cfg t g)
    (hRec : Recorded cfg t.cache events) (hRun : Threads.run build cfg t acts = .ok (t', done)) :
    ∃ g', ThreadsInv cfg t' g' ∧ Recorded cfg t'.cache (done ++ events) := by
  refine Runs.run_rule (P := fun t events => ∃ g, ThreadsInv cfg t g ∧
    Recorded cfg t.cache events) (fun t act t' done events hBefore _ hStep => ?_) hRun
    (Runs.along_true t acts) ⟨g, h, hRec⟩
  obtain ⟨g, hInv, hRec⟩ := hBefore
  obtain ⟨g', hNext⟩ := hInv.step hStep
  exact ⟨g', hNext.inv, hNext.recorded events hRec⟩

theorem start_threadsInv {acts : List Act} (hCfg : cfg.Sound)
    (hRun : Threads.start build cfg acts = .ok (t, events)) :
    ∃ g, ThreadsInv cfg t g ∧ Recorded cfg t.cache events := by
  obtain ⟨c, hCreate, hRun⟩ := Execution.bind_eq_ok.mp hRun
  obtain ⟨g, hInv, hRec⟩ := ThreadsInv.create hCfg hCreate
  simpa using run_threadsInv hInv hRec hRun

theorem Threads.Reachable.inv (hCfg : cfg.Sound) (h : Threads.Reachable build cfg t) :
    ∃ g, ThreadsInv cfg t g := by
  obtain ⟨acts, events, hRun⟩ := h
  obtain ⟨g, hInv, -⟩ := start_threadsInv hCfg hRun
  exact ⟨g, hInv⟩

end KVCache
