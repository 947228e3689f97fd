import KVCache.Data.LossyMaps
import KVCache.Invariant.MemorySide
import KVCache.Properties.Concurrency

/-! What a cache is: a map that may lose entries. Every schedule of the three
threads is a history of effects on such a map, one for each index update of a
`Put`, each `Delete` and each slab that quick GC drops; nothing else has an
effect. Lookups return exactly what is in the map. Keys that share bucket and
digest share a cell of the map. -/

namespace KVCache

variable {build : Build} {cfg : Config} {c c' : Cache} {g : Ghost} {t t' : Threads} {act : Act}
  {done : List Event}

/-! ### Effects of a step -/

/-- The cells of the keys that are stored in a slab. -/
def Cache.cellsIn (cfg : Config) (c : Cache) (d : Nat) : List (Nat × Digest) :=
  (List.range (c.slabs d).nrAlloc).map fun i => cfg.cell (c.slotAt d i).1

/-- The effect of a completed write. -/
def Event.effect (cfg : Config) : Event → LossyMap.Effect (Nat × Digest) (Key × Value)
  | .put key value => .set (cfg.cell key) (some (key, value))
  | .delete key => .set (cfg.cell key) none

/-- The slab that the next step of quick GC evicts. -/
def GcAt.evicts : GcAt → Option Nat
  | .quickEvict _ _ (d :: _) => some d
  | _ => none

/-- The effects of a step, with the writes that it completes. -/
def Threads.effects (cfg : Config) (t : Threads) (act : Act) (done : List Event) :
    List (LossyMap.Effect (Nat × Digest) (Key × Value)) :=
  match act with
  | .gc _ _ => (t.gc.evicts.map fun d => .lose (t.cache.cellsIn cfg d)).toList
  | _ => done.map (Event.effect cfg)

/-- The history of a schedule, latest first. -/
def Threads.history (build : Build) (cfg : Config) (t : Threads) (acts : List Act) :
    List (LossyMap.Effect (Nat × Digest) (Key × Value)) :=
  Runs.labels (Threads.step build cfg) (Threads.effects cfg) t acts

/-! ### Each step has its effects and no others -/

theorem mem_cellsIn {d : Nat} {key : Key} :
    cfg.cell key ∈ c.cellsIn cfg d ↔ StoredIn cfg c d key := by
  simp only [Cache.cellsIn, List.mem_map, List.mem_range, StoredIn]
  exact exists_congr fun i => and_congr_right fun _ => eq_comm

/-- Lookups after an eviction: keys with a cell of the slab are lost, and no
others. -/
theorem Dropped.view_eq {d : Nat} (h : Dropped cfg c [d] c') (key : Key) :
    c'.view cfg key = LossyMap.apply (fun _ => c.view cfg key)
      (.lose (c.cellsIn cfg d)) (cfg.cell key) := by
  have hGone : (∃ d' ∈ [d], StoredIn cfg c d' key) ↔ cfg.cell key ∈ c.cellsIn cfg d := by
    rw [mem_cellsIn]
    simp
  simp only [LossyMap.apply, Cache.view, h.slotAt, h.pruned.entries]
  split
  · rename_i hLost
    rw [h.pruned.lost key (hGone.mpr hLost)]
    rfl
  · rename_i hKept
    rw [h.pruned.kept key (mt hGone.mp hKept)]

/-- The contents of a map are what lookups of the cache find. -/
def Represents (cfg : Config) (c : Cache) (m : Nat × Digest → Option (Key × Value)) : Prop :=
  ∀ key, c.view cfg key = m (cfg.cell key)

namespace Represents

variable {m : Nat × Digest → Option (Key × Value)}

theorem congr (h : Represents cfg c m) (hView : ∀ key, c'.view cfg key = c.view cfg key) :
    Represents cfg c' m :=
  fun key => (hView key).trans (h key)

/-- One cell is given to an object, or emptied. -/
theorem set {key : Key} {object : Option (Key × Value)} (h : Represents cfg c m)
    (hView : ∀ key', c'.view cfg key' = viewSet cfg c key object key') :
    Represents cfg c' (LossyMap.apply m (.set (cfg.cell key) object)) := by
  intro key'
  rw [hView, viewSet, LossyMap.apply, h key']

theorem lose {d : Nat} (h : Represents cfg c m) (hDropped : Dropped cfg c [d] c') :
    Represents cfg c' (LossyMap.apply m (.lose (c.cellsIn cfg d))) := by
  intro key
  rw [hDropped.view_eq, LossyMap.apply, LossyMap.apply, h key]

/-- The writer has an effect when it updates the index. -/
theorem stepWriter (h : Represents cfg t.cache m) (hInv : ThreadsInv cfg t g)
    (hRun : t.stepWriter build cfg = .ok (t', done)) :
    Represents cfg t'.cache (LossyMap.after m (done.map (Event.effect cfg))) := by
  have hWriter := hInv.writer
  unfold Threads.stepWriter at hRun
  cases hAt : t.writer with
  | idle =>
      rw [hAt] at hRun
      cases hRun
  | written p =>
      rw [hAt] at hRun hWriter
      obtain ⟨found, hIndex, hRun⟩ := Execution.bind_eq_ok.mp hRun
      cases found with
      | none =>
          obtain ⟨rfl, rfl⟩ := Prod.mk.inj (Execution.pure_eq_ok.mp hRun)
          exact h
      | some c =>
          obtain ⟨rfl, rfl⟩ := Prod.mk.inj (Execution.pure_eq_ok.mp hRun)
          exact h.set (hInv.inv.putIndex hWriter hIndex).2
  | waiting p =>
      simp only [hAt] at hRun hWriter
      split at hRun
      · rename_i c hInsert
        obtain ⟨rfl, rfl⟩ := Prod.mk.inj (Except.ok.inj hRun)
        exact h.set (hInv.inv.insertEntry hWriter.1 hWriter.2 hInsert).2
      · cases hRun
  | indexed sid =>
      rw [hAt] at hRun hWriter
      obtain ⟨rfl, rfl⟩ := Prod.mk.inj (Except.ok.inj hRun)
      obtain ⟨r, -, hSilent⟩ := hInv.inv.putFull hWriter.1 hWriter.2
      exact h.congr hSilent.view

theorem beginPut {key : Key} {value : Value} (h : Represents cfg t.cache m)
    (hInv : ThreadsInv cfg t g) (hRun : t.beginPut build cfg key value = .ok t') :
    Represents cfg t'.cache m := by
  have hWriter := hInv.writer
  unfold Threads.beginPut at hRun
  cases hAt : t.writer with
  | idle =>
      rw [hAt] at hRun hWriter
      obtain ⟨alloc, hAlloc, hRun⟩ := Execution.bind_eq_ok.mp hRun
      cases alloc with
      | tooLarge =>
          obtain rfl := Execution.pure_eq_ok.mp hRun
          exact h
      | wait => cases hRun
      | slot c sid slotId =>
          obtain rfl := Execution.pure_eq_ok.mp hRun
          obtain ⟨cid, r, -, hSilent⟩ := hInv.inv.putSlot hWriter hAlloc
          exact h.congr hSilent.view
  | _ =>
      rw [hAt] at hRun
      cases hRun

/-- Quick GC has an effect when it evicts a slab. -/
theorem quickStep {pick : List Nat} {fuel : Nat} {a a' : GcAt} (h : Represents cfg c m)
    (hInv : Inv cfg c g) (hOk : GcOk cfg c g a) (hQuick : ¬a.InNormalGc)
    (hStep : GcStep build cfg pick fuel c a c' a') :
    Represents cfg c'
      (LossyMap.after m (a.evicts.map fun d => .lose (c.cellsIn cfg d)).toList) := by
  cases hStep with
  | wake | look | exhausted | pressed | relaxed => exact h
  | quickTune =>
      have hSilent : Silent cfg .gc c g { c with
          freeBlockWaterMarkLow := c.quickWaterMarks.1
          freeBlockWaterMarkHigh := c.quickWaterMarks.2 } g :=
        hInv.unrelated rfl rfl rfl hInv.lists.congr
      exact h.congr hSilent.view
  | quickSelect hSelect =>
      obtain ⟨_, -, -, -, -, hSilent⟩ := hInv.selectDrop (fun x => Ghost.GcIdle.full hOk) hSelect
      exact h.congr hSilent.view
  | @quickEvict o toDrop todo d c' hDrop =>
      exact h.lose (hInv.dropDslab (hOk.dropped d List.mem_cons_self) hDrop).2.2
  | backToOpsPool hBack =>
      obtain ⟨_, hSilent, -⟩ :=
        hInv.backToOpsPool (fun d hd => hOk.clean d hd (by simp)) hOk.nodup hBack
      exact h.congr hSilent.view
  | backToDslabFree hBack =>
      have hSilent := hInv.backToDslabFree (fun d hd => hOk.clean d hd (by simp)) hOk.nodup hBack
      exact h.congr hSilent.view
  | _ => exact absurd trivial hQuick

theorem evicts_normal {a : GcAt} (h : a.InNormalGc) : a.evicts = none := by
  cases a <;> first | rfl | exact h.elim

/-- Every step has its effects on the map, and no others. -/
theorem step (h : Represents cfg t.cache m) (hInv : ThreadsInv cfg t g)
    (hStep : t.step build cfg act = .ok (t', done)) :
    Represents cfg t'.cache (LossyMap.after m (t.effects cfg act done)) := by
  cases act with
  | put key value =>
      simp only [Threads.step, Execution.bind_eq_ok, Execution.pure_eq_ok] at hStep
      obtain ⟨t₁, hPut, hEnd⟩ := hStep
      obtain ⟨rfl, rfl⟩ := Prod.mk.inj hEnd
      exact h.beginPut hInv hPut
  | writer => exact h.stepWriter hInv hStep
  | delete key =>
      simp only [Threads.step, Execution.bind_eq_ok, Execution.pure_eq_ok] at hStep
      obtain ⟨c, hDelete, hEnd⟩ := hStep
      obtain ⟨rfl, rfl⟩ := Prod.mk.inj hEnd
      exact h.set (hInv.inv.delete hDelete).2
  | flush =>
      obtain ⟨g', hNext⟩ := hInv.step hStep
      obtain rfl : done = [] := by
        simp only [Threads.step, Execution.bind_eq_ok, Execution.pure_eq_ok] at hStep
        obtain ⟨_, -, hEnd⟩ := hStep
        exact (Prod.mk.inj hEnd).2.symm
      exact h.congr (hNext.view trivial)
  | gc pick fuel =>
      by_cases hNormal : t.gc.InNormalGc
      · obtain ⟨g', hNext⟩ := hInv.step hStep
        rw [Threads.effects, evicts_normal hNormal]
        exact h.congr (hNext.view hNormal)
      · simp only [Threads.step, Execution.bind_eq_ok, Execution.pure_eq_ok] at hStep
        obtain ⟨⟨c, a⟩, hGc, hEnd⟩ := hStep
        obtain ⟨rfl, rfl⟩ := Prod.mk.inj hEnd
        exact h.quickStep hInv.inv hInv.gc hNormal (stepGc_inv hGc)

end Represents

/-! ### Schedules -/

/-- The history of a schedule is what lookups see. -/
theorem run_represents {acts : List Act} {events : List Event} (hCfg : cfg.WellFormed)
    (hCreate : Cache.create build cfg = .ok c)
    (hRun : Threads.run build cfg (.rest c) acts = .ok (t, events)) :
    (∃ g, ThreadsInv cfg t g) ∧ Represents cfg t.cache
      (LossyMap.after (fun _ => none) (Threads.history build cfg (.rest c) acts)) := by
  obtain ⟨_, hFresh⟩ := create_fresh hCfg.sound hCreate
  obtain ⟨g, hInv, -⟩ := ThreadsInv.create hCfg.sound hCreate
  have hEnd := Runs.run_labels (Threads.effects cfg)
    (P := fun t _ history => (∃ g, ThreadsInv cfg t g) ∧
      Represents cfg t.cache (LossyMap.after (fun _ => none) history))
    (fun t act t' done _ history h _ hStep => ?_) [] [] hRun (Runs.along_true _ acts)
    ⟨⟨g, hInv⟩, fun key => hFresh.view key⟩
  · rwa [List.append_nil] at hEnd
  · obtain ⟨⟨g, hInv⟩, hRep⟩ := h
    obtain ⟨g', hNext⟩ := hInv.step hStep
    rw [LossyMap.after_append]
    exact ⟨⟨g', hNext.inv⟩, hRep.step hInv hStep⟩

/-- Along every schedule a lookup returns exactly what the history of `Put`,
`Delete` and evicted slabs has left in the cell of its key. -/
theorem getSlice_eq_history {acts : List Act} {events : List Event} (hCfg : cfg.WellFormed)
    (hCreate : Cache.create build cfg = .ok c)
    (hRun : Threads.run build cfg (.rest c) acts = .ok (t, events)) (key : Key) :
    t.cache.getSlice build cfg key = .ok (sliceResult key
      (LossyMap.after (fun _ => none) (Threads.history build cfg (.rest c) acts)
        (cfg.cell key))) := by
  obtain ⟨⟨g, hInv⟩, hRep⟩ := run_represents hCfg hCreate hRun
  rw [hInv.inv.getSlice_eq, hRep key]

/-- Quick GC drops the slab of an older object of a key. -/
def Act.evictOlder : List Act :=
  Act.putFlushed [2] [9] ++ [.put [1] [7], .writer, .writer, .put [1] [8], .writer, .writer] ++
    List.replicate 16 .flush ++ List.replicate 6 (Act.gc [] 10)

/-- The newer object of a key is lost with the slab of an older one. -/
theorem getSlice_after_eviction :
    ∃ c t events, Cache.create .debug .small = .ok c ∧
      Threads.run .debug .small (.rest c) Act.evictOlder = .ok (t, events) ∧
      lastWrite events [1] = some [8] ∧
      LossyMap.after (fun _ => none) (Threads.history .debug .small (.rest c) Act.evictOlder)
        (Config.small.cell [1]) = none ∧
      t.cache.getSlice .debug .small [1] = .ok (.notFound, none) := by
  obtain ⟨c, hCreate, hCheck⟩ := Execution.ok_of_check (x := Cache.create .debug .small)
    (fun c => decide (
      ((Threads.run .debug .small (.rest c) Act.evictOlder).map fun r => lastWrite r.2 [1]) =
        .ok (some [8]) ∧
      LossyMap.after (fun _ => none) (Threads.history .debug .small (.rest c) Act.evictOlder)
        (Config.small.cell [1]) = none))
    (by decide +kernel)
  obtain ⟨hWrite, hNone⟩ := of_decide_eq_true hCheck
  cases hRun : Threads.run .debug .small (.rest c) Act.evictOlder with
  | error stop =>
      rw [hRun] at hWrite
      cases hWrite
  | ok r =>
      rw [hRun] at hWrite
      refine ⟨c, r.1, r.2, hCreate, hRun, Except.ok.inj hWrite, hNone, ?_⟩
      rw [getSlice_eq_history Config.small_wellFormed hCreate hRun [1], hNone]
      rfl

/-! ### Without pressure -/

/-- The collector does not decide for quick GC: there are unused index entries,
and enough free blocks. -/
def GcAt.relaxed (c : Cache) : GcAt → Prop
  | .decide nrFreeDslab =>
      c.index.nrFreeIndexEntry ≠ 0 ∧ c.freeBlockWaterMarkLow ≤ nrFreeDslab
  | _ => True

instance (c : Cache) : (a : GcAt) → Decidable (a.relaxed c)
  | .decide nrFreeDslab => inferInstanceAs (Decidable
      (c.index.nrFreeIndexEntry ≠ 0 ∧ c.freeBlockWaterMarkLow ≤ nrFreeDslab))
  | .idle | .awake | .quickTune | .quickSelect _ _ | .quickEvict _ _ _ | .quickFree _ | .scan _ _
  | .batch _ _ _ _ _ | .take _ _ _ | .relink _ _ _ _ | .prepare _ _ _ _ | .check _ _ _ _ _
  | .move _ _ _ _ _ _ _ | .copy _ _ _ | .modify _ _ _ | .tune _ | .refill _ _ _ _ | .shrink _ _
  | .reclaim _ => isTrue trivial

/-- The collector is in quick GC. -/
def GcAt.InQuickGc : GcAt → Prop
  | .quickTune | .quickSelect _ _ | .quickEvict _ _ _ | .quickFree _ => True
  | _ => False

theorem startClass_not_quick (n : NormalGc) (cid : Nat) :
    ¬(Threads.startClass cfg n cid).InQuickGc := by
  unfold Threads.startClass
  split <;> exact id

theorem endBatch_not_quick (n : NormalGc) (cid : Nat) (toDrop : List Nat) :
    ¬(Threads.endBatch cfg c n cid toDrop).InQuickGc := by
  unfold Threads.endBatch
  split
  · split <;> exact id
  · exact startClass_not_quick n (cid + 1)

theorem GcStep.not_quick {pick : List Nat} {fuel : Nat} {a a' : GcAt}
    (h : GcStep build cfg pick fuel c a c' a') (hRelaxed : a.relaxed c) (hNot : ¬a.InQuickGc) :
    ¬a'.InQuickGc := by
  cases h with
  | exhausted hNone => exact absurd hNone hRelaxed.1
  | pressed _ hLow => exact absurd hLow (Int.not_lt.mpr hRelaxed.2)
  | quickTune | quickSelect | quickEvict | backToOpsPool | backToDslabFree =>
      exact absurd trivial hNot
  | scanned | modify => exact startClass_not_quick _ _
  | batchEnd => exact endBatch_not_quick _ _ _
  | _ => exact id

/-- The key of a completed write. -/
def Event.key : Event → Key
  | .put key _ => key
  | .delete key => key

/-- Without evictions, a cell that belongs to one key holds what was written
last for it. -/
theorem after_events {events : List Event} {key : Key}
    (hAlone : ∀ e ∈ events, cfg.cell e.key = cfg.cell key → e.key = key) :
    LossyMap.after (fun _ => none) (events.map (Event.effect cfg)) (cfg.cell key) =
      (lastWrite events key).map fun value => (key, value) := by
  induction events with
  | nil => rfl
  | cons e events ih =>
      have hRest := ih fun e he => hAlone e (List.mem_cons_of_mem _ he)
      have hFirst := hAlone e List.mem_cons_self
      rw [List.map_cons, LossyMap.after_cons]
      cases e with
      | put k v =>
          simp only [Event.effect, LossyMap.apply, lastWrite]
          by_cases hk : k = key
          · simp [hk]
          · rw [if_neg fun hCell => hk (hFirst hCell.symm), if_neg hk, hRest]
      | delete k =>
          simp only [Event.effect, LossyMap.apply, lastWrite]
          by_cases hk : k = key
          · simp [hk]
          · rw [if_neg fun hCell => hk (hFirst hCell.symm), if_neg hk, hRest]

/-- What a lookup returns for the value that is bound to its key. -/
def lookupResult : Option Value → Status × Option Value
  | none => (.notFound, none)
  | some value => (.ok, some value)

/-- While index entries and free blocks last, the cache forgets nothing: a key
whose cell no other written key shares is found, with the value that was written
last, in every state of every schedule. -/
theorem getSlice_eq_lastWrite {acts : List Act} {events : List Event} {key : Key}
    (hCfg : cfg.WellFormed) (hCreate : Cache.create build cfg = .ok c)
    (hRun : Threads.run build cfg (.rest c) acts = .ok (t, events))
    (hRelaxed : Runs.Along (Threads.step build cfg) (fun t _ => t.gc.relaxed t.cache) (.rest c) acts)
    (hAlone : ∀ e ∈ events, cfg.cell e.key = cfg.cell key → e.key = key) :
    t.cache.getSlice build cfg key = .ok (lookupResult (lastWrite events key)) := by
  have hEnd := Runs.run_labels (Threads.effects cfg)
    (P := fun t events history => ¬t.gc.InQuickGc ∧ history = events.map (Event.effect cfg))
    (fun t act t' done events history h hQ hStep => ?_) [] [] hRun hRelaxed ⟨id, rfl⟩
  · have hHistory : Threads.history build cfg (.rest c) acts = events.map (Event.effect cfg) := by
      rw [List.append_nil, List.append_nil] at hEnd
      exact hEnd.2
    obtain ⟨⟨g, hInv⟩, hRep⟩ := run_represents hCfg hCreate hRun
    rw [hInv.inv.getSlice_eq, hRep key, hHistory, after_events hAlone]
    cases lastWrite events key with
    | none => rfl
    | some value => simp [sliceResult, lookupResult]
  · obtain ⟨hNot, rfl⟩ := h
    rcases Threads.step_sides hStep with ⟨-, hGc, -, -, hNotGc⟩ | ⟨rfl, hGc, -, rfl, -⟩ |
      ⟨pick, fuel, rfl, -, -, rfl, hGcRun⟩
    · refine ⟨hGc ▸ hNot, ?_⟩
      cases act with
      | gc pick fuel => exact absurd rfl (hNotGc pick fuel)
      | _ => exact (List.map_append ..).symm
    · exact ⟨hGc ▸ hNot, rfl⟩
    · refine ⟨(stepGc_inv hGcRun).not_quick hQ hNot, ?_⟩
      have hNone : t.gc.evicts = none := by
        generalize t.gc = a at hNot
        cases a <;> first | rfl | exact absurd trivial hNot
      rw [Threads.effects, hNone]
      rfl

/-- An object is found that was overwritten, flushed and collected. -/
theorem getSlice_collected :
    ∃ c t events, Cache.create .debug .small = .ok c ∧
      Threads.run .debug .small (.rest c) (Act.putFlushed [1] [7] ++ Act.putFlushed [1] [8] ++
        List.replicate 23 (Act.gc [5, 6] 0)) = .ok (t, events) ∧
      t.gc = .idle ∧ t.cache.getSlice .debug .small [1] = .ok (.ok, some [8]) := by
  obtain ⟨c, hCreate, hCheck⟩ := Execution.ok_of_check (x := Cache.create .debug .small)
    (fun c => decide (
      ((Threads.run .debug .small (.rest c) (Act.putFlushed [1] [7] ++ Act.putFlushed [1] [8] ++
        List.replicate 23 (Act.gc [5, 6] 0))).map fun r => (r.1.gc, r.2)) =
          .ok (.idle, [.put [1] [8], .put [1] [7]]) ∧
      Runs.Along (Threads.step .debug .small) (fun t _ => t.gc.relaxed t.cache) (.rest c)
        (Act.putFlushed [1] [7] ++ Act.putFlushed [1] [8] ++
          List.replicate 23 (Act.gc [5, 6] 0))))
    (by decide +kernel)
  obtain ⟨hState, hRelaxed⟩ := of_decide_eq_true hCheck
  cases hRun : Threads.run .debug .small (.rest c) (Act.putFlushed [1] [7] ++
      Act.putFlushed [1] [8] ++ List.replicate 23 (Act.gc [5, 6] 0)) with
  | error stop =>
      rw [hRun] at hState
      cases hState
  | ok r =>
      rw [hRun] at hState
      obtain ⟨hGc, hEvents⟩ := Prod.mk.inj (Except.ok.inj hState)
      refine ⟨c, r.1, r.2, hCreate, hRun, hGc, ?_⟩
      have hAlone : ∀ e ∈ r.2, Config.small.cell e.key = Config.small.cell [1] → e.key = [1] := by
        rw [hEvents]
        decide
      rw [getSlice_eq_lastWrite Config.small_wellFormed hCreate hRun hRelaxed hAlone, hEvents]
      rfl

end KVCache
