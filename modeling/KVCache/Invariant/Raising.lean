import KVCache.Invariant.MemorySide
import KVCache.Invariant.Outside
import KVCache.Semantics.Signals

/-! Which steps make a condition true that a thread waits for. Slabs become free
or full under the mutex of their list, and index entries become free under the
index mutex. -/

namespace KVCache

variable {build : Build} {cfg : Config} {c c' : Cache}

/-- What is waited for with a mutex. -/
def Cache.ready (c : Cache) : Mutex → Bool
  | .writer => true
  | .index => 0 < c.index.nrFreeIndexEntry
  | .mslabFree => c.mslabFree.list ≠ []
  | .mslabFull => c.mslabFull.list ≠ []
  | .dslabFree => 0 < c.nrFreeDslab
  | .dslabFull => 0 < c.nrFullDslab

/-- No condition becomes true except that of the given mutexes. -/
def Cache.RaisesOnly (ls : List Mutex) (c c' : Cache) : Prop :=
  ∀ l, l ∉ ls → c'.ready l = true → c.ready l = true

theorem raisesOnly_refl (ls : List Mutex) (c : Cache) : Cache.RaisesOnly ls c c := fun _ _ h => h

/-- An update that leaves the lists, the counters and the index alone. -/
theorem raisesOnly_of_eq {ls : List Mutex} (hFree : c'.mslabFree = c.mslabFree)
    (hFull : c'.mslabFull = c.mslabFull) (hDisk : c'.diskSide = c.diskSide)
    (hIndex : c'.index.nrFreeIndexEntry ≤ c.index.nrFreeIndexEntry) : c.RaisesOnly ls c' := by
  have hNrFree : c'.nrFreeDslab = c.nrFreeDslab := congrArg DiskSide.nrFreeDslab hDisk
  have hNrFull : c'.nrFullDslab = c.nrFullDslab := congrArg DiskSide.nrFullDslab hDisk
  intro l _ hReady
  cases l with
  | writer => rfl
  | index =>
      simp only [Cache.ready, decide_eq_true_eq] at hReady ⊢
      omega
  | mslabFree => simpa only [Cache.ready, hFree] using hReady
  | mslabFull => simpa only [Cache.ready, hFull] using hReady
  | dslabFree => simpa only [Cache.ready, hNrFree] using hReady
  | dslabFull => simpa only [Cache.ready, hNrFull] using hReady

theorem SlabList.del_ne_nil {s : SlabList} {x : Nat} (h : (s.del x).list ≠ []) : s.list ≠ [] := by
  intro hNil
  refine h ?_
  simp only [SlabList.del, hNil, List.erase_nil]

/-! ### The flush -/

theorem takeFull_raises {m : Nat} (hRun : c.takeFull build = .ok (m, c')) :
    c.RaisesOnly [] c' := by
  obtain rfl := takeFull_changes hRun
  intro l _ hReady
  cases l with
  | mslabFull =>
      simp only [Cache.ready, decide_eq_true_eq] at hReady ⊢
      exact SlabList.del_ne_nil hReady
  | _ => exact hReady

theorem takeFreeFrom_nrFreeDslab {beginning rounds : Nat} {found : Option (Nat × Nat)}
    (hRun : Cache.takeFreeFrom build cfg beginning rounds c = .ok (found, c')) :
    c'.nrFreeDslab ≤ c.nrFreeDslab := by
  induction rounds generalizing c with
  | zero =>
      obtain ⟨-, rfl⟩ := Prod.mk.inj (Except.ok.inj hRun)
      exact le_rfl
  | succ rounds ih =>
      simp only [Cache.takeFreeFrom] at hRun
      split at hRun
      · simp only [Execution.bind_eq_ok, Execution.pure_eq_ok] at hRun
        obtain ⟨_, -, _, -, hEnd⟩ := hRun
        obtain ⟨-, rfl⟩ := Prod.mk.inj hEnd
        show c.nrFreeDslab - 1 ≤ c.nrFreeDslab
        omega
      · split at hRun
        · have hLe := ih hRun
          exact hLe
        · obtain ⟨-, rfl⟩ := Prod.mk.inj (Execution.pure_eq_ok.mp hRun)
          exact le_rfl

theorem takeFree_raises {found : Option (Nat × Nat)}
    (hRun : c.takeFree build cfg = .ok (found, c')) : c.RaisesOnly [] c' := by
  have hLe := takeFreeFrom_nrFreeDslab hRun
  obtain ⟨_, _, _, rfl⟩ := takeFreeFrom_changes hRun
  intro l _ hReady
  cases l with
  | dslabFree =>
      simp only [Cache.ready, decide_eq_true_eq] at hReady hLe ⊢
      omega
  | _ => exact hReady

/-- Entries are moved to another slab, and none becomes free. -/
theorem modifyIndexTo_raises (cfg : Config) (c : Cache) (src dst : Nat) :
    c.RaisesOnly [] (c.modifyIndexTo cfg src dst) := by
  have hLoop : ((List.range (c.slabs src).nrAlloc).foldl (Cache.modifySlot cfg src dst)
      (c, 0)).1.index.nrFreeIndexEntry = c.index.nrFreeIndexEntry := by
    refine Execution.foldl_rule (fun _ (state : Cache × Nat) =>
      state.1.index.nrFreeIndexEntry = c.index.nrFreeIndexEntry) (fun slotId _ state h => ?_) rfl
    simp only [Cache.modifySlot]
    split
    · exact h
    · split <;> exact h
  obtain ⟨index, nrUsed, hChanges⟩ := modifyIndexTo_changes cfg c src dst
  have hSame : (c.modifyIndexTo cfg src dst).index.nrFreeIndexEntry =
      c.index.nrFreeIndexEntry := hLoop
  rw [hChanges] at hSame ⊢
  exact raisesOnly_of_eq rfl rfl rfl hSame.le

theorem linkMslabFree_raises (c : Cache) (m : Nat) :
    c.RaisesOnly [.mslabFree] (c.linkMslabFree m) := by
  intro l hOther hReady
  cases l with
  | mslabFree => exact absurd (List.mem_singleton_self _) hOther
  | _ => exact hReady

theorem linkDslabFull_raises (c : Cache) (d channel : Nat) :
    c.RaisesOnly [.dslabFull] (c.linkDslabFull d channel) := by
  intro l hOther hReady
  cases l with
  | dslabFull => exact absurd (List.mem_singleton_self _) hOther
  | _ => exact hReady

/-! ### The collector -/

theorem selectDrop_nrFullDslab {fuel : Nat} {n : Int} {start toDrop : List Nat}
    (hRun : Cache.selectDrop cfg fuel n c start = .ok (toDrop, c')) :
    c'.nrFullDslab ≤ c.nrFullDslab := by
  induction fuel generalizing c n start with
  | zero =>
      simp only [Cache.selectDrop] at hRun
      split at hRun
      · obtain ⟨-, rfl⟩ := Prod.mk.inj (Except.ok.inj hRun)
        exact le_rfl
      · cases hRun
  | succ fuel ih =>
      simp only [Cache.selectDrop] at hRun
      split at hRun
      · obtain ⟨-, rfl⟩ := Prod.mk.inj (Except.ok.inj hRun)
        exact le_rfl
      · split at hRun
        · have hLe := ih hRun
          exact hLe
        · have hLe := ih hRun
          simp only at hLe
          omega

/-- The counter goes down with every slab of a batch. -/
theorem nrFullDslab_relinkFull {ops : Nat} {toDrop : List Nat} {freeList freeList' : Table SlabList}
    (hRun : c.relinkFull cfg ops toDrop freeList = (c', freeList')) :
    c'.nrFullDslab + toDrop.length = c.nrFullDslab := by
  have hLoop : ((toDrop.foldl (Cache.unlinkDrop cfg) (c.linkOps cfg ops, freeList)).1.nrFullDslab +
      toDrop.length : Int) = c.nrFullDslab + ([] : List Nat).length := by
    refine Execution.foldl_rule (fun rest (state : Cache × Table SlabList) =>
      state.1.nrFullDslab + (toDrop.length : Int) = c.nrFullDslab + rest.length)
      (fun d rest state h => ?_) rfl
    simp only [Cache.unlinkDrop, List.length_cons] at h ⊢
    omega
  rw [Cache.relinkFull] at hRun
  rw [hRun] at hLoop
  simpa using hLoop

/-- What a step of the collector does to the counters that threads wait for. -/
theorem GcStep.counters {pick : List Nat} {fuel : Nat} {a a' : GcAt}
    (h : GcStep build cfg pick fuel c a c' a') :
    c'.nrFullDslab ≤ c.nrFullDslab ∧
      (c'.nrFreeDslab = c.nrFreeDslab ∨ a.mutex cfg = some .dslabFree) ∧
      (c'.index = c.index ∨ a.mutex cfg = some .index) := by
  cases h with
  | quickSelect hSelect =>
      have hLe := selectDrop_nrFullDslab hSelect
      obtain ⟨_, _, _, rfl⟩ := selectDrop_changes hSelect
      exact ⟨hLe, .inl rfl, .inl rfl⟩
  | quickEvict hDrop =>
      rw [dropDslab_changes hDrop]
      exact ⟨le_rfl, .inl rfl, .inr rfl⟩
  | @backToOpsPool o toDrop rest c' hBack =>
      obtain ⟨_, _, _, hChanges⟩ := backToOpsPool_changes cfg o 0 toDrop c
      rw [hBack] at hChanges
      obtain rfl : c' = _ := hChanges
      exact ⟨le_rfl, .inl rfl, .inl rfl⟩
  | backToDslabFree hBack =>
      obtain ⟨_, _, _, rfl⟩ := backToDslabFree_frees hBack
      exact ⟨le_rfl, .inr rfl, .inl rfl⟩
  | @take n cid ops toDrop c' hTake =>
      obtain ⟨_, _, _, hChanges⟩ :=
        takeOpsFrom_changes cfg c.nextOpsPoolRemoveChannel cfg.nrChannels c
      rw [Cache.takeOps] at hTake
      rw [hTake] at hChanges
      obtain rfl : c' = _ := hChanges
      exact ⟨le_rfl, .inl rfl, .inl rfl⟩
  | @relink n cid ops toDrop c' freeList hRelink =>
      have hCounter := nrFullDslab_relinkFull hRelink
      obtain ⟨_, _, _, hChanges⟩ := relinkFull_changes cfg c ops toDrop n.freeList
      rw [hRelink] at hChanges
      obtain rfl : c' = _ := hChanges
      exact ⟨by omega, .inl rfl, .inl rfl⟩
  | move hMove =>
      obtain ⟨_, _, rfl⟩ := moveLive_changes hMove
      exact ⟨le_rfl, .inl rfl, .inr rfl⟩
  | modify =>
      obtain ⟨_, _, hChanges⟩ := modifyIndexTo_changes cfg c cfg.gcBuffer _
      rw [hChanges]
      exact ⟨le_rfl, .inl rfl, .inr rfl⟩
  | tune =>
      refine ⟨?_, .inr rfl, ?_⟩
      · unfold Cache.tuneOpsPool
        split <;> exact le_rfl
      · unfold Cache.tuneOpsPool
        split <;> exact .inl rfl
  | @refill n newOpsSize left channel d rest c' freeList _ _ hRefill =>
      obtain ⟨rfl, -⟩ := Prod.mk.inj hRefill
      exact ⟨le_rfl, .inl rfl, .inl rfl⟩
  | @shrink n count c' freeList hShrink =>
      obtain rfl := congrArg Prod.fst hShrink
      simp only [Cache.shrinkOps]
      split <;> exact ⟨le_rfl, .inl rfl, .inl rfl⟩
  | reclaim hReclaim =>
      obtain ⟨_, _, _, rfl⟩ := reclaim_frees hReclaim
      exact ⟨le_rfl, .inr rfl, .inl rfl⟩
  | _ => exact ⟨le_rfl, .inl rfl, .inl rfl⟩

/-- A step of the collector frees disk slabs under the mutex of the free lists,
and index entries under the index mutex. -/
theorem GcStep.raises {pick : List Nat} {fuel : Nat} {a a' : GcAt} {l : Mutex}
    (h : GcStep build cfg pick fuel c a c' a') (hBefore : c.ready l = false)
    (hAfter : c'.ready l = true) : a.mutex cfg = some l ∧ l.signal = .gcFinished := by
  have hOutside := h.outside
  have hFree : c'.mslabFree = c.mslabFree := congrArg Outside.mslabFree hOutside
  have hFull : c'.mslabFull = c.mslabFull := congrArg Outside.mslabFull hOutside
  have hChanged : c'.ready l ≠ c.ready l := by
    rw [hAfter, hBefore]
    exact Bool.noConfusion
  obtain ⟨hNrFull, hNrFree, hIndex⟩ := h.counters
  cases l with
  | writer => cases hBefore
  | mslabFree => exact absurd (by simp only [Cache.ready, hFree]) hChanged
  | mslabFull => exact absurd (by simp only [Cache.ready, hFull]) hChanged
  | dslabFull =>
      simp only [Cache.ready, decide_eq_true_eq, decide_eq_false_iff_not] at hAfter hBefore
      omega
  | dslabFree =>
      refine ⟨hNrFree.resolve_left fun hSame => hChanged ?_, rfl⟩
      simp only [Cache.ready, hSame]
  | index =>
      refine ⟨hIndex.resolve_left fun hSame => hChanged ?_, rfl⟩
      simp only [Cache.ready, hSame]

/-! ### Client operations -/

theorem slotOfPartial_raises {u : Setup} {cid : Nat} {slot : Option (Nat × Nat)}
    (hRun : u.slotOfPartial cid c = .ok (slot, c')) : c.RaisesOnly [] c' := by
  unfold Setup.slotOfPartial at hRun
  split at hRun
  · obtain ⟨-, rfl⟩ := Prod.mk.inj (Except.ok.inj hRun)
    exact raisesOnly_refl _ _
  · obtain ⟨⟨c₁, slotId⟩, hAlloc, hEnd⟩ := Execution.bind_eq_ok.mp hRun
    obtain ⟨-, rfl⟩ := Prod.mk.inj (Execution.pure_eq_ok.mp hEnd)
    obtain ⟨hDisk, hIndex, hFree, hFull⟩ := diskSide_allocPartial hAlloc
    exact raisesOnly_of_eq hFree hFull hDisk (by rw [hIndex])

theorem takeFreeMslab_raises (c : Cache) : c.RaisesOnly [] (Setup.takeFreeMslab c).2 := by
  unfold Setup.takeFreeMslab
  split
  · exact raisesOnly_refl _ _
  · intro l _ hReady
    cases l with
    | mslabFree =>
        simp only [Cache.ready, decide_eq_true_eq] at hReady ⊢
        exact SlabList.del_ne_nil hReady
    | _ => exact hReady

theorem insertEntry_raises {key : Key} {sid slotId : Nat}
    (hRun : c.insertEntry cfg key sid slotId = some c') : c.RaisesOnly [] c' := by
  obtain ⟨hSame, e, -, hCount⟩ := diskSide_insertEntry hRun
  rw [hSame]
  exact raisesOnly_of_eq rfl rfl rfl (by simp only; omega)

theorem putIndex_raises {key : Key} {sid slotId : Nat}
    (hRun : c.putIndex build cfg key sid slotId = .ok (some c')) : c.RaisesOnly [] c' := by
  obtain ⟨hSame, hCount⟩ := diskSide_putIndex hRun
  rw [hSame]
  refine raisesOnly_of_eq rfl rfl rfl ?_
  rcases hCount with ⟨-, hCount⟩ | ⟨_, -, hCount⟩
  · exact hCount.le
  · simp only
    omega

/-- `Delete` can free an index entry. -/
theorem delete_raises {key : Key} (hRun : c.delete build cfg key = .ok c') :
    c.RaisesOnly [.index] c' := by
  intro l hOther hReady
  rw [diskSide_delete hRun] at hReady
  cases l with
  | index => exact absurd (List.mem_singleton_self _) hOther
  | _ => exact hReady

end KVCache
