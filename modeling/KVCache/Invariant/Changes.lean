import KVCache.Data.Execution
import KVCache.Semantics.Collector

/-! Which parts of a cache the loops of the flush and the collector change. The
result is given as an update of the cache before, so that all other parts are
the same by definition. -/

namespace KVCache

variable {build : Build} {cfg : Config} {c c' : Cache} {d : Nat} {toDrop : List Nat}

/-! ### The flush -/

theorem takeFull_changes {m : Nat} (hRun : c.takeFull build = .ok (m, c')) :
    c' = { c with mslabFull := c.mslabFull.del m } := by
  unfold Cache.takeFull at hRun
  split at hRun
  · cases hRun
  · obtain ⟨_, -, hEnd⟩ := Execution.bind_eq_ok.mp hRun
    obtain ⟨rfl, rfl⟩ := Prod.mk.inj (Execution.pure_eq_ok.mp hEnd)
    rfl

theorem takeFreeFrom_changes {beginning rounds : Nat} {found : Option (Nat × Nat)}
    (hRun : Cache.takeFreeFrom build cfg beginning rounds c = .ok (found, c')) :
    ∃ next dslabFree nrFree, c' = { c with
      nextMslabFlushChannel := next, dslabFree := dslabFree, nrFreeDslab := nrFree } := by
  induction rounds generalizing c with
  | zero =>
      obtain ⟨-, rfl⟩ := Prod.mk.inj (Except.ok.inj hRun)
      exact ⟨_, _, _, rfl⟩
  | succ rounds ih =>
      simp only [Cache.takeFreeFrom] at hRun
      split at hRun
      · simp only [Execution.bind_eq_ok, Execution.pure_eq_ok] at hRun
        obtain ⟨_, -, _, -, hEnd⟩ := hRun
        obtain ⟨-, rfl⟩ := Prod.mk.inj hEnd
        exact ⟨_, _, _, rfl⟩
      · split at hRun
        · obtain ⟨_, _, _, rfl⟩ := ih hRun
          exact ⟨_, _, _, rfl⟩
        · obtain ⟨-, rfl⟩ := Prod.mk.inj (Execution.pure_eq_ok.mp hRun)
          exact ⟨_, _, _, rfl⟩

/-- The loop of `modify_index_to` changes the index. -/
theorem modifySlots_changes (cfg : Config) (c : Cache) (src dst : Nat) (slots : List Nat) :
    ∃ index nrUsed, slots.foldl (Cache.modifySlot cfg src dst) (c, 0) =
      ({ c with index := index }, nrUsed) := by
  apply Execution.foldl_rule
    (fun _ (state : Cache × Nat) => ∃ index nrUsed, state = ({ c with index := index }, nrUsed))
  · rintro slotId _ _ ⟨index, nrUsed, rfl⟩
    simp only [Cache.modifySlot]
    split
    · exact ⟨_, _, rfl⟩
    · split <;> exact ⟨_, _, rfl⟩
  · exact ⟨_, _, rfl⟩

/-- `modify_index_to` changes the index and two use counts. -/
theorem modifyIndexTo_changes (cfg : Config) (c : Cache) (src dst : Nat) :
    ∃ index nrUsed, c.modifyIndexTo cfg src dst = { c with
      index := index
      slabs := (c.slabs.modify src fun s => { s with nrUsed := 0 }).modify dst
        fun s => { s with nrUsed := nrUsed } } := by
  obtain ⟨index, nrUsed, hLoop⟩ :=
    modifySlots_changes cfg c src dst (List.range (c.slabs src).nrAlloc)
  refine ⟨index, nrUsed, ?_⟩
  simp only [Cache.modifyIndexTo, hLoop]

/-! ### Quick GC -/

theorem selectDrop_changes {fuel : Nat} {n : Int} {start : List Nat}
    (hRun : Cache.selectDrop cfg fuel n c start = .ok (toDrop, c')) :
    ∃ next dslabFull nrFull, c' = { c with
      nextOpsPoolRemoveChannel := next, dslabFull := dslabFull, nrFullDslab := nrFull } := by
  induction fuel generalizing c n start with
  | zero =>
      simp only [Cache.selectDrop] at hRun
      split at hRun
      · obtain ⟨-, rfl⟩ := Prod.mk.inj (Except.ok.inj hRun)
        exact ⟨_, _, _, rfl⟩
      · cases hRun
  | succ fuel ih =>
      simp only [Cache.selectDrop] at hRun
      split at hRun
      · obtain ⟨-, rfl⟩ := Prod.mk.inj (Except.ok.inj hRun)
        exact ⟨_, _, _, rfl⟩
      · split at hRun
        · obtain ⟨_, _, _, rfl⟩ := ih hRun
          exact ⟨_, _, _, rfl⟩
        · obtain ⟨_, _, _, rfl⟩ := ih hRun
          exact ⟨_, _, _, rfl⟩

theorem dropDslab_changes (hRun : c.dropDslab build cfg d = .ok c') :
    c' = { c.evictDslab cfg d with slabs := c.slabs.modify d fun s => { s with nrUsed := 0 } } := by
  obtain ⟨_, -, hEnd⟩ := Execution.bind_eq_ok.mp hRun
  exact (Execution.pure_eq_ok.mp hEnd).symm

theorem backToOpsPool_changes (cfg : Config) (o i : Int) (toDrop : List Nat) (c : Cache) :
    ∃ slabs opsPool size, (Cache.backToOpsPool cfg o i toDrop c).2 = { c with
      slabs := slabs, opsPool := opsPool, opsPoolSize := size } := by
  induction toDrop generalizing c i with
  | nil => exact ⟨_, _, _, rfl⟩
  | cons d rest ih =>
      simp only [Cache.backToOpsPool]
      split
      · exact ⟨_, _, _, rfl⟩
      · exact ih (i + 1) _

/-- Slabs enter the free lists. -/
def Cache.Frees (c c' : Cache) : Prop :=
  ∃ slabs dslabFree nrFree, c' = { c with
    slabs := slabs, dslabFree := dslabFree, nrFreeDslab := nrFree }

theorem Cache.Frees.trans {c'' : Cache} (h : c.Frees c') (h' : c'.Frees c'') : c.Frees c'' := by
  obtain ⟨_, _, _, rfl⟩ := h
  obtain ⟨_, _, _, rfl⟩ := h'
  exact ⟨_, _, _, rfl⟩

theorem foldlM_frees {f : Cache → Nat → Except Stop Cache} {ds : List Nat}
    (hBody : ∀ c c' d, f c d = .ok c' → c.Frees c') (hRun : ds.foldlM f c = .ok c') : c.Frees c' :=
  Execution.foldlM_rule (fun _ (c₁ : Cache) => c.Frees c₁)
    (fun d _ c₁ c₂ h hStep => h.trans (hBody c₁ c₂ d hStep)) hRun ⟨_, _, _, rfl⟩

theorem linkDslabFree_frees {channel : Nat}
    (hRun : c.linkDslabFree build cfg channel d = .ok c') : c.Frees c' := by
  obtain ⟨_, -, hEnd⟩ := Execution.bind_eq_ok.mp hRun
  obtain rfl := Execution.pure_eq_ok.mp hEnd
  exact ⟨_, _, _, rfl⟩

theorem backToDslabFree_frees {ds : List Nat}
    (hRun : ds.foldlM (Cache.backToDslabFree build cfg) c = .ok c') : c.Frees c' :=
  foldlM_frees (fun _ _ _ hStep => linkDslabFree_frees hStep) hRun

theorem reclaim_frees {freeList : Table SlabList}
    (hRun : c.reclaim build cfg freeList = .ok c') : c.Frees c' :=
  foldlM_frees (fun _ _ _ hChannel =>
    foldlM_frees (fun _ _ _ hStep => linkDslabFree_frees hStep) hChannel) hRun

/-! ### Normal GC -/

theorem takeOpsFrom_changes (cfg : Config) (begin rounds : Nat) (c : Cache) :
    ∃ next opsPool size, (Cache.takeOpsFrom cfg begin rounds c).2 = { c with
      nextOpsPoolRemoveChannel := next, opsPool := opsPool, opsPoolSize := size } := by
  induction rounds generalizing c with
  | zero => exact ⟨_, _, _, rfl⟩
  | succ rounds ih =>
      simp only [Cache.takeOpsFrom]
      split
      · exact ⟨_, _, _, rfl⟩
      · split
        · exact ih _
        · exact ⟨_, _, _, rfl⟩

theorem relinkFull_changes (cfg : Config) (c : Cache) (ops : Nat) (toDrop : List Nat)
    (freeList : Table SlabList) :
    ∃ slabs dslabFull nrFull, (c.relinkFull cfg ops toDrop freeList).1 = { c with
      slabs := slabs, dslabFull := dslabFull, nrFullDslab := nrFull } := by
  unfold Cache.relinkFull
  apply Execution.foldl_rule (fun _ (state : Cache × Table SlabList) =>
    ∃ slabs dslabFull nrFull, state.1 = { c with
      slabs := slabs, dslabFull := dslabFull, nrFullDslab := nrFull })
  · rintro d _ ⟨_, freeList⟩ ⟨slabs, dslabFull, nrFull, rfl⟩
    exact ⟨_, _, _, rfl⟩
  · exact ⟨_, _, _, rfl⟩

theorem moveLive_changes {fake : Slab} (hRun : c.moveLive build cfg d fake = .ok c') :
    ∃ slabs index, c' = { c with slabs := slabs, index := index } := by
  obtain ⟨c₁, hSlots, hEnd⟩ := Execution.bind_eq_ok.mp hRun
  have hLoop := Execution.foldlM_rule
    (fun _ (c₁ : Cache) => ∃ slabs index, c₁ = { c with slabs := slabs, index := index })
    (fun slotId _ c₁ c₂ h hStep => ?_) hSlots ⟨_, _, rfl⟩
  · obtain ⟨slabs, index, rfl⟩ := hLoop
    obtain rfl := Execution.pure_eq_ok.mp hEnd
    exact ⟨_, _, rfl⟩
  · obtain ⟨slabs, index, rfl⟩ := h
    unfold Cache.moveSlot at hStep
    split at hStep
    · obtain rfl := Except.ok.inj hStep
      exact ⟨_, _, rfl⟩
    · simp only at hStep
      split at hStep
      · obtain ⟨_, -, hLast⟩ := Execution.bind_eq_ok.mp hStep
        obtain rfl := Execution.pure_eq_ok.mp hLast
        exact ⟨_, _, rfl⟩
      · obtain rfl := Except.ok.inj hStep
        exact ⟨_, _, rfl⟩

end KVCache
