import KVCache.Semantics.WriteError
import KVCache.Invariant.Outside
import KVCache.Properties.Accounting

/-! A failed write of a flush. The slabs are unlinked and counted down before
the write, and nothing links them again when it fails. The collector, which the
flush may run in between, does not touch the lists of the memory slabs. -/

namespace KVCache

variable {build : Build} {cfg : Config} {c c' : Cache} {g : Ghost} {s : Sys}
  {freeList freeList' : Table SlabList}

/-! ### A flush without errors -/

/-- The search, followed by the rest of the flush, is a sequence of operations. -/
theorem run_resumeOps {rounds : List Nat} {m d channel : Nat} {c₁ c₂ : Cache}
    (hFind : Cache.findDslab build cfg rounds c = .ok (some (d, channel), c₁))
    (hFinish : c₁.finishFlush build cfg m d channel = .ok c₂) :
    ∃ s₁ used, { s with cache := c }.flushFrom build cfg m = .ok s₁ ∧
      Sys.run build cfg s₁ (Sys.resumeOps used) = .ok ({ s with cache := c₂, flush := none }, []) := by
  have hFound : ∀ {c₀ : Cache}, c₀.takeFree build cfg = .ok (some (d, channel), c₁) →
      { s with cache := c₀ }.flushFrom build cfg m = .ok { s with cache := c₂, flush := none } := by
    intro c₀ hTake
    simp only [Sys.flushFrom, hTake, hFinish, bind, Except.bind, pure, Except.pure]
  induction rounds generalizing c with
  | nil => exact ⟨_, [], hFound hFind, rfl⟩
  | cons fuel rounds ih =>
      unfold Cache.findDslab at hFind
      obtain ⟨⟨first, c₀⟩, hTake, hFind⟩ := Execution.bind_eq_ok.mp hFind
      cases first with
      | some slab =>
          obtain ⟨hSlab, rfl⟩ := Prod.mk.inj (Execution.pure_eq_ok.mp hFind)
          obtain rfl := Option.some.inj hSlab
          exact ⟨_, [], hFound hTake, rfl⟩
      | none =>
          obtain ⟨c₃, hGc, hFind⟩ := Execution.bind_eq_ok.mp hFind
          obtain ⟨s₁, used, hResume, hRest⟩ := ih hFind
          refine ⟨{ s with cache := c₀, flush := some m }, fuel :: used, ?_, ?_⟩
          · simp only [Sys.flushFrom, hTake, bind, Except.bind, pure, Except.pure]
          · have hCollect : Sys.step build cfg { s with cache := c₀, flush := some m } (.gc fuel) =
                .ok ({ s with cache := c₃, flush := some m }, []) := by
              simp only [Sys.step, hGc, bind, Except.bind, pure, Except.pure]
            have hAgain : Sys.step build cfg { s with cache := c₃, flush := some m } .flushResume =
                .ok (s₁, []) := by
              have hSame : Sys.flushFrom build cfg { s with cache := c₃, flush := some m } m =
                  .ok s₁ := hResume
              simp only [Sys.step, Sys.flushResume, hSame, bind, Except.bind, pure, Except.pure]
            exact Runs.run_cons.mpr ⟨_, [], [], hCollect,
              Runs.run_cons.mpr ⟨s₁, [], [], hAgain, hRest, rfl⟩, rfl⟩

/-- A flush in the foreground is a sequence of operations, when its writes
succeed. -/
theorem run_flushOps {rounds : List Nat} {m d channel : Nat} {c₁ c₂ c₃ : Cache}
    (hNone : s.flush = none) (hFull : s.cache.takeFull build = .ok (m, c₁))
    (hFind : Cache.findDslab build cfg rounds c₁ = .ok (some (d, channel), c₂))
    (hFinish : c₂.finishFlush build cfg m d channel = .ok c₃) :
    ∃ used, Sys.run build cfg s (.flush :: Sys.resumeOps used) =
      .ok ({ s with cache := c₃ }, []) := by
  obtain ⟨s₁, used, hFlush, hRest⟩ := @run_resumeOps build cfg c₁ s rounds m d channel c₂ c₃ hFind
    hFinish
  refine ⟨used, Runs.run_cons.mpr ⟨s₁, [], [], ?_, ?_, rfl⟩⟩
  · have hSame : Sys.flushFrom build cfg ⟨c₁, s.put, none⟩ m = .ok s₁ := hFlush
    simp only [Sys.step, Sys.flushStart, hNone, hFull, hSame, Option.isSome_none,
      Bool.false_eq_true, if_false, bind, Except.bind, pure, Except.pure]
  · rw [← hNone] at hRest
    exact hRest

/-! ### The list of full memory slabs -/

section

variable {d : Nat} {toDrop : List Nat}

theorem takeFull_mslabFull {m : Nat} (hRun : c.takeFull build = .ok (m, c')) :
    c'.mslabFull = c.mslabFull.del m := by
  rw [takeFull_changes hRun]

theorem takeFree_mslabFull {found : Option (Nat × Nat)}
    (hRun : c.takeFree build cfg = .ok (found, c')) : c'.mslabFull = c.mslabFull := by
  obtain ⟨_, _, _, rfl⟩ := takeFreeFrom_changes hRun
  rfl

theorem doQuickGc_outside {fuel : Nat} {f o : Int}
    (hRun : Cache.doQuickGc build cfg fuel f o c = .ok c') : c'.outside = c.outside := by
  simp only [Cache.doQuickGc, Execution.bind_eq_ok] at hRun
  obtain ⟨_, -, _, -, ⟨toDrop, c₁⟩, hSelect, c₂, hDrop, c₃, hBack, _, -, hEnd⟩ := hRun
  obtain rfl := Execution.pure_eq_ok.mp hEnd
  have hDropped : c₂.outside = c₁.outside :=
    Execution.foldlM_rule (fun _ (c : Cache) => c.outside = c₁.outside)
      (fun _ _ _ _ h hStep => (dropDslab_outside hStep).trans h) hDrop rfl
  calc c₃.outside
      = (Cache.backToOpsPool cfg o 0 toDrop c₂).2.outside :=
        frees_outside (backToDslabFree_frees hBack)
    _ = c₂.outside := backToOpsPool_outside cfg o 0 toDrop c₂
    _ = c.outside := hDropped.trans (selectDrop_outside hSelect)

theorem moveDslab_outside {size size' : Int}
    (hRun : Cache.moveDslab build cfg (c, size) d = .ok (c', size')) :
    c'.outside = c.outside := by
  simp only [Cache.moveDslab, Execution.bind_eq_ok] at hRun
  obtain ⟨_, -, c₁, hLive, hEnd⟩ := hRun
  obtain ⟨rfl, -⟩ := Prod.mk.inj (Execution.pure_eq_ok.mp hEnd)
  exact moveLive_outside hLive

/-- Gathering a batch. -/
theorem gatherDslabs_outside {ops : Nat}
    (hRun : c.gatherDslabs build cfg toDrop freeList = .ok (ops, c', freeList')) :
    c'.outside = c.outside := by
  have hTake := takeOps_outside cfg c
  unfold Cache.gatherDslabs at hRun
  generalize c.takeOps cfg = taken at hTake hRun
  obtain ⟨found, c₁⟩ := taken
  cases found with
  | none =>
      obtain ⟨_, -, hEnd⟩ := Execution.bind_eq_ok.mp hRun
      cases hEnd
  | some slab =>
      cases toDrop with
      | nil => cases hRun
      | cons first rest =>
          simp only [Execution.bind_eq_ok] at hRun
          obtain ⟨⟨c₂, size⟩, hMove, _, -, hEnd⟩ := hRun
          obtain ⟨-, rfl, -⟩ := by simpa using Execution.pure_eq_ok.mp hEnd
          have hMoved := Execution.foldlM_rule
            (fun _ (state : Cache × Int) => state.1.outside = c₁.outside)
            (fun d _ state state' h hStep => (moveDslab_outside hStep).trans h) hMove
            (relinkFull_outside cfg c₁ slab (first :: rest) freeList)
          exact Eq.trans hMoved hTake

theorem gcDslabs_outside (hRun : c.gcDslabs build cfg toDrop freeList = .ok (c', freeList')) :
    c'.outside = c.outside := by
  rw [Cache.gcDslabs_eq_gatherDslabs] at hRun
  obtain ⟨⟨ops, c₁, freeList₁⟩, hGather, hEnd⟩ := Execution.bind_eq_ok.mp hRun
  obtain ⟨rfl, -⟩ := Prod.mk.inj (Execution.pure_eq_ok.mp hEnd)
  have hGathered := gatherDslabs_outside hGather
  exact (modifyIndexTo_outside _ _ _ _).trans hGathered

theorem collectClasses_outside {kept : Nat → List Nat} {ks : List Nat}
    (hRun : Cache.collectClasses build cfg kept ks c freeList = .ok (c', freeList')) :
    c'.outside = c.outside := by
  induction ks generalizing c freeList with
  | nil =>
      obtain ⟨rfl, -⟩ := Prod.mk.inj (Except.ok.inj hRun)
      rfl
  | cons k ks ih =>
      obtain ⟨batch, -, hRun⟩ := Execution.bind_eq_ok.mp hRun
      split at hRun
      · split at hRun
        · obtain ⟨rfl, -⟩ := Prod.mk.inj (Execution.pure_eq_ok.mp hRun)
          rfl
        · obtain ⟨⟨c₁, freeList₁⟩, hGc, hRun⟩ := Execution.bind_eq_ok.mp hRun
          exact (ih hRun).trans (gcDslabs_outside hGc)
      · exact ih hRun

theorem refillOpsPool_outside {fuel channel : Nat} {left : Int}
    (hRun : Cache.refillOpsPool cfg fuel left channel c freeList = .ok (c', freeList')) :
    c'.outside = c.outside := by
  induction fuel generalizing c freeList left channel with
  | zero =>
      simp only [Cache.refillOpsPool] at hRun
      split at hRun
      · obtain ⟨rfl, -⟩ := Prod.mk.inj (Except.ok.inj hRun)
        rfl
      · cases hRun
  | succ fuel ih =>
      simp only [Cache.refillOpsPool] at hRun
      split at hRun
      · obtain ⟨rfl, -⟩ := Prod.mk.inj (Except.ok.inj hRun)
        rfl
      · split at hRun
        · have hRest := ih hRun
          exact hRest
        · have hRest := ih hRun
          exact hRest

theorem shrinkOpsPool_outside (count : Nat) :
    (Cache.shrinkOpsPool cfg count c freeList).1.outside = c.outside := by
  induction count generalizing c freeList with
  | zero => rfl
  | succ count ih =>
      exact ih.trans (shrinkOps_outside cfg c freeList)

theorem normalGc_outside {fuel : Nat} (hRun : c.normalGc build cfg fuel = .ok c') :
    c'.outside = c.outside := by
  simp only [Cache.normalGc, Cache.finishNormalGc, Execution.bind_eq_ok] at hRun
  obtain ⟨pq, -, _, -, ⟨c₁, freeList₁⟩, hCollect, _, -, ⟨c₂, freeList₂⟩, hRefill, _, -, c₃,
    hReclaim, _, -, hEnd⟩ := hRun
  obtain rfl := Execution.pure_eq_ok.mp hEnd
  calc c₃.outside
      = (Cache.shrinkOpsPool cfg _ c₂ freeList₂).1.outside := frees_outside (reclaim_frees hReclaim)
    _ = c₂.outside := shrinkOpsPool_outside _
    _ = (c₁.tuneOpsPool c.opsPoolSize).2.outside := refillOpsPool_outside hRefill
    _ = c₁.outside := tuneOpsPool_outside _ _
    _ = c.outside := collectClasses_outside hCollect

/-- A round of the collector. -/
theorem doSlabGc_outside {fuel : Nat} (hRun : c.doSlabGc build cfg fuel = .ok c') :
    c'.outside = c.outside := by
  rcases doSlabGc_cases hRun with ⟨c₀, f, o, hStart, hQuick⟩ | ⟨-, hNormal⟩
  · rw [doQuickGc_outside hQuick, quickStart_same hStart]
    rfl
  · exact normalGc_outside hNormal

/-- A round of the collector that throws. -/
theorem collectThrows_outside {kept : Nat → List Nat} {left : Slab} {batches : Nat}
    {ks : List Nat}
    (hRun : Cache.collectThrows build cfg kept left batches ks c freeList = .ok (some c')) :
    c'.outside = c.outside := by
  induction ks generalizing c freeList batches with
  | nil => cases hRun
  | cons k ks ih =>
      unfold Cache.collectThrows at hRun
      obtain ⟨batch, -, hRun⟩ := Execution.bind_eq_ok.mp hRun
      split at hRun
      · split at hRun
        · cases hRun
        · cases batches with
          | zero =>
              obtain ⟨⟨ops, c₁, freeList₁⟩, hGather, hEnd⟩ := Execution.bind_eq_ok.mp hRun
              obtain rfl := Option.some.inj (Execution.pure_eq_ok.mp hEnd)
              have hGathered := gatherDslabs_outside hGather
              exact hGathered
          | succ batches =>
              obtain ⟨⟨c₁, freeList₁⟩, hGc, hRun⟩ := Execution.bind_eq_ok.mp hRun
              exact (ih hRun).trans (gcDslabs_outside hGc)
      · exact ih hRun

theorem doSlabGcThrows_outside {batches : Nat} {left : Slab}
    (hRun : c.doSlabGcThrows build cfg batches left = .ok (some c')) :
    c'.outside = c.outside := by
  unfold Cache.doSlabGcThrows at hRun
  by_cases hFull : c.nrFullDslab ≤ 0
  · rw [if_pos hFull] at hRun
    cases hRun
  · rw [if_neg hFull] at hRun
    obtain ⟨_, -, hRun⟩ := Execution.bind_eq_ok.mp hRun
    split at hRun
    · cases hRun
    · simp only [Cache.normalGcThrows, Execution.bind_eq_ok] at hRun
      obtain ⟨pq, -, _, -, hCollect⟩ := hRun
      exact collectThrows_outside hCollect

theorem findDslab_mslabFull {rounds : List Nat} {found : Option (Nat × Nat)}
    (hRun : Cache.findDslab build cfg rounds c = .ok (found, c')) :
    c'.mslabFull = c.mslabFull := by
  induction rounds generalizing c with
  | nil => exact takeFree_mslabFull hRun
  | cons fuel rounds ih =>
      unfold Cache.findDslab at hRun
      obtain ⟨⟨first, c₁⟩, hTake, hRun⟩ := Execution.bind_eq_ok.mp hRun
      cases first with
      | some slab =>
          obtain ⟨-, rfl⟩ := Prod.mk.inj (Execution.pure_eq_ok.mp hRun)
          exact takeFree_mslabFull hTake
      | none =>
          obtain ⟨c₂, hGc, hRun⟩ := Execution.bind_eq_ok.mp hRun
          calc c'.mslabFull
              = c₂.mslabFull := ih hRun
            _ = c₁.mslabFull := congrArg Outside.mslabFull (doSlabGc_outside hGc)
            _ = c.mslabFull := takeFree_mslabFull hTake

end

theorem flushThrows_mslabFull {rounds : List Nat} {failed : FailedWrite} {left : Slab} {t : Thrown}
    (hRun : c.flushThrows build cfg rounds failed left = .ok (some t)) :
    t.cache.mslabFull = c.mslabFull.del t.mslab := by
  unfold Cache.flushThrows at hRun
  obtain ⟨⟨m, c₁⟩, hFull, hRun⟩ := Execution.bind_eq_ok.mp hRun
  obtain ⟨⟨found, c₂⟩, hFind, hRun⟩ := Execution.bind_eq_ok.mp hRun
  have hSame : c₂.mslabFull = c.mslabFull.del m :=
    (findDslab_mslabFull hFind).trans (takeFull_mslabFull hFull)
  cases found with
  | some slab =>
      cases failed with
      | flush =>
          obtain rfl := Option.some.inj (Execution.pure_eq_ok.mp hRun)
          exact hSame
      | gc batches => cases hRun
  | none =>
      cases failed with
      | flush => cases hRun
      | gc batches =>
          obtain ⟨thrown, hGc, hEnd⟩ := Execution.bind_eq_ok.mp hRun
          cases thrown with
          | none => cases hEnd
          | some c₃ =>
              obtain rfl := Option.some.inj (Execution.pure_eq_ok.mp hEnd)
              exact (congrArg Outside.mslabFull (doSlabGcThrows_outside hGc)).trans hSame

/-! ### What a failed flush loses -/

/-- All list sizes of a cache, with the counter of free disk slabs. -/
def Cache.sizes (cfg : Config) (c : Cache) : Int × Int × Int × List (Int × Int × Int) :=
  (c.mslabFree.size, c.mslabFull.size, c.nrFreeDslab, (List.range cfg.nrChannels).map fun channel =>
    ((c.dslabFree channel).size, (c.dslabFull channel).size, (c.opsPool channel).size))

/-- The sizes, and the counter of free disk slabs, agree with the lists. -/
structure Cache.Sized (cfg : Config) (c : Cache) : Prop where
  mslabFree : c.mslabFree.size = c.mslabFree.list.length
  mslabFull : c.mslabFull.size = c.mslabFull.list.length
  disk : ∀ channel < cfg.nrChannels,
    (c.dslabFree channel).size = (c.dslabFree channel).list.length ∧
      (c.dslabFull channel).size = (c.dslabFull channel).list.length ∧
      (c.opsPool channel).size = (c.opsPool channel).list.length
  nrFreeDslab : c.nrFreeDslab =
    ((List.range cfg.nrChannels).map fun channel => (c.dslabFree channel).list.length).sum

/-- After a flush that has thrown, its slabs are where they were, all sizes are
right and have their old values, and no lookup notices. -/
structure LosesNothing (build : Build) (cfg : Config) (c : Cache) (t : Thrown) : Prop where
  mslab : t.mslab ∈ t.cache.mslabFull.list
  dslab : ∀ d, t.dslab = some d → ∃ channel < cfg.nrChannels, d ∈ (t.cache.dslabFree channel).list
  sized : t.cache.Sized cfg
  sizes : t.cache.sizes cfg = c.sizes cfg
  lookup : ∀ key, t.cache.get build cfg key = c.get build cfg key

/-- A flush with a failed write always loses something, in whatever state it
starts: the list of full memory slabs is one shorter than it was. -/
theorem flush_thrown_loses {rounds : List Nat} {failed : FailedWrite} {left : Slab} {t : Thrown}
    (hRun : c.flushThrows build cfg rounds failed left = .ok (some t)) :
    ¬LosesNothing build cfg c t := by
  intro h
  have hSize : t.cache.mslabFull.size = c.mslabFull.size :=
    congrArg (fun sizes => sizes.2.1) h.sizes
  rw [flushThrows_mslabFull hRun] at hSize
  simp only [SlabList.del] at hSize
  omega

/-- Two objects fill both memory slabs, and the flush for the third `Put` fails. -/
theorem flush_thrown_loses_small :
    ∃ s t, Sys.Reachable .debug .small s ∧ s.cache.mslabFull.list = [0, 1] ∧
      s.cache.flushThrows .debug .small [] .flush default = .ok (some t) ∧
      ¬LosesNothing .debug .small s.cache t := by
  obtain ⟨⟨s, events⟩, hRun, hState⟩ := Execution.ok_of_check
    (x := Sys.start .debug .small [.put [1] [7], .put [2] [9]])
    (fun r => r.1.cache.mslabFull.list = [0, 1] ∧
      (r.1.cache.flushThrows .debug .small [] .flush default).toOption.join.isSome)
    (by decide +kernel)
  obtain ⟨hList, hThrows⟩ := of_decide_eq_true hState
  cases hFlush : s.cache.flushThrows .debug .small [] .flush default with
  | error stop => simp [hFlush, Except.toOption] at hThrows
  | ok thrown =>
      cases thrown with
      | none => simp [hFlush, Except.toOption] at hThrows
      | some t => exact ⟨s, t, ⟨_, events, hRun⟩, hList, hFlush, flush_thrown_loses hFlush⟩

/-- After that flush, the memory slab and the disk slab that it took are gone
from their lists. -/
theorem flush_thrown_unlinks_small :
    ¬∀ (cfg : Config) (s : Sys) (rounds : List Nat) (failed : FailedWrite) (left : Slab)
      (t : Thrown), cfg.WellFormed → Sys.Reachable .debug cfg s → s.Quiet →
        s.cache.flushThrows .debug cfg rounds failed left = .ok (some t) →
        LosesNothing .debug cfg s.cache t := by
  intro hAll
  obtain ⟨⟨s, events⟩, hRun, hState⟩ := Execution.ok_of_check
    (x := Sys.start .debug .small [.put [1] [7], .put [2] [9]])
    (fun r => (r.1.put = none ∧ r.1.flush = none) ∧
      ∃ t ∈ (r.1.cache.flushThrows .debug .small [] .flush default).toOption.join,
        t.mslab ∉ t.cache.mslabFull.list)
    (by decide +kernel)
  obtain ⟨hQuiet, t, hThrown, hUnlinked⟩ := of_decide_eq_true hState
  have hFlush : s.cache.flushThrows .debug .small [] .flush default = .ok (some t) := by
    cases hResult : s.cache.flushThrows .debug .small [] .flush default with
    | error stop => simp [hResult, Except.toOption] at hThrown
    | ok thrown =>
        rw [hResult] at hThrown
        exact congrArg Except.ok (by simpa [Except.toOption] using hThrown)
  exact hUnlinked (hAll .small s [] .flush default t Config.small_wellFormed ⟨_, events, hRun⟩
    hQuiet hFlush).mslab

/-! ### Where the slabs are -/

theorem Inv.memListed_eq_zero {x : Nat} (hInv : Inv cfg c g) (hPlace : g.place x = .nowhere) :
    memListed cfg c x = 0 := by
  have hFree := (hInv.lists.holds .mslabFree 0 (by simp)).count_of_not (x := x) (by simp [hPlace])
  have hFull := (hInv.lists.holds .mslabFull 0 (by simp)).count_of_not (x := x) (by simp [hPlace])
  have hPartial := fun cid =>
    (hInv.lists.holds (.slabPartial cid) 0 (by simp)).count_of_not (x := x) (by simp [hPlace])
  simp only [Cache.listAt] at hFree hFull hPartial
  rw [memListed, hFree, hFull, sum_range_eq_zero hPartial]

/-- The search keeps hold of the memory slab, and takes the disk slab it finds. -/
theorem SysInv.findDslab {rounds : List Nat} {put : Option PendingPut} {m d channel : Nat}
    (h : SysInv cfg ⟨c, put, some m⟩ g)
    (hRun : Cache.findDslab build cfg rounds c = .ok (some (d, channel), c')) :
    ∃ g', Inv cfg c' g' ∧ g'.role m = .memFlush ∧ g'.role d = .diskTaken .flush := by
  have hEnd : ∀ {c₀ c₁ : Cache} {g₀ : Ghost}, SysInv cfg ⟨c₀, put, some m⟩ g₀ →
      c₀.takeFree build cfg = .ok (some (d, channel), c₁) →
      ∃ g', Inv cfg c₁ g' ∧ g'.role m = .memFlush ∧ g'.role d = .diskTaken .flush := by
    intro c₀ c₁ g₀ h₀ hTake
    obtain ⟨hFree, -, hSilent⟩ := h₀.inv.takeFree hTake
    have hm := h₀.flush m rfl
    have hne : m ≠ d := by
      rintro rfl
      rw [hm] at hFree
      cases hFree
    exact ⟨_, hSilent.inv, (Ghost.become_of_ne _ _ hne).trans hm, Ghost.become_self _ _ _⟩
  induction rounds generalizing c g with
  | nil => exact hEnd h hRun
  | cons fuel rounds ih =>
      unfold Cache.findDslab at hRun
      obtain ⟨⟨first, c₁⟩, hTake, hRun⟩ := Execution.bind_eq_ok.mp hRun
      cases first with
      | some slab =>
          obtain ⟨hSlab, rfl⟩ := Prod.mk.inj (Execution.pure_eq_ok.mp hRun)
          obtain rfl := Option.some.inj hSlab
          exact hEnd h hTake
      | none =>
          obtain ⟨c₂, hGc, hRun⟩ := Execution.bind_eq_ok.mp hRun
          have hMoved := h.inv.takeFree hTake
          have h₁ : SysInv cfg ⟨c₁, put, some m⟩ g :=
            ⟨hMoved.inv, h.pend, h.lookup_of_frame hMoved.frame (by simp), h.flush, h.rest⟩
          obtain ⟨g₂, h₂, -⟩ := h₁.doSlabGc hGc
          exact ih h₂ hRun

/-- When the write of a flush fails, its slabs are on no list any more, and no
later operation finds them there. -/
theorem flush_thrown_unlisted {rounds : List Nat} {left : Slab} {t : Thrown} (hCfg : cfg.Sound)
    (hReach : Sys.Reachable build cfg s) (hNone : s.flush = none)
    (hRun : s.cache.flushThrows build cfg rounds .flush left = .ok (some t)) :
    memListed cfg t.cache t.mslab = 0 ∧ ∃ d, t.dslab = some d ∧ diskListed cfg t.cache d = 0 := by
  obtain ⟨ops, events, hStart⟩ := hReach
  obtain ⟨g, hInv, -⟩ := start_invariant hCfg hStart
  unfold Cache.flushThrows at hRun
  obtain ⟨⟨m, c₁⟩, hFull, hRun⟩ := Execution.bind_eq_ok.mp hRun
  obtain ⟨⟨found, c₂⟩, hFind, hRun⟩ := Execution.bind_eq_ok.mp hRun
  cases found with
  | none => cases hRun
  | some slab =>
      obtain ⟨d, channel⟩ := slab
      obtain rfl := Option.some.inj (Execution.pure_eq_ok.mp hRun)
      obtain ⟨-, -, hTaken⟩ := hInv.takeFull hNone hFull
      obtain ⟨g', hInv', hm, hd⟩ := hTaken.findDslab hFind
      refine ⟨hInv'.memListed_eq_zero ?_, d, rfl, hInv'.diskListed_eq_zero ?_⟩
      · rw [Ghost.place, hm]
        rfl
      · rw [Ghost.place, hd]
        exact Bool.false_ne_true

/-- A write that fails for a disk slab without objects is not noticed. -/
theorem Inv.view_failBlock {d : Nat} {left : Slab} (hInv : Inv cfg c g)
    (hRole : g.role d = .diskTaken .flush) (key : Key) :
    (c.failBlock d left).view cfg key = c.view cfg key := by
  have hDisk := (hInv.slab d).range
  rw [hRole] at hDisk
  have hMemory := hInv.config.memory
  have hIndex : (c.failBlock d left).index = c.index := rfl
  apply hInv.view_of_keeps hIndex
  intro x hx
  have hne : x ≠ d := by
    rintro rfl
    exact hx (hInv.refs_of_dead hRole trivial)
  have hSame : (c.slabs x).Same ((c.failBlock d left).slabs x) := .refl _
  refine ⟨Nat.le_refl _, fun i _ => Cache.slotAt_congr hSame (fun hBlock => ?_) i⟩
  have hLt := hInv.lt_of_refs hx
  rw [ne_eq, hInv.blockId_eq_iff hLt] at hBlock
  exact hInv.block_set_of_ne hDisk ⟨by omega, hLt⟩ hne left

/-- Without a round of the collector, the objects themselves stay in reach. -/
theorem flush_thrown_view {left : Slab} {t : Thrown} (hCfg : cfg.Sound)
    (hReach : Sys.Reachable build cfg s) (hNone : s.flush = none)
    (hRun : s.cache.flushThrows build cfg [] .flush left = .ok (some t)) (key : Key) :
    t.cache.view cfg key = s.cache.view cfg key := by
  obtain ⟨ops, events, hStart⟩ := hReach
  obtain ⟨g, hInv, -⟩ := start_invariant hCfg hStart
  unfold Cache.flushThrows at hRun
  obtain ⟨⟨m, c₁⟩, hFull, hRun⟩ := Execution.bind_eq_ok.mp hRun
  obtain ⟨⟨found, c₂⟩, hFind, hRun⟩ := Execution.bind_eq_ok.mp hRun
  obtain ⟨-, hUnlinked, hTaken⟩ := hInv.takeFull hNone hFull
  have hSearch := hTaken.inv.takeFree hFind
  cases found with
  | none => cases hRun
  | some slab =>
      obtain ⟨-, -, hFound⟩ := hSearch
      obtain rfl := Option.some.inj (Execution.pure_eq_ok.mp hRun)
      calc (c₂.failBlock slab.1 left).view cfg key
          = c₂.view cfg key := hFound.inv.view_failBlock (Ghost.become_self _ _ _) key
        _ = c₁.view cfg key := hFound.view key
        _ = s.cache.view cfg key := hUnlinked.view key

end KVCache
