import KVCache.Invariant.Termination
import KVCache.Properties.Accounting
import KVCache.Properties.Overflow
import KVCache.Properties.Victims

/-! What a round of normal GC gains. Every batch empties at least two slabs and
fills one, so that there are enough emptied slabs to give back what was taken
out of the pool; the others become free, and the pool may give up one slab
more. No disk slab gets lost on the way, and none gets onto two lists. -/

namespace KVCache

open Execution

variable {build : Build} {cfg : Config} {c c' : Cache} {g g' : Ghost} {k : Nat}
  {batch ds : List Nat} {batches batches' : List (List Nat)} {freeList freeList' : Table SlabList}

/-! ### Collecting the batches -/

theorem relinkFull_waiting (ops : Nat) :
    waiting (c.relinkFull cfg ops ds freeList).2 = waiting freeList + ds.length := by
  have hLoop : waiting (c.relinkFull cfg ops ds freeList).2 + 0 = waiting freeList + ds.length := by
    apply foldl_rule (fun rest (state : Cache × Table SlabList) =>
      waiting state.2 + rest.length = waiting freeList + ds.length)
    · intro d rest state h
      have hOne : waiting (Cache.unlinkDrop cfg state d).2 = waiting state.2 + 1 :=
        Lists.length_add _ _ _
      simp only [List.length_cons] at h
      omega
    · rfl
  exact hLoop

/-- The local lists after a batch. -/
theorem gcDslabs_freeList (hRun : c.gcDslabs build cfg ds freeList = .ok (c', freeList')) :
    waiting freeList' = waiting freeList + ds.length ∧
      Cache.nrReclaimed freeList' = Cache.nrReclaimed freeList + ds.length := by
  obtain ⟨ops, c₀, _, _, _, _, -, -, -, -, rfl⟩ := Inv.gcDslabs_cases hRun
  exact ⟨relinkFull_waiting ops, nrReclaimed_relinkFull rfl⟩

/-- What has been done when some batches are collected. Every slab of a batch
waits on a local list, and every batch took one slab out of the pool. -/
structure Collected (cfg : Config) (c : Cache) (g : Ghost) (freeList : Table SlabList)
    (batches : List (List Nat)) (c' : Cache) (g' : Ghost) (freeList' : Table SlabList) :
    Prop where
  round : Round cfg c g c' g'
  between : Between cfg c' g' freeList'
  two : ∀ batch ∈ batches, 2 ≤ batch.length
  drift : g'.drift = g.drift + batches.length
  opsPoolSize : c'.opsPoolSize = c.opsPoolSize - batches.length
  nrFullDslab : c'.nrFullDslab = c.nrFullDslab - (batches.map List.length).sum
  waiting : waiting freeList' = waiting freeList + (batches.map List.length).sum
  reclaimed : Cache.nrReclaimed freeList' =
    Cache.nrReclaimed freeList + (batches.map List.length).sum

namespace Collected

theorem refl (h : Between cfg c g freeList) : Collected cfg c g freeList [] c g freeList where
  round := (Silent.refl h.inv).round
  between := h
  two := fun _ hBatch => absurd hBatch List.not_mem_nil
  drift := rfl
  opsPoolSize := (Int.sub_zero _).symm
  nrFullDslab := (Int.sub_zero _).symm
  waiting := rfl
  reclaimed := (Int.add_zero _).symm

theorem trans {c'' : Cache} {g'' : Ghost} {freeList'' : Table SlabList}
    (h : Collected cfg c g freeList batches c' g' freeList')
    (h' : Collected cfg c' g' freeList' batches' c'' g'' freeList'') :
    Collected cfg c g freeList (batches ++ batches') c'' g'' freeList'' where
  round := h.round.trans h'.round
  between := h'.between
  two := fun batch hBatch => (List.mem_append.mp hBatch).elim (h.two batch) (h'.two batch)
  drift := by
    rw [h'.drift, h.drift, List.length_append]
    omega
  opsPoolSize := by
    rw [h'.opsPoolSize, h.opsPoolSize, List.length_append]
    omega
  nrFullDslab := by
    rw [h'.nrFullDslab, h.nrFullDslab, List.map_append, List.sum_append]
    omega
  waiting := by
    rw [h'.waiting, h.waiting, List.map_append, List.sum_append]
    omega
  reclaimed := by
    rw [h'.reclaimed, h.reclaimed, List.map_append, List.sum_append]
    omega

/-- Twice as many slabs wait as were taken out of the pool. -/
theorem twice (h : Collected cfg c g freeList batches c' g' freeList') :
    2 * batches.length ≤ (batches.map List.length).sum := by
  have hTwo := h.two
  clear h
  induction batches with
  | nil => exact Nat.le_refl 0
  | cons batch batches ih =>
      have hFirst := hTwo batch List.mem_cons_self
      have hRest := ih fun b hb => hTwo b (List.mem_cons_of_mem batch hb)
      simp only [List.length_cons, List.map_cons, List.sum_cons]
      omega

end Collected

namespace Between

/-- One batch. -/
theorem collectOne (h : Between cfg c g freeList) (hTaken : Batch c g k batch)
    (hTwo : 2 ≤ batch.length) (hSum : c.usedSum batch ≤ cfg.slabSlots (cfg.classSize k))
    (hRun : c.gcDslabs build cfg batch freeList = .ok (c', freeList')) :
    ∃ ops, g.role ops = .opsFree ∧
      Collected cfg c g freeList [batch] c' (g.collected batch ops) freeList' ∧
      ∀ x, x ∉ batch → x ≠ ops → x ≠ cfg.gcBuffer → (c.slabs x).Same (c'.slabs x) := by
  obtain ⟨ops, hOps, hSilent, hList, hSame⟩ :=
    h.inv.gcDslabs h.settled h.freeList hTaken hSum hRun
  have hDone := gcDslabs_done hRun
  obtain ⟨hWaiting, hReclaimed⟩ := gcDslabs_freeList hRun
  refine ⟨ops, hOps, ?_, hSame⟩
  constructor
  case round => exact ⟨hSilent, hTaken.sameLoose hOps⟩
  case between => exact ⟨hSilent.inv, h.settled.collected, hList⟩
  case two =>
    intro b hb
    rw [List.mem_singleton.mp hb]
    exact hTwo
  case drift => rfl
  case opsPoolSize => exact hDone.opsPoolSize
  case nrFullDslab =>
    rw [hDone.nrFullDslab, List.map_singleton, List.sum_singleton]
  case waiting => rw [hWaiting, List.map_singleton, List.sum_singleton]
  case reclaimed => rw [hReclaimed, List.map_singleton, List.sum_singleton]

/-- The loop over the classes has a result. -/
theorem collectBatches {kept : Nat → List Nat} {ks : List Nat} (build : Build)
    (h : Between cfg c g freeList) (hCursor : c.nextOpsPoolRemoveChannel < cfg.nrChannels)
    (hKept : ∀ k ∈ ks, Batch c g k (kept k)) (hNodup : ks.Nodup) :
    ∃ c' freeList' batches g',
      Cache.collectBatches build cfg kept ks c freeList = .ok ((c', freeList'), batches) ∧
        Collected cfg c g freeList batches c' g' freeList' := by
  induction ks generalizing c g freeList with
  | nil => exact ⟨c, freeList, [], g, rfl, .refl h⟩
  | cons k ks ih =>
      obtain ⟨hNot, hNodup⟩ := List.nodup_cons.mp hNodup
      have hFirst := hKept k List.mem_cons_self
      have hRest : ∀ k' ∈ ks, Batch c g k' (kept k') :=
        fun k' hk' => hKept k' (List.mem_cons_of_mem k hk')
      have hTakes : Avoids (fun _ => True) (c.takeBatch build (kept k) 0) := h.inv.avoids_takeBatch
      obtain ⟨batch, hBatch⟩ := hTakes.total
      by_cases hTwo : batch.length > 1
      · by_cases hEmpty : c.opsPoolSize ≤ 0
        · refine ⟨c, freeList, [], g, ?_, .refl h⟩
          rw [Cache.collectBatches, hBatch]
          exact (if_pos hTwo).trans (if_pos hEmpty)
        · obtain ⟨hSub, hSum⟩ := takeBatch_spec h.inv hFirst (by omega) hBatch
          have hTaken := hFirst.sublist hSub
          have hGcs : Avoids (fun _ => True) (c.gcDslabs build cfg batch freeList) :=
            h.avoids_gcDslabs hTaken (List.ne_nil_of_length_pos (by omega)) (by omega) hCursor
              (Int.not_le.mp hEmpty)
          obtain ⟨⟨c₁, freeList₁⟩, hGc⟩ := hGcs.total
          obtain ⟨ops, hOps, hOne, hSame⟩ := h.collectOne hTaken hTwo (by omega) hGc
          have hCursor₁ := (gcDslabs_done hGc).turned.lt hCursor
          have hKept₁ : ∀ k' ∈ ks, Batch c₁ (g.collected batch ops) k' (kept k') :=
            fun k' hk' => (hRest k' hk').collected h.inv h.settled hTaken
              (fun hEq => hNot (hEq ▸ hk')) hOps hSame
          obtain ⟨c', freeList', later, g', hRun, hLater⟩ :=
            ih hOne.between hCursor₁ hKept₁ hNodup
          refine ⟨c', freeList', batch :: later, g', ?_, hOne.trans hLater⟩
          rw [Cache.collectBatches, hBatch]
          refine (if_pos hTwo).trans ((if_neg hEmpty).trans ?_)
          exact bind_eq_ok.mpr ⟨_, hGc, bind_eq_ok.mpr ⟨_, hRun, rfl⟩⟩
      · obtain ⟨c', freeList', batches, g', hRun, hCollected⟩ := ih h hCursor hRest hNodup
        refine ⟨c', freeList', batches, g', ?_, hCollected⟩
        rw [Cache.collectBatches, hBatch]
        exact (if_neg hTwo).trans hRun

end Between

/-! ### Handing back -/

/-- The label `tune_ops_pool_size`: the pool is to shrink by at most one slab. -/
theorem tuneOpsPool_counts (c : Cache) (oldOpsSize : Int) :
    oldOpsSize - 1 ≤ (c.tuneOpsPool oldOpsSize).1 ∧
      (c.tuneOpsPool oldOpsSize).2.opsPoolSize = c.opsPoolSize ∧
      (c.tuneOpsPool oldOpsSize).2.dslabFull = c.dslabFull := by
  unfold Cache.tuneOpsPool
  split
  · exact ⟨le_max_right _ _, rfl, rfl⟩
  · exact ⟨by omega, rfl, rfl⟩

theorem shrinkOps_dslabFull (hRun : c.shrinkOps cfg freeList = (c', freeList')) :
    c'.dslabFull = c.dslabFull := by
  simp only [Cache.shrinkOps] at hRun
  split at hRun
  · obtain ⟨rfl, -⟩ := Prod.mk.inj hRun
    rfl
  · obtain ⟨rfl, -⟩ := Prod.mk.inj hRun
    rfl

/-- The loop that shrinks the pool, when it has at most one slab to find. -/
theorem shrinkOpsPool_counts {count : Nat} (hOne : count ≤ 1)
    (hRun : Cache.shrinkOpsPool cfg count c freeList = (c', freeList')) :
    (c'.opsPoolSize = c.opsPoolSize ∨ c'.opsPoolSize = c.opsPoolSize - 1) ∧
      c'.dslabFull = c.dslabFull := by
  match count, hOne with
  | 0, _ =>
      obtain ⟨rfl, -⟩ := Prod.mk.inj hRun
      exact ⟨.inl rfl, rfl⟩
  | 1, _ => exact ⟨(gauges_shrinkOps hRun).2.1, shrinkOps_dslabFull hRun⟩

theorem reclaim_dslabFull (hRun : c.reclaim build cfg freeList = .ok c') :
    c'.dslabFull = c.dslabFull := by
  obtain ⟨_, _, _, rfl⟩ := reclaim_frees hRun
  rfl

/-- After the batches normal GC comes to its end, when it finds as many slabs on
the local lists as it took out of the pool. -/
theorem Between.finishNormalGc_ends {oldOpsSize : Int} (build : Build)
    (h : Between cfg c g freeList) (hChannels : 0 < cfg.nrChannels)
    (hLess : c.opsPoolSize ≤ oldOpsSize) (hEnough : oldOpsSize - c.opsPoolSize ≤ waiting freeList)
    (hReclaimed : oldOpsSize - c.opsPoolSize ≤ Cache.nrReclaimed freeList) :
    ∃ bound c', (∀ fuel ≥ bound, c.finishNormalGc build cfg fuel oldOpsSize freeList = .ok c') ∧
      (c'.opsPoolSize = oldOpsSize ∨ c'.opsPoolSize = oldOpsSize - 1) ∧
      c'.dslabFull = c.dslabFull := by
  obtain ⟨hNew, hSize, hFull⟩ := tuneOpsPool_counts c oldOpsSize
  have hTuned : Between cfg (c.tuneOpsPool oldOpsSize).2 g freeList :=
    ⟨(h.inv.tuneOpsPool oldOpsSize).inv, h.settled, h.freeList⟩
  have hLists : ∀ channel, cfg.nrChannels ≤ channel → (freeList channel).list = [] := by
    intro channel hGe
    refine List.eq_nil_iff_forall_not_mem.mpr fun x hx => ?_
    obtain ⟨hClean, hAt⟩ := h.clean_of_mem hx
    have hRange := (h.inv.slab x).range
    rw [hClean] at hRange
    have hLt := h.inv.channel_lt hRange
    omega
  have hLeft : oldOpsSize - (c.tuneOpsPool oldOpsSize).2.opsPoolSize ≤ waiting freeList := by
    rw [hSize]
    exact hEnough
  obtain ⟨bound, c₁, freeList₁, hRefill, hSize₁, hFull₁⟩ :=
    refillOpsPool_ends (c := (c.tuneOpsPool oldOpsSize).2) hChannels hLists hLeft
  have hBack : c₁.opsPoolSize = oldOpsSize := by omega
  obtain ⟨g₁, -, hBetween₁, -⟩ := hTuned.refillOpsPool (hRefill bound (Nat.le_refl _))
  generalize hShrink : Cache.shrinkOpsPool cfg
    (c₁.opsPoolSize - (c.tuneOpsPool oldOpsSize).1).toNat c₁ freeList₁ = shrunk
  obtain ⟨c₂, freeList₂⟩ := shrunk
  obtain ⟨hShrunk, hFull₂⟩ := shrinkOpsPool_counts (by omega) hShrink
  obtain ⟨g₂, -, hBetween₂, -⟩ := hBetween₁.shrinkOpsPool hShrink
  have hReclaims : Avoids (fun _ => True) (c₂.reclaim build cfg freeList₂) :=
    hBetween₂.avoids_reclaim
  obtain ⟨c₃, hReclaim⟩ := hReclaims.total
  obtain ⟨g₃, hRound₃, -⟩ := hBetween₂.reclaim hReclaim
  have hPool : c₃.opsPoolSize = c₂.opsPoolSize :=
    congrArg Gauges.opsPoolSize (gauges_frees (reclaim_frees hReclaim))
  refine ⟨bound, c₃, fun fuel hFuel => ?_, by omega, ?_⟩
  · simp only [Cache.finishNormalGc, bind_eq_ok, pure_eq_ok]
    refine ⟨(), assertThat_ok (decide_eq_true (.inr ?_)), (c₁, freeList₁), hRefill fuel hFuel,
      (), assertThat_ok (decide_eq_true hBack.le), c₃, ?_, (),
      assertThat_ok hRound₃.silent.inv.lists.checkOpsPool, rfl⟩
    · rw [hSize]
      exact hReclaimed
    · rw [hShrink]
      exact hReclaim
  · rw [reclaim_dslabFull hReclaim, hFull₂, hFull₁, hFull]

/-! ### The round as a whole -/

theorem Inv.length_fullSlabs (hInv : Inv cfg c g) : (c.fullSlabs cfg).length = c.fullCount := by
  rw [Cache.fullSlabs, List.length_flatMap]
  exact hInv.sum_lists (p := .dslabFull) rfl fun _ => rfl

/-- Between two rounds, what belongs to the collector is at rest. -/
theorem Role.resting_of_gc {r : Role} (hOwner : r.owner = some .gc) (hIdle : ¬r.Collecting) :
    r.Resting := by
  cases r with
  | bufferIdle | opsFree | diskFull | diskLoose => trivial
  | diskTaken w | diskWritten w src | diskCopy w src =>
      obtain rfl := Option.some.inj hOwner
      exact absurd trivial hIdle
  | bufferBusy | bufferSource dst | diskDropped | diskClean => exact absurd trivial hIdle
  | _ => cases hOwner

/-- Normal GC neither loses a disk slab nor finds one. -/
theorem Round.nowhere_iff {x : Nat} (h : Round cfg c g c' g') (hInv : Inv cfg c g) (hIdle : g.GcIdle)
    (hIdle' : g'.GcIdle) (hx : x ∈ cfg.diskSlabs) :
    g'.place x = .nowhere ↔ g.place x = .nowhere := by
  by_cases hOwner : (g.role x).owner = some .gc
  · have hRest : (g.role x).Resting := Role.resting_of_gc hOwner (hIdle x)
    have hRest' : (g'.role x).Resting := by
      rcases h.silent.frame.handed x with hSame | hOwner' | hShared
      · rw [hSame]
        exact hRest
      · exact Role.resting_of_gc hOwner' (hIdle' x)
      · exact hShared.resting
    rw [hInv.nowhere_iff_loose hx hRest, h.silent.inv.nowhere_iff_loose hx hRest']
    exact h.loose x
  · rw [Ghost.place, Ghost.place, h.silent.frame.role x hOwner]

/-- How often a slab is on the disk lists is the same before and after. -/
theorem Round.diskListed_eq (h : Round cfg c g c' g') (hInv : Inv cfg c g) (hIdle : g.GcIdle)
    (hIdle' : g'.GcIdle) (d : Nat) :
    diskListed cfg c' d = diskListed cfg c d ∧ diskListed cfg c d ≤ 1 := by
  have hSame : (g'.place d).perChannel ↔ (g.place d).perChannel := by
    rw [hInv.perChannel_iff, h.silent.inv.perChannel_iff]
    exact and_congr_right fun hd => not_congr (h.nowhere_iff hInv hIdle hIdle' hd)
  by_cases hPlace : (g.place d).perChannel
  · rw [hInv.diskListed_eq_one hPlace, h.silent.inv.diskListed_eq_one (hSame.mpr hPlace)]
    exact ⟨rfl, Nat.le_refl 1⟩
  · rw [hInv.diskListed_eq_zero hPlace, h.silent.inv.diskListed_eq_zero (mt hSame.mp hPlace)]
    exact ⟨rfl, Nat.zero_le 1⟩

/-- The slabs on the three kinds of lists are as many as before. -/
theorem Round.total_eq (h : Round cfg c g c' g') (hInv : Inv cfg c g) (hIdle : g.GcIdle)
    (hIdle' : g'.GcIdle) :
    c'.nrFreeDslab + c'.fullCount + c'.opsPoolSize =
      c.nrFreeDslab + c.fullCount + c.opsPoolSize := by
  have hNowhere : g'.disksAt cfg .nowhere = g.disksAt cfg .nowhere :=
    congrArg Finset.card (Finset.filter_congr fun x hx => h.nowhere_iff hInv hIdle hIdle' hx)
  have hBefore := hInv.partition
  have hAfter := h.silent.inv.partition
  omega

/-- What collecting batches gains: all slabs of a batch but the one it needs. -/
def gained (batches : List (List Nat)) : Int :=
  (batches.map fun batch => (batch.length : Int) - 1).sum

theorem gained_eq (batches : List (List Nat)) :
    gained batches = (batches.map List.length).sum - batches.length := by
  induction batches with
  | nil => rfl
  | cons batch batches ih =>
      simp only [gained, List.map_cons, List.sum_cons, List.length_cons] at ih ⊢
      omega

/-- The account of a round of normal GC with the batches that it collected. -/
structure Reclaims (cfg : Config) (c c' : Cache) (batches : List (List Nat)) : Prop where
  two : ∀ batch ∈ batches, 2 ≤ batch.length
  listed : ∀ d, diskListed cfg c' d = diskListed cfg c d ∧ diskListed cfg c d ≤ 1
  full : ((c'.fullSlabs cfg).length : Int) = (c.fullSlabs cfg).length - gained batches
  pool : c'.opsPoolSize = c.opsPoolSize ∨ c'.opsPoolSize = c.opsPoolSize - 1
  free : c'.nrFreeDslab = c.nrFreeDslab + gained batches + (c.opsPoolSize - c'.opsPoolSize)

/-- A collector that is not in the middle of a round; its scan has not begun. -/
def GcAt.BeforeScan : GcAt → Prop
  | .idle | .awake | .decide _ | .scan 0 [] => True
  | _ => False

theorem GcOk.idle_of_beforeScan {a : GcAt} (h : GcOk cfg c g a) (hBefore : a.BeforeScan) :
    g.GcIdle := by
  unfold GcAt.BeforeScan at hBefore
  split at hBefore
  · exact h
  · exact h
  · exact h
  · exact h.1
  · exact hBefore.elim

/-- Normal GC comes to its label, whatever the queue. -/
theorem Inv.collectWith_total (hInv : Inv cfg c g) (hIdle : g.GcIdle)
    (hCursor : c.nextOpsPoolRemoveChannel < cfg.nrChannels) (hOps : 1 ≤ c.opsPoolSize)
    (Q : (weight : Nat → Int) → PriorityQueue weight) (build : Build) :
    ∃ c' freeList batches g', c.collectWith Q build cfg = .ok ((c', freeList), batches) ∧
      Collected cfg c g ⟨List.replicate cfg.nrChannels default⟩ batches c' g' freeList := by
  obtain ⟨kept, hScan, -, left, hPerm, -, -⟩ := @scanWith_lightest cfg c (Q c.gcWeight) hOps
  have hKept : ∀ d ∈ kept, d ∈ c.fullSlabs cfg :=
    fun d hd => hPerm.subset (List.mem_append_left left hd)
  have hNodup : kept.Nodup :=
    (hPerm.nodup_iff.mpr hInv.nodup_fullSlabs).sublist (List.sublist_append_left kept left)
  have hCid : (kept.all fun d => decide ((c.slabs d).cid ≠ -1)) = true := by
    refine List.all_eq_true.mpr fun d hd => decide_eq_true ?_
    obtain ⟨k, hClass⟩ := (hInv.choosable hIdle).ofClass d (hKept d hd)
    exact hClass.cid_ne
  have hBatches : ∀ k ∈ List.range cfg.nrSlabClass, Batch c g k (c.classToDrop kept k) :=
    fun k _ => batch_of_full hNodup (fun d hd => hInv.role_of_fullSlabs hIdle (hKept d hd)) k
  have hStart : Between cfg c g ⟨List.replicate cfg.nrChannels default⟩ :=
    ⟨hInv, hIdle.settled, hIdle.emptyList⟩
  obtain ⟨c', freeList, batches, g', hRun, hCollected⟩ :=
    hStart.collectBatches build hCursor hBatches List.nodup_range
  refine ⟨c', freeList, batches, g', ?_, hCollected⟩
  simp only [Cache.collectWith, bind_eq_ok]
  exact ⟨kept, hScan, (), assertThat_ok hCid, hRun⟩

/-- Normal GC, with any queue, from a state between two rounds. -/
theorem Inv.normalGcWith_reclaims (hInv : Inv cfg c g) (hIdle : g.GcIdle)
    (hCursor : c.nextOpsPoolRemoveChannel < cfg.nrChannels) (hOps : 1 ≤ c.opsPoolSize)
    (Q : (weight : Nat → Int) → PriorityQueue weight) (build : Build) :
    ∃ bound c' batches, (∀ fuel ≥ bound, c.normalGcWith Q build cfg fuel = .ok (c', batches)) ∧
      Reclaims cfg c c' batches := by
  obtain ⟨c₁, freeList, batches, g₁, hCollect, hDone⟩ :=
    hInv.collectWith_total hIdle hCursor hOps Q build
  have hTwice := hDone.twice
  have hSize := hDone.opsPoolSize
  have hWaiting := hDone.waiting
  have hReclaimed := hDone.reclaimed
  rw [nrReclaimed_empty] at hReclaimed
  obtain ⟨bound, c', hFinish, hPool, hSame⟩ := hDone.between.finishNormalGc_ends build
    (Nat.zero_lt_of_lt hCursor) (by omega : c₁.opsPoolSize ≤ c.opsPoolSize) (by omega) (by omega)
  obtain ⟨g', hRound, hIdle', -⟩ := hDone.between.finishNormalGc (hFinish bound (Nat.le_refl _))
  have hAll := hDone.round.trans hRound
  -- the full lists, by their counter and by how far it lags behind
  have hFull : (c'.fullCount : Int) = c.fullCount - gained batches := by
    have hKeep : c'.fullCount = c₁.fullCount := by rw [Cache.fullCount, hSame, Cache.fullCount]
    have hBefore := hInv.lists.nrFullDslab
    have hAfter := hDone.between.inv.lists.nrFullDslab
    rw [hDone.nrFullDslab, hDone.drift] at hAfter
    rw [gained_eq, hKeep, Cache.fullCount, Cache.fullCount]
    omega
  have hTotal := hAll.total_eq hInv hIdle hIdle'
  refine ⟨bound, c', batches, fun fuel hFuel => ?_, ?_⟩
  · simp only [Cache.normalGcWith, bind_eq_ok]
    exact ⟨_, hCollect, c', hFinish fuel hFuel, rfl⟩
  · constructor
    case two => exact hDone.two
    case listed => exact hAll.diskListed_eq hInv hIdle hIdle'
    case full =>
      rw [hAll.silent.inv.length_fullSlabs, hInv.length_fullSlabs]
      exact hFull
    case pool => exact hPool
    case free => omega

/-- The account of normal GC in every state that the threads can reach, as long
as there is a slab in the pool. In a debug build none of its assertions fails. -/
theorem normalGc_reclaims {build' : Build} {t : Threads} (hCfg : cfg.Sound)
    (hReach : Threads.Reachable build' cfg t) (hGc : t.gc.BeforeScan)
    (hOps : 1 ≤ t.cache.opsPoolSize) (Q : (weight : Nat → Int) → PriorityQueue weight)
    (build : Build) :
    ∃ bound c' batches,
      (∀ fuel ≥ bound, t.cache.normalGcWith Q build cfg fuel = .ok (c', batches)) ∧
        Reclaims cfg t.cache c' batches := by
  obtain ⟨g, hInv⟩ := hReach.inv hCfg
  -- a slab in the pool has a channel
  have hChannels : 1 ≤ cfg.nrChannels := by
    have hCount := hInv.inv.opsPoolSize_eq
    have hLe : g.disksAt cfg .opsPool ≤ cfg.nrBlocks := disksAt_le _
    by_contra hNone
    rw [Config.nrBlocks, Nat.lt_one_iff.mp (Nat.not_le.mp hNone), Nat.zero_mul] at hLe
    omega
  exact hInv.inv.normalGcWith_reclaims (hInv.gc.idle_of_beforeScan hGc) (hReach.cursor hChannels)
    hOps Q build

/-- Two full slabs are collected into one, and one slab becomes free. -/
theorem normalGc_reclaims_two :
    ∃ t c', Threads.Reachable .debug .small t ∧ t.cache.fullSlabs .small = [5, 6] ∧
      t.cache.opsPoolSize = 1 ∧
      (∃ fuel, t.cache.normalGcWith sortedQueue .debug .small fuel = .ok (c', [[6, 5]])) ∧
      Reclaims .small t.cache c' [[6, 5]] := by
  obtain ⟨⟨t, events⟩, hRun, hState⟩ := ok_of_check
    (x := Threads.start .debug .small (Act.putFlushed [1] [7] ++ Act.putFlushed [1] [8]))
    (fun r => r.1.cache.fullSlabs .small = [5, 6] ∧ r.1.cache.opsPoolSize = 1 ∧ r.1.gc = .idle ∧
      (r.1.cache.collectWith sortedQueue .debug .small).toOption.map Prod.snd = some [[6, 5]])
    (by decide +kernel)
  obtain ⟨hFull, hOps, hGc, hBatches⟩ := of_decide_eq_true hState
  have hReach : Threads.Reachable .debug .small t := ⟨_, events, hRun⟩
  obtain ⟨bound, c', batches, hEnds, hReclaims⟩ := normalGc_reclaims Config.small_wellFormed.sound
    hReach (by rw [hGc]; trivial) hOps.ge sortedQueue .debug
  have hEnd := hEnds bound (Nat.le_refl bound)
  -- the batches do not depend on the bound of the refill loop
  have hLog : batches = [[6, 5]] := by
    simp only [Cache.normalGcWith, bind_eq_ok, pure_eq_ok] at hEnd
    obtain ⟨⟨state, log⟩, hCollect, c₁, -, hPair⟩ := hEnd
    rw [hCollect] at hBatches
    rw [← (Prod.mk.inj hPair).2]
    exact Option.some.inj hBatches
  subst hLog
  exact ⟨t, c', hReach, hFull, hOps, ⟨bound, hEnd⟩, hReclaims⟩

end KVCache
