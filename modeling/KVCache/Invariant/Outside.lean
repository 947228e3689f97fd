import KVCache.Invariant.Changes
import KVCache.Invariant.Inversion

/-! What the collector never touches: the lists of memory slabs, and the channel
that the flush looks at next. -/

namespace KVCache

variable {build : Build} {cfg : Config} {c c' : Cache}

/-- The parts of a cache that belong to the writer and the flush alone. -/
structure Outside where
  mslabFree : SlabList
  mslabFull : SlabList
  slabPartial : Table (List Nat)
  nextMslabFlushChannel : Nat
  deriving DecidableEq, Repr

def Cache.outside (c : Cache) : Outside :=
  ⟨c.mslabFree, c.mslabFull, c.slabPartial, c.nextMslabFlushChannel⟩

theorem selectDrop_outside {fuel : Nat} {n : Int} {start toDrop : List Nat}
    (hRun : Cache.selectDrop cfg fuel n c start = .ok (toDrop, c')) :
    c'.outside = c.outside := by
  obtain ⟨_, _, _, rfl⟩ := selectDrop_changes hRun
  rfl

theorem dropDslab_outside {d : Nat} (hRun : c.dropDslab build cfg d = .ok c') :
    c'.outside = c.outside := by
  rw [dropDslab_changes hRun]
  rfl

theorem backToOpsPool_outside (cfg : Config) (o i : Int) (toDrop : List Nat) (c : Cache) :
    (Cache.backToOpsPool cfg o i toDrop c).2.outside = c.outside := by
  obtain ⟨_, _, _, hChanges⟩ := backToOpsPool_changes cfg o i toDrop c
  rw [hChanges]
  rfl

theorem frees_outside (h : c.Frees c') : c'.outside = c.outside := by
  obtain ⟨_, _, _, rfl⟩ := h
  rfl

theorem takeOps_outside (cfg : Config) (c : Cache) :
    (c.takeOps cfg).2.outside = c.outside := by
  obtain ⟨_, _, _, hChanges⟩ :=
    takeOpsFrom_changes cfg c.nextOpsPoolRemoveChannel cfg.nrChannels c
  rw [Cache.takeOps, hChanges]
  rfl

theorem relinkFull_outside (cfg : Config) (c : Cache) (ops : Nat) (toDrop : List Nat)
    (freeList : Table SlabList) :
    (c.relinkFull cfg ops toDrop freeList).1.outside = c.outside := by
  obtain ⟨_, _, _, hChanges⟩ := relinkFull_changes cfg c ops toDrop freeList
  rw [hChanges]
  rfl

theorem moveLive_outside {d : Nat} {fake : Slab} (hRun : c.moveLive build cfg d fake = .ok c') :
    c'.outside = c.outside := by
  obtain ⟨_, _, rfl⟩ := moveLive_changes hRun
  rfl

theorem modifyIndexTo_outside (cfg : Config) (c : Cache) (src dst : Nat) :
    (c.modifyIndexTo cfg src dst).outside = c.outside := by
  obtain ⟨_, _, hChanges⟩ := modifyIndexTo_changes cfg c src dst
  rw [hChanges]
  rfl

theorem tuneOpsPool_outside (c : Cache) (oldOpsSize : Int) :
    (c.tuneOpsPool oldOpsSize).2.outside = c.outside := by
  unfold Cache.tuneOpsPool
  split <;> rfl

theorem shrinkOps_outside (cfg : Config) (c : Cache) (freeList : Table SlabList) :
    (c.shrinkOps cfg freeList).1.outside = c.outside := by
  simp only [Cache.shrinkOps]
  split <;> rfl

/-- A step of the collector. -/
theorem GcStep.outside {pick : List Nat} {fuel : Nat} {a a' : GcAt}
    (h : GcStep build cfg pick fuel c a c' a') : c'.outside = c.outside := by
  cases h with
  | quickSelect hSelect => exact selectDrop_outside hSelect
  | quickEvict hDrop => exact dropDslab_outside hDrop
  | @backToOpsPool o toDrop rest c' hBack =>
      have hSame := backToOpsPool_outside cfg o 0 toDrop c
      rw [hBack] at hSame
      exact hSame
  | backToDslabFree hBack => exact frees_outside (backToDslabFree_frees hBack)
  | @take n cid ops toDrop c' hTake =>
      have hSame := takeOps_outside cfg c
      rw [hTake] at hSame
      exact hSame
  | @relink n cid ops toDrop c' freeList hRelink =>
      have hSame := relinkFull_outside cfg c ops toDrop n.freeList
      rw [hRelink] at hSame
      exact hSame
  | move hMove => exact moveLive_outside hMove
  | modify => exact modifyIndexTo_outside _ _ _ _
  | tune => exact tuneOpsPool_outside _ _
  | @refill n newOpsSize left channel d rest c' freeList _ _ hRefill =>
      obtain ⟨rfl, -⟩ := Prod.mk.inj hRefill
      rfl
  | @shrink n count c' freeList hShrink =>
      have hSame := shrinkOps_outside cfg c n.freeList
      rw [hShrink] at hSame
      exact hSame
  | reclaim hReclaim => exact frees_outside (reclaim_frees hReclaim)
  | _ => rfl

end KVCache
