import KVCache.Data.PriorityQueue
import KVCache.Semantics.Collector

/-! `normal_gc` with any implementation of `std::priority_queue`, and with the
batches that it hands to `gc_dslabs`. The order in which equal elements leave
the queue is not fixed by the language. -/

namespace KVCache.Cache

/-- The scan over all channels, and the loop that empties the queue. -/
def scanWith (cfg : Config) (c : Cache) (Q : PriorityQueue c.gcWeight) : Except Stop (List Nat) :=
  match Q.scan (fun size => sizeLt size (3 * c.opsPoolSize))
      ((List.range cfg.nrChannels).flatMap fun channel => (c.dslabFull channel).list) with
  | none => .error .undefined
  | some pq => .ok (Q.drain (Q.size pq) pq)

/-- The loop over the classes, with the batches collected. -/
def collectBatches (build : Build) (cfg : Config) (kept : Nat → List Nat) :
    List Nat → Cache → Table SlabList → Except Stop ((Cache × Table SlabList) × List (List Nat))
  | [], c, freeList => .ok ((c, freeList), [])
  | cid :: rest, c, freeList => do
      let toDrop ← c.takeBatch build (kept cid) 0
      if toDrop.length > 1 then
        if c.opsPoolSize ≤ 0 then return ((c, freeList), [])
        let (c, freeList) ← c.gcDslabs build cfg toDrop freeList
        let (state, batches) ← collectBatches build cfg kept rest c freeList
        return (state, toDrop :: batches)
      else collectBatches build cfg kept rest c freeList

theorem collectClasses_eq_collectBatches (build : Build) (cfg : Config) (kept : Nat → List Nat)
    (ks : List Nat) (c : Cache) (freeList : Table SlabList) :
    collectClasses build cfg kept ks c freeList =
      Prod.fst <$> collectBatches build cfg kept ks c freeList := by
  induction ks generalizing c freeList with
  | nil => rfl
  | cons cid rest ih =>
      simp only [collectClasses, collectBatches, ih, map_bind]
      congr
      funext toDrop
      split
      · split
        · rfl
        · simp only [map_bind, bind_pure_comp, Functor.map_map]
      · rfl

/-- `normal_gc` up to the label `tune_ops_pool_size`. -/
def collectWith (Q : (weight : Nat → Int) → PriorityQueue weight) (build : Build) (cfg : Config)
    (c : Cache) : Except Stop ((Cache × Table SlabList) × List (List Nat)) := do
  let pq ← c.scanWith cfg (Q c.gcWeight)
  assertThat build .normalCid (pq.all fun d => (c.slabs d).cid ≠ -1)
  collectBatches build cfg (c.classToDrop pq) (List.range cfg.nrSlabClass) c
    ⟨List.replicate cfg.nrChannels default⟩

def normalGcWith (Q : (weight : Nat → Int) → PriorityQueue weight) (build : Build) (cfg : Config)
    (fuel : Nat) (c : Cache) : Except Stop (Cache × List (List Nat)) := do
  let ((c', freeList), batches) ← c.collectWith Q build cfg
  return (← c'.finishNormalGc build cfg fuel c.opsPoolSize freeList, batches)

end KVCache.Cache
