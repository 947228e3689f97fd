import KVCache.Invariant.Assertions
import KVCache.Properties.Lookup

/-! Use counts along every interleaving. They bound the entries that point into
a slab and are bounded by the slots taken, so that the assertions about counts
hold and the buffer of the collector never overflows, whatever the writer does
between the choice of a batch and the move of its slots. -/

namespace KVCache

variable {build : Build} {cfg : Config} {c : Cache} {g : Ghost} {t : Threads}

/-- The failure of one of the assertions about counts: of the buffer, of a slab
whose next slot is taken, and of the slab that an entry leaves in `Put` and in
`Delete`. -/
def Stop.OnCounts : Stop → Prop
  | .assertion .gcSize | .assertion .slabSlotAllocFull | .assertion .putOldNrUsed
  | .assertion .deleteNrUsed => True
  | _ => False

theorem Stop.OnCounts.failed {stop : Stop} (h : stop.OnCounts) : stop.Failed := by
  cases stop with
  | assertion site => trivial
  | _ => exact h

/-- Live slots of some slabs: the entries that point into them. -/
def Index.refsSum (ix : Index) (ds : List Nat) : Nat := (ds.map ix.refs).sum

theorem Inv.refsSum_le (hInv : Inv cfg c g) (ds : List Nat) :
    (c.index.refsSum ds : Int) ≤ c.usedSum ds := by
  induction ds with
  | nil => exact Int.le_refl 0
  | cons d ds ih =>
      have hCounts := (hInv.slab d).counts
      rw [Cache.usedSum_cons]
      simp only [Index.refsSum, List.map_cons, List.sum_cons] at ih ⊢
      omega

/-- The slabs of a batch whose slots are still to be moved to the buffer. -/
def GcAt.toMove : GcAt → List Nat
  | .check _ _ _ _ todo => todo
  | .move _ _ _ _ d _ todo => d :: todo
  | _ => []

/-- What the use counts are good for. -/
structure CountsSafe (cfg : Config) (t : Threads) : Prop where
  /-- entries, used slots, slots taken and all slots of a slab -/
  counts : ∀ x, (t.cache.index.refs x : Int) ≤ (t.cache.slabs x).nrUsed ∧
    (t.cache.slabs x).nrUsed ≤ (t.cache.slabs x).nrAlloc ∧
    (t.cache.slabs x).nrAlloc ≤ (t.cache.slabs x).nrSlots
  /-- a batch passed to `gc_dslabs` has no more live slots than the buffer will have slots -/
  batch : ∀ n cid toDrop, t.gc = .take n cid toDrop → ∀ d ∈ toDrop,
    t.cache.index.refsSum toDrop ≤ (t.cache.slabs d).nrSlots
  /-- what is still to be moved fits into what is left of the buffer -/
  room : (t.cache.slabs cfg.gcBuffer).nrAlloc + t.cache.index.refsSum t.gc.toMove ≤
    (t.cache.slabs cfg.gcBuffer).nrSlots
  /-- no slot is taken of a full buffer, whether or not this is checked -/
  move : ∀ n cid ops size d fake todo, t.gc = .move n cid ops size d fake todo →
    ∃ c', t.cache.moveLive .debug cfg d fake = .ok c'
  /-- whatever step comes next, the assertions about counts hold -/
  assertions : ∀ act stop, t.step .debug cfg act = .error stop → ¬stop.OnCounts

theorem Filling.refsSum_le {ds : List Nat} (h : Filling cfg c g ds) :
    (c.slabs cfg.gcBuffer).nrAlloc + c.index.refsSum ds ≤ (c.slabs cfg.gcBuffer).nrSlots := by
  have hSum := h.inv.refsSum_le ds
  have hRoom := h.room
  omega

theorem ThreadsInv.room (h : ThreadsInv cfg t g) :
    (t.cache.slabs cfg.gcBuffer).nrAlloc + t.cache.index.refsSum t.gc.toMove ≤
      (t.cache.slabs cfg.gcBuffer).nrSlots := by
  have hGc := h.gc
  cases hAt : t.gc with
  | check n cid ops size todo =>
      rw [hAt] at hGc
      exact hGc.2.1.refsSum_le
  | move n cid ops size d fake todo =>
      rw [hAt] at hGc
      exact hGc.2.1.refsSum_le
  | _ => exact (h.inv.slab cfg.gcBuffer).bounds.2

/-- Use counts are safe in every state that any interleaving reaches. -/
theorem countsSafe_of_reachable (hCfg : cfg.WellFormed) (hReach : Threads.Reachable build cfg t) :
    CountsSafe cfg t := by
  obtain ⟨g, hInv⟩ := hReach.inv hCfg.sound
  constructor
  case counts =>
    intro x
    have hOk := hInv.inv.slab x
    have hCounts := hOk.counts
    exact ⟨by omega, hOk.bounds⟩
  case batch =>
    intro n cid toDrop hAt d hd
    have hGc := hInv.gc
    rw [hAt] at hGc
    obtain ⟨-, hBatch, hFits⟩ := hGc
    have hSum := hInv.inv.refsSum_le toDrop
    have hSlots := (hBatch.ofClass hInv.inv hd).nrSlots
    have hFits : t.cache.usedSum toDrop ≤ cfg.slabSlots (cfg.classSize cid) := hFits
    omega
  case room => exact hInv.room
  case move =>
    intro n cid ops size d fake todo hAt
    have hGc := hInv.gc
    rw [hAt] at hGc
    obtain ⟨-, hFilling, -, -, hFake⟩ := hGc
    obtain ⟨c', hMove, -⟩ := hFilling.move .debug
    exact ⟨c', (Cache.moveLive_same hFake).trans hMove⟩
  case assertions =>
    exact fun act stop hStop hCounts => hReach.avoids hCfg .debug act stop hStop hCounts.failed

/-- One `Put`, with the slab that it fills taken through a whole flush. -/
def Act.putFlushed (key : Key) (value : Value) : List Act :=
  [.put key value, .writer, .writer] ++ List.replicate 8 .flush

/-- A deletion between the choice of a batch and the move of its last slab. -/
theorem countsSafe_deleted_in_batch :
    ∃ t, Threads.Reachable .release .small t ∧ t.gc.toMove = [5] ∧ CountsSafe .small t := by
  obtain ⟨⟨t, events⟩, hRun, hCheck⟩ := Execution.ok_of_check
    (x := Threads.start .release .small (Act.putFlushed [1] [7] ++ Act.putFlushed [1] [8] ++
      List.replicate 9 (Act.gc [5, 6] 0) ++ [Act.delete [1]] ++ List.replicate 5 (Act.gc [5, 6] 0)))
    (fun r => decide (r.1.gc.toMove = [5])) (by decide +kernel)
  have hReach : Threads.Reachable .release .small t := ⟨_, events, hRun⟩
  exact ⟨t, hReach, of_decide_eq_true hCheck, countsSafe_of_reachable Config.small_wellFormed hReach⟩

end KVCache
