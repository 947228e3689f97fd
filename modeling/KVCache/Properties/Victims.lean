import KVCache.Semantics.Victims
import KVCache.Invariant.Gauges
import KVCache.Properties.Lookup

/-! Which slabs normal GC collects. The scan keeps the full disk slabs with the
least data in use, and from those of a class the loop takes as many as fit into
one slab, least used first. Collecting one class does not change the numbers
that decide about the next one. -/

namespace KVCache

variable {build : Build} {cfg : Config} {c c' : Cache} {g : Ghost} {d : Nat} {ds : List Nat}
  {freeList freeList' : Table SlabList}

/-! ### The batch of a class -/

/-- A longest initial part of a list with a property. -/
structure LongestPrefix (P : List Nat → Prop) (xs ys : List Nat) : Prop where
  initial : ys <+: xs
  holds : P ys
  longest : ∀ zs, zs <+: xs → P zs → zs.length ≤ ys.length

theorem usedSum_nonneg_of_mem (hUsed : ∀ d ∈ ds, 0 ≤ (c.slabs d).nrUsed) : 0 ≤ c.usedSum ds := by
  apply List.sum_nonneg
  intro n hn
  obtain ⟨d, hd, rfl⟩ := List.mem_map.mp hn
  exact hUsed d hd

/-- The loop that takes slabs from the back of the vector of a class. -/
theorem takeBatch_longest {nrSlots moved : Int} (hUsed : ∀ d ∈ ds, 0 ≤ (c.slabs d).nrUsed)
    (hSlots : ∀ d ∈ ds, (c.slabs d).nrSlots = nrSlots) (hMoved : moved ≤ nrSlots) :
    ∃ batch, c.takeBatch build ds moved = .ok batch ∧
      LongestPrefix (fun ds => moved + c.usedSum ds ≤ nrSlots) ds batch := by
  induction ds generalizing moved with
  | nil =>
      refine ⟨[], rfl, List.prefix_refl [], ?_, ?_⟩
      · simpa [Cache.usedSum] using hMoved
      · intro zs hPrefix _
        exact hPrefix.length_le
  | cons d ds ih =>
      have hd := hUsed d List.mem_cons_self
      have hRest : ∀ x ∈ ds, 0 ≤ (c.slabs x).nrUsed := fun x hx => hUsed x (List.mem_cons_of_mem d hx)
      have hSum := c.usedSum_cons d
      simp only [Cache.takeBatch, assertThat_ok (decide_eq_true hd), bind, Except.bind,
        hSlots d List.mem_cons_self]
      by_cases hOver : (c.slabs d).nrUsed + moved > nrSlots
      · refine ⟨[], if_pos hOver, List.nil_prefix, ?_, ?_⟩
        · simpa [Cache.usedSum] using hMoved
        · intro zs hPrefix hFit
          cases zs with
          | nil => exact Nat.le_refl 0
          | cons x zs =>
              obtain ⟨rfl, hTail⟩ := List.cons_prefix_cons.mp hPrefix
              have hNonneg := usedSum_nonneg_of_mem (c := c) fun y hy => hRest y (hTail.subset hy)
              rw [hSum] at hFit
              omega
      · obtain ⟨batch, hBatch, hLongest⟩ := ih hRest
          (fun x hx => hSlots x (List.mem_cons_of_mem d hx))
          (by omega : moved + (c.slabs d).nrUsed ≤ nrSlots)
        refine ⟨d :: batch, by rw [if_neg hOver, hBatch]; rfl, ?_, ?_, ?_⟩
        · exact List.cons_prefix_cons.mpr ⟨rfl, hLongest.initial⟩
        · have hHolds := hLongest.holds
          rw [hSum]
          omega
        · intro zs hPrefix hFit
          cases zs with
          | nil => exact Nat.zero_le _
          | cons x zs =>
              obtain ⟨rfl, hTail⟩ := List.cons_prefix_cons.mp hPrefix
              rw [hSum] at hFit
              exact Nat.succ_le_succ (hLongest.longest zs hTail (by omega))

theorem takeBatch_congr {moved : Int} (hSame : ∀ d ∈ ds, c'.slabs d = c.slabs d) :
    c'.takeBatch build ds moved = c.takeBatch build ds moved := by
  induction ds generalizing moved with
  | nil => rfl
  | cons d ds ih =>
      have hRest := fun moved => @ih moved fun x hx => hSame x (List.mem_cons_of_mem d hx)
      simp only [Cache.takeBatch, hSame d List.mem_cons_self, hRest]

/-! ### What collecting a batch changes -/

/-- Only some slabs change; the pool and the numbers kept beside the lists do
not, except that the counter of full slabs falls by `n`. -/
structure Confined (S : Nat → Prop) (n : Nat) (c c' : Cache) : Prop where
  slabs : ∀ x, ¬S x → c'.slabs x = c.slabs x
  opsPool : c'.opsPool = c.opsPool
  gauges : c'.gauges = c.gauges
  nrFreeDslab : c'.nrFreeDslab = c.nrFreeDslab
  nrFullDslab : c'.nrFullDslab = c.nrFullDslab - n

namespace Confined

variable {S : Nat → Prop} {n : Nat} {c'' : Cache}

theorem refl (S : Nat → Prop) (c : Cache) : Confined S 0 c c :=
  ⟨fun _ _ => rfl, rfl, rfl, rfl, (Int.sub_zero _).symm⟩

theorem trans (h : Confined S n c c') (h' : Confined S 0 c' c'') : Confined S n c c'' where
  slabs := fun x hx => (h'.slabs x hx).trans (h.slabs x hx)
  opsPool := h'.opsPool.trans h.opsPool
  gauges := h'.gauges.trans h.gauges
  nrFreeDslab := h'.nrFreeDslab.trans h.nrFreeDslab
  nrFullDslab := by
    rw [h'.nrFullDslab, h.nrFullDslab]
    exact Int.sub_zero _

/-- A change of one slab. -/
theorem modify (hd : S d) (f : Slab → Slab) :
    Confined S 0 c { c with slabs := c.slabs.modify d f } := by
  refine ⟨fun x hx => Table.get_modify_of_ne _ _ ?_, rfl, rfl, rfl, (Int.sub_zero _).symm⟩
  rintro rfl
  exact hx hd

theorem foldlM {β : Type} {f : Cache × β → Nat → Except Stop (Cache × β)} {b b' : β}
    (hBody : ∀ c b d c' b', d ∈ ds → f (c, b) d = .ok (c', b') → Confined S 0 c c')
    (hRun : ds.foldlM f (c, b) = .ok (c', b')) : Confined S 0 c c' := by
  have hLoop := Execution.foldlM_rule
    (fun rest (state : Cache × β) => (∀ d ∈ rest, d ∈ ds) ∧ Confined S 0 c state.1)
    (fun d rest state state' h hStep => ⟨fun x hx => h.1 x (List.mem_cons_of_mem d hx),
      h.2.trans (hBody state.1 state.2 d state'.1 state'.2 (h.1 d List.mem_cons_self) hStep)⟩)
    hRun ⟨fun _ hd => hd, .refl S c⟩
  exact hLoop.2

end Confined

section

variable {S : Nat → Prop}

theorem relinkFull_confined {ops : Nat} (hOps : S ops) :
    Confined S ds.length c (c.relinkFull cfg ops ds freeList).1 := by
  have hReset := Confined.modify (c := c) hOps Slab.reset
  have hLoop : ∀ (rest : List Nat) (state : Cache × Table SlabList), Confined S rest.length state.1
      (rest.foldl (Cache.unlinkDrop cfg) state).1 := by
    intro rest
    induction rest with
    | nil => exact fun state => .refl S state.1
    | cons d rest ih =>
        intro state
        have hRest := ih (Cache.unlinkDrop cfg state d)
        refine ⟨hRest.slabs, hRest.opsPool, hRest.gauges, hRest.nrFreeDslab, ?_⟩
        have hOne : (Cache.unlinkDrop cfg state d).1.nrFullDslab = state.1.nrFullDslab - 1 := rfl
        rw [List.foldl_cons, hRest.nrFullDslab, hOne, List.length_cons]
        omega
  have hUnlinked := hLoop ds (c.linkOps cfg ops, freeList)
  exact ⟨fun x hx => (hUnlinked.slabs x hx).trans (hReset.slabs x hx), hUnlinked.opsPool,
    hUnlinked.gauges, hUnlinked.nrFreeDslab, hUnlinked.nrFullDslab⟩

theorem moveSlot_confined {fake : Slab} {slotId : Nat} (hBuffer : S cfg.gcBuffer)
    (hRun : Cache.moveSlot build cfg d fake c slotId = .ok c') : Confined S 0 c c' := by
  unfold Cache.moveSlot at hRun
  split at hRun
  · obtain rfl := Except.ok.inj hRun
    exact .refl S c
  · simp only at hRun
    split at hRun
    · obtain ⟨⟨slab, slot⟩, -, hEnd⟩ := Execution.bind_eq_ok.mp hRun
      obtain rfl := Execution.pure_eq_ok.mp hEnd
      refine ⟨fun x hx => Table.get_set_of_ne _ _ ?_, rfl, rfl, rfl, (Int.sub_zero _).symm⟩
      rintro rfl
      exact hx hBuffer
    · obtain rfl := Except.ok.inj hRun
      exact .refl S c

theorem moveDslab_confined {size size' : Int} (hBuffer : S cfg.gcBuffer) (hd : S d)
    (hRun : Cache.moveDslab build cfg (c, size) d = .ok (c', size')) : Confined S 0 c c' := by
  simp only [Cache.moveDslab, Cache.moveLive, Execution.bind_eq_ok] at hRun
  obtain ⟨_, -, _, ⟨c₁, hSlots, hLive⟩, hEnd⟩ := hRun
  obtain rfl := Execution.pure_eq_ok.mp hLive
  obtain ⟨rfl, -⟩ := Prod.mk.inj (Execution.pure_eq_ok.mp hEnd)
  have hMoved := Execution.foldlM_rule (fun _ (c₂ : Cache) => Confined S 0 c c₂)
    (fun _ _ _ _ h hStep => h.trans (moveSlot_confined hBuffer hStep)) hSlots (.refl S c)
  exact hMoved.trans (.modify hd _)

theorem modifyIndexTo_confined {src dst : Nat} (hSrc : S src) (hDst : S dst) :
    Confined S 0 c (c.modifyIndexTo cfg src dst) := by
  obtain ⟨index, nrUsed, hChanges⟩ := modifyIndexTo_changes cfg c src dst
  have hSame := Confined.refl S c
  have hIndex : Confined S 0 c { c with index := index } :=
    ⟨hSame.slabs, hSame.opsPool, hSame.gauges, hSame.nrFreeDslab, hSame.nrFullDslab⟩
  have hCounts := (hIndex.trans (.modify hSrc fun s => { s with nrUsed := 0 })).trans
    (.modify hDst fun s => { s with nrUsed := nrUsed })
  rw [hChanges]
  exact hCounts

theorem prepareBuffer_confined (hBuffer : S cfg.gcBuffer) (d : Nat) :
    Confined S 0 c (c.prepareBuffer cfg d) :=
  .modify hBuffer _

theorem flushMslabToDslab_confined {src dst : Nat} (hDst : S dst) :
    Confined S 0 c (c.flushMslabToDslab cfg src dst) := by
  have hCopied : Confined S 0 (c.writeBlock cfg src dst) (c.flushMslabToDslab cfg src dst) :=
    .modify hDst _
  exact ⟨hCopied.slabs, hCopied.opsPool, hCopied.gauges, hCopied.nrFreeDslab, hCopied.nrFullDslab⟩

end

/-- The slab that `gc_dslabs` takes out of the pool. -/
theorem takeOpsFrom_takes {begin rounds ops : Nat}
    (hRun : Cache.takeOpsFrom cfg begin rounds c = (some ops, c')) :
    (∃ channel, ops ∈ (c.opsPool channel).list) ∧ c'.slabs = c.slabs ∧
      (∀ channel, (c'.opsPool channel).list ⊆ (c.opsPool channel).list) ∧
      c'.nrFreeDslab = c.nrFreeDslab ∧ c'.nrFullDslab = c.nrFullDslab := by
  induction rounds generalizing c with
  | zero => cases hRun
  | succ rounds ih =>
      simp only [Cache.takeOpsFrom] at hRun
      split at hRun
      · rename_i slab rest hList
        obtain ⟨hSlab, rfl⟩ := Prod.mk.inj hRun
        obtain rfl := Option.some.inj hSlab
        refine ⟨⟨c.nextOpsPoolRemoveChannel, ?_⟩, rfl, fun channel => ?_, rfl, rfl⟩
        · rw [hList]
          exact List.mem_cons_self
        · rw [Table.get_modify]
          split
          · subst channel
            exact List.erase_subset
          · exact List.Subset.refl _
      · split at hRun
        · have hRest := ih hRun
          exact hRest
        · cases hRun

/-- What `gc_dslabs` does to the slabs of other classes and to the numbers: it
changes the slabs of the batch, the one it takes from the pool, and the buffer. -/
structure BatchDone (cfg : Config) (ds : List Nat) (c c' : Cache) : Prop where
  slabs : ∃ ops, (∃ channel, ops ∈ (c.opsPool channel).list) ∧
    ∀ x, ¬(x ∈ ds ∨ x = ops ∨ x = cfg.gcBuffer) → c'.slabs x = c.slabs x
  pool : ∀ channel, (c'.opsPool channel).list ⊆ (c.opsPool channel).list
  opsPoolSize : c'.opsPoolSize = c.opsPoolSize - 1
  turned : c.Turned cfg c'
  nrFreeDslab : c'.nrFreeDslab = c.nrFreeDslab
  nrFullDslab : c'.nrFullDslab = c.nrFullDslab - ds.length

theorem gcDslabs_done (hRun : c.gcDslabs build cfg ds freeList = .ok (c', freeList')) :
    BatchDone cfg ds c c' := by
  obtain ⟨ops, c₁, first, rest, c₂, size, hds, hTake, hMove, rfl, -⟩ := Inv.gcDslabs_cases hRun
  obtain ⟨hPool, hSlabs, hLess, hFree, hFull⟩ := takeOpsFrom_takes hTake
  obtain ⟨-, hSize, hTurned⟩ := gauges_takeOpsFrom hTake
  let S := fun x => x ∈ ds ∨ x = ops ∨ x = cfg.gcBuffer
  have hOps : S ops := .inr (.inl rfl)
  have hBuffer : S cfg.gcBuffer := .inr (.inr rfl)
  have hMoved : Confined S 0 _ c₂ := .foldlM
    (fun _ _ _ _ _ hd hStep => moveDslab_confined hBuffer (.inl hd) hStep) hMove
  have hAll : Confined S ds.length c₁ (Cache.modifyIndexTo cfg
      (Cache.flushMslabToDslab cfg c₂ cfg.gcBuffer ops) cfg.gcBuffer ops) :=
    (relinkFull_confined hOps).trans <| (prepareBuffer_confined hBuffer first).trans <|
      hMoved.trans <| (flushMslabToDslab_confined hOps).trans <|
        modifyIndexTo_confined hBuffer hOps
  constructor
  case slabs => exact ⟨ops, hPool, fun x hx => by rw [hAll.slabs x hx, hSlabs]⟩
  case pool => rw [hAll.opsPool]; exact hLess
  case opsPoolSize => exact (congrArg Gauges.opsPoolSize hAll.gauges).trans hSize
  case turned => exact hTurned.trans (turned_of_gauges hAll.gauges)
  case nrFreeDslab => exact hAll.nrFreeDslab.trans hFree
  case nrFullDslab => rw [hAll.nrFullDslab, hFull]

/-! ### The loop over the classes -/

/-- The candidates of the classes that are still to be visited are as they were
at the start, and no batch before them touches them. -/
structure Ahead (cfg : Config) (kept : Nat → List Nat) (c₀ : Cache) (ks : List Nat) (c : Cache) :
    Prop where
  same : ∀ k ∈ ks, ∀ d ∈ kept k, c.slabs d = c₀.slabs d
  pool : ∀ k ∈ ks, ∀ d ∈ kept k, ∀ channel, d ∉ (c.opsPool channel).list
  buffer : ∀ k ∈ ks, cfg.gcBuffer ∉ kept k
  apart : ks.Pairwise fun k k' => ∀ d ∈ kept k', d ∉ kept k

namespace Ahead

variable {kept : Nat → List Nat} {c₀ : Cache} {k : Nat} {ks : List Nat}

theorem tail (h : Ahead cfg kept c₀ (k :: ks) c) : Ahead cfg kept c₀ ks c where
  same := fun k' hk' => h.same k' (List.mem_cons_of_mem k hk')
  pool := fun k' hk' => h.pool k' (List.mem_cons_of_mem k hk')
  buffer := fun k' hk' => h.buffer k' (List.mem_cons_of_mem k hk')
  apart := (List.pairwise_cons.mp h.apart).2

/-- Collecting a batch of the first class. -/
theorem collected (h : Ahead cfg kept c₀ (k :: ks) c) (hSub : ds ⊆ kept k)
    (hRun : c.gcDslabs build cfg ds freeList = .ok (c', freeList')) :
    Ahead cfg kept c₀ ks c' := by
  have hDone := gcDslabs_done hRun
  obtain ⟨ops, ⟨channel, hOps⟩, hSlabs⟩ := hDone.slabs
  have hApart := (List.pairwise_cons.mp h.apart).1
  refine ⟨fun k' hk' d hd => ?_, fun k' hk' d hd channel' hPool => ?_, h.tail.buffer,
    h.tail.apart⟩
  · rw [hSlabs d ?_, h.tail.same k' hk' d hd]
    rintro (hBatch | rfl | rfl)
    · exact hApart k' hk' d hd (hSub hBatch)
    · exact h.tail.pool k' hk' d hd channel hOps
    · exact h.tail.buffer k' hk' hd
  · exact h.tail.pool k' hk' d hd channel' (hDone.pool channel' hPool)

end Ahead

/-- The loop collects the batches with at least two members, as long as the pool
is not empty. -/
theorem collectBatches_eq {kept batchOf : Nat → List Nat} {c₀ : Cache} {ks : List Nat}
    {state : Cache × Table SlabList} {batches : List (List Nat)}
    (hBatch : ∀ k ∈ ks, c₀.takeBatch build (kept k) 0 = .ok (batchOf k))
    (hSub : ∀ k ∈ ks, batchOf k ⊆ kept k) (h : Ahead cfg kept c₀ ks c)
    (hRun : Cache.collectBatches build cfg kept ks c freeList = .ok (state, batches)) :
    batches = ((ks.map batchOf).filter fun batch => 2 ≤ batch.length).take c.opsPoolSize.toNat := by
  induction ks generalizing c freeList state batches with
  | nil =>
      obtain ⟨-, rfl⟩ := Prod.mk.inj (Except.ok.inj hRun)
      simp
  | cons k ks ih =>
      have hTail := fun k' hk' => hBatch k' (List.mem_cons_of_mem k hk')
      have hSubTail := fun k' hk' => hSub k' (List.mem_cons_of_mem k hk')
      have hFirst : c.takeBatch build (kept k) 0 = .ok (batchOf k) :=
        (takeBatch_congr (h.same k List.mem_cons_self)).trans (hBatch k List.mem_cons_self)
      unfold Cache.collectBatches at hRun
      obtain ⟨batch, hTaken, hRun⟩ := Execution.bind_eq_ok.mp hRun
      obtain rfl : batchOf k = batch := Except.ok.inj (hFirst.symm.trans hTaken)
      by_cases hTwo : (batchOf k).length > 1
      · have hKept : decide (2 ≤ (batchOf k).length) = true := decide_eq_true hTwo
        rw [if_pos hTwo] at hRun
        rw [List.map_cons, List.filter_cons, if_pos hKept]
        by_cases hEmpty : c.opsPoolSize ≤ 0
        · rw [if_pos hEmpty] at hRun
          obtain ⟨-, rfl⟩ := Prod.mk.inj (Except.ok.inj hRun)
          rw [Int.toNat_of_nonpos hEmpty, List.take_zero]
        · rw [if_neg hEmpty] at hRun
          simp only [Execution.bind_eq_ok, Execution.pure_eq_ok] at hRun
          obtain ⟨⟨c₁, freeList₁⟩, hGc, ⟨state₁, later⟩, hRest, hEnd⟩ := hRun
          obtain ⟨-, rfl⟩ := Prod.mk.inj hEnd
          have hSize := (gcDslabs_done hGc).opsPoolSize
          have hLater := ih hTail hSubTail (h.collected (hSub k List.mem_cons_self) hGc) hRest
          have hCount : c.opsPoolSize.toNat = c₁.opsPoolSize.toNat + 1 := by omega
          rw [hCount, List.take_succ_cons, ← hLater]
      · have hDropped : ¬decide (2 ≤ (batchOf k).length) = true := by
          rw [decide_eq_true_iff]
          exact hTwo
        rw [if_neg hTwo] at hRun
        rw [List.map_cons, List.filter_cons, if_neg hDropped]
        exact ih hTail hSubTail h.tail hRun

/-! ### The scan -/

/-- The slabs that the scan keeps, in the order in which they leave the queue. -/
theorem scanWith_lightest (Q : PriorityQueue c.gcWeight) (hOps : 1 ≤ c.opsPoolSize) :
    ∃ kept, c.scanWith cfg Q = .ok kept ∧
      kept.Pairwise (fun a b => c.gcWeight b ≤ c.gcWeight a) ∧
      ∃ left, (kept ++ left).Perm (c.fullSlabs cfg) ∧
        (kept.length : Int) = min (3 * c.opsPoolSize) (c.fullSlabs cfg).length ∧
        ∀ x ∈ kept, ∀ y ∈ left, c.gcWeight x ≤ c.gcWeight y := by
  have hRoom : ∀ n : Nat, sizeLt n (3 * c.opsPoolSize) = true ↔ n < (3 * c.opsPoolSize).toNat := by
    intro n
    simp only [sizeLt, Bool.or_eq_true, decide_eq_true_eq]
    omega
  obtain ⟨q, hScan, left, hSplit, hCard, hOrder⟩ :=
    Q.scan_lightest hRoom (by omega) (c.fullSlabs cfg)
  have hContents := PriorityQueue.drain_contents (Nat.le_refl (Q.size q))
  have hLength := congrArg Multiset.card hContents
  rw [Multiset.coe_card, hCard, Multiset.coe_card] at hLength
  refine ⟨Q.drain (Q.size q) q, ?_, PriorityQueue.drain_sorted (Nat.le_refl _), left.toList, ?_, ?_,
    ?_⟩
  · unfold Cache.fullSlabs at hScan
    rw [Cache.scanWith, hScan]
  · apply Multiset.coe_eq_coe.mp
    rw [← Multiset.coe_add, hContents, Multiset.coe_toList, hSplit]
  · rw [hLength]
    omega
  · intro x hx y hy
    apply hOrder x _ y (Multiset.mem_toList.mp hy)
    rw [← hContents]
    exact hx

/-! ### A queue -/

theorem pqPush_sorted {weight : Nat → Int} {pq : List Nat}
    (h : pq.Pairwise fun a b => weight b ≤ weight a) (d : Nat) :
    (Cache.pqPush weight d pq).Pairwise fun a b => weight b ≤ weight a := by
  induction pq with
  | nil => exact List.pairwise_singleton _ d
  | cons x rest ih =>
      obtain ⟨hFirst, hRest⟩ := List.pairwise_cons.mp h
      unfold Cache.pqPush
      split
      · rename_i hLe
        refine List.pairwise_cons.mpr ⟨fun y hy => ?_, h⟩
        rcases List.mem_cons.mp hy with rfl | hy
        · exact hLe
        · exact (hFirst y hy).trans hLe
      · rename_i hGt
        refine List.pairwise_cons.mpr ⟨fun y hy => ?_, ih hRest⟩
        rcases List.mem_cons.mp ((pqPush_perm weight d rest).mem_iff.mp hy) with rfl | hy
        · exact (Int.not_le.mp hGt).le
        · exact hFirst y hy

/-- The queue that the model of `normal_gc` works with. -/
def sortedQueue (weight : Nat → Int) : PriorityQueue weight where
  Queue := { pq : List Nat // pq.Pairwise fun a b => weight b ≤ weight a }
  empty := ⟨[], .nil⟩
  size := fun q => q.1.length
  top := fun q => q.1.head?
  push := fun d q => ⟨Cache.pqPush weight d q.1, pqPush_sorted q.2 d⟩
  pop := fun q => ⟨q.1.tail, q.2.tail⟩
  contents := fun q => q.1
  contents_empty := rfl
  size_eq := fun q => (Multiset.coe_card q.1).symm
  contents_push := fun d q => Multiset.coe_eq_coe.mpr (pqPush_perm weight d q.1)
  top_eq_none := fun q h => by rw [List.head?_eq_none_iff.mp h]; rfl
  top_max := fun q a h b hb => by
    obtain ⟨rest, hList⟩ := List.head?_eq_some_iff.mp h
    have hSorted := q.2
    rw [hList] at hSorted hb
    rcases List.mem_cons.mp hb with rfl | hb
    · exact Int.le_refl _
    · exact (List.pairwise_cons.mp hSorted).1 b hb
  contents_pop := fun q a h => by
    obtain ⟨rest, hList⟩ := List.head?_eq_some_iff.mp h
    simp only [hList, List.tail_cons, Multiset.cons_coe]

theorem drain_sortedQueue {weight : Nat → Int} (q : (sortedQueue weight).Queue) :
    (sortedQueue weight).drain q.1.length q = q.1 := by
  obtain ⟨pq, hSorted⟩ := q
  induction pq with
  | nil => rfl
  | cons x rest ih => exact congrArg (x :: ·) (ih hSorted.tail)

/-- One slab of the scan, with this queue. -/
theorem scanDslab_eq_offer (c : Cache) (q : (sortedQueue c.gcWeight).Queue) (d : Nat) :
    c.scanDslab q.1 d =
      match (sortedQueue c.gcWeight).offer (fun size => sizeLt size (3 * c.opsPoolSize)) q d with
      | none => .error .undefined
      | some q' => .ok q'.1 := by
  unfold Cache.scanDslab
  by_cases hRoom : sizeLt q.1.length (3 * c.opsPoolSize) = true
  · rw [PriorityQueue.offer_of_room hRoom, if_pos hRoom]
    rfl
  · rw [if_neg hRoom]
    cases hTop : (sortedQueue c.gcWeight).top q with
    | none =>
        rw [PriorityQueue.offer_of_none hRoom hTop, List.head?_eq_none_iff.mp hTop]
    | some top =>
        obtain ⟨rest, hList⟩ := List.head?_eq_some_iff.mp hTop
        by_cases hLess : c.gcWeight d < c.gcWeight top
        · have hTail : q.1.tail = rest := by rw [hList, List.tail_cons]
          rw [PriorityQueue.offer_of_lt hRoom hTop hLess, hList]
          exact (if_pos hLess).trans (congrArg (Except.ok ∘ Cache.pqPush c.gcWeight d) hTail.symm)
        · rw [PriorityQueue.offer_of_not_lt hRoom hTop hLess, hList]
          exact (if_neg hLess).trans (congrArg Except.ok hList.symm)

/-- The scan of the model is the scan with this queue. -/
theorem scanDslabs_eq_scanWith (cfg : Config) (c : Cache) :
    c.scanDslabs cfg = c.scanWith cfg (sortedQueue c.gcWeight) := by
  have hLoop : ∀ (ds : List Nat) (q : (sortedQueue c.gcWeight).Queue),
      ds.foldlM c.scanDslab q.1 =
        match ds.foldlM ((sortedQueue c.gcWeight).offer
          fun size => sizeLt size (3 * c.opsPoolSize)) q with
        | none => .error .undefined
        | some q' => .ok q'.1 := by
    intro ds
    induction ds with
    | nil => exact fun q => rfl
    | cons d ds ih =>
        intro q
        rw [List.foldlM_cons, List.foldlM_cons, scanDslab_eq_offer]
        cases (sortedQueue c.gcWeight).offer (fun size => sizeLt size (3 * c.opsPoolSize)) q d with
        | none => rfl
        | some q' => exact ih q'
  refine (hLoop _ (sortedQueue c.gcWeight).empty).trans ?_
  unfold Cache.scanWith PriorityQueue.scan
  split
  · rename_i hNone
    rw [hNone]
  · rename_i q hSome
    rw [hSome]
    exact congrArg Except.ok (drain_sortedQueue q).symm

/-- And so is normal GC. -/
theorem normalGc_eq_normalGcWith (build : Build) (cfg : Config) (fuel : Nat) (c : Cache) :
    c.normalGc build cfg fuel = Prod.fst <$> c.normalGcWith sortedQueue build cfg fuel := by
  simp only [Cache.normalGc, Cache.normalGcWith, Cache.collectWith, scanDslabs_eq_scanWith,
    Cache.collectClasses_eq_collectBatches, map_bind, bind_assoc, bind_map_left, map_pure,
    bind_pure]

/-! ### The choice -/

/-- What normal GC finds: some full disk slabs of the classes, each with as many
used slots as there may be, apart from the pool and the buffer. -/
structure Cache.Choosable (cfg : Config) (c : Cache) : Prop where
  nodup : (c.fullSlabs cfg).Nodup
  pool : ∀ d ∈ c.fullSlabs cfg, ∀ channel, d ∉ (c.opsPool channel).list
  buffer : cfg.gcBuffer ∉ c.fullSlabs cfg
  ofClass : ∀ d ∈ c.fullSlabs cfg, ∃ k, (c.slabs d).OfClass cfg k
  nrUsed : ∀ d ∈ c.fullSlabs cfg, 0 ≤ (c.slabs d).nrUsed ∧ (c.slabs d).nrUsed ≤ (c.slabs d).nrSlots

/-- In every reachable state, while the collector is idle. -/
theorem Inv.choosable (hInv : Inv cfg c g) (hIdle : g.GcIdle) : c.Choosable cfg := by
  have hRole : ∀ d ∈ c.fullSlabs cfg, g.role d = .diskFull :=
    fun d hd => hInv.role_of_fullSlabs hIdle hd
  refine ⟨hInv.nodup_fullSlabs, fun d hd channel hPool => ?_, fun hBuffer => ?_, fun d hd => ?_,
    fun d hd => ?_⟩
  · have hPlace := (hInv.lists.mem_opsPool.mp hPool).1
    rw [Ghost.place, hRole d hd] at hPlace
    cases hPlace
  · have hFull := hRole _ hBuffer
    rw [hIdle.settled.buffer hInv] at hFull
    cases hFull
  · have hShape := (hInv.slab d).shape
    rw [hRole d hd] at hShape
    exact hShape.1
  · have hOk := hInv.slab d
    have hBounds := hOk.bounds
    exact ⟨hOk.nrUsed_nonneg, by omega⟩

/-- The slabs kept by the scan are as many as the bound allows, and none of them
has more data in use than one that is left out. -/
def KeepsLightest (cfg : Config) (c : Cache) (kept : List Nat) : Prop :=
  ∃ left, (kept ++ left).Perm (c.fullSlabs cfg) ∧
    (kept.length : Int) = min (3 * c.opsPoolSize) (c.fullSlabs cfg).length ∧
    ∀ x ∈ kept, ∀ y ∈ left, (c.slabs x).nrUsed * (c.slabs x).slotSize ≤
      (c.slabs y).nrUsed * (c.slabs y).slotSize

/-- The batch of a class: the kept slabs of the class in ascending order of use,
as long as their used slots fit into one slab. -/
def ClassBatch (cfg : Config) (c : Cache) (kept : List Nat) (cid : Nat) (batch : List Nat) : Prop :=
  ∃ order, order.Perm (kept.filter fun d => (c.slabs d).cid = cid) ∧
    order.Pairwise (fun a b => (c.slabs a).nrUsed ≤ (c.slabs b).nrUsed) ∧
    LongestPrefix (fun ds => c.usedSum ds ≤ cfg.slabSlots (cfg.classSize cid)) order batch

/-- One batch for each class, collected when it has at least two members, until
the pool is empty: every batch takes one slab out of it. -/
def CollectsBatches (cfg : Config) (c : Cache) (kept : List Nat) (batches : List (List Nat)) :
    Prop :=
  ∃ batchOf : Nat → List Nat, (∀ cid < cfg.nrSlabClass, ClassBatch cfg c kept cid (batchOf cid)) ∧
    batches = (((List.range cfg.nrSlabClass).map batchOf).filter fun batch =>
      2 ≤ batch.length).take c.opsPoolSize.toNat

theorem mem_classToDrop {kept : List Nat} {cid : Nat} :
    d ∈ c.classToDrop kept cid ↔ d ∈ kept ∧ (c.slabs d).cid = cid := by
  rw [Cache.classToDrop, List.mem_reverse, List.mem_filter, decide_eq_true_iff]

/-- Within a class, less data in use means fewer slots in use. -/
theorem nrUsed_le_of_gcWeight {x y k : Nat} (hx : (c.slabs x).OfClass cfg k)
    (hy : (c.slabs y).OfClass cfg k) (hxUsed : (c.slabs x).nrUsed ≤ (c.slabs x).nrSlots)
    (hyUsed : 0 ≤ (c.slabs y).nrUsed) (hWeight : c.gcWeight x ≤ c.gcWeight y) :
    (c.slabs x).nrUsed ≤ (c.slabs y).nrUsed := by
  simp only [Cache.gcWeight, hx.slotSize, hy.slotSize] at hWeight
  rcases Nat.eq_zero_or_pos (cfg.classSize k) with hZero | hPos
  · -- slabs of a class without a size have no slots
    rw [hx.nrSlots, hZero, Config.slabSlots, Nat.div_zero] at hxUsed
    exact hxUsed.trans hyUsed
  · exact Int.le_of_mul_le_mul_right hWeight (by omega)

theorem classToDrop_sorted {kept : List Nat} (h : c.Choosable cfg)
    (hKept : ∀ d ∈ kept, d ∈ c.fullSlabs cfg)
    (hSorted : kept.Pairwise fun a b => c.gcWeight b ≤ c.gcWeight a) (cid : Nat) :
    (c.classToDrop kept cid).Pairwise fun a b => (c.slabs a).nrUsed ≤ (c.slabs b).nrUsed := by
  have hWeights : (c.classToDrop kept cid).Pairwise fun a b => c.gcWeight a ≤ c.gcWeight b :=
    List.pairwise_reverse.mpr (hSorted.filter _)
  refine hWeights.imp_of_mem fun {a b} ha hb hWeight => ?_
  obtain ⟨haKept, haClass⟩ := mem_classToDrop.mp ha
  obtain ⟨hbKept, hbClass⟩ := mem_classToDrop.mp hb
  obtain ⟨k, hka⟩ := h.ofClass a (hKept a haKept)
  obtain ⟨k', hkb⟩ := h.ofClass b (hKept b hbKept)
  obtain rfl : k = cid := Int.natCast_inj.mp (hka.cid.symm.trans haClass)
  obtain rfl : k' = k := Int.natCast_inj.mp (hkb.cid.symm.trans hbClass)
  exact nrUsed_le_of_gcWeight hka hkb (h.nrUsed a (hKept a haKept)).2
    (h.nrUsed b (hKept b hbKept)).1 hWeight

/-- The victims of normal GC, for every queue that keeps its contract. -/
theorem normalGc_victims (Q : (weight : Nat → Int) → PriorityQueue weight) (build : Build)
    (h : c.Choosable cfg) (hOps : 1 ≤ c.opsPoolSize) :
    ∃ kept, c.scanWith cfg (Q c.gcWeight) = .ok kept ∧ KeepsLightest cfg c kept ∧
      ∀ state batches, c.collectWith Q build cfg = .ok (state, batches) →
        CollectsBatches cfg c kept batches := by
  obtain ⟨kept, hScan, hSorted, left, hPerm, hLength, hOrder⟩ :=
    @scanWith_lightest cfg c (Q c.gcWeight) hOps
  have hKept : ∀ d ∈ kept, d ∈ c.fullSlabs cfg :=
    fun d hd => hPerm.subset (List.mem_append_left left hd)
  have hFull : ∀ k, ∀ d ∈ c.classToDrop kept k, d ∈ c.fullSlabs cfg :=
    fun k d hd => hKept d (mem_classToDrop.mp hd).1
  have hTake : ∀ k, ∃ batch, c.takeBatch build (c.classToDrop kept k) 0 = .ok batch ∧
      LongestPrefix (fun ds => 0 + c.usedSum ds ≤ cfg.slabSlots (cfg.classSize k))
        (c.classToDrop kept k) batch := by
    intro k
    refine takeBatch_longest (fun d hd => (h.nrUsed d (hFull k d hd)).1) (fun d hd => ?_)
      (Int.natCast_nonneg _)
    obtain ⟨k', hClass⟩ := h.ofClass d (hFull k d hd)
    obtain rfl : k' = k := Int.natCast_inj.mp (hClass.cid.symm.trans (mem_classToDrop.mp hd).2)
    rw [hClass.nrSlots]
  choose batchOf hBatch hLongest using hTake
  refine ⟨kept, hScan, ⟨left, hPerm, hLength, hOrder⟩, fun state batches hRun => ?_⟩
  refine ⟨batchOf, fun cid _ => ⟨c.classToDrop kept cid, List.reverse_perm _,
    classToDrop_sorted h hKept hSorted cid, ?_⟩, ?_⟩
  · simpa only [Int.zero_add] using hLongest cid
  · simp only [Cache.collectWith, hScan, Execution.bind_eq_ok] at hRun
    obtain ⟨_, hEq, _, -, hLoop⟩ := hRun
    obtain rfl := Except.ok.inj hEq
    refine collectBatches_eq (fun k _ => hBatch k) (fun k _ => (hLongest k).initial.subset)
      ⟨fun _ _ _ _ => rfl, fun k _ d hd => h.pool d (hFull k d hd),
        fun k _ hMem => h.buffer (hFull k _ hMem), ?_⟩ hLoop
    refine List.pairwise_lt_range.imp fun {k k'} hLt d hd hd' => ?_
    have hSame := (mem_classToDrop.mp hd').2.symm.trans (mem_classToDrop.mp hd).2
    omega

/-- Two full slabs, one of them without a used slot. -/
theorem normalGc_victims_two :
    ∃ s kept, Sys.Reachable .debug .small s ∧ s.cache.fullSlabs .small = [5, 6] ∧
      KeepsLightest .small s.cache kept ∧ CollectsBatches .small s.cache kept [[6, 5]] := by
  obtain ⟨⟨s, events⟩, hRun, hState⟩ := Execution.ok_of_check
    (x := Sys.start .debug .small [.put [1] [7], .flush, .put [1] [8], .flush])
    (fun r => r.1.cache.fullSlabs .small = [5, 6] ∧ 1 ≤ r.1.cache.opsPoolSize ∧
      (r.1.cache.collectWith sortedQueue .debug .small).toOption.map Prod.snd = some [[6, 5]])
    (by decide +kernel)
  obtain ⟨hFull, hOps, hBatches⟩ := of_decide_eq_true hState
  obtain ⟨g, hInv, -⟩ := start_invariant Config.small_wellFormed.sound hRun
  obtain ⟨kept, -, hKeeps, hCollects⟩ :=
    normalGc_victims sortedQueue .debug (hInv.inv.choosable hInv.idle) hOps
  refine ⟨s, kept, ⟨_, events, hRun⟩, hFull, hKeeps, ?_⟩
  cases hCollect : s.cache.collectWith sortedQueue .debug .small with
  | error stop => simp [hCollect, Except.toOption] at hBatches
  | ok result =>
      rw [hCollect] at hBatches
      have hLog : result.2 = [[6, 5]] := Option.some.inj hBatches
      rw [← hLog]
      exact hCollects result.1 result.2 hCollect

end KVCache
