import KVCache.Invariant.Assertions
import KVCache.Invariant.Selection

/-! Normal GC returns. A batch finds an over-provisioned slab and fits into the
buffer, so `gc_dslabs` has a result; and the loop that refills the pool, which
goes round the channels for as long as it has to give slabs back, ends when
there are enough of them on the local lists. -/

namespace KVCache

open Execution

variable {build : Build} {cfg : Config} {c c' : Cache} {g : Ghost} {k : Nat} {ds : List Nat}
  {freeList freeList' : Table SlabList} {S : Stop → Prop}

/-! ### One batch -/

theorem Inv.avoids_takeBatch {moved : Int} (hInv : Inv cfg c g) :
    Avoids S (c.takeBatch build ds moved) := by
  induction ds generalizing moved with
  | nil => exact .ok _
  | cons d ds ih =>
      apply avoids_holds (decide_eq_true (hInv.slab d).nrUsed_nonneg)
      split
      · exact .ok _
      · exact ih.bind fun _ _ => .ok _

/-- The loop over the batch has a result, as long as the buffer has room for all
that is still to be moved. -/
theorem Filling.avoids_loop {size : Int} (h : Filling cfg c g ds)
    (hSize : size + c.usedSum ds ≤ (c.slabs cfg.gcBuffer).nrSlots) :
    Avoids S (ds.foldlM (Cache.moveDslab build cfg) (c, size)) := by
  apply Avoids.foldlM_rule (fun rest (state : Cache × Int) => ∃ g, Filling cfg state.1 g rest ∧
    state.2 + state.1.usedSum rest ≤ (state.1.slabs cfg.gcBuffer).nrSlots)
  · rintro d rest ⟨c, size⟩ ⟨g, h, hSize⟩
    obtain ⟨c', hMove, -⟩ := h.move build
    simp only [Cache.moveDslab, hMove]
    exact (h.avoids_checkMove hSize).bind fun _ _ => .ok _
  · rintro d rest ⟨c, size⟩ ⟨c', size'⟩ ⟨g, h, hSize⟩ hRun
    dsimp only at h hSize ⊢
    obtain ⟨c₁, hMove, -, hMoved, hNext⟩ := h.move build
    simp only [Cache.moveDslab, Cache.checkMove, bind_eq_ok, pure_eq_ok, hMove] at hRun
    obtain ⟨_, ⟨_, -, _, -, _, -, rfl⟩, _, hSame, hPair⟩ := hRun
    obtain rfl := Except.ok.inj hSame
    obtain ⟨rfl, rfl⟩ := Prod.mk.inj hPair
    refine ⟨_, hNext, ?_⟩
    rw [Cache.usedSum_cons] at hSize
    rw [h.usedSum_moved hMoved, hMoved.nrSlots]
    omega
  · exact ⟨g, h, hSize⟩

/-- `gc_dslabs` has a result for a batch that fits into a slab, while the pool is
not empty. -/
theorem Between.avoids_gcDslabs (h : Between cfg c g freeList) (hBatch : Batch c g k ds)
    (hSome : ds ≠ []) (hSum : c.usedSum ds ≤ cfg.slabSlots (cfg.classSize k))
    (hCursor : c.nextOpsPoolRemoveChannel < cfg.nrChannels) (hPos : 0 < c.opsPoolSize) :
    Avoids S (c.gcDslabs build cfg ds freeList) := by
  obtain ⟨d, rest, rfl⟩ := List.exists_cons_of_ne_nil hSome
  obtain ⟨ops, c₀, hTake⟩ := h.inv.takeOps_some hCursor hPos
  obtain ⟨-, hSlabs, hTaken, hBuffer, hList, hBatch'⟩ :=
    h.inv.takeForBatch h.settled h.freeList hBatch hTake
  have hUsed : c₀.usedSum (d :: rest) = c.usedSum (d :: rest) :=
    Cache.usedSum_congr fun x _ => by rw [hSlabs]
  obtain ⟨hSlab₁, hSilent₁, -⟩ :=
    hTaken.inv.relinkFull (g.become_self _ _) hList hBatch'.full hBatch'.nodup rfl
  obtain ⟨-, hFilling⟩ := hTaken.inv.openBuffer (g.become_self _ _) hBuffer hBatch'
    (hUsed.le.trans hSum) hSilent₁.inv hSlab₁
  have hBufferNot : cfg.gcBuffer ∉ d :: rest := fun hMem =>
    Ghost.ne_of_role _ (hBatch'.full _ hMem) hBuffer (by simp) rfl
  have hRoom := hFilling.room
  simp only [Cache.gcDslabs, hTake]
  apply (hFilling.avoids_loop (by omega)).bind
  rintro ⟨c₂, size⟩ hMove
  refine avoids_holds (decide_eq_true ?_) (.ok _)
  apply (hFilling.loop hMove).1.inv.buffer_cid
  rw [Ghost.becomeAll_of_not_mem _ _ hBufferNot, Ghost.become_self]

/-! ### Refilling the pool -/

/-- How many slabs wait on the local lists. -/
def waiting (freeList : Table SlabList) : Nat := (freeList.flatMap SlabList.list).length

section

variable {left : Int} {channel : Nat}

variable (cfg c freeList channel) in
/-- What the loop does with a channel. -/
theorem refillOpsPool_succ (hMore : 0 < left) :
    ((freeList channel).list = [] ∧ ∀ fuel,
      Cache.refillOpsPool cfg (fuel + 1) left channel c freeList =
        Cache.refillOpsPool cfg fuel left (cfg.nextChannel channel) c freeList) ∨
    ∃ d ∈ (freeList channel).list, ∀ fuel,
      Cache.refillOpsPool cfg (fuel + 1) left channel c freeList =
        Cache.refillOpsPool cfg fuel (left - 1) (cfg.nextChannel channel)
          (c.refillOps freeList channel d).1 (c.refillOps freeList channel d).2 := by
  cases hList : (freeList channel).list with
  | nil =>
      refine .inl ⟨rfl, fun fuel => ?_⟩
      rw [Cache.refillOpsPool, if_neg (Int.not_le.mpr hMore)]
      simp only [hList]
  | cons d rest =>
      refine .inr ⟨d, List.mem_cons_self, fun fuel => ?_⟩
      rw [Cache.refillOpsPool, if_neg (Int.not_le.mpr hMore)]
      simp only [hList]

theorem refillOpsPool_done {fuel : Nat} (hDone : left ≤ 0) :
    Cache.refillOpsPool cfg fuel left channel c freeList = .ok (c, freeList) := by
  unfold Cache.refillOpsPool
  rw [if_pos hDone]

/-- From a channel that is `k` channels before a list with a slab on it, the loop
gets to give a slab back. -/
theorem refillOpsPool_reaches (hMore : 0 < left) (hChannel : channel < cfg.nrChannels)
    (hSome : (freeList ((channel + k) % cfg.nrChannels)).list ≠ []) :
    ∃ steps found d, found < cfg.nrChannels ∧ d ∈ (freeList found).list ∧ ∀ fuel,
      Cache.refillOpsPool cfg (fuel + steps) left channel c freeList =
        Cache.refillOpsPool cfg fuel (left - 1) (cfg.nextChannel found)
          (c.refillOps freeList found d).1 (c.refillOps freeList found d).2 := by
  induction k generalizing channel with
  | zero =>
      rw [Nat.add_zero, Nat.mod_eq_of_lt hChannel] at hSome
      rcases refillOpsPool_succ cfg c freeList channel hMore with ⟨hEmpty, -⟩ | ⟨d, hd, hTake⟩
      · exact absurd hEmpty hSome
      · exact ⟨1, channel, d, hChannel, hd, hTake⟩
  | succ k ih =>
      rcases refillOpsPool_succ cfg c freeList channel hMore with ⟨-, hSkip⟩ | ⟨d, hd, hTake⟩
      · have hNext : cfg.nextChannel channel < cfg.nrChannels := Nat.mod_lt _ (by omega)
        have hFurther : (cfg.nextChannel channel + k) % cfg.nrChannels =
            (channel + (k + 1)) % cfg.nrChannels := by
          rw [Config.nextChannel, Nat.mod_add_mod]
          congr 1
          omega
        obtain ⟨steps, found, d, hFound, hd, hReach⟩ := ih hNext (hFurther ▸ hSome)
        exact ⟨steps + 1, found, d, hFound, hd, fun fuel => (hSkip _).trans (hReach fuel)⟩
      · exact ⟨1, channel, d, hChannel, hd, hTake⟩

theorem refillOps_waiting {d : Nat} (hd : d ∈ (freeList channel).list) :
    waiting (c.refillOps freeList channel d).2 + 1 = waiting freeList :=
  Lists.length_erase hd fun _ => rfl

/-- A local list that is empty stays so. -/
theorem refillOps_empty {d other : Nat} (h : (freeList other).list = []) :
    ((c.refillOps freeList channel d).2 other).list = [] := by
  simp only [Cache.refillOps, Table.get_modify]
  split
  · rename_i hEq
    rw [← hEq, h]
    rfl
  · exact h

/-- With enough slabs on the local lists of the channels the loop ends, and the
pool has got what it was to get. -/
theorem refillOpsPool_ends (hChannel : channel < cfg.nrChannels)
    (hLists : ∀ other, cfg.nrChannels ≤ other → (freeList other).list = [])
    (hEnough : left ≤ waiting freeList) :
    ∃ bound c' freeList', (∀ fuel ≥ bound,
        Cache.refillOpsPool cfg fuel left channel c freeList = .ok (c', freeList')) ∧
      c'.opsPoolSize = c.opsPoolSize + max left 0 ∧ c'.dslabFull = c.dslabFull := by
  generalize hm : left.toNat = m
  induction m generalizing left channel c freeList with
  | zero =>
      refine ⟨0, c, freeList, fun fuel _ => refillOpsPool_done (by omega), ?_, rfl⟩
      omega
  | succ m ih =>
      have hMore : 0 < left := by omega
      have hPos : 0 < waiting freeList := by omega
      obtain ⟨x, hx⟩ := List.exists_mem_of_length_pos hPos
      obtain ⟨target, hMem⟩ := (Table.mem_flatMap rfl).mp hx
      have hSome : (freeList target).list ≠ [] := List.ne_nil_of_mem hMem
      have hLt : target < cfg.nrChannels := by
        by_contra hGe
        exact hSome (hLists target (Nat.le_of_not_lt hGe))
      obtain ⟨k, hk⟩ := exists_add_mod channel hLt
      obtain ⟨steps, found, d, hFound, hd, hReach⟩ :=
        refillOpsPool_reaches (c := c) hMore hChannel (hk ▸ hSome)
      have hLess := refillOps_waiting (c := c) hd
      have hNext : cfg.nextChannel found < cfg.nrChannels := Nat.mod_lt _ (by omega)
      have hStill : left - 1 ≤ waiting (c.refillOps freeList found d).2 := by omega
      obtain ⟨bound, c', freeList', hRun, hSize, hFull⟩ :=
        ih (c := (c.refillOps freeList found d).1) hNext
          (fun other hGe => refillOps_empty (hLists other hGe)) hStill (by omega)
      refine ⟨bound + steps, c', freeList', fun fuel hFuel => ?_, ?_, hFull⟩
      · rw [← Nat.sub_add_cancel (Nat.le_of_add_left_le hFuel), hReach]
        exact hRun _ (by omega)
      · have hOne : (c.refillOps freeList found d).1.opsPoolSize = c.opsPoolSize + 1 := rfl
        omega

end

end KVCache
