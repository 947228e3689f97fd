import KVCache.Invariant.Inversion

/-! The slab that the writer fills, and the partial lists, are no business of the
flush thread and of the collector: their steps do the same whatever is there. -/

namespace KVCache

open Execution (map_bind bind_map)

variable {build : Build} {cfg : Config} {c : Cache} {sid : Nat} {s : Slab} {p : Table (List Nat)}
  {x d : Nat}

/-- The cache with another slab in the place of one, and with other partial
lists. -/
def Cache.amend (c : Cache) (sid : Nat) (s : Slab) (p : Table (List Nat)) : Cache :=
  { c with slabs := c.slabs.set sid s, slabPartial := p }

/-- The same for what a part of a step returns beside the cache. -/
def amendSnd {α : Type} (sid : Nat) (s : Slab) (p : Table (List Nat)) (r : α × Cache) : α × Cache :=
  (r.1, r.2.amend sid s p)

def amendFst {α : Type} (sid : Nat) (s : Slab) (p : Table (List Nat)) (r : Cache × α) : Cache × α :=
  (r.1.amend sid s p, r.2)

theorem slabs_amend (h : x ≠ sid) : (c.amend sid s p).slabs x = c.slabs x :=
  Table.get_set_of_ne _ _ h

theorem resetSlab_amend (h : x ≠ sid) :
    (c.amend sid s p).resetSlab x = (c.resetSlab x).amend sid s p := by
  simp only [Cache.resetSlab, Cache.amend, Table.modify_set_of_ne _ h]

theorem block_amend (h : x ≠ sid) : (c.amend sid s p).block x = c.block x := by
  rw [Cache.block, slabs_amend h]
  rfl

theorem readDslab_amend (h : x ≠ sid) : (c.amend sid s p).readDslab x = c.readDslab x := by
  rw [Cache.readDslab, slabs_amend h, block_amend h]
  rfl

/-- A loop whose body does the same on amended caches. -/
theorem foldlM_amend {f : Cache → Nat → Except Stop Cache} {ds : List Nat}
    (hBody : ∀ c, ∀ d ∈ ds, f (c.amend sid s p) d = (f c d).map (·.amend sid s p)) (c : Cache) :
    ds.foldlM f (c.amend sid s p) = (ds.foldlM f c).map (·.amend sid s p) :=
  Execution.foldlM_map (g := (·.amend sid s p)) hBody c

/-! ### The flush -/

theorem takeFull_amend (h : sid ∉ c.mslabFull.list) :
    (c.amend sid s p).takeFull build = (c.takeFull build).map (amendSnd sid s p) := by
  simp only [Cache.takeFull]
  have hList : (c.amend sid s p).mslabFull = c.mslabFull := rfl
  rw [hList]
  cases hFull : c.mslabFull.list with
  | nil => rfl
  | cons m rest =>
      have hm : m ≠ sid := by
        rintro rfl
        exact h (hFull ▸ List.mem_cons_self)
      dsimp only
      rw [slabs_amend hm]
      rw [map_bind]
      rfl

theorem takeFreeFrom_amend {beginning rounds : Nat} (h : ∀ ch, sid ∉ (c.dslabFree ch).list) :
    Cache.takeFreeFrom build cfg beginning rounds (c.amend sid s p) =
      (Cache.takeFreeFrom build cfg beginning rounds c).map (amendSnd sid s p) := by
  induction rounds generalizing c with
  | zero => rfl
  | succ rounds ih =>
      simp only [Cache.takeFreeFrom]
      have hList : (c.amend sid s p).dslabFree = c.dslabFree := rfl
      have hNext : (c.amend sid s p).nextMslabFlushChannel = c.nextMslabFlushChannel := rfl
      rw [hList, hNext]
      cases hFree : (c.dslabFree c.nextMslabFlushChannel).list with
      | nil =>
          dsimp only
          split
          · exact ih (c := { c with
              nextMslabFlushChannel := cfg.nextChannel c.nextMslabFlushChannel }) h
          · rfl
      | cons d rest =>
          have hd : d ≠ sid := by
            rintro rfl
            exact h _ (hFree ▸ List.mem_cons_self)
          dsimp only
          rw [slabs_amend hd]
          simp only [map_bind]
          rfl

theorem writeBlock_amend (hx : x ≠ sid) (hd : d ≠ sid) :
    (c.amend sid s p).writeBlock cfg x d = (c.writeBlock cfg x d).amend sid s p := by
  rw [Cache.writeBlock, slabs_amend hx, slabs_amend hd]
  rfl

theorem copyHeader_amend (hx : x ≠ sid) (hd : d ≠ sid) :
    (c.amend sid s p).copyHeader x d = (c.copyHeader x d).amend sid s p := by
  rw [Cache.copyHeader, slabs_amend hx]
  simp only [Cache.copyHeader, Cache.amend, Table.modify_set_of_ne _ hd]

theorem modifySlots_amend (hx : x ≠ sid) (hd : d ≠ sid) (slots : List Nat) (n : Nat) :
    slots.foldl (Cache.modifySlot cfg x d) (c.amend sid s p, n) =
      amendFst sid s p (slots.foldl (Cache.modifySlot cfg x d) (c, n)) := by
  induction slots generalizing c n with
  | nil => rfl
  | cons slotId rest ih =>
      rw [List.foldl_cons, List.foldl_cons]
      have hSlot : Cache.modifySlot cfg x d (c.amend sid s p, n) slotId =
          amendFst sid s p (Cache.modifySlot cfg x d (c, n) slotId) := by
        simp only [Cache.modifySlot]
        rw [slabs_amend hx, slabs_amend hd]
        have hIndex : (c.amend sid s p).index = c.index := rfl
        rw [hIndex]
        cases c.index.getIndexEntry cfg ((c.slabs x).slotKey slotId) with
        | none => rfl
        | some e =>
            dsimp only
            split
            · rfl
            · rfl
      rw [hSlot]
      exact ih _

theorem modifyIndexTo_amend (hx : x ≠ sid) (hd : d ≠ sid) :
    (c.amend sid s p).modifyIndexTo cfg x d = (c.modifyIndexTo cfg x d).amend sid s p := by
  simp only [Cache.modifyIndexTo]
  rw [slabs_amend hx, modifySlots_amend hx hd]
  simp only [amendFst, Cache.amend, Table.modify_set_of_ne _ hx, Table.modify_set_of_ne _ hd]

/-! ### Quick GC -/

theorem selectDrop_amend {fuel : Nat} {n : Int} {toDrop : List Nat} :
    Cache.selectDrop cfg fuel n (c.amend sid s p) toDrop =
      (Cache.selectDrop cfg fuel n c toDrop).map (amendSnd sid s p) := by
  induction fuel generalizing n c toDrop with
  | zero =>
      simp only [Cache.selectDrop]
      split <;> rfl
  | succ fuel ih =>
      simp only [Cache.selectDrop]
      split
      · rfl
      · have hList : (c.amend sid s p).dslabFull = c.dslabFull := rfl
        have hNext : (c.amend sid s p).nextOpsPoolRemoveChannel = c.nextOpsPoolRemoveChannel := rfl
        rw [hList, hNext]
        cases (c.dslabFull
            (cfg.nextChannel c.nextOpsPoolRemoveChannel % cfg.nrChannels)).list with
        | nil =>
            exact ih (c := { c with
              nextOpsPoolRemoveChannel := (c.nextOpsPoolRemoveChannel + 1) % cfg.nrChannels })
        | cons d rest =>
            exact ih (c := { c with
              nextOpsPoolRemoveChannel := (c.nextOpsPoolRemoveChannel + 1) % cfg.nrChannels
              dslabFull := c.dslabFull.modify
                (cfg.nextChannel c.nextOpsPoolRemoveChannel % cfg.nrChannels) (·.del d)
              nrFullDslab := c.nrFullDslab - 1 })

theorem dropDslab_amend (hd : d ≠ sid) :
    (c.amend sid s p).dropDslab build cfg d = (c.dropDslab build cfg d).map (·.amend sid s p) := by
  simp only [Cache.dropDslab]
  rw [slabs_amend hd, readDslab_amend hd]
  have hEvict : (c.amend sid s p).evictDslab cfg d = (c.evictDslab cfg d).amend sid s p := by
    rw [Cache.evictDslab, block_amend hd]
    rfl
  rw [hEvict, map_bind]
  simp only [Cache.amend, Table.modify_set_of_ne _ hd]
  rfl

theorem backToOpsPool_amend {o i : Int} {ds : List Nat} (h : sid ∉ ds) :
    Cache.backToOpsPool cfg o i ds (c.amend sid s p) =
      amendSnd sid s p (Cache.backToOpsPool cfg o i ds c) := by
  induction ds generalizing i c with
  | nil => rfl
  | cons d rest ih =>
      have hd : d ≠ sid := (List.ne_of_not_mem_cons h).symm
      have hRest : sid ∉ rest := List.not_mem_of_not_mem_cons h
      simp only [Cache.backToOpsPool]
      rw [resetSlab_amend hd, slabs_amend hd]
      split
      · rfl
      · exact ih (c := { c.resetSlab d with
          opsPool := (c.resetSlab d).opsPool.modify
            (cfg.channelId ((c.resetSlab d).slabs d).blockId) (·.add d)
          opsPoolSize := (c.resetSlab d).opsPoolSize + 1 }) hRest

theorem linkDslabFree_amend {channel : Nat} (hd : d ≠ sid) :
    (c.amend sid s p).linkDslabFree build cfg channel d =
      (c.linkDslabFree build cfg channel d).map (·.amend sid s p) := by
  simp only [Cache.linkDslabFree]
  rw [resetSlab_amend hd, map_bind]
  rfl

theorem backToDslabFree_amend {ds : List Nat} (h : sid ∉ ds) :
    ds.foldlM (Cache.backToDslabFree build cfg) (c.amend sid s p) =
      (ds.foldlM (Cache.backToDslabFree build cfg) c).map (·.amend sid s p) := by
  refine foldlM_amend (fun c d hd => ?_) c
  have hne : d ≠ sid := ne_of_mem_of_not_mem hd h
  rw [Cache.backToDslabFree, slabs_amend hne]
  exact linkDslabFree_amend hne

/-! ### Normal GC -/

theorem classToDrop_amend {kept : List Nat} {cid : Nat} (h : sid ∉ kept) :
    (c.amend sid s p).classToDrop kept cid = c.classToDrop kept cid := by
  simp only [Cache.classToDrop]
  congr 1
  refine List.filter_congr fun d hd => ?_
  rw [slabs_amend (ne_of_mem_of_not_mem hd h)]

theorem takeOpsFrom_amend {begin rounds : Nat} :
    Cache.takeOpsFrom cfg begin rounds (c.amend sid s p) =
      amendSnd sid s p (Cache.takeOpsFrom cfg begin rounds c) := by
  induction rounds generalizing c with
  | zero => rfl
  | succ rounds ih =>
      simp only [Cache.takeOpsFrom]
      have hList : (c.amend sid s p).opsPool = c.opsPool := rfl
      have hNext : (c.amend sid s p).nextOpsPoolRemoveChannel = c.nextOpsPoolRemoveChannel := rfl
      rw [hList, hNext]
      cases (c.opsPool c.nextOpsPoolRemoveChannel).list with
      | nil =>
          dsimp only
          split
          · exact ih (c := { c with
              nextOpsPoolRemoveChannel := cfg.nextChannel c.nextOpsPoolRemoveChannel })
          · rfl
      | cons d rest => rfl

theorem relinkFull_amend {ops : Nat} {ds : List Nat} {freeList : Table SlabList} (hOps : ops ≠ sid)
    (h : sid ∉ ds) :
    (c.amend sid s p).relinkFull cfg ops ds freeList =
      amendFst sid s p (c.relinkFull cfg ops ds freeList) := by
  have hLink : (c.amend sid s p).linkOps cfg ops = (c.linkOps cfg ops).amend sid s p := by
    simp only [Cache.linkOps]
    rw [resetSlab_amend hOps, slabs_amend hOps]
    rfl
  have hLoop : ∀ (c : Cache) (freeList : Table SlabList),
      ds.foldl (Cache.unlinkDrop cfg) (c.amend sid s p, freeList) =
        amendFst sid s p (ds.foldl (Cache.unlinkDrop cfg) (c, freeList)) := by
    clear hLink
    induction ds with
    | nil => exact fun _ _ => rfl
    | cons d rest ih =>
        intro c freeList
        rw [List.foldl_cons, List.foldl_cons]
        simp only [Cache.unlinkDrop]
        rw [slabs_amend (List.ne_of_not_mem_cons h).symm]
        exact ih (List.not_mem_of_not_mem_cons h) { c with
          dslabFull := c.dslabFull.modify (cfg.channelId (c.slabs d).blockId) (·.del d)
          nrFullDslab := c.nrFullDslab - 1 } _
  rw [Cache.relinkFull, hLink]
  exact hLoop _ _

theorem prepareBuffer_amend (hBuffer : cfg.gcBuffer ≠ sid) (hd : d ≠ sid) :
    (c.amend sid s p).prepareBuffer cfg d = (c.prepareBuffer cfg d).amend sid s p := by
  rw [Cache.prepareBuffer, slabs_amend hd]
  simp only [Cache.prepareBuffer, Cache.amend, Table.modify_set_of_ne _ hBuffer]

theorem checkMove_amend {size : Int} (hBuffer : cfg.gcBuffer ≠ sid) (hd : d ≠ sid) :
    (c.amend sid s p).checkMove build cfg size d = c.checkMove build cfg size d := by
  rw [Cache.checkMove, slabs_amend hd, slabs_amend hBuffer]
  rfl

theorem moveLive_amend {fake : Slab} (hBuffer : cfg.gcBuffer ≠ sid) (hd : d ≠ sid) :
    (c.amend sid s p).moveLive build cfg d fake =
      (c.moveLive build cfg d fake).map (·.amend sid s p) := by
  rw [Cache.moveLive, foldlM_amend]
  · rw [Cache.moveLive, bind_map, map_bind]
    refine congrArg _ (funext fun c' => congrArg Except.ok ?_)
    simp only [Cache.amend, Table.modify_set_of_ne _ hd]
  · intro c slotId _
    simp only [Cache.moveSlot]
    rw [slabs_amend hBuffer, slabs_amend hd]
    have hIndex : (c.amend sid s p).index = c.index := rfl
    rw [hIndex]
    cases c.index.getIndexEntry cfg (fake.slotKey slotId) with
    | none => rfl
    | some e =>
        dsimp only
        split
        · rw [map_bind]
          refine congrArg _ (funext fun r => congrArg Except.ok ?_)
          dsimp only [Cache.amend]
          rw [Table.set_comm _ hBuffer.symm]
        · rfl

theorem refillOps_amend {freeList : Table SlabList} {channel : Nat} (hd : d ≠ sid) :
    (c.amend sid s p).refillOps freeList channel d =
      amendFst sid s p (c.refillOps freeList channel d) := by
  simp only [Cache.refillOps]
  rw [resetSlab_amend hd]
  rfl

theorem shrinkOps_amend {freeList : Table SlabList} (h : ∀ ch, sid ∉ (c.opsPool ch).list) :
    (c.amend sid s p).shrinkOps cfg freeList = amendFst sid s p (c.shrinkOps cfg freeList) := by
  simp only [Cache.shrinkOps]
  have hList : (c.amend sid s p).opsPool = c.opsPool := rfl
  have hNext : (c.amend sid s p).nextOpsPoolRemoveChannel = c.nextOpsPoolRemoveChannel := rfl
  rw [hList, hNext]
  cases hPool : (c.opsPool (cfg.nextChannel c.nextOpsPoolRemoveChannel)).list with
  | nil => rfl
  | cons d rest =>
      have hd : d ≠ sid := by
        rintro rfl
        exact h _ (hPool ▸ List.mem_cons_self)
      refine Prod.ext ?_ rfl
      exact resetSlab_amend (c := { c with
        nextOpsPoolRemoveChannel := (c.nextOpsPoolRemoveChannel + 1) % cfg.nrChannels
        opsPool := c.opsPool.modify (cfg.nextChannel c.nextOpsPoolRemoveChannel) (·.del d)
        opsPoolSize := c.opsPoolSize - 1 }) hd

theorem reclaim_amend {freeList : Table SlabList} (h : ∀ ch, sid ∉ (freeList ch).list) :
    (c.amend sid s p).reclaim build cfg freeList =
      (c.reclaim build cfg freeList).map (·.amend sid s p) :=
  foldlM_amend (fun c channel _ => foldlM_amend
    (fun _ _ hd => linkDslabFree_amend (ne_of_mem_of_not_mem hd (h channel))) c) c

/-! ### Steps -/

/-- The place of the flush thread does not name a slab. -/
def FlushAt.Spares (sid : Nat) : FlushAt → Prop
  | .idle => True
  | .holding m => m ≠ sid
  | .found m d _ | .written m d _ | .copied m d _ | .moved m d _ | .reset m d _ =>
      m ≠ sid ∧ d ≠ sid
  | .freed d _ => d ≠ sid

/-- The flush thread takes the same step on an amended cache. -/
theorem stepFlush_amend {a : FlushAt} (hAt : a.Spares sid) (hFull : sid ∉ c.mslabFull.list)
    (hFree : ∀ ch, sid ∉ (c.dslabFree ch).list) :
    Threads.stepFlush build cfg (c.amend sid s p) a =
      (Threads.stepFlush build cfg c a).map (amendFst sid s p) := by
  cases a with
  | idle =>
      simp only [Threads.stepFlush]
      rw [takeFull_amend hFull, bind_map, map_bind]
      rfl
  | holding m =>
      simp only [Threads.stepFlush, Cache.takeFree]
      have hNext : (c.amend sid s p).nextMslabFlushChannel = c.nextMslabFlushChannel := rfl
      rw [hNext, takeFreeFrom_amend hFree, bind_map, map_bind]
      refine congrArg _ (funext fun r => ?_)
      obtain ⟨found, c'⟩ := r
      cases found <;> rfl
  | found m d channel =>
      simp only [Threads.stepFlush]
      rw [writeBlock_amend hAt.1 hAt.2]
      rfl
  | written m d channel =>
      simp only [Threads.stepFlush]
      rw [copyHeader_amend hAt.1 hAt.2]
      rfl
  | copied m d channel =>
      simp only [Threads.stepFlush]
      rw [slabs_amend hAt.1, slabs_amend hAt.2, modifyIndexTo_amend hAt.1 hAt.2]
      simp only [map_bind]
      rfl
  | moved m d channel =>
      simp only [Threads.stepFlush]
      rw [resetSlab_amend hAt.1]
      rfl
  | reset m d channel => rfl
  | freed d channel => rfl

/-- The place of the collector does not name a slab that it is about to look at. -/
def GcAt.Spares (sid : Nat) : GcAt → Prop
  | .quickEvict _ toDrop todo => sid ∉ toDrop ∧ sid ∉ todo
  | .quickFree rest => sid ∉ rest
  | .scan _ pq => sid ∉ pq
  | .batch _ _ _ _ left => sid ∉ left
  | .relink _ _ ops toDrop => ops ≠ sid ∧ sid ∉ toDrop
  | .prepare _ _ _ toDrop => sid ∉ toDrop
  | .check _ _ ops _ todo => ops ≠ sid ∧ sid ∉ todo
  | .move _ _ _ _ d _ _ => d ≠ sid
  | .copy _ _ ops | .modify _ _ ops => ops ≠ sid
  | .refill n _ _ _ | .reclaim n => ∀ ch, sid ∉ (n.freeList ch).list
  | _ => True

theorem stepQuick_amend (build : Build) (cfg : Config) (fuel : Nat) {a : GcAt} (hAt : a.Spares sid) :
    Threads.stepQuick build cfg fuel (c.amend sid s p) a =
      (Threads.stepQuick build cfg fuel c a).map (amendFst sid s p) := by
  cases a with
  | idle =>
      simp only [Threads.stepQuick]
      change (if c.nrFullDslab ≤ 0 then _ else _) = _
      split <;> rfl
  | awake =>
      simp only [Threads.stepQuick, map_bind]
      rfl
  | decide nrFree =>
      simp only [Threads.stepQuick]
      change (if c.index.nrFreeIndexEntry = 0 then _ else if nrFree < c.freeBlockWaterMarkLow then _
        else _) = _
      split
      · rfl
      · split <;> rfl
  | quickTune =>
      simp only [Threads.stepQuick, map_bind]
      rfl
  | quickSelect f o =>
      simp only [Threads.stepQuick, selectDrop_amend, map_bind, bind_map]
      rfl
  | quickEvict o toDrop todo =>
      cases todo with
      | nil =>
          simp only [Threads.stepQuick]
          rw [backToOpsPool_amend hAt.1]
          rfl
      | cons d todo =>
          simp only [Threads.stepQuick]
          rw [dropDslab_amend (List.ne_of_not_mem_cons hAt.2).symm, bind_map, map_bind]
          rfl
  | quickFree rest =>
      simp only [Threads.stepQuick]
      rw [backToDslabFree_amend hAt, bind_map]
      simp only [map_bind]
      rfl
  | _ => rfl

theorem stepChoose_amend (build : Build) (cfg : Config) (pick : List Nat) {a : GcAt} (hAt : a.Spares sid) :
    Threads.stepChoose build cfg pick (c.amend sid s p) a =
      (Threads.stepChoose build cfg pick c a).map (amendFst sid s p) := by
  cases a with
  | scan channel pq =>
      simp only [Threads.stepChoose]
      split
      · change (if pq = [] ∧ (c.dslabFull channel).list ≠ [] ∧ ¬sizeLt 0 (3 * c.opsPoolSize) then _
          else if Threads.HeapKeeps c channel pq pick then _ else _) = _
        split
        · rfl
        · split <;> rfl
      · have hAll : (pq.all fun d => ((c.amend sid s p).slabs d).cid ≠ -1) =
            pq.all fun d => (c.slabs d).cid ≠ -1 := by
          rw [Bool.eq_iff_iff, List.all_eq_true, List.all_eq_true]
          refine forall₂_congr fun d hd => ?_
          rw [slabs_amend (ne_of_mem_of_not_mem hd hAt)]
        have hDrop : (c.amend sid s p).classToDrop pq = c.classToDrop pq :=
          funext fun _ => classToDrop_amend hAt
        rw [hAll, hDrop, map_bind]
        rfl
  | batch n cid toDrop moved left =>
      cases left with
      | nil => rfl
      | cons d left =>
          simp only [Threads.stepChoose]
          rw [slabs_amend (List.ne_of_not_mem_cons hAt).symm]
          rw [map_bind]
          refine congrArg _ (funext fun _ => ?_)
          split <;> rfl
  | _ => rfl

theorem stepCollect_amend (build : Build) (cfg : Config) {a : GcAt} (hAt : a.Spares sid) (hBuffer : cfg.gcBuffer ≠ sid) :
    Threads.stepCollect build cfg (c.amend sid s p) a =
      (Threads.stepCollect build cfg c a).map (amendFst sid s p) := by
  cases a with
  | take n cid toDrop =>
      simp only [Threads.stepCollect, Cache.takeOps]
      have hNext : (c.amend sid s p).nextOpsPoolRemoveChannel = c.nextOpsPoolRemoveChannel := rfl
      rw [hNext, takeOpsFrom_amend]
      cases hTake : Cache.takeOpsFrom cfg c.nextOpsPoolRemoveChannel cfg.nrChannels c with
      | mk ops c' =>
          cases ops with
          | some ops => rfl
          | none =>
              dsimp only [amendSnd]
              rw [map_bind]
              rfl
  | relink n cid ops toDrop =>
      simp only [Threads.stepCollect]
      rw [relinkFull_amend hAt.1 hAt.2]
      rfl
  | prepare n cid ops toDrop =>
      cases toDrop with
      | nil => rfl
      | cons first rest =>
          simp only [Threads.stepCollect]
          rw [prepareBuffer_amend hBuffer (List.ne_of_not_mem_cons hAt).symm]
          rfl
  | check n cid ops size todo =>
      cases todo with
      | nil =>
          simp only [Threads.stepCollect]
          rw [slabs_amend hBuffer, writeBlock_amend hBuffer hAt.1, map_bind]
          rfl
      | cons d todo =>
          have hd : d ≠ sid := (List.ne_of_not_mem_cons hAt.2).symm
          simp only [Threads.stepCollect]
          rw [checkMove_amend hBuffer hd, readDslab_amend hd, map_bind]
          rfl
  | move n cid ops size d fake todo =>
      simp only [Threads.stepCollect]
      rw [moveLive_amend hBuffer hAt, bind_map, map_bind]
      rfl
  | copy n cid ops =>
      simp only [Threads.stepCollect]
      rw [copyHeader_amend hBuffer hAt]
      rfl
  | modify n cid ops =>
      simp only [Threads.stepCollect]
      rw [modifyIndexTo_amend hBuffer hAt]
      rfl
  | _ => rfl

theorem stepHandBack_amend (build : Build) (cfg : Config) {a : GcAt} (hAt : a.Spares sid)
    (hPool : ∀ ch, sid ∉ (c.opsPool ch).list) :
    Threads.stepHandBack build cfg (c.amend sid s p) a =
      (Threads.stepHandBack build cfg c a).map (amendFst sid s p) := by
  cases a with
  | tune n =>
      simp only [Threads.stepHandBack]
      have hTune : (c.amend sid s p).tuneOpsPool n.oldOpsSize =
          amendSnd sid s p (c.tuneOpsPool n.oldOpsSize) := by
        simp only [Cache.tuneOpsPool]
        change (if c.nrFreeDslab > c.freeBlockWaterMarkHigh then _ else _) = _
        split <;> rfl
      rw [hTune, map_bind]
      rfl
  | refill n newOpsSize left channel =>
      simp only [Threads.stepHandBack]
      split
      · rw [map_bind]
        rfl
      · cases hList : (n.freeList channel).list with
        | nil => rfl
        | cons d rest =>
            have hd : d ≠ sid := by
              rintro rfl
              exact hAt channel (hList ▸ List.mem_cons_self)
            dsimp only
            rw [refillOps_amend hd]
            rfl
  | shrink n count =>
      cases count with
      | zero => rfl
      | succ count =>
          simp only [Threads.stepHandBack]
          rw [shrinkOps_amend hPool]
          rfl
  | reclaim n =>
      simp only [Threads.stepHandBack]
      rw [reclaim_amend hAt, bind_map]
      simp only [map_bind]
      rfl
  | _ => rfl

/-- The collector takes the same step on an amended cache. -/
theorem stepGc_amend {pick : List Nat} {fuel : Nat} {a : GcAt} (hAt : a.Spares sid)
    (hBuffer : cfg.gcBuffer ≠ sid) (hPool : ∀ ch, sid ∉ (c.opsPool ch).list) :
    Threads.stepGc build cfg pick fuel (c.amend sid s p) a =
      (Threads.stepGc build cfg pick fuel c a).map (amendFst sid s p) := by
  cases a with
  | scan channel pq => exact stepChoose_amend build cfg pick hAt
  | batch n cid toDrop moved left => exact stepChoose_amend build cfg pick hAt
  | take n cid toDrop => exact stepCollect_amend build cfg hAt hBuffer
  | relink n cid ops toDrop => exact stepCollect_amend build cfg hAt hBuffer
  | prepare n cid ops toDrop => exact stepCollect_amend build cfg hAt hBuffer
  | check n cid ops size todo => exact stepCollect_amend build cfg hAt hBuffer
  | move n cid ops size d fake todo => exact stepCollect_amend build cfg hAt hBuffer
  | copy n cid ops => exact stepCollect_amend build cfg hAt hBuffer
  | modify n cid ops => exact stepCollect_amend build cfg hAt hBuffer
  | tune n => exact stepHandBack_amend build cfg hAt hPool
  | refill n newOpsSize left channel => exact stepHandBack_amend build cfg hAt hPool
  | shrink n count => exact stepHandBack_amend build cfg hAt hPool
  | reclaim n => exact stepHandBack_amend build cfg hAt hPool
  | idle => exact stepQuick_amend build cfg fuel hAt
  | awake => exact stepQuick_amend build cfg fuel hAt
  | decide nrFree => exact stepQuick_amend build cfg fuel hAt
  | quickTune => exact stepQuick_amend build cfg fuel hAt
  | quickSelect f o => exact stepQuick_amend build cfg fuel hAt
  | quickEvict o toDrop todo => exact stepQuick_amend build cfg fuel hAt
  | quickFree rest => exact stepQuick_amend build cfg fuel hAt

end KVCache
