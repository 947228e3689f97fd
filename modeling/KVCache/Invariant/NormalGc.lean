import KVCache.Invariant.Move
import KVCache.Invariant.QuickGc

/-! Normal GC. A batch of full disk slabs of one class is emptied into the
buffer, the buffer is written to an over-provisioned slab, and the emptied
slabs wait on a local list until they become free or over-provisioned. -/

namespace KVCache

variable {build : Build} {cfg : Config} {c c' : Cache} {g g' : Ghost} {d ops : Nat}
  {freeList freeList' : Table SlabList}

/-- Waiting on the local list of the collector. -/
def Role.Freed : Role → Prop
  | .diskDropped | .diskClean => True
  | _ => False

/-- `free_list` holds the slabs that were dropped, by channel. -/
structure FreeList (cfg : Config) (g : Ghost) (freeList : Table SlabList) : Prop where
  nodup : ∀ channel, (freeList channel).list.Nodup
  mem : ∀ channel x, x ∈ (freeList channel).list ↔
    (g.role x).Freed ∧ g.channel cfg x = channel

namespace FreeList

theorem congr (h : FreeList cfg g freeList) (hBlock : g'.block = g.block)
    (hRole : ∀ x, (g'.role x).Freed ↔ (g.role x).Freed) : FreeList cfg g' freeList where
  nodup := h.nodup
  mem := fun channel x => by
    rw [h.mem, hRole]
    simp only [Ghost.channel, hBlock]

theorem add {r : Role} (h : FreeList cfg g freeList) (hOld : ¬(g.role d).Freed) (hNew : r.Freed) :
    FreeList cfg (g.become d r) (freeList.modify (g.channel cfg d) (·.add d)) where
  nodup := by
    intro channel
    rw [Table.get_modify]
    split
    · simp only [SlabList.add, List.nodup_cons]
      exact ⟨fun hMem => hOld ((h.mem _ d).mp hMem).1, h.nodup _⟩
    · exact h.nodup channel
  mem := by
    intro channel x
    have hChannel : (g.become d r).channel cfg x = g.channel cfg x := rfl
    rw [hChannel, Table.get_modify]
    by_cases hx : x = d
    · subst x
      rw [g.become_self]
      split
      · rename_i hEq
        simp [SlabList.add, hNew, hEq]
      · rename_i hEq
        rw [h.mem]
        simp [hOld, hNew, Ne.symm hEq]
    · rw [g.become_of_ne r hx, ← h.mem]
      split
      · rename_i hEq
        simp [SlabList.add, hx, hEq]
      · rfl

/-- A slab leaves the list, whatever happens to the recorded size. -/
theorem erase {r : Role} {f : SlabList → SlabList} (h : FreeList cfg g freeList) (hNew : ¬r.Freed)
    (hf : ∀ l, (f l).list = l.list.erase d) :
    FreeList cfg (g.become d r) (freeList.modify (g.channel cfg d) f) where
  nodup := by
    intro channel
    rw [Table.get_modify]
    split
    · rw [hf]
      exact (h.nodup _).erase d
    · exact h.nodup channel
  mem := by
    intro channel x
    have hChannel : (g.become d r).channel cfg x = g.channel cfg x := rfl
    rw [hChannel, Table.get_modify]
    by_cases hx : x = d
    · subst x
      rw [g.become_self]
      split
      · simp [hf, (h.nodup _).mem_erase_iff, hNew]
      · rename_i hEq
        rw [h.mem]
        simp [hNew, Ne.symm hEq]
    · rw [g.become_of_ne r hx, ← h.mem]
      split
      · rename_i hEq
        simp [hf, (h.nodup _).mem_erase_iff, hx, hEq]
      · rfl

end FreeList

/-! ### Taking an over-provisioned slab -/

namespace Inv

theorem unlinkOps {channel : Nat} (hInv : Inv cfg c g) (hMem : d ∈ (c.opsPool channel).list) :
    g.role d = .opsFree ∧ g.channel cfg d = channel ∧
      Silent cfg .gc c g
        { c with
          opsPool := c.opsPool.modify channel (·.del d)
          opsPoolSize := c.opsPoolSize - 1 } (g.become d .diskLoose) := by
  obtain ⟨hPlace, hChannel⟩ := hInv.lists.mem_opsPool.mp hMem
  have hRole : g.role d = .opsFree := Role.eq_atRest hPlace (by simp) (by simp)
  have hRange := (hInv.slab d).range
  have hShape := (hInv.slab d).shape
  rw [hRole] at hRange hShape
  refine ⟨hRole, hChannel, ?_⟩
  subst channel
  exact hInv.relink (d := g.drift) rfl rfl rfl (hInv.lists.leave_opsPool hPlace rfl)
    (by rw [hRole]; rfl) (by rw [hRole]; trivial) trivial hRange hShape
    (fun h => hInv.refs_of_dead hRole h) (by simp)

theorem takeOpsFrom {begin rounds : Nat} (hInv : Inv cfg c g)
    (hRun : Cache.takeOpsFrom cfg begin rounds c = (some ops, c')) :
    g.role ops = .opsFree ∧ c'.slabs = c.slabs ∧
      Silent cfg .gc c g c' (g.become ops .diskLoose) := by
  induction rounds generalizing c with
  | zero => simp [Cache.takeOpsFrom] at hRun
  | succ rounds ih =>
      have hCursor : Silent cfg .gc c g
          { c with nextOpsPoolRemoveChannel := cfg.nextChannel c.nextOpsPoolRemoveChannel } g :=
        hInv.unrelated rfl rfl rfl hInv.lists.congr
      simp only [Cache.takeOpsFrom] at hRun
      split at hRun
      · rename_i first _ hList
        obtain ⟨hFirst, rfl⟩ := Prod.mk.inj hRun
        obtain rfl := Option.some.inj hFirst
        have hMem : first ∈ (c.opsPool c.nextOpsPoolRemoveChannel).list := by rw [hList]; simp
        obtain ⟨hRole, -, hSilent⟩ := hCursor.inv.unlinkOps hMem
        exact ⟨hRole, rfl, hCursor.trans hSilent⟩
      · split at hRun
        · obtain ⟨hRole, hSlabs, hSilent⟩ := ih hCursor.inv hRun
          exact ⟨hRole, hSlabs, hCursor.trans hSilent⟩
        · simp at hRun

/-! ### Relinking -/

/-- The over-provisioned slab enters the full list, and the counter does not
follow. -/
theorem linkOps (hInv : Inv cfg c g) (hRole : g.role ops = .diskLoose) :
    Silent cfg .gc c g (c.linkOps cfg ops)
      { g.become ops (.diskTaken .gc) with drift := g.drift + 1 } := by
  have hRange := (hInv.slab ops).range
  rw [hRole] at hRange
  have hReset : Silent cfg .gc c g (c.resetSlab ops) (g.become ops .diskLoose) :=
    hInv.reset (by rw [hRole]; rfl) (by simp) (by rw [hRole]; trivial) trivial
      (by rw [hRole]; trivial) (by rw [Ghost.place, hRole]) hRange fun _ hFresh => hFresh
  have hShape := (hReset.inv.slab ops).shape
  rw [g.become_self] at hShape
  have hChannel := hReset.inv.channel_eq ops
  have hLists := hReset.inv.lists.enter_dslabFull (r := .diskTaken .gc) (d := g.drift + 1)
    (n := c.nrFullDslab) (g.place_become_self ops .diskLoose) rfl (by
      change c.nrFullDslab + ((g.drift + 1 : Nat) : Int) = c.nrFullDslab + (g.drift : Int) + 1
      omega)
  have hLink : Silent cfg .gc (c.resetSlab ops) (g.become ops .diskLoose) (c.linkOps cfg ops)
      { (g.become ops .diskLoose).become ops (.diskTaken .gc) with drift := g.drift + 1 } := by
    refine hReset.inv.relink rfl rfl rfl ?_ (by rw [g.become_self]; rfl)
      (by rw [g.become_self]; trivial) trivial hRange hShape
      (fun h => hReset.inv.refs_of_dead (g.become_self _ _) h) (by simp)
    rw [← hChannel] at hLists
    exact hLists
  rw [g.become_become] at hLink
  exact hReset.trans hLink

theorem linkOps_slab {x : Nat} (hx : x ≠ ops) : (c.linkOps cfg ops).slabs x = c.slabs x :=
  Table.get_modify_of_ne _ _ hx

/-- One slab of the batch moves from its full list to the local list. -/
theorem unlinkDrop (hInv : Inv cfg c g) (hList : FreeList cfg g freeList)
    (hRole : g.role d = .diskFull)
    (hRun : Cache.unlinkDrop cfg (c, freeList) d = (c', freeList')) :
    c'.slabs = c.slabs ∧ Silent cfg .gc c g c' (g.become d .diskDropped) ∧
      FreeList cfg (g.become d .diskDropped) freeList' := by
  obtain ⟨rfl, rfl⟩ := Prod.mk.inj hRun
  have hChannel := hInv.channel_eq d
  have hPlace : g.place d = .dslabFull := by rw [Ghost.place, hRole]; rfl
  have hMem : d ∈ (c.dslabFull (cfg.channelId (c.slabs d).blockId)).list :=
    hInv.lists.mem_dslabFull.mpr ⟨hPlace, hChannel.symm⟩
  refine ⟨rfl, hInv.unlinkFull hMem hRole, ?_⟩
  rw [hChannel]
  exact hList.add (by rw [hRole]; exact id) trivial

theorem unlinkDrops {toDrop : List Nat} (hInv : Inv cfg c g) (hList : FreeList cfg g freeList)
    (hRoles : ∀ d ∈ toDrop, g.role d = .diskFull) (hNodup : toDrop.Nodup)
    (hRun : toDrop.foldl (Cache.unlinkDrop cfg) (c, freeList) = (c', freeList')) :
    c'.slabs = c.slabs ∧ Silent cfg .gc c g c' (g.becomeAll toDrop .diskDropped) ∧
      FreeList cfg (g.becomeAll toDrop .diskDropped) freeList' := by
  induction toDrop generalizing c g freeList with
  | nil =>
      obtain ⟨rfl, rfl⟩ := Prod.mk.inj hRun
      rw [g.becomeAll_nil]
      exact ⟨rfl, .refl hInv, hList⟩
  | cons d rest ih =>
      obtain ⟨hNot, hNodup⟩ := List.nodup_cons.mp hNodup
      obtain ⟨hSlabs, hSilent, hList'⟩ := hInv.unlinkDrop hList (hRoles d (by simp)) rfl
      obtain ⟨hSlabs', hSilent', hList''⟩ :=
        ih hSilent.inv hList' (g.become_tail _ hNot hRoles) hNodup hRun
      rw [g.becomeAll_cons]
      exact ⟨hSlabs'.trans hSlabs, hSilent.trans hSilent', hList''⟩

/-! ### Filling the buffer -/

/-- The buffer is opened for the class of a full disk slab. -/
theorem prepareBuffer (hInv : Inv cfg c g) (hBuffer : g.role cfg.gcBuffer = .bufferIdle)
    (hRole : g.role d = .diskDropped) :
    Silent cfg .gc c g (c.prepareBuffer cfg d) (g.become cfg.gcBuffer .bufferBusy) := by
  have hOk := hInv.slab cfg.gcBuffer
  have hRange := hOk.range
  have hShape := (hInv.slab d).shape
  rw [hBuffer] at hRange
  rw [hRole] at hShape
  obtain ⟨⟨k, hClass⟩, -⟩ := hShape
  have hSelf : (c.prepareBuffer cfg d).slabs cfg.gcBuffer =
      { (c.slabs cfg.gcBuffer).reset with
        slotSize := (c.slabs d).slotSize, nrSlots := (c.slabs d).nrSlots
        cid := (c.slabs d).cid } := Table.get_modify_self _ _ _
  refine hInv.rewrite (f := fun s =>
    { s.reset with
      slotSize := (c.slabs d).slotSize, nrSlots := (c.slabs d).nrSlots, cid := (c.slabs d).cid })
    rfl rfl rfl (hInv.lists.congr.become ?_) (by rw [hBuffer]; rfl) (by rw [hBuffer]; trivial)
    trivial (by rw [hBuffer]; trivial) rfl rfl rfl (Nat.zero_le _) hRange ⟨⟨k, ?_⟩, ?_⟩ (by simp)
  · rw [Ghost.place, hBuffer]
    rfl
  · rw [hSelf]
    exact ⟨hClass.cid, hClass.isClass, hClass.slotSize, hClass.nrSlots⟩
  · intro i hi
    rw [hSelf] at hi
    exact absurd hi (Nat.not_lt_zero i)

end Inv

/-- Slots that the slabs of a list count as used. -/
def Cache.usedSum (c : Cache) (ds : List Nat) : Int := (ds.map fun d => (c.slabs d).nrUsed).sum

theorem Cache.usedSum_cons (c : Cache) (d : Nat) (ds : List Nat) :
    c.usedSum (d :: ds) = (c.slabs d).nrUsed + c.usedSum ds := by
  simp [Cache.usedSum]

theorem Cache.usedSum_congr {ds : List Nat} (h : ∀ d ∈ ds, (c'.slabs d).nrUsed = (c.slabs d).nrUsed) :
    c'.usedSum ds = c.usedSum ds :=
  congrArg List.sum (List.map_congr_left h)

theorem Cache.usedSum_nonneg (hInv : Inv cfg c g) (ds : List Nat) : 0 ≤ c.usedSum ds := by
  refine List.sum_nonneg fun n hn => ?_
  obtain ⟨d, -, rfl⟩ := List.mem_map.mp hn
  exact (hInv.slab d).nrUsed_nonneg

/-- The buffer is being filled, and the slabs of `ds` are still to be moved. -/
structure Filling (cfg : Config) (c : Cache) (g : Ghost) (ds : List Nat) : Prop where
  inv : Inv cfg c g
  buffer : g.role cfg.gcBuffer = .bufferBusy
  dropped : ∀ d ∈ ds, g.role d = .diskDropped
  slotSize : ∀ d ∈ ds, (c.slabs cfg.gcBuffer).slotSize = (c.slabs d).slotSize
  cid : ∀ d ∈ ds, (c.slabs d).cid = (c.slabs cfg.gcBuffer).cid
  room : ((c.slabs cfg.gcBuffer).nrAlloc : Int) + c.usedSum ds ≤ (c.slabs cfg.gcBuffer).nrSlots
  nodup : ds.Nodup

/-- The buffer has been opened for dropped slabs of one class. -/
theorem Inv.startFilling {k : Nat} {ds : List Nat} (hInv : Inv cfg c g)
    (hBuffer : g.role cfg.gcBuffer = .bufferIdle)
    (hDropped : ∀ x ∈ d :: ds, g.role x = .diskDropped)
    (hClass : ∀ x ∈ d :: ds, (c.slabs x).OfClass cfg k)
    (hSum : c.usedSum (d :: ds) ≤ cfg.slabSlots (cfg.classSize k)) (hNodup : (d :: ds).Nodup) :
    Silent cfg .gc c g (c.prepareBuffer cfg d) (g.become cfg.gcBuffer .bufferBusy) ∧
      Filling cfg (c.prepareBuffer cfg d) (g.become cfg.gcBuffer .bufferBusy) (d :: ds) := by
  have hPrepare := hInv.prepareBuffer hBuffer (hDropped d (by simp))
  have hne : ∀ x ∈ d :: ds, x ≠ cfg.gcBuffer := by
    rintro x hx rfl
    rw [hDropped _ hx] at hBuffer
    cases hBuffer
  have hSlab : ∀ x ∈ d :: ds, (c.prepareBuffer cfg d).slabs x = c.slabs x :=
    fun x hx => Table.get_modify_of_ne _ _ (hne x hx)
  have hOpened : (c.prepareBuffer cfg d).slabs cfg.gcBuffer =
      { (c.slabs cfg.gcBuffer).reset with
        slotSize := (c.slabs d).slotSize, nrSlots := (c.slabs d).nrSlots
        cid := (c.slabs d).cid } := Table.get_modify_self _ _ _
  have hUsed : (c.prepareBuffer cfg d).usedSum (d :: ds) = c.usedSum (d :: ds) :=
    Cache.usedSum_congr fun x hx => by rw [hSlab x hx]
  have hFirst := hClass d (by simp)
  refine ⟨hPrepare, hPrepare.inv, Ghost.become_self _ _ _, fun x hx => ?_, fun x hx => ?_,
    fun x hx => ?_, ?_, hNodup⟩
  · rw [Ghost.become_of_ne _ _ (hne x hx)]
    exact hDropped x hx
  · rw [hOpened, hSlab x hx, (hClass x hx).slotSize]
    exact hFirst.slotSize
  · rw [hOpened, hSlab x hx, (hClass x hx).cid]
    exact hFirst.cid.symm
  · rw [hUsed, hOpened]
    simp only [Slab.reset, hFirst.nrSlots]
    omega

namespace Filling

variable {ds : List Nat}

/-- The slabs still to come are not changed. -/
theorem slab_moved {x : Nat} (h : Filling cfg c g (d :: ds)) (hMoved : MovedLive cfg c d c')
    (hx : x ∈ ds) : c'.slabs x = c.slabs x := by
  have hNot := (List.nodup_cons.mp h.nodup).1
  have hRole := h.dropped x (List.mem_cons_of_mem d hx)
  exact hMoved.slab x (g.ne_of_role hRole h.buffer) fun hEq => hNot (hEq ▸ hx)

theorem usedSum_moved (h : Filling cfg c g (d :: ds)) (hMoved : MovedLive cfg c d c') :
    c'.usedSum ds = c.usedSum ds :=
  Cache.usedSum_congr fun x hx => by rw [h.slab_moved hMoved hx]

/-- The next slab can be moved, whatever the build. -/
theorem move (build : Build) (h : Filling cfg c g (d :: ds)) :
    ∃ c', c.moveLive build cfg d (c.readDslab d) = .ok c' ∧
      Silent cfg .gc c g c' (g.become d .diskClean) ∧ MovedLive cfg c d c' ∧
      Filling cfg c' (g.become d .diskClean) ds := by
  obtain ⟨hNot, hNodup⟩ := List.nodup_cons.mp h.nodup
  have hMovable : Movable cfg c g d :=
    ⟨h.inv, h.buffer, h.dropped d (by simp), h.slotSize d (by simp)⟩
  have hSum := c.usedSum_cons d ds
  have hRoom := h.room
  have hNonneg := Cache.usedSum_nonneg h.inv ds
  obtain ⟨c', hRun, hSilent, hMoved⟩ := hMovable.moveLive build (by omega)
  refine ⟨c', hRun, hSilent, hMoved, hSilent.inv, ?_, g.become_tail _ hNot h.dropped, ?_, ?_, ?_,
    hNodup⟩
  · rw [g.become_of_ne _ hMovable.ne]
    exact h.buffer
  · intro d' hd'
    rw [hMoved.slotSize, h.slab_moved hMoved hd']
    exact h.slotSize d' (by simp [hd'])
  · intro d' hd'
    rw [hMoved.cid, h.slab_moved hMoved hd']
    exact h.cid d' (by simp [hd'])
  · have hAlloc := hMoved.alloc
    rw [hMoved.nrSlots, h.usedSum_moved hMoved]
    omega

/-- The loop of `gc_dslabs` over the batch. -/
theorem loop {size size' : Int} (h : Filling cfg c g ds)
    (hRun : ds.foldlM (Cache.moveDslab build cfg) (c, size) = .ok (c', size')) :
    Silent cfg .gc c g c' (g.becomeAll ds .diskClean) ∧
      ∀ x, x ≠ cfg.gcBuffer → x ∉ ds → c'.slabs x = c.slabs x := by
  induction ds generalizing c g size with
  | nil =>
      obtain ⟨rfl, -⟩ : c = c' ∧ size = size' := by simpa using hRun
      rw [g.becomeAll_nil]
      exact ⟨.refl h.inv, fun _ _ _ => rfl⟩
  | cons d ds ih =>
      rw [List.foldlM_cons, Execution.bind_eq_ok] at hRun
      obtain ⟨⟨c₁, size₁⟩, hFirst, hRest⟩ := hRun
      obtain ⟨c₂, hMove, hSilent, hMoved, hNext⟩ := h.move build
      simp only [Cache.moveDslab, Execution.bind_eq_ok, Execution.pure_eq_ok, hMove] at hFirst
      obtain ⟨_, -, _, hSame, hPair⟩ := hFirst
      obtain rfl := Except.ok.inj hSame
      obtain ⟨rfl, rfl⟩ := Prod.mk.inj hPair
      obtain ⟨hSilent', hSlab⟩ := ih hNext hRest
      rw [g.becomeAll_cons]
      refine ⟨hSilent.trans hSilent', fun x hx hMem => ?_⟩
      simp only [List.mem_cons, not_or] at hMem
      rw [hSlab x hx hMem.2, hMoved.slab x hx hMem.1]

end Filling

/-! ### One batch -/

/-- Full disk slabs of one class. -/
structure Batch (c : Cache) (g : Ghost) (k : Nat) (ds : List Nat) : Prop where
  nodup : ds.Nodup
  full : ∀ d ∈ ds, g.role d = .diskFull
  cid : ∀ d ∈ ds, (c.slabs d).cid = k

theorem Batch.ofClass {k : Nat} {ds : List Nat} (h : Batch c g k ds) (hInv : Inv cfg c g)
    (hd : d ∈ ds) : (c.slabs d).OfClass cfg k := by
  have hShape := (hInv.slab d).shape
  rw [h.full d hd] at hShape
  obtain ⟨⟨k', hClass⟩, -⟩ := hShape
  have hEq : k' = k := by
    have := h.cid d hd
    rw [hClass.cid] at this
    exact_mod_cast this
  exact hEq ▸ hClass

theorem Batch.sublist {k : Nat} {ds ds' : List Nat} (h : Batch c g k ds) (hSub : ds'.Sublist ds) :
    Batch c g k ds' :=
  ⟨h.nodup.sublist hSub, fun d hd => h.full d (hSub.subset hd),
    fun d hd => h.cid d (hSub.subset hd)⟩

/-- A batch is the front of the candidates, and its slots fit into one slab. -/
theorem takeBatch_spec {k : Nat} {ds batch : List Nat} {moved : Int} (hInv : Inv cfg c g)
    (hBatch : Batch c g k ds) (hMoved : moved ≤ cfg.slabSlots (cfg.classSize k))
    (hRun : c.takeBatch build ds moved = .ok batch) :
    batch.Sublist ds ∧ moved + c.usedSum batch ≤ cfg.slabSlots (cfg.classSize k) := by
  induction ds generalizing moved batch with
  | nil =>
      obtain rfl := Except.ok.inj hRun
      simpa [Cache.usedSum] using hMoved
  | cons d ds ih =>
      unfold Cache.takeBatch at hRun
      obtain ⟨_, -, hRun⟩ := Execution.bind_eq_ok.mp hRun
      have hSlots := (hBatch.ofClass hInv (List.mem_cons_self)).nrSlots
      split at hRun
      · obtain rfl := Execution.pure_eq_ok.mp hRun
        simpa [Cache.usedSum] using hMoved
      · rename_i hLess
        obtain ⟨rest, hRest, hRun⟩ := Execution.bind_eq_ok.mp hRun
        obtain rfl := Execution.pure_eq_ok.mp hRun
        rw [hSlots] at hLess
        obtain ⟨hSub, hSum⟩ := ih (hBatch.sublist (List.sublist_cons_self d ds)) (by omega) hRest
        refine ⟨hSub.cons_cons d, ?_⟩
        simp only [Cache.usedSum, List.map_cons, List.sum_cons] at hSum ⊢
        omega

/-- Between two batches all that the collector holds is what it has emptied. -/
def Ghost.Settled (g : Ghost) : Prop := ∀ x, (g.role x).Collecting → g.role x = .diskClean

/-- The buffer has one of its three roles, whatever happens. -/
theorem Inv.buffer_role (hInv : Inv cfg c g) :
    g.role cfg.gcBuffer = .bufferIdle ∨ (g.role cfg.gcBuffer).Collecting := by
  have hRange := (hInv.slab cfg.gcBuffer).range
  have hMemory := hInv.config.memory
  generalize hr : g.role cfg.gcBuffer = r at hRange
  cases r <;> simp only [Role.InRange, Config.gcBuffer, Config.nrSlab] at hRange <;>
    first | exact .inl rfl | exact .inr trivial | omega

theorem Ghost.Settled.buffer (h : g.Settled) (hInv : Inv cfg c g) :
    g.role cfg.gcBuffer = .bufferIdle := by
  rcases hInv.buffer_role with hIdle | hBusy
  · exact hIdle
  · have hRange := (hInv.slab cfg.gcBuffer).range
    have hMemory := hInv.config.memory
    rw [h _ hBusy] at hRange
    simp only [Role.InRange, Config.gcBuffer] at hRange
    omega

/-- The ghost state once the over-provisioned slab and the batch have changed
lists. -/
def Ghost.relinked (g : Ghost) (toDrop : List Nat) (ops : Nat) : Ghost :=
  { g.become ops (.diskTaken .gc) with drift := g.drift + 1 }.becomeAll toDrop .diskDropped

section

variable {toDrop : List Nat}

theorem relinked_of_mem (hd : d ∈ toDrop) : (g.relinked toDrop ops).role d = .diskDropped :=
  Ghost.becomeAll_of_mem _ _ hd

theorem relinked_of_not_mem (hOps : d ≠ ops) (hd : d ∉ toDrop) :
    (g.relinked toDrop ops).role d = g.role d :=
  (Ghost.becomeAll_of_not_mem _ _ hd).trans (g.become_of_ne _ hOps)

theorem relinked_ops (hd : ops ∉ toDrop) : (g.relinked toDrop ops).role ops = .diskTaken .gc :=
  (Ghost.becomeAll_of_not_mem _ _ hd).trans (g.become_self _ _)

end

/-- The ghost state after a batch: the over-provisioned slab is full, the slabs
of the batch are empty, and the counter of full slabs has missed one. -/
def Ghost.collected (g : Ghost) (toDrop : List Nat) (ops : Nat) : Ghost :=
  { (g.becomeAll toDrop .diskClean).become ops .diskFull with drift := g.drift + 1 }

namespace Inv

variable {k : Nat} {toDrop : List Nat}

/-- The over-provisioned slab and the batch change lists. -/
theorem relinkFull (hInv : Inv cfg c g) (hOps : g.role ops = .diskLoose)
    (hList : FreeList cfg g freeList) (hRoles : ∀ d ∈ toDrop, g.role d = .diskFull)
    (hNodup : toDrop.Nodup) (hRun : c.relinkFull cfg ops toDrop freeList = (c', freeList')) :
    (∀ x, x ≠ ops → c'.slabs x = c.slabs x) ∧
      Silent cfg .gc c g c' (g.relinked toDrop ops) ∧
      FreeList cfg (g.relinked toDrop ops) freeList' := by
  have hLink := hInv.linkOps hOps
  have hList' : FreeList cfg { g.become ops (.diskTaken .gc) with drift := g.drift + 1 }
      freeList := by
    refine hList.congr rfl fun x => ?_
    by_cases hx : x = ops
    · subst x
      simp [hOps, Role.Freed]
    · simp [Ghost.become_of_ne _ _ hx]
  have hRoles' : ∀ d ∈ toDrop,
      ({ g.become ops (.diskTaken .gc) with drift := g.drift + 1 } : Ghost).role d = .diskFull := by
    intro d hd
    have hne : d ≠ ops := by
      rintro rfl
      rw [hRoles d hd] at hOps
      cases hOps
    exact (g.become_of_ne _ hne).trans (hRoles d hd)
  obtain ⟨hSlabs, hSilent, hList''⟩ := hLink.inv.unlinkDrops hList' hRoles' hNodup hRun
  refine ⟨fun x hx => ?_, hLink.trans hSilent, hList''⟩
  rw [hSlabs, linkOps_slab hx]

/-- The buffer goes to disk, and its entries with it. -/
theorem flushBuffer (hInv : Inv cfg c g) (hBuffer : g.role cfg.gcBuffer = .bufferBusy)
    (hOps : g.role ops = .diskTaken .gc) :
    Silent cfg .gc c g ((c.flushMslabToDslab cfg cfg.gcBuffer ops).modifyIndexTo cfg cfg.gcBuffer
      ops) ((g.become cfg.gcBuffer .bufferIdle).become ops .diskFull) := by
  have hne : cfg.gcBuffer ≠ ops := by
    intro hEq
    rw [hEq, hOps] at hBuffer
    cases hBuffer
  have h₁ := hInv.writeBlock (w := .gc) (by simp) hBuffer hOps
  have h₂ := h₁.inv.copyHeader (by simp) (Ghost.become_self _ _ _)
  have h₃ := h₂.inv.modifyIndexTo (by simp)
    (by rw [Ghost.become_of_ne _ _ hne, Ghost.become_of_ne _ _ hne, Ghost.become_self])
    (Ghost.become_self _ _ _)
  have hAll := (h₁.trans h₂).trans h₃
  have hGhost : ((((g.become cfg.gcBuffer (.sourceOf .gc ops)).become ops
      (.diskWritten .gc cfg.gcBuffer)).become ops (.diskCopy .gc cfg.gcBuffer)).become cfg.gcBuffer
      (.emptied .gc)).become ops (.filled .gc) =
      (g.become cfg.gcBuffer .bufferIdle).become ops .diskFull := by
    simp only [Ghost.become, Ghost.mk.injEq, and_true]
    funext y
    by_cases hy : y = ops <;> by_cases hb : y = cfg.gcBuffer <;>
      simp [Function.update_apply, hy, hb, Role.emptied, Role.filled]
  rw [hGhost] at hAll
  exact hAll

/-- `modify_index_to` changes no more than use counts of slabs. -/
theorem modifyIndexTo_same (c : Cache) (src dst x : Nat) :
    (c.slabs x).Same ((c.modifyIndexTo cfg src dst).slabs x) := by
  obtain ⟨index, nrUsed, hChanges⟩ := modifyIndexTo_changes cfg c src dst
  simp only [hChanges, Table.get_modify, Slab.Same]
  split <;> split <;> simp_all

theorem flushBuffer_same (cfg : Config) (c : Cache) {x : Nat} (hx : x ≠ ops) :
    (c.slabs x).Same (((c.flushMslabToDslab cfg cfg.gcBuffer ops).modifyIndexTo cfg cfg.gcBuffer
      ops).slabs x) := by
  have hCopy : (c.flushMslabToDslab cfg cfg.gcBuffer ops).slabs x = c.slabs x :=
    Table.get_modify_of_ne _ _ hx
  rw [← hCopy]
  exact modifyIndexTo_same _ _ _ _

/-- The roles after a batch, by the roles before. -/
theorem collected_eq (hBuffer : g.role cfg.gcBuffer = .bufferIdle)
    (hBufferNot : cfg.gcBuffer ∉ toDrop) (hne : cfg.gcBuffer ≠ ops) :
    ((((g.relinked toDrop ops).become cfg.gcBuffer .bufferBusy).becomeAll toDrop
      .diskClean).become cfg.gcBuffer .bufferIdle).become ops .diskFull =
      g.collected toDrop ops := by
  simp only [Ghost.collected, Ghost.relinked, Ghost.becomeAll, Ghost.become, Ghost.mk.injEq,
    and_true]
  funext y
  simp only [Function.update_apply]
  by_cases hy : y = ops
  · simp [hy]
  · by_cases hb : y = cfg.gcBuffer
    · subst y
      simp [hne, hBufferNot, hBuffer]
    · by_cases hm : y ∈ toDrop <;> simp [hy, hb, hm]

/-- The buffer is opened for the batch. -/
theorem openBuffer (hInv : Inv cfg c g) (hOps : g.role ops = .diskLoose)
    (hBuffer : g.role cfg.gcBuffer = .bufferIdle) (hBatch : Batch c g k (d :: toDrop))
    (hSum : c.usedSum (d :: toDrop) ≤ cfg.slabSlots (cfg.classSize k))
    (hInv' : Inv cfg c' (g.relinked (d :: toDrop) ops))
    (hSlab : ∀ x, x ≠ ops → c'.slabs x = c.slabs x) :
    Silent cfg .gc c' (g.relinked (d :: toDrop) ops) (c'.prepareBuffer cfg d)
        ((g.relinked (d :: toDrop) ops).become cfg.gcBuffer .bufferBusy) ∧
      Filling cfg (c'.prepareBuffer cfg d)
        ((g.relinked (d :: toDrop) ops).become cfg.gcBuffer .bufferBusy) (d :: toDrop) := by
  have hSame : ∀ x ∈ d :: toDrop, c'.slabs x = c.slabs x :=
    fun x hx => hSlab x (g.ne_of_role (hBatch.full x hx) hOps)
  have hUsed : c'.usedSum (d :: toDrop) = c.usedSum (d :: toDrop) :=
    Cache.usedSum_congr fun x hx => by rw [hSame x hx]
  have hBufferNot : cfg.gcBuffer ∉ d :: toDrop :=
    fun hMem => g.ne_of_role (hBatch.full _ hMem) hBuffer (by simp) rfl
  refine hInv'.startFilling ?_ (fun x hx => relinked_of_mem hx) (fun x hx => ?_)
    (hUsed.le.trans hSum) hBatch.nodup
  · rw [relinked_of_not_mem (g.ne_of_role hBuffer hOps) hBufferNot]
    exact hBuffer
  · rw [hSame x hx]
    exact hBatch.ofClass hInv hx

/-- The batch as a whole, once the over-provisioned slab is taken. -/
theorem collectBatch (hInv : Inv cfg c g) (hOps : g.role ops = .diskLoose)
    (hBuffer : g.role cfg.gcBuffer = .bufferIdle) (hList : FreeList cfg g freeList)
    (hBatch : Batch c g k (d :: toDrop))
    (hSum : c.usedSum (d :: toDrop) ≤ cfg.slabSlots (cfg.classSize k)) {c₁ c₂ : Cache} {size : Int}
    (hRelink : c.relinkFull cfg ops (d :: toDrop) freeList = (c₁, freeList'))
    (hMove : (d :: toDrop).foldlM (Cache.moveDslab build cfg) (c₁.prepareBuffer cfg d, 0) =
      .ok (c₂, size)) :
    Silent cfg .gc c g ((c₂.flushMslabToDslab cfg cfg.gcBuffer ops).modifyIndexTo cfg cfg.gcBuffer
        ops) (g.collected (d :: toDrop) ops) ∧
      FreeList cfg (g.collected (d :: toDrop) ops) freeList' ∧
      ∀ x, x ∉ d :: toDrop → x ≠ ops → x ≠ cfg.gcBuffer → (c.slabs x).Same
        (((c₂.flushMslabToDslab cfg cfg.gcBuffer ops).modifyIndexTo cfg cfg.gcBuffer ops).slabs
          x) := by
  have hOpsNot : ops ∉ d :: toDrop :=
    fun hMem => g.ne_of_role (hBatch.full _ hMem) hOps (by simp) rfl
  have hBufferNot : cfg.gcBuffer ∉ d :: toDrop :=
    fun hMem => g.ne_of_role (hBatch.full _ hMem) hBuffer (by simp) rfl
  have hne : cfg.gcBuffer ≠ ops := g.ne_of_role hBuffer hOps
  obtain ⟨hSlab₁, hSilent₁, hList₁⟩ :=
    hInv.relinkFull hOps hList hBatch.full hBatch.nodup hRelink
  obtain ⟨hPrepare, hFilling⟩ := hInv.openBuffer hOps hBuffer hBatch hSum hSilent₁.inv hSlab₁
  obtain ⟨hSilent₂, hSlab₂⟩ := hFilling.loop hMove
  have hOps₂ : (((g.relinked (d :: toDrop) ops).become cfg.gcBuffer .bufferBusy).becomeAll
      (d :: toDrop) .diskClean).role ops = .diskTaken .gc := by
    rw [Ghost.becomeAll_of_not_mem _ _ hOpsNot, Ghost.become_of_ne _ _ hne.symm]
    exact relinked_ops hOpsNot
  have hFlush := hSilent₂.inv.flushBuffer
    (by rw [Ghost.becomeAll_of_not_mem _ _ hBufferNot, Ghost.become_self]) hOps₂
  have hAll := ((hSilent₁.trans hPrepare).trans hSilent₂).trans hFlush
  rw [collected_eq hBuffer hBufferNot hne] at hAll
  refine ⟨hAll, hList₁.congr rfl fun x => ?_, fun x hx hxOps hxBuffer => ?_⟩
  · by_cases hxOps : x = ops
    · subst x
      simp [Ghost.collected, relinked_ops hOpsNot, Role.Freed]
    · by_cases hx : x ∈ d :: toDrop
      · simp [Ghost.collected, Ghost.become_of_ne _ _ hxOps, Ghost.becomeAll_of_mem _ _ hx,
          relinked_of_mem hx, Role.Freed]
      · simp [Ghost.collected, Ghost.become_of_ne _ _ hxOps, Ghost.becomeAll_of_not_mem _ _ hx,
          relinked_of_not_mem hxOps hx]
  · have hSame := flushBuffer_same cfg c₂ hxOps
    rw [hSlab₂ x hxBuffer hx] at hSame
    rwa [show (c₁.prepareBuffer cfg d).slabs x = c.slabs x from
      (Table.get_modify_of_ne _ _ hxBuffer).trans (hSlab₁ x hxOps)] at hSame

/-- An over-provisioned slab is taken for the batch. -/
theorem takeForBatch (hInv : Inv cfg c g) (hSettled : g.Settled) (hList : FreeList cfg g freeList)
    (hBatch : Batch c g k toDrop) (hTake : c.takeOps cfg = (some ops, c')) :
    g.role ops = .opsFree ∧ c'.slabs = c.slabs ∧
      Silent cfg .gc c g c' (g.become ops .diskLoose) ∧
      (g.become ops .diskLoose).role cfg.gcBuffer = .bufferIdle ∧
      FreeList cfg (g.become ops .diskLoose) freeList ∧
      Batch c' (g.become ops .diskLoose) k toDrop := by
  obtain ⟨hOps, hSlabs, hTaken⟩ := hInv.takeOpsFrom hTake
  have hBuffer := hSettled.buffer hInv
  have hKeep : ∀ x, g.role x ≠ .opsFree → (g.become ops .diskLoose).role x = g.role x :=
    fun x hx => g.become_of_ne _ fun hEq => hx (hEq ▸ hOps)
  refine ⟨hOps, hSlabs, hTaken, ?_, hList.congr rfl fun x => ?_, hBatch.nodup, fun x hx => ?_,
    fun x hx => ?_⟩
  · rw [hKeep _ (by rw [hBuffer]; simp)]
    exact hBuffer
  · by_cases hx : x = ops
    · subst x
      simp [hOps, Role.Freed]
    · rw [g.become_of_ne _ hx]
  · rw [hKeep x (by rw [hBatch.full x hx]; simp)]
    exact hBatch.full x hx
  · rw [hSlabs]
    exact hBatch.cid x hx

/-- The parts of a run of `gc_dslabs`. -/
theorem gcDslabs_cases (hRun : Cache.gcDslabs build cfg toDrop c freeList = .ok (c', freeList')) :
    ∃ ops c₀ d rest c₂ size, toDrop = d :: rest ∧ c.takeOps cfg = (some ops, c₀) ∧
      toDrop.foldlM (Cache.moveDslab build cfg)
        ((c₀.relinkFull cfg ops toDrop freeList).1.prepareBuffer cfg d, 0) = .ok (c₂, size) ∧
      c' = (c₂.flushMslabToDslab cfg cfg.gcBuffer ops).modifyIndexTo cfg cfg.gcBuffer ops ∧
      freeList' = (c₀.relinkFull cfg ops toDrop freeList).2 := by
  unfold Cache.gcDslabs at hRun
  split at hRun
  · rename_i ops c₀ d rest hTake
    simp only [Execution.bind_eq_ok, Execution.pure_eq_ok] at hRun
    obtain ⟨⟨c₂, size⟩, hMove, _, -, hPair⟩ := hRun
    obtain ⟨rfl, rfl⟩ := Prod.mk.inj hPair
    exact ⟨ops, c₀, d, rest, c₂, size, rfl, hTake, hMove, rfl, rfl⟩
  · cases hRun
  · obtain ⟨_, -, hRun⟩ := Execution.bind_eq_ok.mp hRun
    cases hRun

/-- `gc_dslabs`. -/
theorem gcDslabs (hInv : Inv cfg c g) (hSettled : g.Settled) (hList : FreeList cfg g freeList)
    (hBatch : Batch c g k toDrop) (hSum : c.usedSum toDrop ≤ cfg.slabSlots (cfg.classSize k))
    (hRun : Cache.gcDslabs build cfg toDrop c freeList = .ok (c', freeList')) :
    ∃ ops, g.role ops = .opsFree ∧ Silent cfg .gc c g c' (g.collected toDrop ops) ∧
      FreeList cfg (g.collected toDrop ops) freeList' ∧
      ∀ x, x ∉ toDrop → x ≠ ops → x ≠ cfg.gcBuffer → (c.slabs x).Same (c'.slabs x) := by
  obtain ⟨ops, c₀, d, rest, c₂, size, rfl, hTake, hMove, rfl, rfl⟩ := gcDslabs_cases hRun
  obtain ⟨hOps, hSlabs, hTaken, hBuffer, hList', hBatch'⟩ :=
    hInv.takeForBatch hSettled hList hBatch hTake
  have hUsed : c₀.usedSum (d :: rest) = c.usedSum (d :: rest) :=
    Cache.usedSum_congr fun x _ => by rw [hSlabs]
  obtain ⟨hSilent, hFreed, hSame⟩ := hTaken.inv.collectBatch (g.become_self _ _) hBuffer hList'
    hBatch' (hUsed.le.trans hSum) rfl hMove
  have hGhost : (g.become ops .diskLoose).collected (d :: rest) ops =
      g.collected (d :: rest) ops := by
    simp only [Ghost.collected, Ghost.becomeAll, Ghost.become, Ghost.mk.injEq, and_true]
    funext y
    by_cases hy : y = ops <;> simp [Function.update_apply, hy]
  rw [hGhost] at hSilent hFreed
  exact ⟨ops, hOps, hTaken.trans hSilent, hFreed,
    fun x hx hxOps hxBuffer => by rw [← hSlabs]; exact hSame x hx hxOps hxBuffer⟩

end Inv

section

variable {toDrop : List Nat}

theorem collected_ops : (g.collected toDrop ops).role ops = .diskFull :=
  (g.becomeAll toDrop .diskClean).become_self _ _

theorem collected_of_mem (hOps : d ≠ ops) (hd : d ∈ toDrop) :
    (g.collected toDrop ops).role d = .diskClean :=
  (Ghost.become_of_ne _ _ hOps).trans (g.becomeAll_of_mem _ hd)

theorem collected_of_not_mem (hOps : d ≠ ops) (hd : d ∉ toDrop) :
    (g.collected toDrop ops).role d = g.role d :=
  (Ghost.become_of_ne _ _ hOps).trans (g.becomeAll_of_not_mem _ hd)

/-- A batch leaves nothing half done. -/
theorem Ghost.Settled.collected (h : g.Settled) : (g.collected toDrop ops).Settled := by
  intro x hx
  by_cases hOps : x = ops
  · subst x
    rw [collected_ops] at hx
    exact hx.elim
  · by_cases hMem : x ∈ toDrop
    · exact collected_of_mem hOps hMem
    · rw [collected_of_not_mem hOps hMem] at hx ⊢
      exact h x hx

/-- No slab is lost in a batch. -/
theorem Batch.sameLoose {k : Nat} (h : Batch c g k toDrop) (hOps : g.role ops = .opsFree) :
    g.SameLoose (g.collected toDrop ops) := by
  intro x
  by_cases hx : x = ops
  · subst x
    rw [collected_ops, hOps]
    simp
  · by_cases hMem : x ∈ toDrop
    · rw [collected_of_mem hx hMem, h.full x hMem]
      simp
    · rw [collected_of_not_mem hx hMem]

end

end KVCache
