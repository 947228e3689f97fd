import KVCache.Invariant.Drafts
import KVCache.Invariant.Outside
import KVCache.Invariant.Transitions

/-! The steps of the other threads while the writer is at its slot: what they do
to a cache, they also do to the one in which the slot is already written. -/

namespace KVCache

variable {build : Build} {cfg : Config} {c c' d : Cache} {t t' : Threads} {g g' : Ghost}
  {p : PendingPut} {dr : Draft} {draft : Option Draft} {sid x : Nat} {w : Worker}

/-! ### The slab of the writer -/

theorem amend_self (h : sid < c.slabs.cells.length) :
    c.amend sid (c.slabs sid) c.slabPartial = c := by
  rw [Cache.amend, Table.set_get_self _ h]

/-- Slabs of different owners are different. -/
theorem Ghost.ne_of_owner {r : Role} (hSid : (g.role sid).owner = some .writer) (hx : g.role x = r)
    (hOwner : r.owner ≠ some .writer) : x ≠ sid := by
  rintro rfl
  rw [hx] at hSid
  exact hOwner hSid

theorem Inv.not_mem_list {l : SlabList} {place : Place} (hSid : (g.role sid).owner = some .writer)
    (hMem : sid ∈ l.list → g.place sid = place) (hPlace : (Role.atRest place).owner ≠ some .writer)
    (hNowhere : place ≠ .nowhere) (hFull : place ≠ .dslabFull) : sid ∉ l.list := by
  intro h
  rw [Role.eq_atRest (hMem h) hNowhere hFull] at hSid
  exact hPlace hSid

theorem FlushOk.spares {a : FlushAt} (h : FlushOk cfg g a)
    (hSid : (g.role sid).owner = some .writer) : a.Spares sid := by
  cases a with
  | idle => trivial
  | holding m => exact Ghost.ne_of_owner hSid h (by simp [Role.owner])
  | found m d channel =>
      exact ⟨Ghost.ne_of_owner hSid h.1 (by simp [Role.owner]),
        Ghost.ne_of_owner hSid h.2.1 (by simp [Role.owner])⟩
  | written m d channel =>
      exact ⟨Ghost.ne_of_owner hSid h.1 (by simp [Role.owner]),
        Ghost.ne_of_owner hSid h.2.1 (by simp [Role.owner])⟩
  | copied m d channel =>
      exact ⟨Ghost.ne_of_owner hSid h.1 (by simp [Role.owner]),
        Ghost.ne_of_owner hSid h.2.1 (by simp [Role.owner])⟩
  | moved m d channel =>
      exact ⟨Ghost.ne_of_owner hSid h.1 (by simp [Role.owner]),
        Ghost.ne_of_owner hSid h.2.1 (by simp [Role.owner])⟩
  | reset m d channel =>
      exact ⟨Ghost.ne_of_owner hSid h.1 (by simp [Role.owner]),
        Ghost.ne_of_owner hSid h.2.1 (by simp [Role.owner])⟩
  | freed d channel => exact Ghost.ne_of_owner hSid h.1 (by simp [Role.owner])

/-- No member of a list has the role of the writer's slab. -/
theorem Ghost.not_mem_of_role {r : Role} {ds : List Nat} (hSid : (g.role sid).owner = some .writer)
    (hRole : ∀ d ∈ ds, g.role d = r) (hOwner : r.owner ≠ some .writer) : sid ∉ ds :=
  fun hMem => Ghost.ne_of_owner hSid (hRole sid hMem) hOwner rfl

theorem FreeList.not_mem {freeList : Table SlabList} (h : FreeList cfg g freeList)
    (hSid : (g.role sid).owner = some .writer) (channel : Nat) : sid ∉ (freeList channel).list := by
  intro hMem
  rw [(((h.mem channel sid).mp hMem).1.collecting).owner] at hSid
  cases hSid

theorem GcOk.spares {a : GcAt} (h : GcOk cfg c g a) (hSid : (g.role sid).owner = some .writer) :
    a.Spares sid := by
  cases a with
  | quickEvict o toDrop todo =>
      refine ⟨fun hMem => ?_, Ghost.not_mem_of_role hSid h.dropped (by simp [Role.owner])⟩
      by_cases hTodo : sid ∈ todo
      · exact Ghost.ne_of_owner hSid (h.dropped sid hTodo) (by simp [Role.owner]) rfl
      · exact Ghost.ne_of_owner hSid (h.clean sid hMem hTodo) (by simp [Role.owner]) rfl
  | quickFree rest =>
      exact Ghost.not_mem_of_role hSid (fun d hd => h.clean d hd List.not_mem_nil)
        (by simp [Role.owner])
  | scan channel pq => exact Ghost.not_mem_of_role hSid h.2.2 (by simp [Role.owner])
  | batch n cid toDrop moved left =>
      exact Ghost.not_mem_of_role hSid
        (fun d hd => h.2.1.full d (List.mem_append_right _ hd)) (by simp [Role.owner])
  | relink n cid ops toDrop =>
      exact ⟨Ghost.ne_of_owner hSid h.2.2.2 (by simp [Role.owner]),
        Ghost.not_mem_of_role hSid h.2.1.full (by simp [Role.owner])⟩
  | prepare n cid ops toDrop =>
      exact Ghost.not_mem_of_role hSid h.2.1.dropped (by simp [Role.owner])
  | check n cid ops size todo =>
      exact ⟨Ghost.ne_of_owner hSid h.2.2.1 (by simp [Role.owner]),
        Ghost.not_mem_of_role hSid h.2.1.dropped (by simp [Role.owner])⟩
  | move n cid ops size d fake todo =>
      exact Ghost.ne_of_owner hSid (h.2.1.dropped d List.mem_cons_self) (by simp [Role.owner])
  | copy n cid ops => exact Ghost.ne_of_owner hSid h.2.2 (by simp [Role.owner])
  | modify n cid ops => exact Ghost.ne_of_owner hSid h.2.2 (by simp [Role.owner])
  | refill n newOpsSize left channel => exact h.freeList.not_mem hSid
  | reclaim n => exact h.freeList.not_mem hSid
  | _ => trivial

/-! ### Two caches -/

/-- The step does the same on the cache in which the slot is already written. -/
theorem Draft.Ends.follow {α : Type} {F : Cache → Except Stop (Cache × α)} {a : α}
    (h : dr.Ends build cfg c c') (hLt : dr.put.sid < c.slabs.cells.length)
    (hF : ∀ s lists, F (c.amend dr.put.sid s lists) =
      (F c).map (amendFst dr.put.sid s lists))
    (hRun : F c = .ok (d, a)) :
    (∃ d', F c' = .ok (d', a) ∧ dr.Ends build cfg d d') ∧ d.slabPartial = c.slabPartial := by
  -- on the slab and the lists that are there already it changes nothing
  have hOwn := hF (c.slabs dr.put.sid) c.slabPartial
  rw [amend_self hLt, hRun] at hOwn
  have hSame : d = d.amend dr.put.sid (c.slabs dr.put.sid) c.slabPartial :=
    (Prod.mk.inj (Except.ok.inj hOwn)).1
  have hSlab : d.slabs dr.put.sid = c.slabs dr.put.sid := by
    rw [hSame]
    exact Table.get_set_self _ _ _
  have hLists : d.slabPartial = c.slabPartial := by
    rw [hSame]
    rfl
  refine ⟨⟨_, ?_, h.of_same hSlab hLists⟩, hLists⟩
  rw [h.eq, hF, hRun]
  rfl

/-- The interleaving is in a state that the cache is in, or will be in once the
writer has done the rest of its slot. -/
def Relates (build : Build) (cfg : Config) : Option Draft → Cache → Threads → Prop
  | none, c, t => t.cache = c
  | some dr, c, t => t.writer = .written dr.put ∧ dr.Ends build cfg c t.cache

theorem FlushStep.slabPartial {a a' : FlushAt} (h : FlushStep build cfg c a c' a') :
    c'.slabPartial = c.slabPartial := by
  cases h with
  | find hTake =>
      obtain ⟨_, _, _, rfl⟩ := takeFreeFrom_changes hTake
      rfl
  | miss hTake =>
      obtain ⟨_, _, _, rfl⟩ := takeFreeFrom_changes hTake
      rfl
  | move =>
      obtain ⟨_, _, hChanges⟩ := modifyIndexTo_changes cfg c _ _
      rw [hChanges]
  | _ => rfl

theorem slabPartial_delete {key : Key} (hRun : c.delete build cfg key = .ok c') :
    c'.slabPartial = c.slabPartial := by
  unfold Cache.delete at hRun
  split at hRun
  · obtain rfl := Except.ok.inj hRun
    rfl
  · cases build with
    | release =>
        obtain rfl := Except.ok.inj hRun
        rfl
    | debug =>
        simp only [Execution.bind_eq_ok, Execution.pure_eq_ok] at hRun
        obtain ⟨_, _, rfl⟩ := hRun
        rfl

theorem assertThat_onlyFails (build : Build) (site : Assertion) (cond : Bool) :
    Execution.Avoids (fun e => ¬e.Failed) (assertThat build site cond) := by
  cases build with
  | release => exact .ok ()
  | debug =>
      cases cond with
      | true => exact .ok ()
      | false => exact .error (not_not_intro trivial)

theorem assertThat_failed {site : Assertion} {cond : Bool} {e : Stop}
    (h : assertThat build site cond = .error e) : e.Failed :=
  not_not.mp (assertThat_onlyFails build site cond e h)

/-- The only way in which a slot is not taken is that an assertion fails. -/
theorem allocPartial_failed {cid : Nat} {e : Stop} (hRun : c.allocPartial build cid sid = .error e) :
    e.Failed := by
  have hAvoids : Execution.Avoids (fun e => ¬e.Failed) (c.allocPartial build cid sid) := by
    refine (assertThat_onlyFails _ _ _).bind fun _ _ => (assertThat_onlyFails _ _ _).bind fun _ _ => ?_
    refine ((assertThat_onlyFails _ _ _).bind fun _ _ => .ok _).bind fun _ _ => ?_
    dsimp only
    split <;> exact .ok _
  exact not_not.mp (hAvoids e hRun)

/-- What the other threads may do to the cache while the writer is in `Put`. -/
structure Undisturbed (w : WriterAt) (c c' : Cache) : Prop where
  lists : c'.slabPartial = c.slabPartial
  full : ∀ sid, w = .indexed sid → (c'.slabs sid).isFull = (c.slabs sid).isFull

theorem Undisturbed.refl (w : WriterAt) (c : Cache) : Undisturbed w c c := ⟨rfl, fun _ _ => rfl⟩

theorem WriterOk.isFull (h : WriterOk cfg c g (.indexed sid)) (hFrame : Frame cfg w c g c' g')
    (hw : w ≠ .writer) : (c'.slabs sid).isFull = (c.slabs sid).isFull := by
  have hOwner : (g.role sid).owner = some .writer := by
    rcases h.2 with hRole | ⟨k, hRole⟩ <;> rw [hRole] <;> rfl
  have hSame := hFrame.same sid (by rw [hOwner]; exact fun hEq => hw (Option.some.inj hEq).symm)
  rw [Slab.isFull, Slab.isFull, hSame.nrAlloc, hSame.nrSlots]

namespace ThreadsInv

/-- The slab of a draft belongs to the writer. -/
theorem owner_of_written (h : ThreadsInv cfg t g) (hAt : t.writer = .written p) :
    (g.role p.sid).owner = some .writer := by
  have hWriter := h.writer
  rw [hAt] at hWriter
  exact (h.inv.pend p hWriter).owner

theorem lt_of_written (h : ThreadsInv cfg t g) (hAt : t.writer = .written p) :
    p.sid < cfg.gcBuffer := by
  have hRange := (h.inv.slab p.sid).range
  have hWriter := h.writer
  rw [hAt] at hWriter
  rcases (h.inv.pend p hWriter).role with ⟨k, hRole⟩ | hRole
  · rw [hRole] at hRange
    exact hRange
  · rw [hRole] at hRange
    exact hRange

/-- The slab of a draft is stored before it is filled, too. -/
theorem lt_cells_of_draft (h : ThreadsInv cfg t g) (hAt : t.writer = .written dr.put)
    (hEnds : dr.Ends build cfg c t.cache) : dr.put.sid < c.slabs.cells.length := by
  have hLt := h.lt_of_written hAt
  have hMemory := h.inv.config.memory
  -- the buffer comes after all slabs of the writer
  have hSid : (t.cache.slabs cfg.gcBuffer).sid = cfg.gcBuffer :=
    h.inv.sid_eq (by simp only [Config.nrSlab, Config.gcBuffer]; omega)
  rw [hEnds.eq, slabs_amend (Nat.ne_of_gt hLt)] at hSid
  refine hLt.trans (c.slabs.lt_length_of_ne_default fun hDefault => ?_)
  rw [hDefault] at hSid
  change 0 = cfg.gcBuffer at hSid
  omega

/-- A step of the flush thread. -/
theorem follow_flush {a : FlushAt} (h : ThreadsInv cfg t g) (hRel : Relates build cfg draft c t)
    (hRun : Threads.stepFlush build cfg c t.flush = .ok (c', a)) :
    ∃ d, Threads.stepFlush build cfg t.cache t.flush = .ok (d, a) ∧
      Relates build cfg draft c' { t with cache := d, flush := a } ∧
      Undisturbed t.writer c c' := by
  cases draft with
  | none =>
      obtain rfl := hRel
      obtain ⟨g', hSilent, -, -⟩ := h.flush.step h.inv hRun
      refine ⟨c', hRun, rfl, (stepFlush_inv hRun).slabPartial, fun sid hAt => ?_⟩
      have hWriter := h.writer
      rw [hAt] at hWriter
      exact hWriter.isFull hSilent.frame (by simp)
  | some dr =>
      obtain ⟨hAt, hEnds⟩ := hRel
      have hOwner := h.owner_of_written hAt
      have hLists := h.inv.lists
      have hFull : dr.put.sid ∉ c.mslabFull.list := by
        have hNot : dr.put.sid ∉ t.cache.mslabFull.list :=
          Inv.not_mem_list hOwner hLists.mem_mslabFull.mp (by simp [Role.atRest, Role.owner])
            (by simp) (by simp)
        rwa [hEnds.eq] at hNot
      have hFree : ∀ ch, dr.put.sid ∉ (c.dslabFree ch).list := by
        intro ch
        have hNot : dr.put.sid ∉ (t.cache.dslabFree ch).list :=
          Inv.not_mem_list hOwner (fun hMem => (hLists.mem_dslabFree.mp hMem).1)
            (by simp [Role.atRest, Role.owner]) (by simp) (by simp)
        rwa [hEnds.eq] at hNot
      obtain ⟨⟨d, hStep, hEnds'⟩, hPartial⟩ := hEnds.follow
        (F := fun c => Threads.stepFlush build cfg c t.flush) (h.lt_cells_of_draft hAt hEnds)
        (fun _ _ => stepFlush_amend (h.flush.spares hOwner) hFull hFree) hRun
      refine ⟨d, hStep, ⟨hAt, hEnds'⟩, hPartial, fun sid hIndexed => ?_⟩
      rw [hAt] at hIndexed
      cases hIndexed

/-- A step of the collector. -/
theorem follow_gc {pick : List Nat} {fuel : Nat} {a : GcAt} (h : ThreadsInv cfg t g)
    (hRel : Relates build cfg draft c t)
    (hRun : Threads.stepGc build cfg pick fuel c t.gc = .ok (c', a)) :
    ∃ d, Threads.stepGc build cfg pick fuel t.cache t.gc = .ok (d, a) ∧
      Relates build cfg draft c' { t with cache := d, gc := a } ∧
      Undisturbed t.writer c c' := by
  cases draft with
  | none =>
      obtain rfl := hRel
      obtain ⟨g', hForgets, -, -⟩ := h.gc.step h.inv hRun
      refine ⟨c', hRun, rfl, ?_, fun sid hAt => ?_⟩
      · exact congrArg Outside.slabPartial (stepGc_inv hRun).outside
      · have hWriter := h.writer
        rw [hAt] at hWriter
        exact hWriter.isFull hForgets.frame (by simp)
  | some dr =>
      obtain ⟨hAt, hEnds⟩ := hRel
      have hOwner := h.owner_of_written hAt
      have hPool : ∀ ch, dr.put.sid ∉ (c.opsPool ch).list := by
        intro ch
        have hNot : dr.put.sid ∉ (t.cache.opsPool ch).list :=
          Inv.not_mem_list hOwner (fun hMem => (h.inv.lists.mem_opsPool.mp hMem).1)
            (by simp [Role.atRest, Role.owner]) (by simp) (by simp)
        rwa [hEnds.eq] at hNot
      obtain ⟨⟨d, hStep, hEnds'⟩, hPartial⟩ := hEnds.follow
        (F := fun c => Threads.stepGc build cfg pick fuel c t.gc) (h.lt_cells_of_draft hAt hEnds)
        (fun _ _ => stepGc_amend (h.gc.spares hOwner) (Nat.ne_of_gt (h.lt_of_written hAt)) hPool) hRun
      refine ⟨d, hStep, ⟨hAt, hEnds'⟩, hPartial, fun sid hIndexed => ?_⟩
      rw [hAt] at hIndexed
      cases hIndexed

/-- A `Delete`. -/
theorem follow_delete {key : Key} (h : ThreadsInv cfg t g) (hRel : Relates build cfg draft c t)
    (hRun : c.delete build cfg key = .ok c') :
    ∃ d, t.cache.delete build cfg key = .ok d ∧ Relates build cfg draft c' { t with cache := d } ∧
      Undisturbed t.writer c c' := by
  have hPartial := slabPartial_delete hRun
  cases draft with
  | none =>
      obtain rfl := hRel
      obtain ⟨hReindex, -⟩ := h.inv.delete hRun
      refine ⟨c', hRun, rfl, hPartial, fun sid _ => ?_⟩
      rw [Slab.isFull, Slab.isFull, (hReindex.same sid).nrAlloc, (hReindex.same sid).nrSlots]
  | some dr =>
      obtain ⟨hAt, hEnds⟩ := hRel
      obtain ⟨d, hDelete, hEnds'⟩ := hEnds.delete hRun
      refine ⟨d, hDelete, ⟨hAt, hEnds'⟩, hPartial, fun sid hIndexed => ?_⟩
      rw [hAt] at hIndexed
      cases hIndexed

/-! ### The writer -/

/-- The writer takes a slot of the partial slab of the class. -/
theorem follow_partial {key : Key} {value : Value} {cid slotId : Nat} {u : Setup}
    (hRel : Relates u.build u.cfg none c t) (hIdle : t.writer = .idle)
    (hClass : getSlabClass u.cfg (slotSize key value) = some cid)
    (hRun : u.slotOfPartial cid c = .ok (some (sid, slotId), c')) :
    ∃ d, t.beginPut u.build u.cfg key value =
        .ok { t with cache := d, writer := .written ⟨key, value, sid, slotId⟩ } ∧
      Draft.Ends u.build u.cfg ⟨.allocated, ⟨key, value, sid, slotId⟩⟩ c' d := by
  obtain rfl := hRel
  refine ⟨c'.writeSlot sid slotId key value, ?_, .of_writeSlot⟩
  simp only [Setup.slotOfPartial] at hRun
  simp only [Threads.beginPut, hIdle, Cache.putSlot, Cache.slotAlloc, hClass]
  cases hList : t.cache.slabPartial cid with
  | nil =>
      rw [hList] at hRun
      cases hRun
  | cons x rest =>
      rw [hList] at hRun
      simp only [Execution.bind_eq_ok, Execution.pure_eq_ok] at hRun
      obtain ⟨⟨c₁, i⟩, hAlloc, hEnd⟩ := hRun
      obtain ⟨hSlot, rfl⟩ := Prod.mk.inj hEnd
      obtain ⟨rfl, rfl⟩ := Prod.mk.inj (Option.some.inj hSlot)
      dsimp only
      rw [hAlloc]
      rfl

/-- The writer takes a free slab when its class has no partial one. -/
theorem follow_take {key : Key} {value : Value} {cid : Nat} {rest : List Nat} {u : Setup}
    (h : ThreadsInv u.cfg t g) (hRel : Relates u.build u.cfg none c t) (hIdle : t.writer = .idle)
    (hClass : getSlabClass u.cfg (slotSize key value) = some cid) (hEmpty : c.slabPartial cid = [])
    (hFree : c.mslabFree.list = sid :: rest) :
    ∃ slotId d, t.beginPut u.build u.cfg key value =
        .ok { t with cache := d, writer := .written ⟨key, value, sid, slotId⟩ } ∧
      Draft.Ends u.build u.cfg ⟨.taken cid, ⟨key, value, sid, slotId⟩⟩
        { c with mslabFree := c.mslabFree.del sid } d := by
  obtain rfl := hRel
  have hAvoids : Execution.Avoids Stop.Failed (t.beginPut u.build u.cfg key value) := h.avoids_beginPut
  cases hAlloc : (t.cache.openSlab u.cfg cid sid).allocPartial u.build cid sid with
  | error e =>
      -- no assertion fails, and there is a slab
      have hStop : t.beginPut u.build u.cfg key value = .error e := by
        simp only [Threads.beginPut, hIdle, Cache.putSlot, Cache.slotAlloc, hClass, hEmpty, hFree,
          hAlloc]
        rfl
      exact absurd (allocPartial_failed hAlloc) (hAvoids e hStop)
  | ok r =>
      obtain ⟨c₁, slotId⟩ := r
      refine ⟨slotId, c₁.writeSlot sid slotId key value, ?_, ?_⟩
      · simp only [Threads.beginPut, hIdle, Cache.putSlot, Cache.slotAlloc, hClass, hEmpty, hFree,
          hAlloc]
        rfl
      · obtain ⟨hTakes, rfl⟩ := Draft.allocPartial_eq_ok.mp hAlloc
        have hSlab : (t.cache.openSlab u.cfg cid sid).slabs sid =
            (t.cache.slabs sid).openFor u.cfg cid := Table.get_modify_self _ _ _
        rw [hSlab] at hTakes ⊢
        refine ⟨hTakes, ?_⟩
        simp only [Cache.writeSlot, Cache.amend, Cache.openSlab, Table.modify, Table.set_set,
          Table.get_set_self]
        rfl

end ThreadsInv

end KVCache
