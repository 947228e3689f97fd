import KVCache.Invariant.Assertions
import KVCache.Invariant.Independence
import KVCache.Semantics.Locking

/-! A slot that `Put` has chosen is taken from its slab, counted and written in
several actions, and other threads run in between. Here these actions are
gathered at the first of them: the cache in which they are done already, and
that the other threads take the same steps on it. -/

namespace KVCache

variable {u : Setup} {build : Build} {cfg : Config} {c c' c₁ d : Cache} {t t' : Threads}
  {g : Ghost} {p : PendingPut} {cid sid slotId : Nat}

/-- How far the writer is with the slot that it has chosen. -/
inductive Stage where
  /-- the slab has left the free list -/
  | taken (cid : Nat)
  /-- the slab is the partial one of its class -/
  | opened (cid : Nat)
  /-- the slot is counted -/
  | allocated
  deriving DecidableEq, Repr

/-- A `Put` that has chosen its slot and has not written it yet. -/
structure Draft where
  stage : Stage
  put : PendingPut
  deriving DecidableEq, Repr

namespace Slab

/-- The header of a slab that is opened for a class. -/
def openFor (cfg : Config) (cid : Nat) (s : Slab) : Slab :=
  { s with
    cid := cid, slotSize := cfg.classSize cid
    nrSlots := cfg.slabSlots (cfg.classSize cid) }

/-- The slab with one slot more. -/
def counted (s : Slab) : Slab := { s with nrAlloc := s.nrAlloc + 1, nrUsed := s.nrUsed + 1 }

/-- The slab with one use less. -/
def unused (s : Slab) : Slab := { s with nrUsed := s.nrUsed - 1 }

/-- `slot_alloc` takes this slot of the slab next. -/
structure Takes (build : Build) (s : Slab) (slotId : Nat) : Prop where
  cid : assertThat build .slotAllocPartialCid (-1 ≤ s.cid) = .ok ()
  room : assertThat build .slotAllocPartialFull (!s.isFull) = .ok ()
  alloc : assertThat build .slabSlotAllocFull (!s.isFull) = .ok ()
  slot : s.nrAlloc = slotId

end Slab

/-- A slab that is full leaves the partial list of its class. -/
def leaveFull (cid sid : Nat) (s : Slab) (lists : Table (List Nat)) : Table (List Nat) :=
  if s.isFull then lists.modify cid (·.erase sid) else lists

namespace Draft

/-- The slab once its slot is written. -/
def slab (cfg : Config) : Draft → Slab → Slab
  | ⟨.taken cid, p⟩, s => (s.openFor cfg cid).counted.writeSlot p.slotId p.key p.value
  | ⟨.opened _, p⟩, s => s.counted.writeSlot p.slotId p.key p.value
  | ⟨.allocated, p⟩, s => s.writeSlot p.slotId p.key p.value

/-- The partial lists by then. -/
def lists (cfg : Config) : Draft → Slab → Table (List Nat) → Table (List Nat)
  | ⟨.taken cid, p⟩, s, lists =>
      leaveFull cid p.sid (s.openFor cfg cid).counted (lists.modify cid (p.sid :: ·))
  | ⟨.opened cid, p⟩, s, lists => leaveFull cid p.sid s.counted lists
  | ⟨.allocated, _⟩, _, lists => lists

/-- The rest of `slot_alloc` ends with the slot that was chosen. -/
def Ready (build : Build) (cfg : Config) : Draft → Slab → Table (List Nat) → Prop
  | ⟨.taken cid, p⟩, s, _ => (s.openFor cfg cid).Takes build p.slotId
  | ⟨.opened cid, p⟩, s, lists => (∃ rest, lists cid = p.sid :: rest) ∧ s.Takes build p.slotId
  | ⟨.allocated, _⟩, _, _ => True

/-- What is left of the `Put` up to its written slot leads from one cache to the
other. -/
structure Ends (build : Build) (cfg : Config) (dr : Draft) (c c' : Cache) : Prop where
  ready : dr.Ready build cfg (c.slabs dr.put.sid) c.slabPartial
  eq : c' = c.amend dr.put.sid (dr.slab cfg (c.slabs dr.put.sid))
    (dr.lists cfg (c.slabs dr.put.sid) c.slabPartial)

/-! ### What the writer does -/

theorem allocPartial_eq_ok : c.allocPartial build cid sid = .ok (c₁, slotId) ↔
    (c.slabs sid).Takes build slotId ∧ c₁ = c.amend sid (c.slabs sid).counted
      (leaveFull cid sid (c.slabs sid).counted c.slabPartial) := by
  simp only [Cache.allocPartial, Slab.slotAlloc, Execution.bind_eq_ok, Execution.pure_eq_ok]
  constructor
  · rintro ⟨⟨⟩, hCid, ⟨⟩, hRoom, ⟨slab, i⟩, ⟨⟨⟩, hAlloc, hSlab⟩, hEnd⟩
    obtain ⟨rfl, rfl⟩ := Prod.mk.inj hSlab
    dsimp only at hEnd
    split at hEnd
    · rename_i hFull
      obtain ⟨rfl, rfl⟩ := Prod.mk.inj (Except.ok.inj hEnd)
      refine ⟨⟨hCid, hRoom, hAlloc, rfl⟩, ?_⟩
      rw [leaveFull, if_pos (show (c.slabs sid).counted.isFull from hFull)]
      rfl
    · rename_i hFull
      obtain ⟨rfl, rfl⟩ := Prod.mk.inj (Except.ok.inj hEnd)
      refine ⟨⟨hCid, hRoom, hAlloc, rfl⟩, ?_⟩
      rw [leaveFull, if_neg (show ¬(c.slabs sid).counted.isFull from hFull)]
      rfl
  · rintro ⟨⟨hCid, hRoom, hAlloc, rfl⟩, rfl⟩
    refine ⟨(), hCid, (), hRoom, _, ⟨(), hAlloc, rfl⟩, ?_⟩
    dsimp only
    split
    · rename_i hFull
      rw [leaveFull, if_pos (show (c.slabs sid).counted.isFull from hFull)]
      rfl
    · rename_i hFull
      rw [leaveFull, if_neg (show ¬(c.slabs sid).counted.isFull from hFull)]
      rfl

namespace Ends

theorem of_writeSlot : Ends build cfg ⟨.allocated, p⟩ c (c.writeSlot p.sid p.slotId p.key p.value) :=
  ⟨trivial, rfl⟩

theorem written (h : Ends build cfg ⟨.allocated, p⟩ c c') :
    c' = c.writeSlot p.sid p.slotId p.key p.value := h.eq

/-- The slab is opened. -/
theorem openTaken (h : Ends u.build u.cfg ⟨.taken cid, p⟩ c c') :
    Ends u.build u.cfg ⟨.opened cid, p⟩ (u.openTaken cid p.sid c) c' := by
  have hSlab : (u.openTaken cid p.sid c).slabs p.sid = (c.slabs p.sid).openFor u.cfg cid :=
    Table.get_modify_self _ _ _
  refine ⟨⟨⟨c.slabPartial cid, Table.get_modify_self _ _ _⟩, ?_⟩, ?_⟩
  · rw [hSlab]
    exact h.ready
  · rw [h.eq, hSlab]
    simp only [Cache.amend, Setup.openTaken, Table.modify, Table.set_set]
    rfl

/-- The slot is counted. -/
theorem slotOfPartial (h : Ends u.build u.cfg ⟨.opened cid, p⟩ c c') :
    ∃ c₁, u.slotOfPartial cid c = .ok (some (p.sid, p.slotId), c₁) ∧
      Ends u.build u.cfg ⟨.allocated, p⟩ c₁ c' := by
  obtain ⟨⟨rest, hList⟩, hTakes⟩ := h.ready
  refine ⟨c.amend p.sid (c.slabs p.sid).counted
    (leaveFull cid p.sid (c.slabs p.sid).counted c.slabPartial), ?_, trivial, ?_⟩
  · simp only [Setup.slotOfPartial, hList]
    rw [allocPartial_eq_ok.mpr ⟨hTakes, rfl⟩]
    rfl
  · rw [h.eq]
    simp only [Cache.amend, Table.get_set_self, Table.set_set]
    rfl

end Ends

/-! ### What the others do -/

/-- A deletion may take a use from the slab in the meantime. -/
theorem slab_unused (cfg : Config) (dr : Draft) (s : Slab) :
    dr.slab cfg s.unused = (dr.slab cfg s).unused := by
  obtain ⟨stage, p⟩ := dr
  have hCount : ∀ s : Slab, s.unused.counted = s.counted.unused := by
    intro s
    simp only [Slab.counted, Slab.unused, Slab.mk.injEq, true_and, and_true]
    omega
  cases stage with
  | taken cid =>
      change ((s.openFor cfg cid).unused.counted).writeSlot _ _ _ = _
      rw [hCount]
      rfl
  | opened cid =>
      simp only [slab, hCount]
      rfl
  | allocated => rfl

theorem le_slab (cfg : Config) (dr : Draft) (s : Slab) : s.nrUsed ≤ (dr.slab cfg s).nrUsed := by
  obtain ⟨stage, p⟩ := dr
  cases stage with
  | taken cid => exact Int.le_of_lt (Int.lt_succ s.nrUsed)
  | opened cid => exact Int.le_of_lt (Int.lt_succ s.nrUsed)
  | allocated => exact Int.le_refl _

theorem lists_unused (cfg : Config) (dr : Draft) (s : Slab) (lists : Table (List Nat)) :
    dr.lists cfg s.unused lists = dr.lists cfg s lists := by
  obtain ⟨stage, p⟩ := dr
  cases stage <;> rfl

theorem Ready.unused {dr : Draft} {s : Slab} {lists : Table (List Nat)}
    (h : dr.Ready build cfg s lists) : dr.Ready build cfg s.unused lists := by
  obtain ⟨stage, p⟩ := dr
  cases stage with
  | taken cid => exact ⟨h.cid, h.room, h.alloc, h.slot⟩
  | opened cid => exact ⟨h.1, h.2.cid, h.2.room, h.2.alloc, h.2.slot⟩
  | allocated => trivial

namespace Ends

variable {dr : Draft}

/-- What leaves the slab and the partial lists alone keeps the rest of the `Put`
in place. -/
theorem of_same (h : Ends build cfg dr c c') (hSlab : d.slabs dr.put.sid = c.slabs dr.put.sid)
    (hLists : d.slabPartial = c.slabPartial) :
    Ends build cfg dr d (d.amend dr.put.sid (dr.slab cfg (c.slabs dr.put.sid))
      (dr.lists cfg (c.slabs dr.put.sid) c.slabPartial)) :=
  ⟨by rw [hSlab, hLists]; exact h.ready, by rw [hSlab, hLists]⟩

/-- A deletion does the same on both caches. -/
theorem delete {key : Key} {b : Build} (h : Ends build cfg dr c c')
    (hRun : c.delete b cfg key = .ok d) :
    ∃ d', c'.delete b cfg key = .ok d' ∧ Ends build cfg dr d d' := by
  obtain ⟨hReady, rfl⟩ := h
  unfold Cache.delete at hRun ⊢
  have hIndex : ∀ s lists, (c.amend dr.put.sid s lists).index = c.index := fun _ _ => rfl
  rw [hIndex]
  cases hGet : c.index.getIndexEntry cfg key with
  | none =>
      rw [hGet] at hRun
      obtain rfl := Except.ok.inj hRun
      exact ⟨_, rfl, hReady, rfl⟩
  | some e =>
      rw [hGet] at hRun
      cases b with
      | release =>
          obtain rfl := Except.ok.inj hRun
          exact ⟨_, rfl, hReady, rfl⟩
      | debug =>
          simp only [Execution.bind_eq_ok, Execution.pure_eq_ok] at hRun ⊢
          obtain ⟨⟨⟩, hPos, rfl⟩ := hRun
          have hEntries : ((c.index.unlink cfg key e).indexEntryFree e).entries = c.index.entries :=
            rfl
          rw [hEntries] at hPos ⊢
          by_cases hx : (c.index.entries e).slabId = dr.put.sid
          · -- the object is in the slab that is being filled
            rw [hx] at hPos ⊢
            refine ⟨_, ⟨(), ?_, rfl⟩, ?_, ?_⟩
            · have hLe := dr.le_slab cfg (c.slabs dr.put.sid)
              simp only [assertThat, Cache.amend, Table.get_set_self, decide_eq_true_eq] at hPos ⊢
              split at hPos
              · rw [if_pos (by omega)]
              · cases hPos
            · simp only [Table.get_modify_self]
              exact hReady.unused
            · simp only [Cache.amend, Table.modify, Table.set_set, Table.get_set_self]
              have hUnused := dr.slab_unused cfg (c.slabs dr.put.sid)
              have hLists := dr.lists_unused cfg (c.slabs dr.put.sid) c.slabPartial
              simp only [Slab.unused] at hUnused hLists
              rw [hUnused, hLists]
          · refine ⟨_, ⟨(), ?_, rfl⟩, ?_, ?_⟩
            · rw [slabs_amend hx]
              exact hPos
            · rw [Table.get_modify_of_ne _ _ (Ne.symm hx)]
              exact hReady
            · simp only [Cache.amend]
              rw [Table.modify_set_of_ne _ hx, Table.get_modify_of_ne _ _ (Ne.symm hx)]

end Ends

end Draft

end KVCache
