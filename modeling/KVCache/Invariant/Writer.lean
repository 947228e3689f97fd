import KVCache.Data.Execution
import KVCache.Invariant.Frame
import KVCache.Semantics.Writer

/-! The parts of `Put` and `Delete` keep the invariant. Taking and writing a
slot is not seen by lookups; the index update is the moment at which a key is
bound or forgotten. -/

namespace KVCache

/-- Some object belongs to the class. -/
def Config.Selects (cfg : Config) (k : Nat) : Prop :=
  ∃ size ≤ cfg.classSize k, Slot.headerSize ≤ size ∧ getSlabClass cfg size = some k

instance (cfg : Config) (k : Nat) : Decidable (cfg.Selects k) :=
  inferInstanceAs (Decidable (∃ size ≤ cfg.classSize k,
    Slot.headerSize ≤ size ∧ getSlabClass cfg size = some k))

theorem getSlabClass_some {cfg : Config} {size cid : Nat} (h : getSlabClass cfg size = some cid) :
    cid < cfg.nrSlabClass ∧ size ≤ cfg.classSize cid := by
  simp only [getSlabClass] at h
  split at h
  · rename_i hFound
    obtain rfl : _ = cid := Option.some.inj h
    exact hFound
  · cases h

variable {build : Build} {cfg : Config} {c c' : Cache} {g : Ghost} {cid sid slotId : Nat}
  {key : Key} {value : Value}

/-- A class that some object fits into has at least one slot in a slab. -/
theorem Config.Sound.slabSlots_pos (hCfg : cfg.Sound) (hClass : cid < cfg.nrSlabClass)
    (hPos : 0 < cfg.classSize cid) : 0 < cfg.slabSlots (cfg.classSize cid) :=
  Nat.div_pos (hCfg.classes _ (cfg.classSize_mem hClass)) hPos

/-! ### Taking a slot -/

namespace Inv

theorem openSlab (hInv : Inv cfg c g) (hPend : g.pend = none) (hMem : sid ∈ c.mslabFree.list)
    (hClass : cid < cfg.nrSlabClass) (hPos : 0 < cfg.classSize cid) :
    Silent cfg .writer c g (c.openSlab cfg cid sid) (g.become sid (.memPartial cid)) := by
  have hPlace : g.place sid = .mslabFree := hInv.lists.mem_mslabFree.mp hMem
  have hRole : g.role sid = .memFree := Role.eq_atRest hPlace (by simp) (by simp)
  have hOk := hInv.slab sid
  have hRange := hOk.range
  have hShape := hOk.shape
  have hUsed := hOk.bounds.1
  have hCounts := hOk.counts
  rw [hRole] at hRange hShape
  have hAlloc : (c.slabs sid).nrAlloc = 0 := hShape.nrAlloc
  have hSelf : (c.openSlab cfg cid sid).slabs sid =
      { c.slabs sid with
        cid := cid, slotSize := cfg.classSize cid
        nrSlots := cfg.slabSlots (cfg.classSize cid) } := Table.get_modify_self _ _ _
  have hSlabs : (c.openSlab cfg cid sid).slabs = c.slabs.modify sid fun s =>
      { s with
        cid := cid, slotSize := cfg.classSize cid
        nrSlots := cfg.slabSlots (cfg.classSize cid) } := rfl
  have hLists : Lists cfg (c.openSlab cfg cid sid) (g.become sid (.memPartial cid)) := by
    have hLeft := hInv.lists.leave_mslabFree (r := .memWriter) hPlace rfl
    have hEnter := hLeft.enter_slabPartial (r := .memPartial cid)
      (Ghost.place_become_self _ _ _) rfl
    rw [Ghost.become_become] at hEnter
    exact hEnter.congr
  refine hInv.rewrite hSlabs rfl rfl hLists (by rw [hRole]; rfl) (by rw [hRole]; trivial) trivial
    (by rw [hRole]; trivial) rfl rfl (by simp only; omega) (by simp only; omega) hRange ?_
    fun _ => hPend
  refine ⟨?_, ?_, ?_⟩
  · rw [hSelf]
    exact ⟨rfl, hClass, rfl, rfl⟩
  · intro i hi
    rw [hSelf] at hi
    simp only [hAlloc] at hi
    omega
  · rw [hSelf]
    simp only [hAlloc]
    exact hInv.config.slabSlots_pos hClass hPos

/-- The role of a partial slab after one more slot was taken. -/
def nextPartial (s : Slab) (cid : Nat) : Role :=
  if s.nrAlloc + 1 = s.nrSlots then .memWriter else .memPartial cid

/-- A slot of a partial slab is taken and written. -/
theorem takeSlot (hInv : Inv cfg c g) (hPend : g.pend = none)
    (hRole : g.role sid = .memPartial cid) (hSize : slotSize key value ≤ cfg.classSize cid)
    (hSelf : c'.slabs sid = (c.slabs sid).push key value)
    (hOther : ∀ y ≠ sid, c'.slabs y = c.slabs y) (hDisk : c'.disk = c.disk)
    (hIndex : c'.index = c.index)
    (hLists : Lists cfg c' (g.become sid (nextPartial (c.slabs sid) cid))) :
    Silent cfg .writer c g c'
      { g.become sid (nextPartial (c.slabs sid) cid) with
        pend := some ⟨key, value, sid, (c.slabs sid).nrAlloc⟩ } := by
  have hOk := hInv.slab sid
  have hRange := hOk.range
  have hShape := hOk.shape
  rw [hRole] at hRange hShape
  obtain ⟨hClass, hFit, hLess⟩ := hShape
  have hSize' : Slot.headerSize + key.length + value.length ≤ (c.slabs sid).slotSize := by
    rw [hClass.slotSize]
    exact hSize
  have hSlot : (c.slabs sid).slotSize < 2 ^ 31 := by
    have := hClass.slotSize_le hInv.config
    have := hInv.config.slabSize
    omega
  have hMemory : (c.slabs sid).blockId = -1 := by
    have := hInv.config.memory
    simp only [Role.InRange, Config.gcBuffer] at hRange
    rw [hInv.blockId_eq_iff (by simp only [Config.nrSlab]; omega)]
    omega
  have hMemory' : (c'.slabs sid).blockId = -1 := by rw [hSelf]; exact hMemory
  have hNext : ({ g.become sid (nextPartial (c.slabs sid) cid) with
      pend := some ⟨key, value, sid, (c.slabs sid).nrAlloc⟩ } : Ghost).role sid =
      nextPartial (c.slabs sid) cid := g.become_self _ _
  have hTouch : Touch cfg .writer [sid] c g c'
      { g.become sid (nextPartial (c.slabs sid) cid) with
        pend := some ⟨key, value, sid, (c.slabs sid).nrAlloc⟩ } :=
    { index := hIndex, block := rfl, exact := rfl, pend := fun h => absurd rfl h
      role := fun y hy => g.become_of_ne _ (by simpa using hy)
      slab := fun y hy => hOther y (by simpa using hy)
      stored := fun y hy _ => by
        simp only [Cache.block, hOther y (by simpa using hy), hDisk]
      pending := fun y hy => by
        have hne : sid ≠ y := fun h => hy (by simp [h])
        simp [Ghost.pending, hPend, hne]
      own := fun y hy => by
        obtain rfl : y = sid := by simpa using hy
        rw [hRole]; rfl
      handed := fun y hy => by
        obtain rfl : y = sid := by simpa using hy
        rw [hNext, nextPartial]
        split <;> exact .inl rfl
      source := fun y hy dst hSource => by
        obtain rfl : y = sid := by simpa using hy
        rw [hRole] at hSource
        simp at hSource }
  refine hTouch.silent hInv (hLists.congr_ghost (fun _ => rfl) rfl rfl) ?_ ?_ ?_
  · intro y hy
    obtain rfl : y = sid := by simpa using hy
    constructor
    case range =>
      rw [hNext, nextPartial]
      split <;> exact hRange
    case sid => rw [hSelf]; exact hOk.sid
    case blockId => rw [hSelf]; exact hOk.blockId
    case shape =>
      have hClass' : (c'.slabs y).OfClass cfg cid := by
        rw [hSelf]
        exact ⟨hClass.cid, hClass.isClass, hClass.slotSize, hClass.nrSlots⟩
      have hFit' : (c'.slabs y).SlotsFit := by
        rw [hSelf]
        exact Slab.slotsFit_push hSize' hSlot hFit
      rw [hNext, nextPartial]
      split
      · rename_i hFull
        refine ⟨⟨cid, hClass'⟩, hFit', ?_⟩
        rw [hSelf]
        exact hFull
      · rename_i hPartial
        refine ⟨hClass', hFit', ?_⟩
        rw [hSelf]
        exact Nat.lt_of_le_of_ne hLess hPartial
    case source =>
      intro src hSrc
      rw [hNext, nextPartial] at hSrc
      split at hSrc <;> simp [Role.src] at hSrc
    case bounds =>
      have := hOk.bounds.1
      rw [hSelf]
      simp only [Slab.push, Slab.writeSlot]
      omega
    case counts =>
      have := hOk.counts
      simp only [Ghost.pending, hPend] at this
      simp only [hSelf, Slab.push, Slab.writeSlot, hIndex, Ghost.pending]
      simp
      omega
    case exact =>
      intro hg _
      have := hOk.exact hg (by rw [hRole]; exact id)
      simp only [Ghost.pending, hPend] at this
      simp only [hSelf, Slab.push, Slab.writeSlot, hIndex, Ghost.pending]
      simp
      omega
    case dead =>
      rw [hNext, nextPartial]
      split <;> exact fun h => h.elim
  · intro y hy _
    obtain rfl : y = sid := by simpa using hy
    refine ⟨?_, fun i hi => ?_⟩
    · rw [hSelf]
      exact Nat.le_succ _
    · rw [Cache.slotAt_of_memory hMemory', Cache.slotAt_of_memory hMemory, hSelf]
      exact Slab.slot_push_of_lt hSize' hFit hi
  · intro _ p hp
    obtain rfl := Option.some.inj hp
    constructor
    case role =>
      rw [hNext, nextPartial]
      split
      · exact .inr rfl
      · exact .inl ⟨cid, rfl⟩
    case alloc =>
      rw [hSelf]
      exact Nat.lt_succ_self _
    case slot =>
      rw [Cache.slotAt_of_memory hMemory', hSelf]
      exact Slab.slot_push_self hSize' hSlot

theorem allocPartial (hInv : Inv cfg c g) (hPend : g.pend = none)
    (hRole : g.role sid = .memPartial cid) (hSize : slotSize key value ≤ cfg.classSize cid)
    (hRun : c.allocPartial build cid sid = .ok (c', slotId)) :
    Silent cfg .writer c g (c'.writeSlot sid slotId key value)
      { g.become sid (nextPartial (c.slabs sid) cid) with
        pend := some ⟨key, value, sid, slotId⟩ } := by
  have hPlace : g.place sid = .slabPartial cid := by rw [Ghost.place, hRole]; rfl
  unfold Cache.allocPartial Slab.slotAlloc at hRun
  simp only [Execution.bind_eq_ok, Execution.pure_eq_ok] at hRun
  obtain ⟨_, -, _, -, ⟨slab, slot⟩, ⟨_, -, hAlloc⟩, hRun⟩ := hRun
  obtain ⟨rfl, rfl⟩ := Prod.mk.inj hAlloc
  simp only at hRun
  split at hRun
  · rename_i hFull
    obtain ⟨rfl, rfl⟩ := Prod.mk.inj (Execution.pure_eq_ok.mp hRun)
    have hNext : nextPartial (c.slabs sid) cid = .memWriter := by
      simp only [Slab.isFull, beq_iff_eq] at hFull
      simp [nextPartial, hFull]
    refine hInv.takeSlot hPend hRole hSize (by simp [Cache.writeSlot, Slab.push]) ?_ rfl rfl ?_
    · intro y hy
      simp [Cache.writeSlot, Table.get_modify_of_ne _ _ hy, Table.get_set_of_ne _ _ hy]
    · rw [hNext]
      exact (hInv.lists.leave_slabPartial hPlace rfl).congr
  · rename_i hFull
    obtain ⟨rfl, rfl⟩ := Prod.mk.inj (Execution.pure_eq_ok.mp hRun)
    have hNext : nextPartial (c.slabs sid) cid = .memPartial cid := by
      simp only [Slab.isFull, beq_iff_eq] at hFull
      simp [nextPartial, hFull]
    refine hInv.takeSlot hPend hRole hSize (by simp [Cache.writeSlot, Slab.push]) ?_ rfl rfl ?_
    · intro y hy
      simp [Cache.writeSlot, Table.get_modify_of_ne _ _ hy, Table.get_set_of_ne _ _ hy]
    · rw [hNext]
      exact hInv.lists.congr.become hPlace.symm

/-- The slot is the only thing that changes. -/
theorem allocPartial_slabs (hRun : c.allocPartial build cid sid = .ok (c', slotId)) :
    ((c'.writeSlot sid slotId key value).slabs sid).cid = (c.slabs sid).cid ∧
      ∀ y, y ≠ sid → (c'.writeSlot sid slotId key value).slabs y = c.slabs y := by
  unfold Cache.allocPartial Slab.slotAlloc at hRun
  simp only [Execution.bind_eq_ok, Execution.pure_eq_ok] at hRun
  obtain ⟨_, -, _, -, ⟨slab, slot⟩, ⟨_, -, hAlloc⟩, hRun⟩ := hRun
  obtain ⟨rfl, rfl⟩ := Prod.mk.inj hAlloc
  split at hRun <;> obtain ⟨rfl, rfl⟩ := Prod.mk.inj (Execution.pure_eq_ok.mp hRun)
  all_goals
    refine ⟨by simp [Cache.writeSlot, Slab.writeSlot], fun y hy => ?_⟩
    simp [Cache.writeSlot, Table.get_modify_of_ne _ _ hy, Table.get_set_of_ne _ _ hy]

/-- The slab in which the writer takes a slot: the partial slab of the class, or
a free one when the class has none. -/
structure SlotTaken (cfg : Config) (c : Cache) (g : Ghost) (c' : Cache) (sid cid : Nat) (r : Role) :
    Prop where
  selected : cfg.Selects cid
  before : g.role sid = .memPartial cid ∨
    (g.role sid = .memFree ∧ ∀ y, g.role y ≠ .memPartial cid)
  after : r = .memWriter ∨ r = .memPartial cid
  cid : (c'.slabs sid).cid = cid
  other : ∀ y, y ≠ sid → c'.slabs y = c.slabs y

/-- The first part of `Put`: the object is in a slot, and its entry is to come. -/
theorem putSlot (hInv : Inv cfg c g) (hPend : g.pend = none)
    (hRun : c.putSlot build cfg key value = .ok (.slot c' sid slotId)) :
    ∃ (cid : Nat) (r : Role), SlotTaken cfg c g c' sid cid r ∧
      Silent cfg .writer c g c'
        { g.become sid r with pend := some ⟨key, value, sid, slotId⟩ } := by
  have hNext : ∀ s k, nextPartial s k = .memWriter ∨ nextPartial s k = .memPartial k := by
    intro s k
    unfold nextPartial
    split
    · exact .inl rfl
    · exact .inr rfl
  unfold Cache.putSlot at hRun
  obtain ⟨alloc, hAlloc, hRun⟩ := Execution.bind_eq_ok.mp hRun
  unfold Cache.slotAlloc at hAlloc
  split at hAlloc
  · obtain rfl := Except.ok.inj hAlloc
    simp at hRun
  · rename_i cid hClass
    obtain ⟨hIsClass, hSize⟩ := getSlabClass_some hClass
    have hSelects : cfg.Selects cid :=
      ⟨_, hSize, by simp only [slotSize]; omega, hClass⟩
    split at hAlloc
    · rename_i first _ hPartial
      obtain ⟨⟨c₁, i⟩, hTake, hAlloc⟩ := Execution.bind_eq_ok.mp hAlloc
      obtain rfl := Execution.pure_eq_ok.mp hAlloc
      obtain ⟨rfl, rfl, rfl⟩ := SlotAlloc.slot.inj (Execution.pure_eq_ok.mp hRun)
      have hPlace : g.place first = .slabPartial cid :=
        hInv.lists.mem_slabPartial.mp (by rw [hPartial]; simp)
      have hRole : g.role first = .memPartial cid := Role.eq_atRest hPlace (by simp) (by simp)
      have hShape := (hInv.slab first).shape
      rw [hRole] at hShape
      obtain ⟨hCid, hOther⟩ := allocPartial_slabs hTake
      exact ⟨cid, _, ⟨hSelects, .inl hRole, hNext _ _, hCid.trans hShape.1.cid, hOther⟩,
        hInv.allocPartial hPend hRole hSize hTake⟩
    · rename_i first _ hPartial hFree
      obtain ⟨⟨c₁, i⟩, hTake, hAlloc⟩ := Execution.bind_eq_ok.mp hAlloc
      obtain rfl := Execution.pure_eq_ok.mp hAlloc
      obtain ⟨rfl, rfl, rfl⟩ := SlotAlloc.slot.inj (Execution.pure_eq_ok.mp hRun)
      have hPos : 0 < cfg.classSize cid := by
        simp only [slotSize, Slot.headerSize] at hSize
        omega
      have hMem : first ∈ c.mslabFree.list := by rw [hFree]; simp
      have hRole : g.role first = .memFree :=
        Role.eq_atRest (hInv.lists.mem_mslabFree.mp hMem) (by simp) (by simp)
      have hNone : ∀ y, g.role y ≠ .memPartial cid := by
        intro y hy
        have hMem : y ∈ c.slabPartial cid :=
          hInv.lists.mem_slabPartial.mpr (by rw [Ghost.place, hy]; rfl)
        rw [hPartial] at hMem
        cases hMem
      have hOpen := hInv.openSlab hPend hMem hIsClass hPos
      have hSlot := hOpen.inv.allocPartial hPend (Ghost.become_self _ _ _) hSize hTake
      rw [Ghost.become_become] at hSlot
      obtain ⟨hCid, hOther⟩ := allocPartial_slabs hTake
      refine ⟨cid, _, ⟨hSelects, .inr ⟨hRole, hNone⟩, hNext _ _, ?_, fun y hy => ?_⟩,
        hOpen.trans hSlot⟩
      · rw [hCid, Cache.openSlab, Table.get_modify_self]
      · rw [hOther y hy, Cache.openSlab, Table.get_modify_of_ne _ _ hy]
    · obtain rfl := Except.ok.inj hAlloc
      simp at hRun

/-! ### The index update -/

end Inv

/-- A step that changes the index and use counts, and no role. -/
structure Reindex (cfg : Config) (c : Cache) (g : Ghost) (c' : Cache) (g' : Ghost) : Prop where
  cache : c' = { c with index := c'.index, slabs := c'.slabs }
  role : g'.role = g.role
  block : g'.block = g.block
  drift : g'.drift = g.drift
  same : ∀ x, (c.slabs x).Same (c'.slabs x)
  nrUsed : ∀ x, (c'.slabs x).nrUsed ≤ (c.slabs x).nrUsed
  counts : ∀ x, (c'.index.refs x : Int) + g'.pending x ≤ (c'.slabs x).nrUsed
  exact : g'.exact → ∀ x, ¬(g.role x).Copying →
    (c'.slabs x).nrUsed = (c'.index.refs x : Int) + g'.pending x
  dead : ∀ x, (g.role x).Dead → c'.index.refs x = 0
  index : c'.index.Ok cfg (fun x i => (c.slotAt x i).1) (fun x => (c.slabs x).nrAlloc)
  pend : g'.pend = none ∨ g'.pend = g.pend

theorem Reindex.slotAt {g' : Ghost} (h : Reindex cfg c g c' g') : c'.slotAt = c.slotAt :=
  Cache.slotAt_of_same (by rw [h.cache]) h.same

theorem Reindex.inv {g' : Ghost} (h : Reindex cfg c g c' g') (hInv : Inv cfg c g) :
    Inv cfg c' g' where
  config := hInv.config
  lists := by
    rw [h.cache]
    exact hInv.lists.congr.congr_ghost (fun y => by simp only [Ghost.place, h.role]) h.block h.drift
  geometry := h.block ▸ hInv.geometry
  slab := fun x => (hInv.slab x).congr (by rw [h.role]) h.block (h.same x)
    (fun _ => Cache.block_of_same (by rw [h.cache]) (h.same x))
    (fun src _ => ⟨h.same src, by rw [h.role]⟩) (h.nrUsed x) (h.counts x)
    (fun hg => h.exact hg x) (h.dead x)
  index := by
    have hAlloc : (fun x => (c'.slabs x).nrAlloc) = fun x => (c.slabs x).nrAlloc :=
      funext fun x => (h.same x).nrAlloc
    rw [h.slotAt, hAlloc]
    exact h.index
  pend := fun p hp => by
    rcases h.pend with hNone | hSame
    · rw [hNone] at hp
      cases hp
    · rw [hSame] at hp
      exact (hInv.pend p hp).congr (by rw [h.role]) (h.same _) (hInv.pend_memory hp)

/-- Whoever makes such a step, the slabs of all threads stay as they are. -/
theorem Reindex.frame {w : Worker} {g' : Ghost} (h : Reindex cfg c g c' g')
    (hPend : w ≠ .writer → g'.pend = g.pend)
    (hLookup : w ≠ .writer → ∀ key, c.index.getIndexEntry cfg key = none →
      c'.index.getIndexEntry cfg key = none) : Frame cfg w c g c' g' where
  block := h.block
  role := fun x _ => congrFun h.role x
  handed := fun x => .inl (congrFun h.role x)
  same := fun x _ => h.same x
  nrUsed := fun x _ => h.nrUsed x
  stored := fun x _ _ => Cache.block_of_same (by rw [h.cache]) (h.same x)
  pend := hPend
  lookup := hLookup

/-- One slot less is in use in a slab. -/
theorem nrUsed_decrement (slabs : Table Slab) (x y : Nat) :
    ((slabs.modify x fun s => { s with nrUsed := s.nrUsed - 1 }) y).nrUsed =
      (slabs y).nrUsed - if x = y then 1 else 0 := by
  rw [Table.get_modify]
  by_cases hy : y = x
  · simp [hy]
  · simp [hy, Ne.symm hy]

theorem same_decrement (slabs : Table Slab) (x y : Nat) :
    (slabs y).Same ((slabs.modify x fun s => { s with nrUsed := s.nrUsed - 1 }) y) := by
  simp only [Table.get_modify, Slab.Same]
  split <;> simp_all

/-- Slabs in a role that nothing points into do not take a pending slot. -/
theorem Inv.pend_alive (hInv : Inv cfg c g) {p : PendingPut} (hp : g.pend = some p) :
    ¬(g.role p.sid).Dead := by
  rcases (hInv.pend p hp).role with ⟨k, hRole⟩ | hRole <;> rw [hRole] <;> exact id

theorem Inv.pend_sid (hInv : Inv cfg c g) {p : PendingPut} (hp : g.pend = some p) :
    (c.slabs p.sid).sid = p.sid :=
  hInv.sid_eq (hInv.lt_of_role fun hRole => hInv.pend_alive hp (by rw [hRole]; trivial))

/-- What a lookup returns when the cell of a key has been given to an object. -/
def viewSet (cfg : Config) (c : Cache) (key : Key) (object : Option (Key × Value)) (key' : Key) :
    Option (Key × Value) :=
  if cfg.cell key' = cfg.cell key then object else c.view cfg key'

theorem ghost_pending_none (x : Nat) : ({ g with pend := none } : Ghost).pending x = 0 := rfl

theorem ghost_pending_some {p : PendingPut} (hp : g.pend = some p) (x : Nat) :
    g.pending x = if p.sid = x then 1 else 0 := by
  simp only [Ghost.pending, hp]

/-- An entry that is overwritten leaves its old slab and takes the slot of the
pending `Put`, which was counted already. -/
theorem Inv.overwriteEntry (hInv : Inv cfg c g) {p : PendingPut} {e : Nat} (hp : g.pend = some p)
    (hGet : c.index.getIndexEntry cfg p.key = some e)
    (hRun : c.overwriteEntry build e p.sid p.slotId = .ok c') :
    Reindex cfg c g c' { g with pend := none } ∧
      ∀ key', c'.view cfg key' = viewSet cfg c p.key (some (p.key, p.value)) key' := by
  have hPend := hInv.pend p hp
  have he := hInv.index.indexed_of_get hGet
  unfold Cache.overwriteEntry at hRun
  simp only [Execution.bind_eq_ok, Execution.pure_eq_ok] at hRun
  obtain ⟨_, -, rfl⟩ := hRun
  have hSid : ((c.slabs.modify (c.index.entries e).slabId
      fun s => { s with nrUsed := s.nrUsed - 1 }) p.sid).sid = p.sid := by
    rw [Table.get_modify_proj _ _ _ _ Slab.sid rfl]
    exact hInv.pend_sid hp
  have hRefs := fun y => hInv.index.refs_repoint (x := p.sid) (i := p.slotId) he y
  have hReindex : Reindex cfg c g
      { c with
        slabs := c.slabs.modify (c.index.entries e).slabId fun s => { s with nrUsed := s.nrUsed - 1 }
        index := c.index.repoint e p.sid p.slotId } { g with pend := none } := by
    constructor
    case cache => rfl
    case role => rfl
    case block => rfl
    case drift => rfl
    case same => exact same_decrement c.slabs _
    case nrUsed =>
      intro y
      simp only [nrUsed_decrement]
      split <;> omega
    case counts =>
      intro y
      have := (hInv.slab y).counts
      have := hRefs y
      rw [ghost_pending_some hp] at *
      simp only [nrUsed_decrement, ghost_pending_none]
      split at * <;> split at * <;> omega
    case exact =>
      intro hg y hCopy
      have := (hInv.slab y).exact hg hCopy
      have := hRefs y
      rw [ghost_pending_some hp] at *
      simp only [nrUsed_decrement, ghost_pending_none]
      split at * <;> split at * <;> omega
    case dead =>
      intro y hDead
      have hZero := (hInv.slab y).dead hDead
      have hne : p.sid ≠ y := fun h => hInv.pend_alive hp (h ▸ hDead)
      have := hRefs y
      simp only [hne, if_false] at this
      simp only
      omega
    case index =>
      refine hInv.index.repoint hGet ?_ hPend.alloc
      rw [hPend.slot]
    case pend => exact .inl rfl
  simp only [hSid]
  refine ⟨hReindex, fun key' => ?_⟩
  have hSlot := hReindex.slotAt
  simp only [Cache.view, viewSet, Index.getIndexEntry_repoint, hSlot]
  by_cases hCell : cfg.cell key' = cfg.cell p.key
  · rw [Index.getIndexEntry_congr c.index hCell, hGet, if_pos hCell, Option.map_some,
      Index.repoint_self, hPend.slot]
  · rw [if_neg hCell]
    cases hGet' : c.index.getIndexEntry cfg key' with
    | none => rfl
    | some e' =>
        have hne : e' ≠ e := by
          rintro rfl
          exact hCell ((hInv.index.cell_of_get hGet').symm.trans (hInv.index.cell_of_get hGet))
        simp only [Option.map_some, Index.repoint_of_ne _ _ hne]

/-- A new entry takes the slot of the pending `Put`. -/
theorem Inv.insertEntry (hInv : Inv cfg c g) {p : PendingPut} (hp : g.pend = some p)
    (hNone : c.index.getIndexEntry cfg p.key = none)
    (hRun : c.insertEntry cfg p.key p.sid p.slotId = some c') :
    Reindex cfg c g c' { g with pend := none } ∧
      ∀ key', c'.view cfg key' = viewSet cfg c p.key (some (p.key, p.value)) key' := by
  have hPend := hInv.pend p hp
  have hKey : (c.slotAt p.sid p.slotId).1 = p.key := by rw [hPend.slot]
  unfold Cache.insertEntry Index.indexEntryAlloc at hRun
  cases hFree : c.index.freeIndexEntry with
  | nil => simp [hFree] at hRun
  | cons e rest =>
      simp only [hFree, Option.some.injEq, hInv.pend_sid hp] at hRun
      subst c'
      have hRefs : ∀ y, (c.index.insert cfg p.key e p.sid p.slotId rest).refs y =
          c.index.refs y + (if p.sid = y then 1 else 0) :=
        fun y => hInv.index.refs_insert hFree y
      have hReindex : Reindex cfg c g
          { c with index := c.index.insert cfg p.key e p.sid p.slotId rest }
          { g with pend := none } := by
        constructor
        case cache => rfl
        case role => rfl
        case block => rfl
        case drift => rfl
        case same => exact fun _ => .refl _
        case nrUsed => exact fun _ => Int.le_refl _
        case counts =>
          intro y
          have := (hInv.slab y).counts
          rw [ghost_pending_some hp] at this
          simp only [hRefs y, ghost_pending_none]
          by_cases hy : p.sid = y <;> simp only [hy, if_true, if_false] at this ⊢ <;> omega
        case exact =>
          intro hg y hCopy
          have := (hInv.slab y).exact hg hCopy
          rw [ghost_pending_some hp] at this
          simp only [hRefs y, ghost_pending_none]
          by_cases hy : p.sid = y <;> simp only [hy, if_true, if_false] at this ⊢ <;> omega
        case dead =>
          intro y hDead
          have hZero := (hInv.slab y).dead hDead
          have hne : p.sid ≠ y := fun h => hInv.pend_alive hp (h ▸ hDead)
          simp only [hRefs y, hne, if_false, hZero]
        case index => exact hInv.index.insert hFree hNone hKey hPend.alloc
        case pend => exact .inl rfl
      refine ⟨hReindex, fun key' => ?_⟩
      have hLookup := hInv.index.getIndexEntry_insert hFree hNone hKey hPend.alloc key'
      have hSlot := hReindex.slotAt
      have hView : ({ c with index := c.index.insert cfg p.key e p.sid p.slotId rest } : Cache).view
          cfg key' = viewSet cfg c p.key (some (p.key, p.value)) key' := by
        simp only [Cache.view, viewSet, hSlot, hLookup]
        by_cases hCell : cfg.cell key' = cfg.cell p.key
        · simp only [if_pos hCell, Option.map_some, Index.insert_entries_self, hPend.slot]
        · simp only [if_neg hCell]
          cases hGet : c.index.getIndexEntry cfg key' with
          | none => rfl
          | some e' =>
              have hne : e' ≠ e := by
                rintro rfl
                exact hInv.index.not_indexed_of_free (by rw [hFree]; simp)
                  (hInv.index.indexed_of_get hGet)
              simp only [Option.map_some, Index.insert_entries_of_ne hne]
      exact hView

/-- The index update of `Put`, when there is an entry for it. -/
theorem Inv.putIndex (hInv : Inv cfg c g) {p : PendingPut} (hp : g.pend = some p)
    (hRun : c.putIndex build cfg p.key p.sid p.slotId = .ok (some c')) :
    Reindex cfg c g c' { g with pend := none } ∧
      ∀ key', c'.view cfg key' = viewSet cfg c p.key (some (p.key, p.value)) key' := by
  unfold Cache.putIndex at hRun
  cases hGet : c.index.getIndexEntry cfg p.key with
  | none =>
      simp only [hGet, Except.ok.injEq] at hRun
      exact hInv.insertEntry hp hGet hRun
  | some e =>
      simp only [hGet] at hRun
      obtain ⟨c₁, hOver, hRun⟩ := Execution.bind_eq_ok.mp hRun
      obtain rfl := Option.some.inj (Execution.pure_eq_ok.mp hRun)
      exact hInv.overwriteEntry hp hGet hOver

/-- `Put` waits only while its key has no entry. -/
theorem putIndex_none (hRun : c.putIndex build cfg key sid slotId = .ok none) :
    c.index.getIndexEntry cfg key = none := by
  unfold Cache.putIndex at hRun
  cases hGet : c.index.getIndexEntry cfg key with
  | none => rfl
  | some e =>
      simp only [hGet] at hRun
      obtain ⟨c₁, -, hRun⟩ := Execution.bind_eq_ok.mp hRun
      simp at hRun

/-! ### The other two -/

/-- A full slab is handed over once its last entry is in the index. -/
theorem Inv.putFull (hInv : Inv cfg c g) (hPend : g.pend = none)
    (hRole : g.role sid = .memWriter ∨ ∃ k, g.role sid = .memPartial k) :
    ∃ r : Role, (r = .memFull ∨ ∃ k, g.role sid = .memPartial k ∧ r = .memPartial k) ∧
      Silent cfg .writer c g (c.putFull sid) (g.become sid r) := by
  have hOk := hInv.slab sid
  have hRange := hOk.range
  have hShape := hOk.shape
  unfold Cache.putFull
  rcases hRole with hRole | ⟨k, hRole⟩
  · rw [hRole] at hRange hShape
    have hFull : (c.slabs sid).isFull = true := by
      simpa [Slab.isFull] using hShape.2.2
    rw [if_pos hFull]
    have hPlace : g.place sid = .nowhere := by rw [Ghost.place, hRole]; rfl
    exact ⟨.memFull, .inl rfl, hInv.relink (d := g.drift) rfl rfl rfl
      (hInv.lists.enter_mslabFull hPlace rfl) (by rw [hRole]; rfl) (by rw [hRole]; trivial) trivial
      hRange hShape (fun h => hInv.refs_of_dead hRole h) fun _ => hPend⟩
  · rw [hRole] at hShape
    have hNot : ¬(c.slabs sid).isFull = true := by
      have := hShape.2.2
      simp only [Slab.isFull, beq_iff_eq]
      omega
    rw [if_neg hNot]
    have hSame : g.become sid (.memPartial k) = g := by
      simp only [Ghost.become, ← hRole, Function.update_eq_self]
    exact ⟨.memPartial k, .inr ⟨k, hRole, rfl⟩, by rw [hSame]; exact .refl hInv⟩

/-- An entry is removed, and its slab may count one slot less. -/
theorem Inv.removeEntry (hInv : Inv cfg c g) {e : Nat} {slabs : Table Slab} {exact : Bool}
    (hGet : c.index.getIndexEntry cfg key = some e) (hSame : ∀ x, (c.slabs x).Same (slabs x))
    (hLe : ∀ x, (slabs x).nrUsed ≤ (c.slabs x).nrUsed)
    (hGe : ∀ x, (c.slabs x).nrUsed - (if (c.index.entries e).slabId = x then 1 else 0) ≤
      (slabs x).nrUsed)
    (hExact : exact → g.exact ∧ ∀ x, (slabs x).nrUsed =
      (c.slabs x).nrUsed - if (c.index.entries e).slabId = x then 1 else 0) :
    Reindex cfg c g { c with index := c.index.remove cfg key e, slabs := slabs }
      { g with exact := exact } ∧
    ∀ key', ({ c with index := c.index.remove cfg key e, slabs := slabs } : Cache).view cfg key' =
      viewSet cfg c key none key' := by
  have hRefs : ∀ y, (c.index.remove cfg key e).refs y +
      (if (c.index.entries e).slabId = y then 1 else 0) = c.index.refs y :=
    fun y => Index.refs_remove hGet y
  have hReindex : Reindex cfg c g { c with index := c.index.remove cfg key e, slabs := slabs }
      { g with exact := exact } := by
    constructor
    case cache => rfl
    case role => rfl
    case block => rfl
    case drift => rfl
    case same => exact hSame
    case nrUsed => exact hLe
    case counts =>
      intro y
      have h₁ := (hInv.slab y).counts
      have h₂ := hRefs y
      have h₃ := hGe y
      change ((c.index.remove cfg key e).refs y : Int) + g.pending y ≤ (slabs y).nrUsed
      by_cases hy : (c.index.entries e).slabId = y <;>
        simp only [hy, if_true, if_false] at h₂ h₃ <;> omega
    case exact =>
      intro hg y hCopy
      obtain ⟨hOld, hUsed⟩ := hExact hg
      have h₁ := (hInv.slab y).exact hOld hCopy
      have h₂ := hRefs y
      have h₃ := hUsed y
      change (slabs y).nrUsed = ((c.index.remove cfg key e).refs y : Int) + g.pending y
      by_cases hy : (c.index.entries e).slabId = y <;>
        simp only [hy, if_true, if_false] at h₂ h₃ <;> omega
    case dead =>
      intro y hDead
      have h₁ := (hInv.slab y).dead hDead
      have h₂ := hRefs y
      change (c.index.remove cfg key e).refs y = 0
      omega
    case index => exact hInv.index.remove hGet
    case pend => exact .inr rfl
  refine ⟨hReindex, fun key' => ?_⟩
  simp only [Cache.view, viewSet, hReindex.slotAt, Index.remove_entries,
    hInv.index.getIndexEntry_remove hGet key']
  split <;> rfl

/-- `Delete`. Without assertions the use count is left too high. -/
theorem Inv.delete (hInv : Inv cfg c g) (hRun : c.delete build cfg key = .ok c') :
    Reindex cfg c g c' { g with exact := g.exact && build = .debug } ∧
      ∀ key', c'.view cfg key' = viewSet cfg c key none key' := by
  unfold Cache.delete at hRun
  cases hGet : c.index.getIndexEntry cfg key with
  | none =>
      simp only [hGet, Except.ok.injEq] at hRun
      subst c'
      refine ⟨⟨rfl, rfl, rfl, rfl, fun _ => .refl _, fun _ => Int.le_refl _,
        fun x => (hInv.slab x).counts, fun hg x => (hInv.slab x).exact ?_,
        fun x => (hInv.slab x).dead, hInv.index, .inr rfl⟩, fun key' => ?_⟩
      · simp only [Bool.and_eq_true] at hg
        exact hg.1
      · unfold viewSet
        split
        · rename_i hCell
          simp only [Cache.view, Index.getIndexEntry_congr c.index hCell, hGet, Option.map_none]
        · rfl
  | some e =>
      simp only [hGet] at hRun
      cases build with
      | release =>
          obtain rfl := Except.ok.inj hRun
          refine hInv.removeEntry hGet (fun x => Slab.Same.refl (c.slabs x)) (fun _ => Int.le_refl _)
            (fun x => ?_) (by simp)
          split <;> omega
      | debug =>
          obtain ⟨_, -, hRun⟩ := Execution.bind_eq_ok.mp hRun
          obtain rfl := Execution.pure_eq_ok.mp hRun
          refine hInv.removeEntry hGet (same_decrement c.slabs _) (fun x => ?_)
            (fun x => (nrUsed_decrement c.slabs _ x).ge) ?_
          · rw [nrUsed_decrement]
            split <;> omega
          · exact fun hg => ⟨by simpa using hg, nrUsed_decrement c.slabs _⟩

end KVCache
