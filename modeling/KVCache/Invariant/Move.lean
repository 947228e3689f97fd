import KVCache.Invariant.Flush
import KVCache.Semantics.Collector

/-! Moving the live slots of a dropped slab to the buffer. A slot moves when the
index points to it; the object and the entry move together, so that lookups
see no difference. The buffer does not overflow as long as it has room for
the slots that the slab counts as used. -/

namespace KVCache

variable {cfg : Config} {c c' : Cache} {g : Ghost} {d i e : Nat}

/-- The state after a live slot was copied to the buffer and its entry with it. -/
def Cache.moveOne (cfg : Config) (c : Cache) (e : Nat) (object : Key × Value) : Cache :=
  { c with
    slabs := c.slabs.set cfg.gcBuffer ((c.slabs cfg.gcBuffer).push object.1 object.2)
    index := c.index.repoint e cfg.gcBuffer (c.slabs cfg.gcBuffer).nrAlloc }

/-- A buffer in use, and a dropped slab of the same class whose slots go there. -/
structure Movable (cfg : Config) (c : Cache) (g : Ghost) (d : Nat) : Prop where
  inv : Inv cfg c g
  buffer : g.role cfg.gcBuffer = .bufferBusy
  dropped : g.role d = .diskDropped
  slotSize : (c.slabs cfg.gcBuffer).slotSize = (c.slabs d).slotSize

namespace Movable

theorem ne (h : Movable cfg c g d) : cfg.gcBuffer ≠ d := by
  intro hEq
  have := h.buffer
  rw [hEq, h.dropped] at this
  cases this

theorem bufferMemory (h : Movable cfg c g d) : (c.slabs cfg.gcBuffer).blockId = -1 := by
  have hMemory := h.inv.config.memory
  have hLt : cfg.gcBuffer < cfg.nrMslab := by simp only [Config.gcBuffer]; omega
  exact (h.inv.blockId_eq_iff (by simp only [Config.nrSlab]; omega)).mpr hLt

theorem disk (h : Movable cfg c g d) : (c.slabs d).blockId ≠ -1 := by
  have hRange := (h.inv.slab d).range
  rw [h.dropped] at hRange
  rw [ne_eq, h.inv.blockId_eq_iff hRange.2]
  exact Nat.not_lt.mpr hRange.1

/-- An object of the dropped slab fits into a slot of the buffer. -/
theorem fits (h : Movable cfg c g d) (hi : i < (c.slabs d).nrAlloc) :
    Slot.headerSize + (c.slotAt d i).1.length + (c.slotAt d i).2.length ≤
      (c.slabs cfg.gcBuffer).slotSize := by
  have hShape := (h.inv.slab d).shape
  rw [h.dropped] at hShape
  obtain ⟨-, hBacks⟩ := hShape
  obtain ⟨hSlot, hFits⟩ := hBacks.slots i hi
  rw [h.slotSize, Cache.slotAt_of_disk h.disk, ← hSlot]
  have hSize : (c.block d).slotSize = (c.slabs d).slotSize := hBacks.slotSize
  rw [Slab.Fits, hSize] at hFits
  simpa [Slab.slot, Slab.slotKey, Slab.slotValue, Slot.key, Slot.value, Slot.size] using hFits

theorem slotSize_lt (h : Movable cfg c g d) : (c.slabs cfg.gcBuffer).slotSize < 2 ^ 31 := by
  have hShape := (h.inv.slab cfg.gcBuffer).shape
  rw [h.buffer] at hShape
  obtain ⟨⟨k, hClass⟩, -⟩ := hShape
  have := hClass.slotSize_le h.inv.config
  have := h.inv.config.slabSize
  omega

theorem slotsFit (h : Movable cfg c g d) : (c.slabs cfg.gcBuffer).SlotsFit := by
  have hShape := (h.inv.slab cfg.gcBuffer).shape
  rw [h.buffer] at hShape
  exact hShape.2

end Movable

/-! ### One slot -/

section

variable {object : Key × Value} {x : Nat}

theorem moveOne_slab_self :
    (c.moveOne cfg e object).slabs cfg.gcBuffer =
      (c.slabs cfg.gcBuffer).push object.1 object.2 :=
  Table.get_set_self _ _ _

theorem moveOne_slab_of_ne (hx : x ≠ cfg.gcBuffer) :
    (c.moveOne cfg e object).slabs x = c.slabs x :=
  Table.get_set_of_ne _ _ hx

theorem moveOne_blockId : ((c.moveOne cfg e object).slabs x).blockId = (c.slabs x).blockId := by
  by_cases hx : x = cfg.gcBuffer
  · subst x
    rw [moveOne_slab_self]
    rfl
  · rw [moveOne_slab_of_ne hx]

theorem moveOne_block : (c.moveOne cfg e object).block x = c.block x := by
  simp only [Cache.block, moveOne_blockId]
  rfl

theorem moveOne_slotAt_of_ne (hx : x ≠ cfg.gcBuffer) (j : Nat) :
    (c.moveOne cfg e object).slotAt x j = c.slotAt x j :=
  Cache.slotAt_congr (by rw [moveOne_slab_of_ne hx]) (fun _ => moveOne_block) j

theorem moveOne_alloc (x : Nat) :
    (c.slabs x).nrAlloc ≤ ((c.moveOne cfg e object).slabs x).nrAlloc := by
  by_cases hx : x = cfg.gcBuffer
  · subst x
    rw [moveOne_slab_self]
    exact Nat.le_succ _
  · rw [moveOne_slab_of_ne hx]

end

namespace Movable

/-- The entry to be moved and its slot. -/
structure Live (cfg : Config) (c : Cache) (d i e : Nat) : Prop where
  get : c.index.getIndexEntry cfg (c.slotAt d i).1 = some e
  slabId : (c.index.entries e).slabId = d
  slotId : (c.index.entries e).slotId = i

variable (h : Movable cfg c g d) (hLive : Live cfg c d i e)
include h

theorem slotAt_old (hi : i < (c.slabs d).nrAlloc) {j : Nat}
    (hj : j < (c.slabs cfg.gcBuffer).nrAlloc) :
    (c.moveOne cfg e (c.slotAt d i)).slotAt cfg.gcBuffer j = c.slotAt cfg.gcBuffer j := by
  rw [Cache.slotAt_of_memory (moveOne_blockId.trans h.bufferMemory),
    Cache.slotAt_of_memory h.bufferMemory, moveOne_slab_self]
  exact Slab.slot_push_of_lt (h.fits hi) h.slotsFit hj

theorem slotAt_new (hi : i < (c.slabs d).nrAlloc) :
    (c.moveOne cfg e (c.slotAt d i)).slotAt cfg.gcBuffer (c.slabs cfg.gcBuffer).nrAlloc =
      c.slotAt d i := by
  rw [Cache.slotAt_of_memory (moveOne_blockId.trans h.bufferMemory), moveOne_slab_self]
  exact Slab.slot_push_self (h.fits hi) h.slotSize_lt

/-- Slots in use are not overwritten. -/
theorem slotAt_moveOne (hi : i < (c.slabs d).nrAlloc) {x j : Nat} (hj : j < (c.slabs x).nrAlloc) :
    (c.moveOne cfg e (c.slotAt d i)).slotAt x j = c.slotAt x j := by
  by_cases hx : x = cfg.gcBuffer
  · subst x
    exact h.slotAt_old hi hj
  · exact moveOne_slotAt_of_ne hx j

include hLive

theorem live_lt : i < (c.slabs d).nrAlloc := by
  have hInside := h.inv.index.inside e (h.inv.index.indexed_of_get hLive.get)
  rwa [hLive.slabId, hLive.slotId] at hInside

theorem refs_moveOne (y : Nat) :
    (c.moveOne cfg e (c.slotAt d i)).index.refs y + (if d = y then 1 else 0) =
      c.index.refs y + (if cfg.gcBuffer = y then 1 else 0) := by
  have hRefs := h.inv.index.refs_repoint (x := cfg.gcBuffer) (i := (c.slabs cfg.gcBuffer).nrAlloc)
    (h.inv.index.indexed_of_get hLive.get) y
  rwa [hLive.slabId] at hRefs

theorem index_moveOne :
    (c.moveOne cfg e (c.slotAt d i)).index.Ok cfg
      (fun x j => ((c.moveOne cfg e (c.slotAt d i)).slotAt x j).1)
      (fun x => ((c.moveOne cfg e (c.slotAt d i)).slabs x).nrAlloc) := by
  have hi := h.live_lt hLive
  have hKept : c.index.Ok cfg (fun x j => ((c.moveOne cfg e (c.slotAt d i)).slotAt x j).1)
      (fun x => ((c.moveOne cfg e (c.slotAt d i)).slabs x).nrAlloc) :=
    h.inv.index.congr
      (fun e' he' => congrArg Prod.fst (h.slotAt_moveOne hi (h.inv.index.inside e' he')))
      fun e' _ => moveOne_alloc _
  refine hKept.repoint hLive.get ?_ ?_
  · rw [h.slotAt_new hi]
  · rw [moveOne_slab_self]
    exact Nat.lt_succ_self _

theorem view_moveOne (key : Key) :
    (c.moveOne cfg e (c.slotAt d i)).view cfg key = c.view cfg key := by
  have hi := h.live_lt hLive
  have hLookup : (c.moveOne cfg e (c.slotAt d i)).index.getIndexEntry cfg key =
      c.index.getIndexEntry cfg key := Index.getIndexEntry_repoint _ _ _ _
  simp only [Cache.view, hLookup]
  cases hGet : c.index.getIndexEntry cfg key with
  | none => rfl
  | some e' =>
      simp only [Option.map_some]
      by_cases hEq : e' = e
      · subst e'
        have hEntry : (c.moveOne cfg e (c.slotAt d i)).index.entries e =
            ⟨(c.index.entries e).digest, cfg.gcBuffer, (c.slabs cfg.gcBuffer).nrAlloc⟩ :=
          Index.repoint_self _ _ _
        rw [hEntry, h.slotAt_new hi, hLive.slabId, hLive.slotId]
      · have hEntry : (c.moveOne cfg e (c.slotAt d i)).index.entries e' = c.index.entries e' :=
          Index.repoint_of_ne _ _ hEq
        rw [hEntry, h.slotAt_moveOne hi (h.inv.index.inside e' (h.inv.index.indexed_of_get hGet))]

/-- The buffer takes the slot, and counts it. -/
theorem bufferOk_moveOne
    (hRoom : (c.slabs cfg.gcBuffer).nrAlloc < (c.slabs cfg.gcBuffer).nrSlots) :
    SlabOk cfg (c.moveOne cfg e (c.slotAt d i)) { g with exact := false } cfg.gcBuffer := by
  have hi := h.live_lt hLive
  have hOk := h.inv.slab cfg.gcBuffer
  have hShape := hOk.shape
  have hRefs := h.refs_moveOne hLive cfg.gcBuffer
  rw [if_neg h.ne.symm, if_pos rfl] at hRefs
  rw [h.buffer] at hShape
  obtain ⟨⟨k, hClass⟩, hFit⟩ := hShape
  constructor
  case range => exact hOk.range
  case sid => rw [moveOne_slab_self]; exact hOk.sid
  case blockId => rw [moveOne_slab_self]; exact hOk.blockId
  case shape =>
    rw [show ({ g with exact := false } : Ghost).role cfg.gcBuffer = .bufferBusy from h.buffer]
    refine ⟨⟨k, ?_⟩, ?_⟩
    · rw [moveOne_slab_self]
      exact ⟨hClass.cid, hClass.isClass, hClass.slotSize, hClass.nrSlots⟩
    · rw [moveOne_slab_self]
      exact Slab.slotsFit_push (h.fits hi) h.slotSize_lt hFit
  case source => exact hOk.source
  case bounds =>
    have := hOk.bounds.1
    rw [moveOne_slab_self]
    simp only [Slab.push, Slab.writeSlot]
    omega
  case counts =>
    have hCounts := hOk.counts
    change ((c.moveOne cfg e (c.slotAt d i)).index.refs cfg.gcBuffer : Int) + g.pending cfg.gcBuffer
      ≤ _
    rw [moveOne_slab_self]
    simp only [Slab.push, Slab.writeSlot]
    omega
  case exact => exact fun hg => by simp at hg
  case dead =>
    intro hDead
    rw [show ({ g with exact := false } : Ghost).role cfg.gcBuffer = .bufferBusy from h.buffer]
      at hDead
    exact hDead.elim

theorem inv_moveOne (hRoom : (c.slabs cfg.gcBuffer).nrAlloc < (c.slabs cfg.gcBuffer).nrSlots) :
    Inv cfg (c.moveOne cfg e (c.slotAt d i)) { g with exact := false } := by
  constructor
  case config => exact h.inv.config
  case lists => exact h.inv.lists.congr.congr_ghost (fun _ => rfl) rfl rfl
  case geometry => exact h.inv.geometry
  case slab =>
    intro x
    by_cases hx : x = cfg.gcBuffer
    · subst x
      exact h.bufferOk_moveOne hLive hRoom
    · have hOk := h.inv.slab x
      have hSlab : (c.moveOne cfg e (c.slotAt d i)).slabs x = c.slabs x := moveOne_slab_of_ne hx
      have hRefs := h.refs_moveOne hLive x
      rw [if_neg (Ne.symm hx)] at hRefs
      refine hOk.congr rfl rfl (by rw [hSlab]) (fun _ => moveOne_block) (fun src hSrc => ?_)
        (by rw [hSlab]) ?_ (fun hg => by simp at hg) ?_
      · -- the buffer is not the source of an image while it is being filled
        have hne : src ≠ cfg.gcBuffer := by
          rintro rfl
          rcases hOk.source _ hSrc with hSource | hSource <;> rw [h.buffer] at hSource <;>
            cases hSource
        exact ⟨by rw [moveOne_slab_of_ne hne], rfl⟩
      · have := hOk.counts
        rw [hSlab]
        change ((c.moveOne cfg e (c.slotAt d i)).index.refs x : Int) + g.pending x ≤ _
        omega
      · intro hDead
        have := hOk.dead hDead
        omega
  case index => exact h.index_moveOne hLive
  case pend =>
    intro p hp
    have hPend := h.inv.pend p hp
    have hne : p.sid ≠ cfg.gcBuffer := by
      intro hEq
      have hOwner := hPend.owner
      rw [hEq, h.buffer] at hOwner
      cases hOwner
    exact hPend.congr rfl (by rw [moveOne_slab_of_ne hne]) (h.inv.pend_memory hp)

end Movable

/-! ### All slots of a slab -/

/-- The state before slot `i`, seen from the start of the loop. -/
structure Moving (cfg : Config) (c₀ : Cache) (g : Ghost) (d i : Nat) (c : Cache) : Prop where
  inv : Inv cfg c { g with exact := false }
  cache : c = { c₀ with slabs := c.slabs, index := c.index }
  slab : ∀ x, x ≠ cfg.gcBuffer → c.slabs x = c₀.slabs x
  slotSize : (c.slabs cfg.gcBuffer).slotSize = (c₀.slabs cfg.gcBuffer).slotSize
  nrSlots : (c.slabs cfg.gcBuffer).nrSlots = (c₀.slabs cfg.gcBuffer).nrSlots
  cid : (c.slabs cfg.gcBuffer).cid = (c₀.slabs cfg.gcBuffer).cid
  alloc : (c.slabs cfg.gcBuffer).nrAlloc + c.index.refs d =
    (c₀.slabs cfg.gcBuffer).nrAlloc + c₀.index.refs d
  used : (c.slabs cfg.gcBuffer).nrUsed + c.index.refs d =
    (c₀.slabs cfg.gcBuffer).nrUsed + c₀.index.refs d
  refsBuffer : c.index.refs cfg.gcBuffer + c.index.refs d =
    c₀.index.refs cfg.gcBuffer + c₀.index.refs d
  refs : ∀ x, x ≠ cfg.gcBuffer → x ≠ d → c.index.refs x = c₀.index.refs x
  done : ∀ e ∈ c.index.indexed, (c.index.entries e).slabId = d → i ≤ (c.index.entries e).slotId
  lookup : ∀ key, c.index.getIndexEntry cfg key = c₀.index.getIndexEntry cfg key
  view : ∀ key, c.view cfg key = c₀.view cfg key

namespace Moving

variable {c₀ : Cache}

theorem start (h : Movable cfg c₀ g d) : Moving cfg c₀ g d 0 c₀ where
  inv := h.inv.with_exact (by simp)
  cache := rfl
  slab := fun _ _ => rfl
  slotSize := rfl
  nrSlots := rfl
  cid := rfl
  alloc := rfl
  used := rfl
  refsBuffer := rfl
  refs := fun _ _ _ => rfl
  done := fun _ _ _ => Nat.zero_le _
  lookup := fun _ => rfl
  view := fun _ => rfl

theorem movable (h : Movable cfg c₀ g d) (hMoving : Moving cfg c₀ g d i c) :
    Movable cfg c { g with exact := false } d where
  inv := hMoving.inv
  buffer := h.buffer
  dropped := h.dropped
  slotSize := by
    rw [hMoving.slotSize, hMoving.slab d h.ne.symm]
    exact h.slotSize

theorem slotAt (h : Movable cfg c₀ g d) (hMoving : Moving cfg c₀ g d i c) (j : Nat) :
    c.slotAt d j = c₀.slotAt d j := by
  have hSlab := hMoving.slab d h.ne.symm
  refine Cache.slotAt_congr (by rw [hSlab]) (fun _ => ?_) j
  simp only [Cache.block, hSlab]
  rw [hMoving.cache]

theorem skip (hMoving : Moving cfg c₀ g d i c)
    (hNone : ∀ e ∈ c.index.indexed, (c.index.entries e).slabId = d →
      (c.index.entries e).slotId ≠ i) : Moving cfg c₀ g d (i + 1) c :=
  { hMoving with
    done := fun e he hSlab =>
      Nat.lt_of_le_of_ne (hMoving.done e he hSlab) (hNone e he hSlab).symm }

theorem move (h : Movable cfg c₀ g d) (hMoving : Moving cfg c₀ g d i c)
    (hRoom : (c₀.slabs cfg.gcBuffer).nrAlloc + c₀.index.refs d ≤ (c₀.slabs cfg.gcBuffer).nrSlots)
    (hLive : Movable.Live cfg c d i e) :
    (c.slabs cfg.gcBuffer).nrAlloc < (c.slabs cfg.gcBuffer).nrSlots ∧
      Moving cfg c₀ g d (i + 1) (c.moveOne cfg e (c.slotAt d i)) := by
  have hMov := hMoving.movable h
  have he := hMov.inv.index.indexed_of_get hLive.get
  have hPos : 0 < c.index.refs d := by
    have := Index.refs_pos he
    rwa [hLive.slabId] at this
  have hAlloc := hMoving.alloc
  have hSlots := hMoving.nrSlots
  have hLess : (c.slabs cfg.gcBuffer).nrAlloc < (c.slabs cfg.gcBuffer).nrSlots := by omega
  have hRefs := hMov.refs_moveOne hLive
  have hRefsD := hRefs d
  have hRefsB := hRefs cfg.gcBuffer
  rw [if_pos rfl, if_neg h.ne] at hRefsD
  rw [if_neg h.ne.symm, if_pos rfl] at hRefsB
  refine ⟨hLess, ?_⟩
  constructor
  case inv => exact hMov.inv_moveOne hLive hLess
  case cache =>
    rw [hMoving.cache]
    rfl
  case slab =>
    intro x hx
    rw [moveOne_slab_of_ne hx]
    exact hMoving.slab x hx
  case slotSize => rw [moveOne_slab_self]; exact hMoving.slotSize
  case nrSlots => rw [moveOne_slab_self]; exact hMoving.nrSlots
  case cid => rw [moveOne_slab_self]; exact hMoving.cid
  case alloc =>
    rw [moveOne_slab_self]
    simp only [Slab.push, Slab.writeSlot]
    omega
  case used =>
    have := hMoving.used
    rw [moveOne_slab_self]
    simp only [Slab.push, Slab.writeSlot]
    omega
  case refsBuffer =>
    have := hMoving.refsBuffer
    omega
  case refs =>
    intro x hBuf hd
    have := hRefs x
    rw [if_neg (Ne.symm hd), if_neg (Ne.symm hBuf)] at this
    rw [← hMoving.refs x hBuf hd]
    exact this
  case done =>
    intro e' he' hSlab
    by_cases hEq : e' = e
    · subst e'
      have hEntry : (c.moveOne cfg e (c.slotAt d i)).index.entries e =
          ⟨(c.index.entries e).digest, cfg.gcBuffer, (c.slabs cfg.gcBuffer).nrAlloc⟩ :=
        Index.repoint_self _ _ _
      rw [hEntry] at hSlab
      exact absurd hSlab h.ne
    · have hEntry : (c.moveOne cfg e (c.slotAt d i)).index.entries e' = c.index.entries e' :=
        Index.repoint_of_ne _ _ hEq
      rw [hEntry] at hSlab ⊢
      refine Nat.lt_of_le_of_ne (hMoving.done e' he' hSlab) fun hSlot => hEq ?_
      exact hMov.inv.index.entry_injective he' he (hSlab.trans hLive.slabId.symm)
        (hSlot.symm.trans hLive.slotId.symm)
  case lookup =>
    intro key
    rw [← hMoving.lookup key]
    exact Index.getIndexEntry_repoint _ _ _ _
  case view =>
    intro key
    rw [hMov.view_moveOne hLive key]
    exact hMoving.view key

/-- One iteration never fails. -/
theorem step (build : Build) (h : Movable cfg c₀ g d) (hMoving : Moving cfg c₀ g d i c)
    (hRoom : (c₀.slabs cfg.gcBuffer).nrAlloc + c₀.index.refs d ≤ (c₀.slabs cfg.gcBuffer).nrSlots) :
    ∃ c', Cache.moveSlot build cfg d (c₀.readDslab d) c i = .ok c' ∧
      Moving cfg c₀ g d (i + 1) c' := by
  have hMov := hMoving.movable h
  have hObject : c.slotAt d i = (c₀.readDslab d).slot i := by
    rw [hMoving.slotAt h, Cache.slotAt_of_disk h.disk]
  have hSid : (c.slabs d).sid = d :=
    hMov.inv.sid_eq (hMov.inv.lt_of_role (by rw [hMov.dropped]; simp))
  have hSidBuffer : (c.slabs cfg.gcBuffer).sid = cfg.gcBuffer :=
    hMov.inv.sid_eq (hMov.inv.lt_of_role (by rw [hMov.buffer]; simp))
  have hFound : ∀ e ∈ c.index.indexed, (c.index.entries e).slabId = d →
      (c.index.entries e).slotId = i →
      c.index.getIndexEntry cfg (c.slotAt d i).1 = some e := by
    intro e he hSlab hSlot
    have := hMov.inv.index.getIndexEntry_key he
    rwa [hSlab, hSlot] at this
  have hKey : (c₀.readDslab d).slotKey i = (c.slotAt d i).1 := by rw [hObject]; rfl
  have hValue : (c₀.readDslab d).slotValue i = (c.slotAt d i).2 := by rw [hObject]; rfl
  unfold Cache.moveSlot
  rw [hKey, hValue]
  cases hGet : c.index.getIndexEntry cfg (c.slotAt d i).1 with
  | none =>
      refine ⟨c, rfl, hMoving.skip fun e he hSlab hSlot => ?_⟩
      rw [hFound e he hSlab hSlot] at hGet
      cases hGet
  | some e =>
      simp only [hSid]
      split
      · rename_i hHere
        obtain ⟨hLess, hNext⟩ := hMoving.move h hRoom ⟨hGet, hHere.1, hHere.2⟩
        refine ⟨_, ?_, hNext⟩
        have hNotFull : (!(c.slabs cfg.gcBuffer).isFull) = true := by
          simp only [Slab.isFull, Bool.not_eq_true', beq_eq_false_iff_ne]
          omega
        have hAssert : assertThat build .slabSlotAllocFull (!(c.slabs cfg.gcBuffer).isFull) =
            .ok () := by
          rw [hNotFull]
          cases build <;> rfl
        simp only [Slab.slotAlloc, hAssert, Cache.moveOne, Slab.push]
        simp [bind, Except.bind, pure, Except.pure, Slab.writeSlot, hSidBuffer]
      · rename_i hElse
        refine ⟨c, rfl, hMoving.skip fun e' he' hSlab hSlot => hElse ?_⟩
        have hSame := hFound e' he' hSlab hSlot
        rw [hGet] at hSame
        obtain rfl := Option.some.inj hSame
        exact ⟨hSlab, hSlot⟩

theorem refs_dropped (h : Movable cfg c₀ g d)
    (hMoving : Moving cfg c₀ g d (c₀.slabs d).nrAlloc c) : c.index.refs d = 0 := by
  rw [Index.refs_eq_zero_iff]
  intro e he hSlab
  have hInside := hMoving.inv.index.inside e he
  have hDone := hMoving.done e he hSlab
  rw [hSlab, hMoving.slab d h.ne.symm] at hInside
  omega

theorem frame (h : Movable cfg c₀ g d) (hMoving : Moving cfg c₀ g d i c) :
    Frame cfg .gc c₀ g c { g with exact := false } := by
  have hne : ∀ x, (g.role x).owner ≠ some .gc → x ≠ cfg.gcBuffer := by
    rintro x hx rfl
    exact hx (by rw [h.buffer]; rfl)
  constructor
  case block => rfl
  case role => exact fun _ _ => rfl
  case handed => exact fun _ => .inl rfl
  case same => exact fun x hx => by rw [hMoving.slab x (hne x hx)]
  case nrUsed => exact fun x hx => by rw [hMoving.slab x (hne x hx)]
  case stored =>
    intro x hx _
    refine Cache.block_of_same ?_ (by rw [hMoving.slab x (hne x hx)])
    rw [hMoving.cache]
  case pend => exact fun _ => rfl
  case lookup =>
    intro _ key hNone
    rw [hMoving.lookup key]
    exact hNone

end Moving

/-- What the move of a dropped slab leaves behind. -/
structure MovedLive (cfg : Config) (c : Cache) (d : Nat) (c' : Cache) : Prop where
  slab : ∀ x, x ≠ cfg.gcBuffer → x ≠ d → c'.slabs x = c.slabs x
  slotSize : (c'.slabs cfg.gcBuffer).slotSize = (c.slabs cfg.gcBuffer).slotSize
  nrSlots : (c'.slabs cfg.gcBuffer).nrSlots = (c.slabs cfg.gcBuffer).nrSlots
  cid : (c'.slabs cfg.gcBuffer).cid = (c.slabs cfg.gcBuffer).cid
  alloc : ((c'.slabs cfg.gcBuffer).nrAlloc : Int) ≤
    (c.slabs cfg.gcBuffer).nrAlloc + (c.slabs d).nrUsed

theorem Inv.clean (hInv : Inv cfg c g) (hRole : g.role d = .diskDropped)
    (hRefs : c.index.refs d = 0) :
    Silent cfg .gc c g { c with slabs := c.slabs.modify d fun s => { s with nrUsed := 0 } }
      (g.become d .diskClean) := by
  have hOk := hInv.slab d
  have hRange := hOk.range
  rw [hRole] at hRange
  have hPlace : (Role.diskClean).place = g.place d := by rw [Ghost.place, hRole]; rfl
  have hBury : Silent cfg .gc c g c (g.become d .diskClean) :=
    hInv.relink (d := g.drift) rfl rfl rfl (hInv.lists.become hPlace) (by rw [hRole]; rfl)
      (by rw [hRole]; trivial) trivial hRange trivial (fun _ => hRefs) (by simp)
  have hClear : Silent cfg .gc c (g.become d .diskClean)
      { c with slabs := c.slabs.modify d fun s => { s with nrUsed := 0 } }
      ((g.become d .diskClean).become d .diskClean) :=
    hBury.inv.rewrite (f := fun s => { s with nrUsed := 0 }) rfl rfl rfl
      (hBury.inv.lists.congr.become (g.place_become_self _ _).symm)
      (by rw [g.become_self]; rfl) (by rw [g.become_self]; trivial) trivial
      (by rw [g.become_self]; trivial) rfl rfl rfl hOk.bounds.2 hRange trivial (by simp)
  rw [g.become_become] at hClear
  exact hBury.trans hClear

/-- The move as a whole. It never fails when the buffer has room for what the
slab counts as used. -/
theorem Movable.moveLive (build : Build) (h : Movable cfg c g d)
    (hRoom : ((c.slabs cfg.gcBuffer).nrAlloc : Int) + (c.slabs d).nrUsed ≤
      (c.slabs cfg.gcBuffer).nrSlots) :
    ∃ c', c.moveLive build cfg d (c.readDslab d) = .ok c' ∧
      Silent cfg .gc c g c' (g.become d .diskClean) ∧ MovedLive cfg c d c' := by
  have hCounts := (h.inv.slab d).counts
  have hPending : g.pending d = 0 := h.inv.pending_of_owner (by rw [h.dropped]; simp [Role.owner])
  have hRoom' : (c.slabs cfg.gcBuffer).nrAlloc + c.index.refs d ≤
      (c.slabs cfg.gcBuffer).nrSlots := by omega
  obtain ⟨c₁, hRun, hMoving⟩ := Execution.foldlM_range_total (Moving cfg c g d) (c.slabs d).nrAlloc
    (fun i b _ hi => hi.step build h hRoom') (.start h)
  have hZero := hMoving.refs_dropped h
  have hClean := hMoving.inv.clean h.dropped hZero
  have hAlloc : (c.readDslab d).nrAlloc = (c.slabs d).nrAlloc := rfl
  refine ⟨{ c₁ with slabs := c₁.slabs.modify d fun s => { s with nrUsed := 0 } }, ?_, ?_, ?_⟩
  · simp only [Cache.moveLive, hAlloc, hRun]
    rfl
  · have hExact : g.exact → ∀ x, ¬((g.become d .diskClean).role x).Copying →
        (({ c₁ with slabs := c₁.slabs.modify d fun s => { s with nrUsed := 0 } } : Cache).slabs
          x).nrUsed = (c₁.index.refs x : Int) + g.pending x := by
      intro hg x hCopy
      by_cases hd : x = d
      · subst x
        simp [hZero, hPending]
      · have hOld := (h.inv.slab x).exact hg (by rwa [g.become_of_ne _ hd] at hCopy)
        simp only [Table.get_modify_of_ne _ _ hd]
        by_cases hBuf : x = cfg.gcBuffer
        · subst x
          have := hMoving.used
          have := hMoving.refsBuffer
          omega
        · rw [hMoving.slab x hBuf, hMoving.refs x hBuf hd]
          exact hOld
    refine ⟨hClean.inv.with_exact (b := g.exact) hExact,
      ((hMoving.frame h).trans hClean.frame).with_exact g.exact, fun key => ?_, rfl⟩
    rw [hClean.view key]
    exact hMoving.view key
  · have hBuf : (c₁.slabs.modify d fun s => { s with nrUsed := 0 }) cfg.gcBuffer =
        c₁.slabs cfg.gcBuffer := Table.get_modify_of_ne _ _ h.ne
    constructor
    case slab =>
      intro x hx hd
      simp only [Table.get_modify_of_ne _ _ hd]
      exact hMoving.slab x hx
    case slotSize => simp only [hBuf]; exact hMoving.slotSize
    case nrSlots => simp only [hBuf]; exact hMoving.nrSlots
    case cid => simp only [hBuf]; exact hMoving.cid
    case alloc =>
      have := hMoving.alloc
      simp only [hBuf]
      omega

end KVCache
