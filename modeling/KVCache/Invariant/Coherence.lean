import KVCache.Invariant.Slots
import KVCache.Invariant.Index
import KVCache.Invariant.Roles

/-! The invariant of a cache. It holds between any two critical sections of
the code, with the role of every slab as a witness: the role fixes the header,
what the block stores and whether index entries point into the slab. -/

namespace KVCache

theorem Config.classSize_mem (cfg : Config) {k : Nat} (h : k < cfg.nrSlabClass) :
    cfg.classSize k ∈ cfg.slabClassSize := by
  rw [classSize, List.getD_eq_getElem?_getD, List.getElem?_eq_getElem h]
  exact List.getElem_mem _

namespace Slab

/-- As `reset` leaves it. -/
structure Fresh (s : Slab) : Prop where
  cid : s.cid = -1
  nrAlloc : s.nrAlloc = 0

/-- The header of a slab that was opened for a class. -/
structure OfClass (cfg : Config) (k : Nat) (s : Slab) : Prop where
  cid : s.cid = k
  isClass : k < cfg.nrSlabClass
  slotSize : s.slotSize = cfg.classSize k
  nrSlots : s.nrSlots = cfg.slabSlots (cfg.classSize k)

/-- The block `b` stores the slots of `s`. -/
structure Backs (b s : Slab) : Prop where
  nrAlloc : b.nrAlloc = s.nrAlloc
  slotSize : b.slotSize = s.slotSize
  slots : ∀ i < s.nrAlloc, b.slot i = s.slot i ∧ b.Fits i

/-- The headers agree in what `flush_mslab_to_dslab` copies, up to the count of
used slots. -/
structure SameHeader (s t : Slab) : Prop where
  cid : s.cid = t.cid
  slotSize : s.slotSize = t.slotSize
  nrSlots : s.nrSlots = t.nrSlots
  nrAlloc : s.nrAlloc = t.nrAlloc

/-- The slabs differ at most in the count of used slots. -/
def Same (s t : Slab) : Prop := t = { s with nrUsed := t.nrUsed }

section

variable {s t : Slab}

@[refl] theorem Same.refl (s : Slab) : s.Same s := rfl

theorem Same.nrAlloc (h : s.Same t) : t.nrAlloc = s.nrAlloc := by rw [h]

theorem Same.nrSlots (h : s.Same t) : t.nrSlots = s.nrSlots := by rw [h]

theorem Same.slotSize (h : s.Same t) : t.slotSize = s.slotSize := by rw [h]

theorem Same.cid (h : s.Same t) : t.cid = s.cid := by rw [h]

theorem Same.sid (h : s.Same t) : t.sid = s.sid := by rw [h]

theorem Same.blockId (h : s.Same t) : t.blockId = s.blockId := by rw [h]

theorem Same.slot (h : s.Same t) (i : Nat) : t.slot i = s.slot i := by rw [h]; rfl

theorem Same.slotsFit (h : s.Same t) (hFit : s.SlotsFit) : t.SlotsFit := by rw [h]; exact hFit

theorem Same.trans {u : Slab} (h : s.Same t) (h' : t.Same u) : s.Same u := by
  rw [Same, h', h]

theorem Same.fresh (h : s.Same t) (hFresh : s.Fresh) : t.Fresh :=
  ⟨h.cid.trans hFresh.cid, h.nrAlloc.trans hFresh.nrAlloc⟩

theorem Same.ofClass {cfg : Config} {k : Nat} (h : s.Same t) (hClass : s.OfClass cfg k) :
    t.OfClass cfg k :=
  ⟨h.cid.trans hClass.cid, hClass.isClass, h.slotSize.trans hClass.slotSize,
    h.nrSlots.trans hClass.nrSlots⟩

theorem Same.sameHeader {u : Slab} (h : s.Same t) (hHeader : u.SameHeader s) : u.SameHeader t :=
  ⟨hHeader.cid.trans h.cid.symm, hHeader.slotSize.trans h.slotSize.symm,
    hHeader.nrSlots.trans h.nrSlots.symm, hHeader.nrAlloc.trans h.nrAlloc.symm⟩

theorem Same.sameHeader_left {u : Slab} (h : s.Same t) (hHeader : s.SameHeader u) :
    t.SameHeader u :=
  ⟨h.cid.trans hHeader.cid, h.slotSize.trans hHeader.slotSize, h.nrSlots.trans hHeader.nrSlots,
    h.nrAlloc.trans hHeader.nrAlloc⟩

theorem Same.backs {b : Slab} (h : s.Same t) (hBacks : b.Backs s) : b.Backs t :=
  ⟨hBacks.nrAlloc.trans h.nrAlloc.symm, hBacks.slotSize.trans h.slotSize.symm,
    fun i hi => by rw [h.slot i]; exact hBacks.slots i (h.nrAlloc ▸ hi)⟩

/-- A slab of a class holds its slots within the data area. -/
theorem OfClass.slots_le {cfg : Config} {k : Nat} (h : s.OfClass cfg k) :
    s.slotSize * s.nrSlots ≤ cfg.slabSize - headerSize := by
  rw [h.slotSize, h.nrSlots]
  exact Nat.mul_div_le _ _

theorem OfClass.slotSize_le {cfg : Config} (hCfg : cfg.Sound) {k : Nat}
    (h : s.OfClass cfg k) : s.slotSize ≤ cfg.slabSize - headerSize := by
  rw [h.slotSize]
  exact hCfg.classes _ (cfg.classSize_mem h.isClass)

end

end Slab

/-- The slab whose image a disk slab is receiving. -/
def Role.src : Role → Option Nat
  | .diskWritten _ src | .diskCopy _ src => some src
  | _ => none

/-- The block of the slab matters. -/
def Role.Stored : Role → Prop
  | .diskWritten _ _ | .diskCopy _ _ | .diskFilled | .diskFull | .diskDropped => True
  | _ => False

/-- The header has been copied, and with it a count that means nothing yet. -/
def Role.Copying : Role → Prop
  | .diskCopy _ _ => True
  | _ => False

/-- What a role says about the header of a slab and about its block. -/
def Shape (cfg : Config) (c : Cache) (x : Nat) : Role → Prop
  | .outside | .memFree | .memReset | .diskFree | .opsFree | .diskTaken _ | .diskLoose =>
      (c.slabs x).Fresh
  | .memPartial k =>
      (c.slabs x).OfClass cfg k ∧ (c.slabs x).SlotsFit ∧ (c.slabs x).nrAlloc < (c.slabs x).nrSlots
  | .memWriter | .memFull | .memFlush | .memSource _ | .memDone =>
      (∃ k, (c.slabs x).OfClass cfg k) ∧ (c.slabs x).SlotsFit ∧
        (c.slabs x).nrAlloc = (c.slabs x).nrSlots
  | .bufferBusy | .bufferSource _ => (∃ k, (c.slabs x).OfClass cfg k) ∧ (c.slabs x).SlotsFit
  | .bufferIdle | .diskClean => True
  | .diskWritten _ src => (c.slabs x).Fresh ∧ (c.block x).Backs (c.slabs src)
  | .diskCopy _ src =>
      (c.slabs x).SameHeader (c.slabs src) ∧ (c.block x).Backs (c.slabs src)
  | .diskFilled | .diskFull | .diskDropped =>
      (∃ k, (c.slabs x).OfClass cfg k) ∧ (c.block x).Backs (c.readDslab x)

/-- What holds of one slab. The count of used slots covers the entries that
point into the slab and a slot whose entry is still to come. -/
structure SlabOk (cfg : Config) (c : Cache) (g : Ghost) (x : Nat) : Prop where
  range : (g.role x).InRange cfg x
  sid : x < cfg.nrSlab → (c.slabs x).sid = x
  blockId : (c.slabs x).blockId = g.block x
  shape : Shape cfg c x (g.role x)
  source : ∀ src, (g.role x).src = some src →
    g.role src = .memSource x ∨ g.role src = .bufferSource x
  bounds : (c.slabs x).nrUsed ≤ (c.slabs x).nrAlloc ∧ (c.slabs x).nrAlloc ≤ (c.slabs x).nrSlots
  counts : (c.index.refs x : Int) + g.pending x ≤ (c.slabs x).nrUsed
  exact : g.exact → ¬(g.role x).Copying → (c.slabs x).nrUsed = (c.index.refs x : Int) + g.pending x
  dead : (g.role x).Dead → c.index.refs x = 0

/-- Where the slabs are. Memory slabs have no block, disk slabs have one each. -/
structure Geometry (cfg : Config) (block : Nat → Int) : Prop where
  memory : ∀ x < cfg.nrMslab, block x = -1
  disk : ∀ x, cfg.nrMslab ≤ x → x < cfg.nrSlab → 0 ≤ block x ∧ block x < cfg.nrBlocks
  injective : ∀ x y, cfg.nrMslab ≤ x → x < cfg.nrSlab → cfg.nrMslab ≤ y → y < cfg.nrSlab →
    block x = block y → x = y

/-- A `Put` between its slot and its index entry. -/
structure PendOk (c : Cache) (g : Ghost) (p : PendingPut) : Prop where
  role : (∃ k, g.role p.sid = .memPartial k) ∨ g.role p.sid = .memWriter
  alloc : p.slotId < (c.slabs p.sid).nrAlloc
  slot : c.slotAt p.sid p.slotId = (p.key, p.value)

/-- The invariant. -/
structure Inv (cfg : Config) (c : Cache) (g : Ghost) : Prop where
  config : cfg.Sound
  lists : Lists cfg c g
  geometry : Geometry cfg g.block
  slab : ∀ x, SlabOk cfg c g x
  index : c.index.Ok cfg (fun x i => (c.slotAt x i).1) (fun x => (c.slabs x).nrAlloc)
  pend : ∀ p, g.pend = some p → PendOk c g p

namespace Cache

variable {c c' : Cache} {x : Nat}

theorem slotAt_of_memory (h : (c.slabs x).blockId = -1) (i : Nat) :
    c.slotAt x i = (c.slabs x).slot i := by
  simp [slotAt, source, Slab.imMemory, h]

theorem slotAt_of_disk (h : (c.slabs x).blockId ≠ -1) (i : Nat) :
    c.slotAt x i = (c.readDslab x).slot i := by
  simp [slotAt, source, Slab.imMemory, h]

/-- The objects in a slab depend on its header and data, and on its block. -/
theorem slotAt_congr (hSame : (c.slabs x).Same (c'.slabs x))
    (hBlock : (c.slabs x).blockId ≠ -1 → c'.block x = c.block x) (i : Nat) :
    c'.slotAt x i = c.slotAt x i := by
  by_cases h : (c.slabs x).blockId = -1
  · rw [slotAt_of_memory h, slotAt_of_memory (hSame.blockId.trans h), hSame.slot]
  · rw [slotAt_of_disk h, slotAt_of_disk (by rwa [hSame.blockId])]
    simp only [readDslab, hBlock h, Slab.slot, Slab.slotKey, Slab.slotValue, Slab.slotOffset,
      hSame.slotSize]

/-- Use counts do not matter for what the slots hold. -/
theorem block_of_same (hDisk : c'.disk = c.disk) (hSame : (c.slabs x).Same (c'.slabs x)) :
    c'.block x = c.block x := by
  simp only [block, hDisk, hSame.blockId]

theorem slotAt_of_same (hDisk : c'.disk = c.disk) (hSame : ∀ x, (c.slabs x).Same (c'.slabs x)) :
    c'.slotAt = c.slotAt := by
  funext x i
  exact slotAt_congr (hSame x) (fun _ => block_of_same hDisk (hSame x)) i

/-- A block that backs the slab itself has its slots. -/
theorem block_slot (h : (c.block x).Backs (c.readDslab x)) (hDisk : (c.slabs x).blockId ≠ -1)
    {i : Nat} (hi : i < (c.slabs x).nrAlloc) : (c.block x).slot i = c.slotAt x i := by
  rw [slotAt_of_disk hDisk]
  exact (h.slots i hi).1

end Cache

namespace Shape

variable {cfg : Config} {c c' : Cache} {x : Nat} {r : Role}

/-- A shape survives changes of use counts and of what does not concern it. -/
theorem congr (h : Shape cfg c x r) (hSame : (c.slabs x).Same (c'.slabs x))
    (hBlock : r.Stored → c'.block x = c.block x)
    (hSource : ∀ src, r.src = some src → (c.slabs src).Same (c'.slabs src)) :
    Shape cfg c' x r := by
  cases r with
  | outside => exact hSame.fresh h
  | memFree => exact hSame.fresh h
  | memReset => exact hSame.fresh h
  | diskFree => exact hSame.fresh h
  | opsFree => exact hSame.fresh h
  | diskTaken w => exact hSame.fresh h
  | diskLoose => exact hSame.fresh h
  | memPartial k =>
      exact ⟨hSame.ofClass h.1, hSame.slotsFit h.2.1, by
        rw [hSame.nrAlloc, hSame.nrSlots]; exact h.2.2⟩
  | memWriter | memFull | memFlush | memSource _ | memDone =>
      obtain ⟨⟨k, hClass⟩, hFit, hFull⟩ := h
      exact ⟨⟨k, hSame.ofClass hClass⟩, hSame.slotsFit hFit, by
        rw [hSame.nrAlloc, hSame.nrSlots]; exact hFull⟩
  | bufferBusy | bufferSource _ =>
      obtain ⟨⟨k, hClass⟩, hFit⟩ := h
      exact ⟨⟨k, hSame.ofClass hClass⟩, hSame.slotsFit hFit⟩
  | bufferIdle => trivial
  | diskClean => trivial
  | diskWritten w src =>
      refine ⟨hSame.fresh h.1, ?_⟩
      rw [hBlock trivial]
      exact (hSource src rfl).backs h.2
  | diskCopy w src =>
      refine ⟨hSame.sameHeader_left ((hSource src rfl).sameHeader h.1), ?_⟩
      rw [hBlock trivial]
      exact (hSource src rfl).backs h.2
  | diskFilled | diskFull | diskDropped =>
      obtain ⟨⟨k, hClass⟩, hBacks⟩ := h
      refine ⟨⟨k, hSame.ofClass hClass⟩, ?_⟩
      rw [hBlock trivial]
      have hRead : (c.readDslab x).Same (c'.readDslab x) := by
        simp only [Cache.readDslab, hBlock trivial, Slab.Same]
        rw [hSame]
      exact hRead.backs hBacks

end Shape

/-- A disk slab has a role of such slabs. -/
theorem Inv.onDisk (h : Inv cfg c g) (hDisk : cfg.nrMslab ≤ x ∧ x < cfg.nrSlab) :
    (g.role x).OnDisk := by
  have hRange := (h.slab x).range
  have hMemory := h.config.memory
  generalize g.role x = r at hRange
  cases r <;> first | trivial | (simp only [Role.InRange, Config.gcBuffer] at hRange; omega)

end KVCache
