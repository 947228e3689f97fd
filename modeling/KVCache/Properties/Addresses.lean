import KVCache.Semantics.Addresses
import KVCache.Semantics.Ssd
import KVCache.Properties.Lookup

/-! Offsets and addresses. The block of a device is found by a product that is
formed in `int`; the slabs in memory are found by products that stay below the
memory budget, which is an `int` itself. -/

namespace KVCache

/-! ### Blocks of a device -/

/-- Every block has a range of bytes of its own, where the exact product puts
it. -/
structure Ssd.RangesDisjoint (ssd : Ssd) : Prop where
  nonneg : ∀ b : Nat, b < ssd.nrBlocks → 0 ≤ ssd.offset b
  exact : ∀ b : Nat, b < ssd.nrBlocks → ssd.offset b = Ssd.dstart + b * ssd.blockSize
  disjoint : ∀ b b' : Nat, b < ssd.nrBlocks → b' < ssd.nrBlocks → b ≠ b' →
    Disjoint (ssd.byteRange b) (ssd.byteRange b')

theorem offset_createDevice (g : SsdConfig) (b : Nat) :
    (Ssd.createDevice g).offset b = Word.int (b * g.blockSize : Nat) := by
  rw [Ssd.offset, Ssd.dstart, Int.zero_add, Int.natCast_mul]
  rfl

/-- Ranges that start where the exact product puts them. -/
theorem disjoint_of_exact {g : SsdConfig} {b b' : Nat}
    (h : (Ssd.createDevice g).offset b = (b * g.blockSize : Nat))
    (h' : (Ssd.createDevice g).offset b' = (b' * g.blockSize : Nat)) (hLess : b < b') :
    Disjoint ((Ssd.createDevice g).byteRange b) ((Ssd.createDevice g).byteRange b') := by
  have hPiece : b * g.blockSize + g.blockSize ≤ b' * g.blockSize := Word.piece_le hLess
  have hSize : (Ssd.createDevice g).blockSize = g.blockSize := rfl
  rw [Ssd.byteRange, Ssd.byteRange, h, h', hSize, Set.Ico_disjoint_Ico]
  omega

/-- The blocks of a device do not overlap exactly if the last one starts below
2 GiB. -/
theorem rangesDisjoint_iff (g : SsdConfig) :
    (Ssd.createDevice g).RangesDisjoint ↔ (g.nrBlocks - 1) * g.blockSize < 2 ^ 31 := by
  have hBlocks : (Ssd.createDevice g).nrBlocks = g.nrBlocks := rfl
  have hSize : (Ssd.createDevice g).blockSize = g.blockSize := rfl
  have hPos : 0 < g.nrBlocks := Nat.mul_pos g.blocks_pos g.channels_pos
  constructor
  · intro h
    have hExact := h.exact (g.nrBlocks - 1) (by rw [hBlocks]; omega)
    rw [offset_createDevice, Ssd.dstart, hSize, Int.zero_add, ← Int.natCast_mul] at hExact
    have hBound := Word.int_lt ((g.nrBlocks - 1) * g.blockSize : Nat)
    rw [hExact] at hBound
    exact Int.ofNat_lt.mp hBound
  · intro hLast
    have hOffset : ∀ b : Nat, b < g.nrBlocks →
        (Ssd.createDevice g).offset b = (b * g.blockSize : Nat) := by
      intro b hb
      rw [offset_createDevice]
      apply Word.int_natCast
      exact Nat.lt_of_le_of_lt (Nat.mul_le_mul_right _ (by omega)) hLast
    constructor
    · intro b hb
      rw [hOffset b (by rw [hBlocks] at hb; omega)]
      exact Int.natCast_nonneg _
    · intro b hb
      rw [hOffset b (by rw [hBlocks] at hb; omega), Ssd.dstart, hSize, Int.zero_add,
        Int.natCast_mul]
    · intro b b' hb hb' hNe
      rw [hBlocks] at hb hb'
      rcases Nat.lt_or_gt_of_ne hNe with hLess | hMore
      · exact disjoint_of_exact (hOffset b (by omega)) (hOffset b' (by omega)) hLess
      · exact (disjoint_of_exact (hOffset b' (by omega)) (hOffset b (by omega)) hMore).symm

/-- Five blocks of 1 GiB: the fifth block is the first one. -/
theorem rangesDisjoint_five_blocks : ¬∀ g : SsdConfig, (Ssd.createDevice g).RangesDisjoint := by
  intro h
  let g : SsdConfig := ⟨1, 5, 2 ^ 30, by decide, by decide, by decide, by decide, by decide⟩
  have hFirst : (Ssd.createDevice g).offset (0 : Nat) = 0 := by decide +kernel
  have hFifth : (Ssd.createDevice g).offset (4 : Nat) = 0 := by decide +kernel
  have hDisjoint := (h g).disjoint 0 4 (by decide) (by decide) (by decide)
  rw [Ssd.byteRange, Ssd.byteRange, hFirst, hFifth, disjoint_self] at hDisjoint
  have hMem : (0 : Int) ∈ Set.Ico 0 (0 + (Ssd.createDevice g).blockSize) := ⟨by decide, by decide⟩
  rw [hDisjoint] at hMem
  exact hMem

/-! ### Slabs in memory -/

/-- What `mmap` and the types of the options promise: the area does not wrap
around the address space, and the sizes are `int`s. -/
structure Config.Mapped (cfg : Config) (address : Nat) : Prop where
  header : Slab.headerSize < cfg.slabSize
  slabSize : cfg.slabSize < 2 ^ 31
  budget : cfg.slabMemBudget < 2 ^ 31
  blocks : cfg.nrBlocks < 2 ^ 31
  area : address + cfg.mapLength ≤ 2 ^ 64

/-- Where a slab is, behind the start of the memory slabs. -/
def Config.slabOffset (cfg : Config) (sid : Nat) : Nat :=
  if sid < cfg.nrMslab then sid * cfg.slabSize
  else cfg.nrMslab * cfg.slabSize + (sid - cfg.nrMslab) * Slab.size

/-- The bytes of a slab in memory; of a disk slab only the header is there. -/
def Config.slabExtent (cfg : Config) (sid : Nat) : Nat :=
  if sid < cfg.nrMslab then cfg.slabSize else Slab.size

/-- Slabs follow each other in the order of their ids. -/
theorem slabOffset_add_extent_le {cfg : Config} {s t : Nat} (h : s < t) :
    cfg.slabOffset s + cfg.slabExtent s ≤ cfg.slabOffset t := by
  unfold Config.slabOffset Config.slabExtent
  by_cases hs : s < cfg.nrMslab
  · have hPiece : s * cfg.slabSize + cfg.slabSize ≤ cfg.nrMslab * cfg.slabSize :=
      Word.piece_le hs
    by_cases ht : t < cfg.nrMslab
    · rw [if_pos hs, if_pos hs, if_pos ht]
      exact Word.piece_le h
    · rw [if_pos hs, if_pos hs, if_neg ht]
      omega
  · have ht : ¬t < cfg.nrMslab := by omega
    rw [if_neg hs, if_neg hs, if_neg ht, Nat.add_assoc]
    apply Nat.add_le_add_left
    exact Word.piece_le (by omega)

theorem slabOffset_add_extent_le_area {cfg : Config} {s : Nat} (h : s < cfg.nrSlab) :
    cfg.slabOffset s + cfg.slabExtent s ≤
      cfg.nrMslab * cfg.slabSize + cfg.nrDslab * Slab.size := by
  have hEnd := @slabOffset_add_extent_le cfg s cfg.nrSlab h
  rwa [show cfg.slabOffset cfg.nrSlab = _ from if_neg (by rw [Config.nrSlab]; omega),
    Config.nrSlab, Nat.add_sub_cancel_left] at hEnd

/-- Alignment upwards goes to the next multiple, unless that wraps around. -/
theorem alignPtrUp_spec {ptr alignment : Nat} (hPos : 0 < alignment)
    (hFits : ptr + alignment ≤ 2 ^ 64) :
    alignment ∣ alignPtrUp ptr alignment ∧ ptr ≤ alignPtrUp ptr alignment ∧
      alignPtrUp ptr alignment < ptr + alignment := by
  have hRemainder : ptr % alignment < alignment := Nat.mod_lt ptr hPos
  unfold alignPtrUp
  by_cases hZero : ptr % alignment = 0
  · simp only [if_pos hZero]
    exact ⟨Nat.dvd_of_mod_eq_zero hZero, Nat.le_refl ptr, by omega⟩
  · simp only [if_neg hZero]
    have hUp : Word.size (ptr + (alignment - (ptr % alignment : Nat))) =
        alignment * (ptr / alignment + 1) := by
      have hSplit := Nat.div_add_mod ptr alignment
      rw [show (ptr + (alignment - (ptr % alignment : Nat)) : Int) =
        (alignment * (ptr / alignment + 1) : Nat) by
          rw [Nat.mul_add, Nat.mul_one]
          omega]
      apply Word.size_natCast
      rw [Nat.mul_add, Nat.mul_one]
      omega
    rw [hUp]
    have hSplit := Nat.div_add_mod ptr alignment
    rw [Nat.mul_add, Nat.mul_one]
    exact ⟨⟨ptr / alignment + 1, rfl⟩, by omega, by omega⟩

/-- Alignment downwards finds the multiple below. -/
theorem alignPtrDown_add {base alignment rest : Nat} (hBase : alignment ∣ base)
    (hRest : rest < alignment) : alignPtrDown (base + rest) alignment = base := by
  obtain ⟨count, rfl⟩ := hBase
  unfold alignPtrDown
  rw [Nat.mul_add_mod, Nat.mod_eq_of_lt hRest, Nat.add_sub_cancel]

namespace Config.Mapped

variable {cfg : Config} {address : Nat}

theorem areaSize_lt (h : cfg.Mapped address) : cfg.nrMslab * cfg.slabSize < 2 ^ 31 :=
  Nat.lt_of_le_of_lt (Nat.div_mul_le_self _ _) h.budget

theorem mslabAreaSize_eq (h : cfg.Mapped address) :
    cfg.mslabAreaSize = (cfg.nrMslab * cfg.slabSize : Nat) := by
  rw [Config.mslabAreaSize, ← Int.natCast_mul]
  exact Word.int_natCast h.areaSize_lt

/-- The product in `slab_by_sid` does not overflow. -/
theorem sid_mul_eq (h : cfg.Mapped address) {sid : Nat} (hSid : sid < cfg.nrMslab) :
    Word.int (sid * cfg.slabSize) = (sid * cfg.slabSize : Nat) := by
  rw [← Int.natCast_mul]
  apply Word.int_natCast
  exact Nat.lt_of_le_of_lt (Nat.mul_le_mul_right _ (Nat.le_of_lt hSid)) h.areaSize_lt

theorem mapLength_eq (h : cfg.Mapped address) :
    cfg.mapLength = cfg.nrMslab * cfg.slabSize + cfg.nrDslab * Slab.size + cfg.slabSize := by
  have hArea := h.areaSize_lt
  have hSlab := h.slabSize
  have hBlocks : cfg.nrDslab < 2 ^ 31 := h.blocks
  have hHeaders : cfg.nrDslab * Slab.size < 2 ^ 31 * 48 :=
    Nat.mul_lt_mul_of_pos_right hBlocks (by decide)
  have hDslab : cfg.dslabAreaSize = cfg.nrDslab * Slab.size := by
    rw [Config.dslabAreaSize, ← Int.natCast_mul]
    apply Word.size_natCast
    omega
  rw [Config.mapLength, h.mslabAreaSize_eq, hDslab, ← Int.natCast_add, ← Int.natCast_add]
  apply Word.size_natCast
  omega

theorem mslabBase_spec (h : cfg.Mapped address) :
    cfg.slabSize ∣ (SlabArea.init cfg address).mslabBase ∧
      address ≤ (SlabArea.init cfg address).mslabBase ∧
      (SlabArea.init cfg address).mslabBase < address + cfg.slabSize := by
  have hArea := h.area
  rw [h.mapLength_eq] at hArea
  have hHeader := h.header
  exact alignPtrUp_spec (by omega) (by omega)

/-- The slabs end inside of the area. -/
theorem base_add_lt (h : cfg.Mapped address) {n : Nat}
    (hn : n ≤ cfg.nrMslab * cfg.slabSize + cfg.nrDslab * Slab.size) :
    (SlabArea.init cfg address).mslabBase + n < address + cfg.mapLength := by
  have hBase := h.mslabBase_spec.2.2
  have hLength := h.mapLength_eq
  omega

theorem mslabEnd_init : (SlabArea.init cfg address).mslabEnd =
    Word.size ((SlabArea.init cfg address).mslabBase + cfg.mslabAreaSize) := by
  simp only [SlabArea.init]

theorem mslabEnd_eq (h : cfg.Mapped address) :
    (SlabArea.init cfg address).mslabEnd =
      (SlabArea.init cfg address).mslabBase + cfg.nrMslab * cfg.slabSize := by
  have hEnd := h.base_add_lt (Nat.le_add_right (cfg.nrMslab * cfg.slabSize) _)
  have hArea := h.area
  rw [mslabEnd_init, h.mslabAreaSize_eq, ← Int.natCast_add]
  apply Word.size_natCast
  omega

theorem slabBySid_eq (h : cfg.Mapped address) {sid : Nat} (hSid : sid < cfg.nrSlab) :
    (SlabArea.init cfg address).slabBySid cfg sid =
      (SlabArea.init cfg address).mslabBase + cfg.slabOffset sid := by
  have hEnd := h.base_add_lt
    (Nat.le_trans (Nat.le_add_right _ _) (slabOffset_add_extent_le_area hSid))
  have hArea := h.area
  by_cases hMemory : sid < cfg.nrMslab
  · rw [Config.slabOffset, if_pos hMemory] at hEnd ⊢
    rw [SlabArea.slabBySid, if_pos hMemory, h.sid_mul_eq hMemory, ← Int.natCast_add]
    apply Word.size_natCast
    omega
  · rw [Config.slabOffset, if_neg hMemory] at hEnd ⊢
    rw [SlabArea.slabBySid, if_neg hMemory,
      show (SlabArea.init cfg address).dslabBase = _ from h.mslabEnd_eq,
      ← Int.natCast_sub (Nat.le_of_not_lt hMemory), ← Int.natCast_mul, ← Int.natCast_add,
      Nat.add_assoc]
    apply Word.size_natCast
    omega

theorem slabBySid_add_extent_le (h : cfg.Mapped address) {sid : Nat} (hSid : sid < cfg.nrSlab) :
    (SlabArea.init cfg address).slabBySid cfg sid + cfg.slabExtent sid ≤
      address + cfg.mapLength := by
  rw [h.slabBySid_eq hSid, Nat.add_assoc]
  exact Nat.le_of_lt (h.base_add_lt (slabOffset_add_extent_le_area hSid))

/-- Slabs follow each other in memory as their ids do. -/
theorem slabBySid_apart (h : cfg.Mapped address) {s t : Nat} (ht : t < cfg.nrSlab) (hLess : s < t) :
    (SlabArea.init cfg address).slabBySid cfg s + cfg.slabExtent s ≤
      (SlabArea.init cfg address).slabBySid cfg t := by
  rw [h.slabBySid_eq (Nat.lt_trans hLess ht), h.slabBySid_eq ht, Nat.add_assoc]
  exact Nat.add_le_add_left (slabOffset_add_extent_le hLess) _

theorem extent_pos (h : cfg.Mapped address) (sid : Nat) : 0 < cfg.slabExtent sid := by
  have hHeader := h.header
  unfold Config.slabExtent
  split
  · omega
  · decide

end Config.Mapped

/-! ### Slots in memory -/

section

variable {cfg : Config} {a : SlabArea} {slab slotSize i : Nat}

theorem slotPtr_eq (hSlot : Slab.headerSize + slotSize * (i + 1) ≤ cfg.slabSize)
    (hSize : cfg.slabSize < 2 ^ 31) (hFits : slab + cfg.slabSize ≤ 2 ^ 64) (hPos : 1 ≤ slotSize) :
    Slab.slotPtr slab slotSize i = slab + (Slab.headerSize + slotSize * i) := by
  rw [Nat.mul_add, Nat.mul_one] at hSlot
  have hProduct : Word.int (slotSize * i) = (slotSize * i : Nat) := by
    rw [← Int.natCast_mul]
    apply Word.int_natCast
    omega
  rw [Slab.slotPtr, hProduct, ← Int.natCast_add, ← Int.natCast_add, Nat.add_assoc]
  apply Word.size_natCast
  omega

/-- From any place of a slab the way back leads to its start. -/
theorem slotToSlab_add {rest : Nat} (hSlab : cfg.slabSize ∣ slab) (hRest : rest < cfg.slabSize)
    (hBase : a.mslabBase ≤ slab) (hFits : slab + cfg.slabSize ≤ 2 ^ 64) :
    a.slotToSlab cfg (slab + rest) = slab := by
  have hDiff : Word.size ((slab + rest : Nat) - a.mslabBase) = slab + rest - a.mslabBase := by
    rw [← Int.natCast_sub (by omega)]
    apply Word.size_natCast
    omega
  have hBack : Word.size (a.mslabBase + (slab + rest - a.mslabBase : Nat)) = slab + rest := by
    rw [← Int.natCast_add, Nat.add_sub_cancel' (by omega)]
    apply Word.size_natCast
    omega
  simp only [SlabArea.slotToSlab]
  rw [hDiff, hBack]
  exact alignPtrDown_add hSlab hRest

/-- The number of a slot is read off its distance to the data of its slab. -/
theorem slotId_eq {slotSizeAt : Nat → Nat}
    (hSlab : a.slotToSlab cfg (slab + (Slab.headerSize + slotSizeAt slab * i)) = slab)
    (hPos : 1 ≤ slotSizeAt slab) (hInt : slotSizeAt slab * i < 2 ^ 31) :
    a.slotId cfg slotSizeAt (slab + (Slab.headerSize + slotSizeAt slab * i)) = i := by
  have hDiff : Word.size ((slab + (Slab.headerSize + slotSizeAt slab * i) : Nat) -
      ((slab : Int) + Slab.headerSize)) = slotSizeAt slab * i := by
    rw [← Int.natCast_add, ← Int.natCast_sub (by omega), ← Nat.add_assoc,
      Nat.add_sub_cancel_left]
    apply Word.size_natCast
    omega
  have hi : i ≤ slotSizeAt slab * i := Nat.le_mul_of_pos_left i hPos
  simp only [SlabArea.slotId]
  rw [hSlab, hDiff, Nat.mul_div_cancel_left i hPos]
  apply Word.int_natCast
  omega

end

/-- A slot of a memory slab leads back to its slab and to its number, and the
assertion of `slot_to_slab` holds. -/
theorem Config.Mapped.slot_inverts {cfg : Config} {address : Nat} (h : cfg.Mapped address)
    {sid i : Nat} {slotSizeAt : Nat → Nat} (hSid : sid < cfg.nrMslab)
    (hPos : 1 ≤ slotSizeAt ((SlabArea.init cfg address).slabBySid cfg sid))
    (hSlot : Slab.headerSize +
      slotSizeAt ((SlabArea.init cfg address).slabBySid cfg sid) * (i + 1) ≤ cfg.slabSize) :
    let a := SlabArea.init cfg address
    let slot := Slab.slotPtr (a.slabBySid cfg sid) (slotSizeAt (a.slabBySid cfg sid)) i
    a.slotToSlab cfg slot = a.slabBySid cfg sid ∧ a.slotId cfg slotSizeAt slot = i ∧
      a.mslabBase ≤ a.slotToSlab cfg slot ∧ a.slotToSlab cfg slot < a.mslabEnd := by
  intro a slot
  change 1 ≤ slotSizeAt (a.slabBySid cfg sid) at hPos
  change Slab.headerSize + slotSizeAt (a.slabBySid cfg sid) * (i + 1) ≤ _ at hSlot
  have hAll : sid < cfg.nrSlab := Nat.lt_of_lt_of_le hSid (Nat.le_add_right _ _)
  have hOffset : cfg.slabOffset sid = sid * cfg.slabSize := if_pos hSid
  have hPlace : a.slabBySid cfg sid = a.mslabBase + sid * cfg.slabSize := by
    rw [← hOffset]
    exact h.slabBySid_eq hAll
  have hFits : a.slabBySid cfg sid + cfg.slabSize ≤ 2 ^ 64 := by
    have hLast := h.slabBySid_add_extent_le hAll
    rw [show cfg.slabExtent sid = cfg.slabSize from if_pos hSid] at hLast
    exact Nat.le_trans hLast h.area
  have hPtr : slot =
      a.slabBySid cfg sid + (Slab.headerSize + slotSizeAt (a.slabBySid cfg sid) * i) :=
    slotPtr_eq hSlot h.slabSize hFits hPos
  have hInside : Slab.headerSize + slotSizeAt (a.slabBySid cfg sid) * i < cfg.slabSize := by
    rw [Nat.mul_add, Nat.mul_one] at hSlot
    omega
  have hBack : a.slotToSlab cfg slot = a.slabBySid cfg sid := by
    rw [hPtr]
    apply slotToSlab_add _ hInside _ hFits
    · rw [hPlace]
      exact Nat.dvd_add h.mslabBase_spec.1 (Nat.dvd_mul_left _ _)
    · rw [hPlace]
      exact Nat.le_add_right _ _
  refine ⟨hBack, ?_, ?_, ?_⟩
  · rw [hPtr] at hBack ⊢
    have hSize := h.slabSize
    exact slotId_eq hBack hPos (by omega)
  · rw [hBack, hPlace]
    exact Nat.le_add_right _ _
  · rw [hBack, hPlace, h.mslabEnd_eq]
    apply Nat.add_lt_add_left
    have hPiece : sid * cfg.slabSize + cfg.slabSize ≤ cfg.nrMslab * cfg.slabSize :=
      Word.piece_le hSid
    omega

/-- The address arithmetic inverts: the slab and the number of a slot are found
from its address, products do not overflow, and all slabs have their own bytes
inside of the mapped area. -/
theorem addresses_invert {cfg : Config} {address : Nat} (h : cfg.Mapped address) :
    let a := SlabArea.init cfg address
    (∀ sid < cfg.nrMslab, ∀ slotSizeAt : Nat → Nat, ∀ i : Nat,
      let slotSize := slotSizeAt (a.slabBySid cfg sid)
      let slot := Slab.slotPtr (a.slabBySid cfg sid) slotSize i
      1 ≤ slotSize → Slab.headerSize + slotSize * (i + 1) ≤ cfg.slabSize →
        a.slotToSlab cfg slot = a.slabBySid cfg sid ∧ a.slotId cfg slotSizeAt slot = i ∧
          a.mslabBase ≤ a.slotToSlab cfg slot ∧ a.slotToSlab cfg slot < a.mslabEnd) ∧
      (∀ sid < cfg.nrMslab, sid * cfg.slabSize < 2 ^ 31) ∧
      (∀ s < cfg.nrSlab, ∀ t < cfg.nrSlab, a.slabBySid cfg s = a.slabBySid cfg t → s = t) ∧
      (∀ s < cfg.nrSlab, address ≤ a.slabBySid cfg s ∧
        a.slabBySid cfg s + cfg.slabExtent s ≤ address + cfg.mapLength) ∧
      ∀ s < cfg.nrSlab, ∀ t < cfg.nrSlab, s ≠ t →
        a.slabBySid cfg s + cfg.slabExtent s ≤ a.slabBySid cfg t ∨
          a.slabBySid cfg t + cfg.slabExtent t ≤ a.slabBySid cfg s := by
  intro a
  refine ⟨fun sid hSid slotSizeAt i => ?_, fun sid hSid => ?_, fun s hs t ht hEq => ?_,
    fun s hs => ⟨?_, h.slabBySid_add_extent_le hs⟩, fun s hs t ht hNe => ?_⟩
  · intro slotSize slot hPos hSlot
    exact h.slot_inverts hSid hPos hSlot
  · exact Nat.lt_of_le_of_lt (Nat.mul_le_mul_right _ (Nat.le_of_lt hSid)) h.areaSize_lt
  · rcases Nat.lt_trichotomy s t with hLess | hSame | hMore
    · have hBehind : a.slabBySid cfg s + cfg.slabExtent s ≤ a.slabBySid cfg t :=
        h.slabBySid_apart ht hLess
      have hSize := h.extent_pos s
      omega
    · exact hSame
    · have hBehind : a.slabBySid cfg t + cfg.slabExtent t ≤ a.slabBySid cfg s :=
        h.slabBySid_apart hs hMore
      have hSize := h.extent_pos t
      omega
  · rw [h.slabBySid_eq hs]
    exact Nat.le_trans h.mslabBase_spec.2.1 (Nat.le_add_right _ _)
  · rcases Nat.lt_or_gt_of_ne hNe with hLess | hMore
    · exact .inl (h.slabBySid_apart ht hLess)
    · exact .inr (h.slabBySid_apart hs hMore)

theorem Config.small_mapped : Config.small.Mapped 1000 where
  header := by decide
  slabSize := by decide
  budget := by decide
  blocks := by decide
  area := by decide +kernel

/-- An area at address 1000 with slabs of 60 bytes: the second slab starts at
1080, and its only slot leads back to it. -/
theorem addresses_invert_small :
    let a := SlabArea.init .small 1000
    Slab.slotPtr (a.slabBySid .small 1) 16 0 = 1124 ∧ a.slotToSlab .small 1124 = 1080 ∧
      a.slotId .small (fun _ => 16) 1124 = 0 := by
  intro a
  have hPtr : Slab.slotPtr (a.slabBySid .small 1) 16 0 = 1124 := by decide +kernel
  have hSlab : a.slabBySid .small 1 = 1080 := by decide +kernel
  obtain ⟨hBack, hId, -⟩ := (addresses_invert Config.small_mapped).1 1 (by decide)
    (fun _ => 16) 0 (by decide) (by decide)
  change a.slotToSlab .small (Slab.slotPtr (a.slabBySid .small 1) 16 0) = _ at hBack
  change a.slotId .small (fun _ => 16) (Slab.slotPtr (a.slabBySid .small 1) 16 0) = _ at hId
  rw [hPtr] at hBack hId
  exact ⟨hPtr, hBack.trans hSlab, hId⟩

end KVCache
