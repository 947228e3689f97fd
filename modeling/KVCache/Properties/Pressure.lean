import KVCache.Invariant.Interleaving
import KVCache.Invariant.Pool
import KVCache.Invariant.Selection
import KVCache.Properties.Overflow

/-! Quick GC under pressure. It computes how many slabs to drop from the water
marks, the free slabs and the pool, and not from the number of full slabs. So it
may ask for more slabs than there are, and its selection loop does not end; and
since it loses one of the slabs that it drops, it may return with as few free
slabs as before. -/

namespace KVCache

variable {build : Build} {cfg : Config} {c c' : Cache} {t : Threads}

/-! ### Relief -/

namespace Cache

/-- What quick GC is for: there are as many free slabs as the lower mark asks
for, and the pool has grown by what there was room for. -/
def Relieved (c c' : Cache) : Prop :=
  c'.freeBlockWaterMarkLow ≤ c'.nrFreeDslab ∧ (0 ≤ c.quickAmounts.1 →
    c'.opsPoolSize = c.opsPoolSize + min c.opsPoolSize (c.maxOpsPoolSize - c.opsPoolSize))

/-- The marks and their limits are large enough for three tenths of the raised
mark to be a slab, or some limit is so small that the free slabs reach it. -/
def CanRelieve (c : Cache) : Prop :=
  (3 ≤ c.freeBlockWaterMarkLow ∧ 4 ≤ c.freeBlockWaterMarkHigh ∧
    5 ≤ c.freeBlockWaterMarkHighMax ∧ 4 ≤ c.maxOpsPoolSize) ∨
  c.maxOpsPoolSize ≤ c.nrFreeDslab ∨
  (9 * min ((15 * c.freeBlockWaterMarkHigh).tdiv 10) c.freeBlockWaterMarkHighMax).tdiv 10 ≤
    c.nrFreeDslab

end Cache

/-- `quick_gc` without assertions is `do_quick_gc` with raised marks. -/
theorem quickGc_counts {fuel : Nat} (hPool : 0 ≤ c.opsPoolSize)
    (hMax : c.opsPoolSize ≤ c.maxOpsPoolSize) (hRun : c.quickGc build cfg fuel = .ok c') :
    c'.opsPoolSize = c.opsPoolSize +
        min (max (c.quickAmounts.1 + c.quickAmounts.2) 0) c.quickAmounts.2 ∧
      c'.nrFreeDslab = c.nrFreeDslab + max (c.quickAmounts.1 - 1) 0 ∧
      c'.freeBlockWaterMarkLow = c.quickWaterMarks.1 := by
  unfold Cache.quickGc at hRun
  obtain ⟨_, -, hRun⟩ := Execution.bind_eq_ok.mp hRun
  obtain ⟨_, -, hRun⟩ := Execution.bind_eq_ok.mp hRun
  have hRoom : 0 ≤ c.quickAmounts.2 := by
    simp only [Cache.quickAmounts]
    omega
  obtain ⟨hOps, hFree, hMarks⟩ := doQuickGc_counts hRoom hRun
  exact ⟨hOps, hFree, congrArg WaterMarks.low hMarks⟩

/-- The pool gets all that it was to get. -/
theorem quickGc_pool {fuel : Nat} (hPool : 0 ≤ c.opsPoolSize)
    (hMax : c.opsPoolSize ≤ c.maxOpsPoolSize) (hRun : c.quickGc build cfg fuel = .ok c')
    (hFree : 0 ≤ c.quickAmounts.1) :
    c'.opsPoolSize = c.opsPoolSize + min c.opsPoolSize (c.maxOpsPoolSize - c.opsPoolSize) := by
  have hCounts := (quickGc_counts hPool hMax hRun).1
  have hAmount : c.quickAmounts.2 = min c.opsPoolSize (c.maxOpsPoolSize - c.opsPoolSize) := rfl
  omega

theorem le_tdiv_ten {n x : Int} (hn : 0 < n) : n ≤ x.tdiv 10 ↔ 10 * n ≤ x := by
  have hTen := tdiv_ten x
  omega

/-- One slab is lost, so the free slabs reach the mark only if quick GC was
asked for one more, or if they did so before. -/
theorem quickGc_free_iff {fuel : Nat} (hPool : 0 ≤ c.opsPoolSize)
    (hMax : c.opsPoolSize ≤ c.maxOpsPoolSize) (hRun : c.quickGc build cfg fuel = .ok c') :
    c'.freeBlockWaterMarkLow ≤ c'.nrFreeDslab ↔
      4 ≤ c.quickWaterMarks.1 ∨ c.quickWaterMarks.1 ≤ c.nrFreeDslab := by
  obtain ⟨-, hFree, hLow⟩ := quickGc_counts hPool hMax hRun
  have hAmount : c.quickAmounts.1 =
      (10 * (c.quickWaterMarks.1 - c.nrFreeDslab) + 3 * c.quickWaterMarks.1).tdiv 10 := rfl
  rw [hLow, hFree]
  by_cases hReached : c.quickWaterMarks.1 ≤ c.nrFreeDslab
  · exact iff_of_true (by omega) (.inr hReached)
  · have hMore : c.quickWaterMarks.1 - c.nrFreeDslab + 1 ≤ c.quickAmounts.1 ↔
        4 ≤ c.quickWaterMarks.1 := by
      rw [hAmount, le_tdiv_ten (by omega)]
      omega
    omega

/-- Where the raised lower mark is, by the marks and limits that it comes from. -/
theorem canRelieve_iff (hNrFree : 0 ≤ c.nrFreeDslab)
    (hPressed : c.nrFreeDslab < c.freeBlockWaterMarkLow) :
    c.CanRelieve ↔ 4 ≤ c.quickWaterMarks.1 ∨ c.quickWaterMarks.1 ≤ c.nrFreeDslab := by
  have hLow : 4 ≤ (15 * c.freeBlockWaterMarkLow).tdiv 10 ↔ 3 ≤ c.freeBlockWaterMarkLow := by
    rw [le_tdiv_ten (by decide)]
    omega
  have hHigh : 5 ≤ (15 * c.freeBlockWaterMarkHigh).tdiv 10 ↔ 4 ≤ c.freeBlockWaterMarkHigh := by
    rw [le_tdiv_ten (by decide)]
    omega
  have hNine : ∀ high : Int, 4 ≤ (9 * high).tdiv 10 ↔ 5 ≤ high := by
    intro high
    rw [le_tdiv_ten (by decide)]
    omega
  -- the lower mark is above the free slabs, and raising it does not lower it
  have hRaised : ¬(15 * c.freeBlockWaterMarkLow).tdiv 10 ≤ c.nrFreeDslab := by
    have hTen := tdiv_ten (15 * c.freeBlockWaterMarkLow)
    omega
  simp only [Cache.CanRelieve, Cache.quickWaterMarks, le_min_iff, min_le_iff, hLow, hNine, hHigh,
    hRaised, false_or, and_assoc, or_comm]

/-- In release builds nothing but the selection loop keeps quick GC from
returning. -/
theorem quickGc_returns {g : Ghost} (hInv : Inv cfg c g)
    (hEnough : c.quickAmounts.1 + c.quickAmounts.2 ≤ c.fullCount) :
    ∃ fuel c', c.quickGc .release cfg fuel = .ok c' := by
  -- the marks do not matter for the lists
  have hRaised : Silent cfg .gc c g { c with
      freeBlockWaterMarkLow := c.quickWaterMarks.1
      freeBlockWaterMarkHigh := c.quickWaterMarks.2 } g :=
    hInv.unrelated rfl rfl rfl hInv.lists.congr
  obtain ⟨fuel, ⟨toDrop, c₁⟩, hSelect⟩ := hRaised.inv.selectDrop_ends_iff.mpr hEnough
  obtain ⟨c₂, hDrop⟩ := Execution.foldlM_total (f := Cache.dropDslab .release cfg)
    (fun _ _ => ⟨_, rfl⟩) toDrop c₁
  obtain ⟨c₃, hFree⟩ := Execution.foldlM_total (f := Cache.backToDslabFree .release cfg)
    (fun _ _ => ⟨_, rfl⟩) (Cache.backToOpsPool cfg c.quickAmounts.2 0 toDrop c₂).1
    (Cache.backToOpsPool cfg c.quickAmounts.2 0 toDrop c₂).2
  refine ⟨fuel, c₃, ?_⟩
  simp only [Cache.quickGc, Cache.doQuickGc, Execution.bind_eq_ok, Execution.pure_eq_ok]
  exact ⟨(), rfl, (), rfl, (), rfl, (), rfl, _, hSelect, c₂, hDrop, c₃, hFree, (), rfl, rfl⟩

/-- Quick GC relieves the pressure exactly when the marks are large enough, or
one of their limits is small. -/
theorem quickGc_relieves_iff (hCfg : cfg.Sound) (hReach : Threads.Reachable build cfg t)
    (hIdle : t.gc = .idle) (hPressed : t.cache.nrFreeDslab < t.cache.freeBlockWaterMarkLow)
    (hEnough : t.cache.quickAmounts.1 + t.cache.quickAmounts.2 ≤ t.cache.fullCount) :
    (∃ fuel c', t.cache.quickGc .release cfg fuel = .ok c') ∧
      ∀ build' fuel c', t.cache.quickGc build' cfg fuel = .ok c' →
        (t.cache.Relieved c' ↔ t.cache.CanRelieve) := by
  obtain ⟨g, hInv⟩ := hReach.inv hCfg
  have hPool := hReach.pool
  rw [hIdle] at hPool
  obtain ⟨-, -, hMax⟩ := hPool
  have hNrFree := hInv.inv.nrFreeDslab_range.1
  have hSize := hInv.inv.opsPoolSize_nonneg
  refine ⟨quickGc_returns hInv.inv hEnough, fun build' fuel c' hRun => ?_⟩
  rw [canRelieve_iff hNrFree hPressed, ← quickGc_free_iff hSize hMax hRun]
  exact and_iff_left (quickGc_pool hSize hMax hRun)

/-- A device of twelve blocks, four of them over-provisioned. -/
def Config.twelveBlocks : Config :=
  { Config.small with
    blocksPerChannel := 12
    blockOrder := List.range 12
    opsRate := 1 / 3 }

theorem Config.twelveBlocks_wellFormed : Config.twelveBlocks.WellFormed where
  channels := by decide
  blocks := by decide
  order := by decide
  slabSize := by decide
  memory := by decide
  ops := by decide +kernel
  classes := by decide

/-- With two of twelve slabs free, quick GC raises the lower mark to four and
is asked for three slabs. -/
theorem quickGc_relieves_twelve :
    ∃ t fuel c', Threads.Reachable .debug .twelveBlocks t ∧
      t.cache.quickGc .release .twelveBlocks fuel = .ok c' ∧ t.cache.Relieved c' := by
  obtain ⟨⟨t, events⟩, hRun, hState⟩ := Execution.ok_of_check
    (x := Threads.start .debug .twelveBlocks ((List.replicate 6 (Act.putFlushed [1] [7])).flatten))
    (fun r => decide (r.1.gc = .idle ∧
      r.1.cache.nrFreeDslab < r.1.cache.freeBlockWaterMarkLow ∧
      r.1.cache.quickAmounts.1 + r.1.cache.quickAmounts.2 ≤ r.1.cache.fullCount ∧
      (3 ≤ r.1.cache.freeBlockWaterMarkLow ∧ 4 ≤ r.1.cache.freeBlockWaterMarkHigh ∧
        5 ≤ r.1.cache.freeBlockWaterMarkHighMax ∧ 4 ≤ r.1.cache.maxOpsPoolSize)))
    (by decide +kernel)
  obtain ⟨hIdle, hPressed, hEnough, hMarks⟩ := of_decide_eq_true hState
  have hReach : Threads.Reachable .debug .twelveBlocks t := ⟨_, events, hRun⟩
  obtain ⟨⟨fuel, c', hQuick⟩, hIff⟩ := quickGc_relieves_iff Config.twelveBlocks_wellFormed.sound
    hReach hIdle hPressed hEnough
  exact ⟨t, fuel, c', hReach, hQuick, (hIff .release fuel c' hQuick).mpr (.inl hMarks)⟩

/-- With no slab free and a lower mark of one, quick GC drops a slab and
loses it. -/
theorem quickGc_relieves_nothing :
    ¬∀ (cfg : Config) (t : Threads) (fuel : Nat) (c' : Cache), cfg.Sound →
      Threads.Reachable .debug cfg t → t.gc = .idle →
      t.cache.nrFreeDslab < t.cache.freeBlockWaterMarkLow →
      t.cache.quickAmounts.1 + t.cache.quickAmounts.2 ≤ t.cache.fullCount →
      t.cache.quickGc .debug cfg fuel = .ok c' → t.cache.Relieved c' := by
  intro hAll
  obtain ⟨⟨⟨t, events⟩, c'⟩, hBoth, hState⟩ := Execution.ok_of_check
    (x := do
      let r ← Threads.start .debug .small ((List.replicate 3 (Act.putFlushed [1] [7])).flatten)
      return (r, ← r.1.cache.quickGc .debug .small 10))
    (fun r => decide (r.1.1.gc = .idle ∧
      r.1.1.cache.nrFreeDslab < r.1.1.cache.freeBlockWaterMarkLow ∧
      r.1.1.cache.quickAmounts.1 + r.1.1.cache.quickAmounts.2 ≤ r.1.1.cache.fullCount ∧
      r.2.nrFreeDslab < r.2.freeBlockWaterMarkLow))
    (by decide +kernel)
  obtain ⟨hIdle, hPressed, hEnough, hLess⟩ := of_decide_eq_true hState
  simp only [Execution.bind_eq_ok, Execution.pure_eq_ok, Prod.mk.injEq] at hBoth
  obtain ⟨_, hRun, _, hQuick, rfl, rfl⟩ := hBoth
  have hRelieved := hAll .small t 10 _ Config.small_wellFormed.sound ⟨_, events, hRun⟩ hIdle
    hPressed hEnough hQuick
  exact absurd hRelieved.1 (Int.not_le.mpr hLess)

/-! ### The end of the selection loop -/

/-- How many slabs the rounds of a run have lost: one for every quick GC that was
asked for slabs for the free lists. -/
def Sys.slabsLost (build : Build) (cfg : Config) (ops : List Op) : Nat :=
  match Cache.create build cfg with
  | .ok c => Runs.count (Sys.step build cfg) (fun s op => ¬s.OnGc (fun _ => KeepsSlabs) op)
      (.idle c) ops
  | .error _ => 0

/-- The slabs that are on no list for good. -/
def Ghost.lost (cfg : Config) (g : Ghost) : Finset Nat :=
  cfg.diskSlabs.filter fun x => g.role x = .diskLoose

theorem Ghost.SameLoose.lost {g g' : Ghost} (h : g.SameLoose g') : g'.lost cfg = g.lost cfg := by
  ext x
  simp only [Ghost.lost, Finset.mem_filter, h x]

theorem Ghost.LosesOne.card_lost {g g' : Ghost} (h : g.LosesOne g') (hInv : Inv cfg c' g') :
    (g'.lost cfg).card = (g.lost cfg).card + 1 := by
  obtain ⟨d, hOld, hLoose⟩ := h
  have hDisk : d ∈ cfg.diskSlabs := by
    have hRange := (hInv.slab d).range
    rw [(hLoose d).mpr (.inr rfl)] at hRange
    exact Finset.mem_Ico.mpr hRange
  have hInsert : g'.lost cfg = insert d (g.lost cfg) := by
    ext x
    simp only [Ghost.lost, Finset.mem_filter, Finset.mem_insert, hLoose x]
    constructor
    · rintro ⟨hx, hRole | rfl⟩
      · exact .inr ⟨hx, hRole⟩
      · exact .inl rfl
    · rintro (rfl | ⟨hx, hRole⟩)
      · exact ⟨hDisk, .inr rfl⟩
      · exact ⟨hx, .inl hRole⟩
  rw [hInsert, Finset.card_insert_of_notMem]
  exact fun hMem => hOld (Finset.mem_filter.mp hMem).2

/-- Every round that loses a slab was counted. -/
theorem start_slabsLost {s : Sys} {ops : List Op} {events : List Event} (hCfg : cfg.Sound)
    (hRun : Sys.start build cfg ops = .ok (s, events)) :
    ∃ g, SysInv cfg s g ∧ (g.lost cfg).card = Sys.slabsLost build cfg ops := by
  obtain ⟨c, hCreate, hRun⟩ := Execution.bind_eq_ok.mp hRun
  obtain ⟨g, hInv, hFresh⟩ := SysInv.create hCfg hCreate
  have hNone : (g.lost cfg).card = 0 :=
    Finset.card_eq_zero.mpr (Finset.filter_eq_empty_iff.mpr fun x _ => (hFresh.resting x).2)
  have hCount := Runs.run_count (Q := fun s op => ¬s.OnGc (fun _ => KeepsSlabs) op)
    (P := fun s n => ∃ g, SysInv cfg s g ∧ (g.lost cfg).card = n)
    (fun s op s' done n hBefore hStep => ?_) hRun ⟨g, hInv, hNone⟩
  · simpa only [Sys.slabsLost, hCreate, Nat.zero_add] using hCount
  · obtain ⟨g, hInv, rfl⟩ := hBefore
    obtain ⟨g', hTrans⟩ := hInv.step hStep
    refine ⟨g', hTrans.inv, ?_⟩
    by_cases hKeeps : s.OnGc (fun _ => KeepsSlabs) op
    · rw [if_neg (not_not.mpr hKeeps), (hTrans.loose hKeeps).lost, Nat.add_zero]
    · rw [if_pos hKeeps, (hTrans.lost hKeeps).card_lost hTrans.inv.inv]

/-- Between operations, the slabs that are neither lost nor free nor in the pool
are full. -/
theorem SysInv.conserved {s : Sys} {g : Ghost} (h : SysInv cfg s g) :
    s.cache.nrFreeDslab + s.cache.fullCount + s.cache.opsPoolSize + (g.lost cfg).card =
      cfg.nrBlocks :=
  h.inv.conserved fun _ hx => h.disk_resting (Finset.mem_Ico.mp hx)

namespace Cache

/-- A round of quick GC finds as many full slabs as it asks for, and its
selection loop ends. -/
def QuickEnds (cfg : Config) (c : Cache) : Prop :=
  ∀ c₀ f o, c.quickStart = some (c₀, f, o) →
    f + o ≤ c.fullCount ∧ ∃ fuel r, c₀.selectDrop cfg fuel (f + o) [] = .ok r

/-- What `quick_gc` wants to be free, for the marks it raises, and in the pool is
no more than all slabs that are not lost. -/
def DemandFits (cfg : Config) (lost : Nat) (c : Cache) : Prop :=
  c.index.nrFreeIndexEntry ≠ 0 → c.nrFreeDslab < c.freeBlockWaterMarkLow →
    let high := min ((15 * c.freeBlockWaterMarkHigh).tdiv 10) c.freeBlockWaterMarkHighMax
    let low := min (min ((15 * c.freeBlockWaterMarkLow).tdiv 10) ((9 * high).tdiv 10))
      c.maxOpsPoolSize
    (13 * low - 10 * c.nrFreeDslab).tdiv 10 + c.nrFreeDslab +
      min (2 * c.opsPoolSize) c.maxOpsPoolSize ≤ cfg.nrBlocks - lost

instance (lost : Nat) : Decidable (c.DemandFits cfg lost) :=
  inferInstanceAs (Decidable (_ → _ → (_ : Int) ≤ _))

end Cache

/-- The selection loop ends exactly when there are enough full slabs. -/
theorem quickEnds_iff {g : Ghost} (hInv : Inv cfg c g) :
    c.QuickEnds cfg ↔ ∀ c₀ f o, c.quickStart = some (c₀, f, o) → f + o ≤ c.fullCount := by
  refine ⟨fun h c₀ f o hStart => (h c₀ f o hStart).1, fun h c₀ f o hStart => ?_⟩
  have hEnough := h c₀ f o hStart
  refine ⟨hEnough, ?_⟩
  rw [quickStart_same hStart]
  have hRaised : Silent cfg .gc c g { c with
      freeBlockWaterMarkLow := c₀.freeBlockWaterMarkLow
      freeBlockWaterMarkHigh := c₀.freeBlockWaterMarkHigh } g :=
    hInv.unrelated rfl rfl rfl hInv.lists.congr
  exact hRaised.inv.selectDrop_ends_iff.mpr hEnough

/-- A reported full slab is on a list. -/
theorem Inv.fullCount_pos {g : Ghost} (hInv : Inv cfg c g) (hFull : 0 < c.nrFullDslab) :
    1 ≤ c.fullCount := by
  have hCount := hInv.nrFullDslab_eq
  rw [← hInv.length_flatMap (t := c.dslabFull) (p := .dslabFull) rfl fun _ => rfl] at hCount
  simp only [Cache.fullCount]
  omega

/-- A device of four blocks with three of them over-provisioned. -/
def Config.mostlyPool : Config :=
  { Config.small with
    opsRate := 3 / 4
    freeBlockWaterMarkLow := 1 / 2
    freeBlockWaterMarkHigh := 1 }

end KVCache
