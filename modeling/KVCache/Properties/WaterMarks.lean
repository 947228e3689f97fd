import KVCache.Invariant.Pool
import KVCache.Properties.Lookup

/-! The order of the water marks. Quick GC raises them and normal GC lowers
them, each with truncated factors and with clamps in one direction. The lower
mark falls below its minimum in quick GC, which clamps it from above only; how
the marks and their limits stand at construction decides whether some sequence
of rounds gets there. -/

namespace KVCache

variable {build : Build} {cfg : Config} {c c' : Cache} {t : Threads}

/-- What one round does to the water marks. Normal GC looks at the number of
free disk slabs, which the other threads change. -/
inductive Tuning where
  | quick
  | normal (nrFreeDslab : Int)
  deriving DecidableEq, Repr

namespace Cache

/-- The water marks after a round. -/
def tune (c : Cache) : Tuning → Cache
  | .quick =>
      { c with
        freeBlockWaterMarkLow := c.quickWaterMarks.1
        freeBlockWaterMarkHigh := c.quickWaterMarks.2 }
  | .normal nrFreeDslab => ({ c with nrFreeDslab := nrFreeDslab }.tuneOpsPool c.opsPoolSize).2

/-- Both marks are in order and within their limits. -/
structure MarksOrdered (c : Cache) : Prop where
  lowMin : c.freeBlockWaterMarkLowMin ≤ c.freeBlockWaterMarkLow
  order : c.freeBlockWaterMarkLow ≤ c.freeBlockWaterMarkHigh
  highMax : c.freeBlockWaterMarkHigh ≤ c.freeBlockWaterMarkHighMax

/-- What the marks and their limits have to satisfy at construction. -/
structure MarksStable (c : Cache) : Prop where
  /-- truncation does not take the lower mark to zero -/
  two : 2 ≤ c.freeBlockWaterMarkLowMin
  /-- the pool is no smaller than the minimum of the lower mark -/
  pool : c.freeBlockWaterMarkLowMin ≤ c.maxOpsPoolSize
  /-- the limits are far enough apart for quick GC -/
  quick : 10 * c.freeBlockWaterMarkLowMin ≤ 9 * c.freeBlockWaterMarkHighMax
  /-- the upper mark stays below its limit when normal GC lifts it over the lower one -/
  normal : (11 * max (c.freeBlockWaterMarkLow - 10) c.freeBlockWaterMarkLowMin).tdiv 10 ≤
    c.freeBlockWaterMarkHighMax

end Cache

/-! ### One round -/

section

variable (c)

theorem tune_limits (round : Tuning) :
    (c.tune round).freeBlockWaterMarkLowMin = c.freeBlockWaterMarkLowMin ∧
      (c.tune round).freeBlockWaterMarkHighMax = c.freeBlockWaterMarkHighMax ∧
      (c.tune round).maxOpsPoolSize = c.maxOpsPoolSize := by
  cases round with
  | quick => exact ⟨rfl, rfl, rfl⟩
  | normal nrFree =>
      simp only [Cache.tune, Cache.tuneOpsPool]
      split <;> exact ⟨rfl, rfl, rfl⟩

theorem tune_normal_marks (nrFree : Int) :
    ((c.tune (.normal nrFree)).freeBlockWaterMarkLow,
        (c.tune (.normal nrFree)).freeBlockWaterMarkHigh) =
      if nrFree > c.freeBlockWaterMarkHigh then
        (max (c.freeBlockWaterMarkLow - 10) c.freeBlockWaterMarkLowMin,
          max (c.freeBlockWaterMarkHigh - 10)
            ((11 * max (c.freeBlockWaterMarkLow - 10) c.freeBlockWaterMarkLowMin).tdiv 10))
      else (c.freeBlockWaterMarkLow, c.freeBlockWaterMarkHigh) := by
  simp only [Cache.tune, Cache.tuneOpsPool]
  split <;> rfl

end

/-- Quick GC raises the upper mark within its limit. -/
theorem tune_quick_high (hOrdered : c.MarksOrdered) (hTwo : 2 ≤ c.freeBlockWaterMarkLowMin)
    (hQuick : 10 * c.freeBlockWaterMarkLowMin ≤ 9 * c.freeBlockWaterMarkHighMax) :
    10 * c.freeBlockWaterMarkLowMin ≤ 9 * (c.tune .quick).freeBlockWaterMarkHigh ∧
      (c.tune .quick).freeBlockWaterMarkHigh ≤ c.freeBlockWaterMarkHighMax := by
  obtain ⟨hLowMin, hOrder, hHighMax⟩ := hOrdered
  have hHigh : (c.tune .quick).freeBlockWaterMarkHigh =
    min ((15 * c.freeBlockWaterMarkHigh).tdiv 10) c.freeBlockWaterMarkHighMax := rfl
  have hRaised := (tdiv_ten (15 * c.freeBlockWaterMarkHigh)).1 (by omega)
  rw [hHigh]
  constructor <;> omega

/-- The lower mark follows, below the upper one. -/
theorem tune_quick_low (hOrdered : c.MarksOrdered) (hTwo : 2 ≤ c.freeBlockWaterMarkLowMin)
    (hPool : c.freeBlockWaterMarkLowMin ≤ c.maxOpsPoolSize)
    (hHigh : 10 * c.freeBlockWaterMarkLowMin ≤ 9 * (c.tune .quick).freeBlockWaterMarkHigh) :
    c.freeBlockWaterMarkLowMin ≤ (c.tune .quick).freeBlockWaterMarkLow ∧
      10 * (c.tune .quick).freeBlockWaterMarkLow ≤ 9 * (c.tune .quick).freeBlockWaterMarkHigh := by
  have hLowMin := hOrdered.lowMin
  have hLow : (c.tune .quick).freeBlockWaterMarkLow =
    min (min ((15 * c.freeBlockWaterMarkLow).tdiv 10)
      ((9 * (c.tune .quick).freeBlockWaterMarkHigh).tdiv 10)) c.maxOpsPoolSize := rfl
  have hRaised := (tdiv_ten (15 * c.freeBlockWaterMarkLow)).1 (by omega)
  have hBelow := (tdiv_ten (9 * (c.tune .quick).freeBlockWaterMarkHigh)).1 (by omega)
  rw [hLow]
  constructor <;> omega

/-- Normal GC lowers the lower mark, and keeps the upper one above it. -/
theorem tune_normal_low (hLowMin : c.freeBlockWaterMarkLowMin ≤ c.freeBlockWaterMarkLow)
    (nrFree : Int) :
    c.freeBlockWaterMarkLowMin ≤ (c.tune (.normal nrFree)).freeBlockWaterMarkLow ∧
      (c.tune (.normal nrFree)).freeBlockWaterMarkLow ≤ c.freeBlockWaterMarkLow := by
  have hMarks := tune_normal_marks c nrFree
  split at hMarks <;> obtain ⟨hLow, -⟩ := Prod.mk.inj hMarks <;> rw [hLow] <;> constructor <;> omega

theorem tune_normal_high (hOrdered : c.MarksOrdered) (h : c.MarksStable) (nrFree : Int) :
    (c.tune (.normal nrFree)).freeBlockWaterMarkLow ≤
        (c.tune (.normal nrFree)).freeBlockWaterMarkHigh ∧
      (c.tune (.normal nrFree)).freeBlockWaterMarkHigh ≤ c.freeBlockWaterMarkHighMax := by
  obtain ⟨hLowMin, hOrder, hHighMax⟩ := hOrdered
  have hTwo := h.two
  have hNormal := h.normal
  have hLift := (tdiv_ten (11 * max (c.freeBlockWaterMarkLow - 10)
    c.freeBlockWaterMarkLowMin)).1 (by omega)
  have hMarks := tune_normal_marks c nrFree
  split at hMarks <;> obtain ⟨hLow, hHigh⟩ := Prod.mk.inj hMarks <;> rw [hLow, hHigh] <;>
    constructor <;> omega

/-- A round keeps the order and what keeps the order. -/
theorem Cache.MarksStable.tune (h : c.MarksStable) (hOrdered : c.MarksOrdered) (round : Tuning) :
    (c.tune round).MarksStable ∧ (c.tune round).MarksOrdered := by
  obtain ⟨hMin, hMax, hOps⟩ := tune_limits c round
  have hTwo := h.two
  -- the limits do not change, so the last condition is all there is to show of `MarksStable`
  have hStable : (11 * max ((c.tune round).freeBlockWaterMarkLow - 10)
      c.freeBlockWaterMarkLowMin).tdiv 10 ≤ c.freeBlockWaterMarkHighMax →
      (c.tune round).MarksStable := by
    intro hNormal
    refine ⟨?_, ?_, ?_, ?_⟩
    · rw [hMin]
      exact hTwo
    · rw [hMin, hOps]
      exact h.pool
    · rw [hMin, hMax]
      exact h.quick
    · rw [hMin, hMax]
      exact hNormal
  have hLift := (tdiv_ten (11 * max ((c.tune round).freeBlockWaterMarkLow - 10)
    c.freeBlockWaterMarkLowMin)).1 (by omega)
  cases round with
  | quick =>
      obtain ⟨hHigh, hLimit⟩ := tune_quick_high hOrdered hTwo h.quick
      obtain ⟨hLow, hBelow⟩ := tune_quick_low hOrdered hTwo h.pool hHigh
      refine ⟨hStable (by omega), ?_, by omega, ?_⟩
      · rw [hMin]
        exact hLow
      · rw [hMax]
        exact hLimit
  | normal nrFree =>
      obtain ⟨hLow, hLower⟩ := tune_normal_low hOrdered.lowMin nrFree
      obtain ⟨hOrder, hLimit⟩ := tune_normal_high hOrdered h nrFree
      have hNormal := h.normal
      have hLift' := (tdiv_ten (11 * max (c.freeBlockWaterMarkLow - 10)
        c.freeBlockWaterMarkLowMin)).1 (by omega)
      refine ⟨hStable (by omega), ?_, hOrder, ?_⟩
      · rw [hMin]
        exact hLow
      · rw [hMax]
        exact hLimit

/-! ### All rounds -/

/-- The limits are those of construction after any rounds. -/
theorem tunes_limits (c : Cache) (rounds : List Tuning) :
    (rounds.foldl Cache.tune c).freeBlockWaterMarkLowMin = c.freeBlockWaterMarkLowMin := by
  induction rounds generalizing c with
  | nil => rfl
  | cons round rest ih => exact (ih (c.tune round)).trans (tune_limits c round).1

theorem Cache.MarksStable.tunes (h : c.MarksStable) (hOrdered : c.MarksOrdered)
    (rounds : List Tuning) : (rounds.foldl Cache.tune c).MarksOrdered := by
  induction rounds generalizing c with
  | nil => exact hOrdered
  | cons round rest ih =>
      obtain ⟨hNext, hOrder⟩ := h.tune hOrdered round
      exact ih hNext hOrder

/-- A round of normal GC with more free slabs than the upper mark. -/
theorem tune_normal_of_many (c : Cache) :
    (c.tune (.normal (c.freeBlockWaterMarkHigh + 1))).freeBlockWaterMarkLow =
        max (c.freeBlockWaterMarkLow - 10) c.freeBlockWaterMarkLowMin ∧
      (c.tune (.normal (c.freeBlockWaterMarkHigh + 1))).freeBlockWaterMarkHigh =
        max (c.freeBlockWaterMarkHigh - 10)
          ((11 * max (c.freeBlockWaterMarkLow - 10) c.freeBlockWaterMarkLowMin).tdiv 10) := by
  have hMarks := tune_normal_marks c (c.freeBlockWaterMarkHigh + 1)
  rw [if_pos (by omega)] at hMarks
  exact Prod.mk.inj hMarks

/-- Enough such rounds take the lower mark down to a minimum of one. -/
theorem tunes_low_to_one (hOne : c.freeBlockWaterMarkLowMin = 1)
    (hLow : 1 ≤ c.freeBlockWaterMarkLow) (hHigh : 1 ≤ c.freeBlockWaterMarkHigh) :
    ∃ rounds : List Tuning, (rounds.foldl Cache.tune c).freeBlockWaterMarkLow = 1 ∧
      1 ≤ (rounds.foldl Cache.tune c).freeBlockWaterMarkHigh := by
  induction hSize : c.freeBlockWaterMarkLow.toNat using Nat.strong_induction_on generalizing c with
  | _ size ih =>
      by_cases hEnd : c.freeBlockWaterMarkLow = 1
      · exact ⟨[], hEnd, hHigh⟩
      · obtain ⟨hLow', hHigh'⟩ := tune_normal_of_many c
        have hMin := (tune_limits c (.normal (c.freeBlockWaterMarkHigh + 1))).1
        have hLift := (tdiv_ten (11 * max (c.freeBlockWaterMarkLow - 10)
          c.freeBlockWaterMarkLowMin)).1 (by omega)
        obtain ⟨rounds, hRounds⟩ := ih _ (by omega) (hMin.trans hOne) (by omega) (by omega) rfl
        exact ⟨.normal (c.freeBlockWaterMarkHigh + 1) :: rounds, hRounds⟩

/-- After that they take the upper mark down. -/
theorem tunes_high_to_one (hOne : c.freeBlockWaterMarkLowMin = 1)
    (hLow : c.freeBlockWaterMarkLow = 1) (hHigh : 1 ≤ c.freeBlockWaterMarkHigh) :
    ∃ rounds : List Tuning, (rounds.foldl Cache.tune c).freeBlockWaterMarkHigh = 1 := by
  induction hSize : c.freeBlockWaterMarkHigh.toNat using Nat.strong_induction_on generalizing c with
  | _ size ih =>
      by_cases hEnd : c.freeBlockWaterMarkHigh = 1
      · exact ⟨[], hEnd⟩
      · obtain ⟨hLow', hHigh'⟩ := tune_normal_of_many c
        have hMin := (tune_limits c (.normal (c.freeBlockWaterMarkHigh + 1))).1
        have hClamp : max (c.freeBlockWaterMarkLow - 10) c.freeBlockWaterMarkLowMin = 1 := by omega
        rw [hClamp] at hLow' hHigh'
        have hLift : (11 * 1 : Int).tdiv 10 = 1 := rfl
        obtain ⟨rounds, hRounds⟩ := ih _ (by omega) (hMin.trans hOne) hLow' (by omega) rfl
        exact ⟨.normal (c.freeBlockWaterMarkHigh + 1) :: rounds, hRounds⟩

/-- With the upper mark at one, quick GC puts the lower one at zero or below. -/
theorem tune_quick_of_high_one (hHigh : c.freeBlockWaterMarkHigh = 1) :
    (c.tune .quick).freeBlockWaterMarkLow ≤ 0 := by
  have hNext : (c.tune .quick).freeBlockWaterMarkHigh =
    min ((15 * c.freeBlockWaterMarkHigh).tdiv 10) c.freeBlockWaterMarkHighMax := rfl
  have hLow : (c.tune .quick).freeBlockWaterMarkLow =
    min (min ((15 * c.freeBlockWaterMarkLow).tdiv 10)
      ((9 * (c.tune .quick).freeBlockWaterMarkHigh).tdiv 10)) c.maxOpsPoolSize := rfl
  have hRaised := (tdiv_ten (15 * c.freeBlockWaterMarkHigh)).1 (by omega)
  have hBelow := tdiv_ten (9 * (c.tune .quick).freeBlockWaterMarkHigh)
  omega

theorem not_ordered_of_min_one (hOne : c.freeBlockWaterMarkLowMin = 1) (hOrdered : c.MarksOrdered) :
    ∃ rounds : List Tuning, ¬(rounds.foldl Cache.tune c).MarksOrdered := by
  obtain ⟨hLowMin, hOrder, -⟩ := hOrdered
  obtain ⟨first, hLow, hHigh⟩ := tunes_low_to_one hOne (by omega) (by omega)
  obtain ⟨second, hHigh⟩ := tunes_high_to_one ((tunes_limits c first).trans hOne) hLow hHigh
  refine ⟨first ++ second ++ [.quick], fun h => ?_⟩
  rw [List.foldl_append, List.foldl_append] at h
  have hZero := tune_quick_of_high_one hHigh
  have hMin := h.lowMin
  simp only [List.foldl_cons, List.foldl_nil, (tune_limits _ .quick).1, tunes_limits, hOne] at hMin
  omega

/-- The constructor keeps the minimum of the lower mark positive. -/
theorem create_lowMin (hRun : Cache.create build cfg = .ok c) :
    1 ≤ c.freeBlockWaterMarkLowMin := by
  obtain ⟨c₁, n, rfl, hLoop⟩ := create_loop hRun
  refine Execution.foldlM_rule
    (fun _ (state : Cache × Nat) => 1 ≤ state.1.freeBlockWaterMarkLowMin) ?_ hLoop (le_max_left _ _)
  rintro blockId _ ⟨c₂, n₂⟩ ⟨c₃, n₃⟩ h hStep
  simp only [Cache.initBlock, Execution.bind_eq_ok] at hStep
  obtain ⟨_, -, hStep⟩ := hStep
  split at hStep
  · obtain ⟨rfl, -⟩ := Prod.mk.inj (Execution.pure_eq_ok.mp hStep)
    exact h
  · simp only [Execution.bind_eq_ok] at hStep
    obtain ⟨_, -, hStep⟩ := hStep
    obtain ⟨rfl, -⟩ := Prod.mk.inj (Execution.pure_eq_ok.mp hStep)
    exact h

/-- The marks stay in order over all sequences of rounds exactly when they are
stable at construction. -/
theorem marksOrdered_iff (hCreate : Cache.create build cfg = .ok c) (hOrdered : c.MarksOrdered) :
    (∀ rounds : List Tuning, (rounds.foldl Cache.tune c).MarksOrdered ∧
        0 < (rounds.foldl Cache.tune c).freeBlockWaterMarkLow) ↔ c.MarksStable := by
  have hPos := create_lowMin hCreate
  constructor
  · intro hAll
    have hQuick := (hAll [.quick]).1.lowMin
    have hNormal := (hAll [.normal (c.freeBlockWaterMarkHigh + 1)]).1.highMax
    simp only [List.foldl_cons, List.foldl_nil, (tune_limits c _).1, (tune_limits c _).2.1,
      tune_normal_of_many] at hQuick hNormal
    refine ⟨?_, ?_, ?_, by omega⟩
    · by_contra hTwo
      obtain ⟨rounds, hNot⟩ := not_ordered_of_min_one (by omega) hOrdered
      exact hNot (hAll rounds).1
    · have hLow : (c.tune .quick).freeBlockWaterMarkLow ≤ c.maxOpsPoolSize := min_le_right _ _
      omega
    · have hLow : (c.tune .quick).freeBlockWaterMarkLow ≤
          (9 * (c.tune .quick).freeBlockWaterMarkHigh).tdiv 10 :=
        (min_le_left _ _).trans (min_le_right _ _)
      have hHigh : (c.tune .quick).freeBlockWaterMarkHigh ≤ c.freeBlockWaterMarkHighMax :=
        min_le_right _ _
      have hBelow := tdiv_ten (9 * (c.tune .quick).freeBlockWaterMarkHigh)
      omega
  · intro hStable rounds
    have hOrder := hStable.tunes hOrdered rounds
    refine ⟨hOrder, ?_⟩
    have hMin := hOrder.lowMin
    rw [tunes_limits] at hMin
    omega

/-- A device of ten blocks, two of them over-provisioned. -/
def Config.tenBlocks : Config :=
  { Config.small with
    blocksPerChannel := 10
    blockOrder := List.range 10
    opsRate := 1 / 5
    freeBlockSlabWaterMarkLowMin := 1 / 5 }

/-- With a minimum of two and a pool of two slabs the marks stay in order. -/
theorem marksOrdered_tenBlocks :
    ∃ c, Cache.create .debug .tenBlocks = .ok c ∧ c.freeBlockWaterMarkLowMin = 2 ∧
      ∀ rounds : List Tuning, (rounds.foldl Cache.tune c).MarksOrdered ∧
        0 < (rounds.foldl Cache.tune c).freeBlockWaterMarkLow := by
  obtain ⟨c, hCreate, hCheck⟩ := Execution.ok_of_check (x := Cache.create .debug .tenBlocks)
    (fun c => decide (c.freeBlockWaterMarkLowMin = 2 ∧ c.freeBlockWaterMarkLow = 2 ∧
      c.freeBlockWaterMarkHigh = 5 ∧ c.freeBlockWaterMarkHighMax = 12 ∧ c.maxOpsPoolSize = 2))
    (by decide +kernel)
  obtain ⟨hMin, hLow, hHigh, hMax, hOps⟩ := of_decide_eq_true hCheck
  have hOrdered : c.MarksOrdered := ⟨by omega, by omega, by omega⟩
  refine ⟨c, hCreate, hMin, (marksOrdered_iff hCreate hOrdered).mpr ⟨by omega, by omega, by omega, ?_⟩⟩
  rw [hMin, hLow, hMax]
  decide

/-- With a minimum of one, a round of normal GC that finds three free slabs and
a quick GC take the lower mark to zero. -/
theorem low_mark_zero :
    ¬∀ (build : Build) (cfg : Config) (c : Cache), Cache.create build cfg = .ok c →
      c.MarksOrdered → ∀ rounds : List Tuning, (rounds.foldl Cache.tune c).MarksOrdered := by
  intro hAll
  obtain ⟨c, hCreate, hCheck⟩ := Execution.ok_of_check (x := Cache.create .debug .small)
    (fun c => decide (c.freeBlockWaterMarkLowMin = 1 ∧ c.freeBlockWaterMarkLow = 1 ∧
      c.freeBlockWaterMarkHigh = 2 ∧ c.freeBlockWaterMarkHighMax = 11 ∧
      (List.foldl Cache.tune c [.normal 3, .quick]).freeBlockWaterMarkLowMin = 1 ∧
      (List.foldl Cache.tune c [.normal 3, .quick]).freeBlockWaterMarkLow = 0)) (by decide +kernel)
  obtain ⟨hMin, hLow, hHigh, hMax, hMin', hLow'⟩ := of_decide_eq_true hCheck
  have hEnd := (hAll .debug .small c hCreate ⟨by omega, by omega, by omega⟩
    [.normal 3, .quick]).lowMin
  omega

/-! ### The rounds of the collector -/

/-- The marks after a round depend on the marks before. -/
theorem tune_congr (hSame : c'.waterMarks = c.waterMarks) (round : Tuning) :
    (c'.tune round).waterMarks = (c.tune round).waterMarks := by
  simp only [Cache.waterMarks, WaterMarks.mk.injEq] at hSame
  obtain ⟨hLow, hHigh, hMin, hMax, hOps⟩ := hSame
  cases round with
  | quick =>
      simp only [Cache.tune, Cache.quickWaterMarks, Cache.waterMarks, hLow, hHigh, hMin, hMax, hOps]
  | normal nrFree =>
      simp only [Cache.tune, Cache.tuneOpsPool, hLow, hHigh, hMin]
      split <;> simp only [Cache.waterMarks, hMax, hOps]

/-- What a step of the collector does to the marks: what one round may do, or
nothing. -/
theorem GcStep.marks {pick : List Nat} {fuel : Nat} {a a' : GcAt}
    (h : GcStep build cfg pick fuel c a c' a') :
    c'.waterMarks = c.waterMarks ∨ ∃ round, c'.waterMarks = (c.tune round).waterMarks := by
  have hMarks : ∀ {c₁ c₂ : Cache}, c₁.gauges = c₂.gauges → c₁.waterMarks = c₂.waterMarks :=
    fun h => congrArg Gauges.marks h
  cases h with
  | quickTune => exact .inr ⟨.quick, rfl⟩
  | quickSelect hSelect => exact .inl (gauges_selectDrop hSelect).1
  | quickEvict hDrop => exact .inl (hMarks (gauges_dropDslab hDrop))
  | @backToOpsPool o toDrop rest _ hBack =>
      have hSame := (gauges_backToOpsPool cfg o 0 toDrop c).1
      rw [hBack] at hSame
      exact .inl hSame
  | backToDslabFree hBack => exact .inl (hMarks (gauges_frees (backToDslabFree_frees hBack)))
  | take hTake => exact .inl (gauges_takeOpsFrom hTake).1
  | relink hRelink => exact .inl (hMarks (gauges_relinkFull hRelink))
  | move hMove => exact .inl (hMarks (gauges_moveLive hMove))
  | modify => exact .inl (hMarks (gauges_modifyIndexTo _ _))
  | tune =>
      refine .inr ⟨.normal c.nrFreeDslab, ?_⟩
      simp only [Cache.tune, Cache.tuneOpsPool]
      split <;> rfl
  | refill _ _ hRefill =>
      obtain ⟨rfl, -⟩ := Prod.mk.inj hRefill
      exact .inl rfl
  | shrink hShrink => exact .inl (gauges_shrinkOps hShrink).1
  | reclaim hReclaim => exact .inl (hMarks (gauges_frees (reclaim_frees hReclaim)))
  | _ => exact .inl rfl

/-- Along every schedule the marks are those after some sequence of rounds. -/
theorem Threads.Reachable.tuned (h : Threads.Reachable build cfg t) :
    ∃ c rounds, Cache.create build cfg = .ok c ∧
      t.cache.waterMarks = (List.foldl Cache.tune c rounds).waterMarks := by
  obtain ⟨acts, events, hRun⟩ := h
  obtain ⟨c, hCreate, hRun⟩ := Execution.bind_eq_ok.mp hRun
  suffices hEnd : ∃ rounds, t.cache.waterMarks = (List.foldl Cache.tune c rounds).waterMarks by
    obtain ⟨rounds, hSame⟩ := hEnd
    exact ⟨c, rounds, hCreate, hSame⟩
  refine Runs.run_invariant (P := fun t : Threads => ∃ rounds,
    t.cache.waterMarks = (List.foldl Cache.tune c rounds).waterMarks) ?_ hRun
    (Runs.along_true _ acts) ⟨[], rfl⟩
  rintro t₁ act t₂ done ⟨rounds, hSame⟩ - hStep
  rcases Threads.step_cases hStep with ⟨hGauges, -⟩ | ⟨pick, fuel, hGc⟩
  · exact ⟨rounds, (congrArg Gauges.marks hGauges).trans hSame⟩
  · rcases (stepGc_inv hGc).marks with hSteady | ⟨round, hTuned⟩
    · exact ⟨rounds, hSteady.trans hSame⟩
    · refine ⟨rounds ++ [round], ?_⟩
      rw [List.foldl_append]
      exact hTuned.trans (tune_congr hSame round)

end KVCache
