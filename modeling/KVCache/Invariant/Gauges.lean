import KVCache.Invariant.Changes
import KVCache.Invariant.Inversion

/-! The numbers by which the collector steers itself: the size of the pool of
over-provisioned slabs, its largest size, the channel it looks at next, and the
water marks with their limits. No other thread changes them, and the collector
changes the water marks at two places only. Nothing here depends on the options
being sensible. -/

namespace KVCache

variable {build : Build} {cfg : Config} {c c' : Cache} {t t' : Threads} {done : List Event}

/-- Division by ten with truncation, as in the products with a decimal factor. -/
theorem tdiv_ten (x : Int) :
    (0 ≤ x → 10 * x.tdiv 10 ≤ x ∧ x < 10 * x.tdiv 10 + 10) ∧
      (x ≤ 0 → x ≤ 10 * x.tdiv 10 ∧ 10 * x.tdiv 10 < x + 10) := by
  constructor
  · intro hx
    rw [Int.tdiv_eq_ediv_of_nonneg hx]
    omega
  · intro hx
    have hNeg : x.tdiv 10 = -((-x) / 10) := by
      rw [← Int.tdiv_eq_ediv_of_nonneg (by omega : 0 ≤ -x), Int.neg_tdiv, Int.neg_neg]
    omega

/-- The water marks, their limits, and the largest size of the pool, which
limits the lower one, too. -/
structure WaterMarks where
  low : Int
  high : Int
  lowMin : Int
  highMax : Int
  maxOpsPoolSize : Int
  deriving DecidableEq, Repr

structure Gauges where
  opsPoolSize : Int
  nextOps : Nat
  marks : WaterMarks
  deriving DecidableEq, Repr

def Cache.waterMarks (c : Cache) : WaterMarks :=
  ⟨c.freeBlockWaterMarkLow, c.freeBlockWaterMarkHigh, c.freeBlockWaterMarkLowMin,
    c.freeBlockWaterMarkHighMax, c.maxOpsPoolSize⟩

def Cache.gauges (c : Cache) : Gauges :=
  ⟨c.opsPoolSize, c.nextOpsPoolRemoveChannel, c.waterMarks⟩

/-- These numbers together with the channel that the flush looks at next. The
writer reads none of them. -/
def Cache.steering (c : Cache) : Gauges × Nat := (c.gauges, c.nextMslabFlushChannel)

/-- The cursor over the pool is where it was, or at some channel. -/
def Cache.Turned (cfg : Config) (c c' : Cache) : Prop :=
  c'.nextOpsPoolRemoveChannel = c.nextOpsPoolRemoveChannel ∨
    ∃ i, c'.nextOpsPoolRemoveChannel = i % cfg.nrChannels

theorem Cache.Turned.refl (c : Cache) : c.Turned cfg c := .inl rfl

theorem Cache.Turned.trans {c'' : Cache} (h : c.Turned cfg c') (h' : c'.Turned cfg c'') :
    c.Turned cfg c'' := by
  rcases h' with hSame | hMoved
  · rcases h with hFirst | ⟨i, hFirst⟩
    · exact .inl (hSame.trans hFirst)
    · exact .inr ⟨i, hSame.trans hFirst⟩
  · exact .inr hMoved

/-- The cursor stays on the channels. -/
theorem Cache.Turned.lt (h : c.Turned cfg c') (hLt : c.nextOpsPoolRemoveChannel < cfg.nrChannels) :
    c'.nextOpsPoolRemoveChannel < cfg.nrChannels := by
  rcases h with hSame | ⟨i, hMoved⟩
  · rw [hSame]
    exact hLt
  · rw [hMoved]
    exact Nat.mod_lt _ (Nat.zero_lt_of_lt hLt)

theorem turned_of_gauges (h : c'.gauges = c.gauges) : c.Turned cfg c' :=
  .inl (congrArg Gauges.nextOps h)

/-! ### The writer and the flush thread -/

section

variable {cid sid slotId : Nat} {key : Key} {value : Value}

theorem steering_allocPartial (hRun : c.allocPartial build cid sid = .ok (c', slotId)) :
    c'.steering = c.steering := by
  simp only [Cache.allocPartial, Execution.bind_eq_ok] at hRun
  obtain ⟨_, -, _, -, ⟨slab, slot⟩, -, hEnd⟩ := hRun
  split at hEnd <;> (obtain ⟨rfl, -⟩ := Prod.mk.inj (Execution.pure_eq_ok.mp hEnd); rfl)

theorem steering_openSlab : (c.openSlab cfg cid sid).steering = c.steering := rfl

theorem steering_putSlot (hRun : c.putSlot build cfg key value = .ok (.slot c' sid slotId)) :
    c'.steering = c.steering := by
  simp only [Cache.putSlot, Execution.bind_eq_ok] at hRun
  obtain ⟨alloc, hAlloc, hEnd⟩ := hRun
  cases alloc with
  | tooLarge => cases hEnd
  | wait => cases hEnd
  | slot c₁ sid' slotId' =>
      obtain ⟨rfl, rfl, rfl⟩ := SlotAlloc.slot.inj (Execution.pure_eq_ok.mp hEnd)
      show c₁.steering = c.steering
      unfold Cache.slotAlloc at hAlloc
      split at hAlloc
      · cases hAlloc
      · split at hAlloc
        · obtain ⟨⟨c₂, slot⟩, hPartial, hEnd⟩ := Execution.bind_eq_ok.mp hAlloc
          obtain ⟨rfl, -, -⟩ := SlotAlloc.slot.inj (Execution.pure_eq_ok.mp hEnd)
          exact steering_allocPartial hPartial
        · obtain ⟨⟨c₂, slot⟩, hPartial, hEnd⟩ := Execution.bind_eq_ok.mp hAlloc
          obtain ⟨rfl, -, -⟩ := SlotAlloc.slot.inj (Execution.pure_eq_ok.mp hEnd)
          exact (steering_allocPartial hPartial).trans steering_openSlab
        · cases hAlloc

theorem steering_insertEntry (hRun : c.insertEntry cfg key sid slotId = some c') :
    c'.steering = c.steering := by
  unfold Cache.insertEntry at hRun
  split at hRun
  · cases hRun
  · obtain rfl := Option.some.inj hRun
    rfl

theorem steering_putIndex (hRun : c.putIndex build cfg key sid slotId = .ok (some c')) :
    c'.steering = c.steering := by
  unfold Cache.putIndex at hRun
  split at hRun
  · simp only [Cache.overwriteEntry, Execution.bind_eq_ok, Execution.pure_eq_ok] at hRun
    obtain ⟨_, ⟨_, -, rfl⟩, hEnd⟩ := hRun
    obtain rfl := Option.some.inj hEnd
    rfl
  · exact steering_insertEntry (Except.ok.inj hRun)

theorem steering_putFull : (c.putFull sid).steering = c.steering := by
  unfold Cache.putFull
  split <;> rfl

theorem steering_delete (hRun : c.delete build cfg key = .ok c') : c'.steering = c.steering := by
  unfold Cache.delete at hRun
  split at hRun
  · obtain rfl := Except.ok.inj hRun
    rfl
  · cases build with
    | release =>
        obtain rfl := Except.ok.inj hRun
        rfl
    | debug =>
        simp only [Execution.bind_eq_ok, Execution.pure_eq_ok] at hRun
        obtain ⟨_, -, rfl⟩ := hRun
        rfl

/-- `modify_index_to` changes the index and use counts. -/
theorem steering_modifyIndexTo (src dst : Nat) :
    (c.modifyIndexTo cfg src dst).steering = c.steering := by
  obtain ⟨index, nrUsed, hChanges⟩ := modifyIndexTo_changes cfg c src dst
  rw [hChanges]
  rfl

theorem gauges_modifyIndexTo (src dst : Nat) : (c.modifyIndexTo cfg src dst).gauges = c.gauges :=
  congrArg Prod.fst (steering_modifyIndexTo src dst)

end

theorem gauges_stepFlush {a a' : FlushAt} (hRun : Threads.stepFlush build cfg c a = .ok (c', a')) :
    c'.gauges = c.gauges := by
  cases a with
  | idle =>
      simp only [Threads.stepFlush, Execution.bind_eq_ok, Execution.pure_eq_ok] at hRun
      obtain ⟨⟨m, c₁⟩, hTake, hEnd⟩ := hRun
      obtain ⟨rfl, -⟩ := Prod.mk.inj hEnd
      rw [takeFull_changes hTake]
      rfl
  | holding m =>
      simp only [Threads.stepFlush, Execution.bind_eq_ok] at hRun
      obtain ⟨⟨found, c₁⟩, hTake, hEnd⟩ := hRun
      have hSame : c₁.gauges = c.gauges := by
        obtain ⟨_, _, _, rfl⟩ := takeFreeFrom_changes hTake
        rfl
      cases found with
      | none =>
          obtain ⟨rfl, -⟩ := Prod.mk.inj (Execution.pure_eq_ok.mp hEnd)
          exact hSame
      | some found =>
          obtain ⟨rfl, -⟩ := Prod.mk.inj (Execution.pure_eq_ok.mp hEnd)
          exact hSame
  | copied m d channel =>
      simp only [Threads.stepFlush, Execution.bind_eq_ok, Execution.pure_eq_ok] at hRun
      obtain ⟨_, -, _, -, hEnd⟩ := hRun
      obtain ⟨rfl, -⟩ := Prod.mk.inj hEnd
      exact gauges_modifyIndexTo m d
  | _ =>
      obtain ⟨rfl, -⟩ := Prod.mk.inj (Except.ok.inj hRun)
      rfl

theorem steering_stepWriter (hRun : t.stepWriter build cfg = .ok (t', done)) :
    t'.cache.steering = t.cache.steering ∧ t'.gc = t.gc ∧ t'.flush = t.flush := by
  unfold Threads.stepWriter at hRun
  split at hRun
  · cases hRun
  · obtain ⟨found, hIndex, hRun⟩ := Execution.bind_eq_ok.mp hRun
    cases found with
    | none =>
        obtain ⟨rfl, -⟩ := Prod.mk.inj (Execution.pure_eq_ok.mp hRun)
        exact ⟨rfl, rfl, rfl⟩
    | some c =>
        obtain ⟨rfl, -⟩ := Prod.mk.inj (Execution.pure_eq_ok.mp hRun)
        exact ⟨steering_putIndex hIndex, rfl, rfl⟩
  · split at hRun
    · rename_i hInsert
      obtain ⟨rfl, -⟩ := Prod.mk.inj (Except.ok.inj hRun)
      exact ⟨steering_insertEntry hInsert, rfl, rfl⟩
    · cases hRun
  · obtain ⟨rfl, -⟩ := Prod.mk.inj (Except.ok.inj hRun)
    exact ⟨steering_putFull, rfl, rfl⟩

theorem steering_beginPut {key : Key} {value : Value}
    (hRun : t.beginPut build cfg key value = .ok t') :
    t'.cache.steering = t.cache.steering ∧ t'.gc = t.gc ∧ t'.flush = t.flush := by
  unfold Threads.beginPut at hRun
  split at hRun
  · obtain ⟨alloc, hAlloc, hRun⟩ := Execution.bind_eq_ok.mp hRun
    cases alloc with
    | tooLarge =>
        obtain rfl := Execution.pure_eq_ok.mp hRun
        exact ⟨rfl, rfl, rfl⟩
    | wait => cases hRun
    | slot c sid slotId =>
        obtain rfl := Execution.pure_eq_ok.mp hRun
        exact ⟨steering_putSlot hAlloc, rfl, rfl⟩
  · cases hRun

/-! ### The collector -/

section

variable {d : Nat} {toDrop : List Nat} {freeList freeList' : Table SlabList}

/-- The selection moves the cursor. -/
theorem gauges_selectDrop {fuel : Nat} {n : Int} {start : List Nat}
    (hRun : Cache.selectDrop cfg fuel n c start = .ok (toDrop, c')) :
    c'.waterMarks = c.waterMarks ∧ c'.opsPoolSize = c.opsPoolSize ∧ c.Turned cfg c' := by
  induction fuel generalizing c n start with
  | zero =>
      simp only [Cache.selectDrop] at hRun
      split at hRun
      · obtain ⟨-, rfl⟩ := Prod.mk.inj (Except.ok.inj hRun)
        exact ⟨rfl, rfl, .refl c⟩
      · cases hRun
  | succ fuel ih =>
      have hTurn : ∀ {c₁ : Cache}, c₁.nextOpsPoolRemoveChannel =
          (c.nextOpsPoolRemoveChannel + 1) % cfg.nrChannels → c.Turned cfg c₁ :=
        fun h => .inr ⟨_, h⟩
      simp only [Cache.selectDrop] at hRun
      split at hRun
      · obtain ⟨-, rfl⟩ := Prod.mk.inj (Except.ok.inj hRun)
        exact ⟨rfl, rfl, .refl c⟩
      · split at hRun
        · obtain ⟨hMarks, hSize, hRest⟩ := ih hRun
          exact ⟨hMarks, hSize, (hTurn rfl).trans hRest⟩
        · obtain ⟨hMarks, hSize, hRest⟩ := ih hRun
          exact ⟨hMarks, hSize, (hTurn rfl).trans hRest⟩

theorem gauges_dropDslab (hRun : c.dropDslab build cfg d = .ok c') : c'.gauges = c.gauges := by
  rw [dropDslab_changes hRun]
  rfl

/-- The first loop of `do_quick_gc` adds to the pool, and no more than asked for. -/
theorem gauges_backToOpsPool (cfg : Config) (o i : Int) (toDrop : List Nat) (c : Cache) :
    (Cache.backToOpsPool cfg o i toDrop c).2.waterMarks = c.waterMarks ∧
      (Cache.backToOpsPool cfg o i toDrop c).2.opsPoolSize =
        c.opsPoolSize + min (toDrop.length : Int) (max (o - i) 0) ∧
      c.Turned cfg (Cache.backToOpsPool cfg o i toDrop c).2 := by
  induction toDrop generalizing c i with
  | nil =>
      refine ⟨rfl, ?_, .refl c⟩
      simp only [Cache.backToOpsPool, List.length_nil]
      omega
  | cons d rest ih =>
      simp only [Cache.backToOpsPool]
      split
      · refine ⟨rfl, ?_, .inl rfl⟩
        simp only [Cache.resetSlab, List.length_cons]
        omega
      · obtain ⟨hMarks, hSize, hTurned⟩ := ih (i + 1) { c.resetSlab d with
          opsPool := (c.resetSlab d).opsPool.modify
            (cfg.channelId ((c.resetSlab d).slabs d).blockId) (·.add d)
          opsPoolSize := (c.resetSlab d).opsPoolSize + 1 }
        refine ⟨hMarks, hSize.trans ?_, hTurned⟩
        simp only [Cache.resetSlab, List.length_cons]
        omega

theorem gauges_frees (h : c.Frees c') : c'.gauges = c.gauges := by
  obtain ⟨_, _, _, rfl⟩ := h
  rfl

/-- `gc_dslabs` takes one slab out of the pool. -/
theorem gauges_takeOpsFrom {begin rounds ops : Nat}
    (hRun : Cache.takeOpsFrom cfg begin rounds c = (some ops, c')) :
    c'.waterMarks = c.waterMarks ∧ c'.opsPoolSize = c.opsPoolSize - 1 ∧ c.Turned cfg c' := by
  induction rounds generalizing c with
  | zero => cases hRun
  | succ rounds ih =>
      have hTurn : ∀ {c₁ : Cache}, c₁.nextOpsPoolRemoveChannel =
          cfg.nextChannel c.nextOpsPoolRemoveChannel → c.Turned cfg c₁ :=
        fun h => .inr ⟨_, h⟩
      simp only [Cache.takeOpsFrom] at hRun
      split at hRun
      · obtain ⟨-, rfl⟩ := Prod.mk.inj hRun
        exact ⟨rfl, rfl, hTurn rfl⟩
      · split at hRun
        · obtain ⟨hMarks, hSize, hRest⟩ := ih hRun
          exact ⟨hMarks, hSize, (hTurn rfl).trans hRest⟩
        · cases hRun

theorem gauges_relinkFull {ops : Nat}
    (hRun : c.relinkFull cfg ops toDrop freeList = (c', freeList')) : c'.gauges = c.gauges := by
  obtain ⟨_, _, _, hChanges⟩ := relinkFull_changes cfg c ops toDrop freeList
  rw [hRun] at hChanges
  obtain rfl : c' = _ := hChanges
  rfl

theorem gauges_moveLive {fake : Slab} (hRun : c.moveLive build cfg d fake = .ok c') :
    c'.gauges = c.gauges := by
  obtain ⟨_, _, rfl⟩ := moveLive_changes hRun
  rfl

/-- The loop that shrinks the pool takes at most one slab an iteration. -/
theorem gauges_shrinkOps (hRun : c.shrinkOps cfg freeList = (c', freeList')) :
    c'.waterMarks = c.waterMarks ∧
      (c'.opsPoolSize = c.opsPoolSize ∨ c'.opsPoolSize = c.opsPoolSize - 1) ∧
      c.Turned cfg c' := by
  unfold Cache.shrinkOps at hRun
  dsimp only at hRun
  split at hRun
  · obtain ⟨rfl, -⟩ := Prod.mk.inj hRun
    exact ⟨rfl, .inl rfl, .inr ⟨_, rfl⟩⟩
  · obtain ⟨rfl, -⟩ := Prod.mk.inj hRun
    exact ⟨rfl, .inr rfl, .inr ⟨_, rfl⟩⟩

end

/-! ### Any step -/

/-- A step is one of the writer, of the flush thread or of the collector, and
leaves the other two where they are. -/
theorem Threads.step_inv {act : Act} (hRun : t.step build cfg act = .ok (t', done)) :
    (act ≠ .flush ∧ t'.cache.steering = t.cache.steering ∧ t'.gc = t.gc ∧ t'.flush = t.flush) ∨
      (act = .flush ∧ t'.gc = t.gc ∧
        Threads.stepFlush build cfg t.cache t.flush = .ok (t'.cache, t'.flush)) ∨
      ∃ pick fuel, act = .gc pick fuel ∧ t'.flush = t.flush ∧
        Threads.stepGc build cfg pick fuel t.cache t.gc = .ok (t'.cache, t'.gc) := by
  cases act with
  | put key value =>
      simp only [Threads.step, Execution.bind_eq_ok, Execution.pure_eq_ok] at hRun
      obtain ⟨t₁, hPut, hEnd⟩ := hRun
      obtain ⟨rfl, -⟩ := Prod.mk.inj hEnd
      exact .inl ⟨Act.noConfusion, steering_beginPut hPut⟩
  | writer => exact .inl ⟨Act.noConfusion, steering_stepWriter hRun⟩
  | delete key =>
      simp only [Threads.step, Execution.bind_eq_ok, Execution.pure_eq_ok] at hRun
      obtain ⟨c, hDelete, hEnd⟩ := hRun
      obtain ⟨rfl, -⟩ := Prod.mk.inj hEnd
      exact .inl ⟨Act.noConfusion, steering_delete hDelete, rfl, rfl⟩
  | flush =>
      simp only [Threads.step, Execution.bind_eq_ok, Execution.pure_eq_ok] at hRun
      obtain ⟨⟨c, a⟩, hFlush, hEnd⟩ := hRun
      obtain ⟨rfl, -⟩ := Prod.mk.inj hEnd
      exact .inr (.inl ⟨rfl, rfl, hFlush⟩)
  | gc pick fuel =>
      simp only [Threads.step, Execution.bind_eq_ok, Execution.pure_eq_ok] at hRun
      obtain ⟨⟨c, a⟩, hGc, hEnd⟩ := hRun
      obtain ⟨rfl, -⟩ := Prod.mk.inj hEnd
      exact .inr (.inr ⟨pick, fuel, rfl, rfl, hGc⟩)

/-- A step is one of the collector, or leaves the numbers of the collector and
its place in the code alone. -/
theorem Threads.step_cases {act : Act} (hRun : t.step build cfg act = .ok (t', done)) :
    (t'.cache.gauges = t.cache.gauges ∧ t'.gc = t.gc) ∨
      ∃ pick fuel, Threads.stepGc build cfg pick fuel t.cache t.gc = .ok (t'.cache, t'.gc) := by
  rcases Threads.step_inv hRun with ⟨-, hSame, hGc, -⟩ | ⟨-, hGc, hFlush⟩ |
    ⟨pick, fuel, -, -, hGc⟩
  · exact .inl ⟨congrArg Prod.fst hSame, hGc⟩
  · exact .inl ⟨gauges_stepFlush hFlush, hGc⟩
  · exact .inr ⟨pick, fuel, hGc⟩

end KVCache
