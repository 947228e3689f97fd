import KVCache.Invariant.Gauges
import KVCache.Invariant.GcRound

/-! How many slabs quick GC drops and hands back. Its selection loop takes one
full disk slab after the other, and goes round the channels for as long as it
was asked for more; it ends exactly when there are enough of them. -/

namespace KVCache

variable {build : Build} {cfg : Config} {c c' : Cache} {g : Ghost}

/-- Number of slabs on the full lists. -/
def Cache.fullCount (c : Cache) : Nat := (c.dslabFull.flatMap SlabList.list).length

/-- Going round, one comes to every channel. -/
theorem exists_add_mod {n target : Nat} (start : Nat) (h : target < n) :
    ∃ k, (start + k) % n = target := by
  refine ⟨target + (n - 1) * start, ?_⟩
  have hSum : start + (target + (n - 1) * start) = target + n * start := by
    have hMul : n * start = (n - 1) * start + start := by
      rw [← Nat.succ_mul, Nat.succ_eq_add_one, Nat.sub_add_cancel (by omega)]
    omega
  rw [hSum, Nat.add_mul_mod_self_left, Nat.mod_eq_of_lt h]

/-! ### The selection loop -/

section

variable {fuel : Nat} {n : Int} {start toDrop : List Nat}

variable (cfg c start) in
/-- What the loop does with a channel. -/
theorem selectDrop_succ (hMore : 0 < n) :
    (∃ c₁ : Cache, c₁ = { c with
        nextOpsPoolRemoveChannel := (c.nextOpsPoolRemoveChannel + 1) % cfg.nrChannels } ∧
      (c.dslabFull c₁.nextOpsPoolRemoveChannel).list = [] ∧ ∀ fuel,
      Cache.selectDrop cfg (fuel + 1) n c start = Cache.selectDrop cfg fuel n c₁ start) ∨
    ∃ (c₁ : Cache) (d : Nat), c₁.fullCount + 1 = c.fullCount ∧
      c₁.nextOpsPoolRemoveChannel = (c.nextOpsPoolRemoveChannel + 1) % cfg.nrChannels ∧
      (∀ channel, (c.dslabFull channel).list = [] → (c₁.dslabFull channel).list = []) ∧
      c₁.nrFreeDslab = c.nrFreeDslab ∧ ∀ fuel, Cache.selectDrop cfg (fuel + 1) n c start =
        Cache.selectDrop cfg fuel (n - 1) c₁ (d :: start) := by
  have hChannel : cfg.nextChannel c.nextOpsPoolRemoveChannel % cfg.nrChannels =
      (c.nextOpsPoolRemoveChannel + 1) % cfg.nrChannels := Nat.mod_mod _ _
  cases hList : (c.dslabFull ((c.nextOpsPoolRemoveChannel + 1) % cfg.nrChannels)).list with
  | nil =>
      refine .inl ⟨_, rfl, hList, fun fuel => ?_⟩
      rw [Cache.selectDrop, if_neg (Int.not_le.mpr hMore)]
      simp only [hChannel, hList]
  | cons d rest =>
      refine .inr ⟨{ c with
          nextOpsPoolRemoveChannel := (c.nextOpsPoolRemoveChannel + 1) % cfg.nrChannels
          dslabFull := c.dslabFull.modify ((c.nextOpsPoolRemoveChannel + 1) % cfg.nrChannels)
            (·.del d)
          nrFullDslab := c.nrFullDslab - 1 }, d, ?_, rfl, fun channel hEmpty => ?_, rfl,
        fun fuel => ?_⟩
      · exact Lists.length_del (by rw [hList]; simp)
      · dsimp only
        rw [Table.get_modify]
        split
        · rename_i hEq
          rw [hEq, hList] at hEmpty
          cases hEmpty
        · exact hEmpty
      · rw [Cache.selectDrop, if_neg (Int.not_le.mpr hMore)]
        simp only [hChannel, hList]

theorem selectDrop_done (hDone : n ≤ 0) :
    Cache.selectDrop cfg fuel n c start = .ok (start, c) := by
  unfold Cache.selectDrop
  rw [if_pos hDone]

/-- As many slabs as asked for leave the full lists. -/
theorem selectDrop_counts (hRun : Cache.selectDrop cfg fuel n c start = .ok (toDrop, c')) :
    toDrop.length = start.length + n.toNat ∧ c'.fullCount + n.toNat = c.fullCount ∧
      c'.nrFreeDslab = c.nrFreeDslab := by
  induction fuel generalizing n c start with
  | zero =>
      by_cases hDone : n ≤ 0
      · rw [selectDrop_done hDone] at hRun
        obtain ⟨rfl, rfl⟩ := Prod.mk.inj (Except.ok.inj hRun)
        exact ⟨by omega, by omega, rfl⟩
      · rw [Cache.selectDrop, if_neg hDone] at hRun
        cases hRun
  | succ fuel ih =>
      by_cases hDone : n ≤ 0
      · rw [selectDrop_done hDone] at hRun
        obtain ⟨rfl, rfl⟩ := Prod.mk.inj (Except.ok.inj hRun)
        exact ⟨by omega, by omega, rfl⟩
      · rcases selectDrop_succ cfg c start (Int.not_le.mp hDone) with
          ⟨c₁, hc₁, -, hSkip⟩ | ⟨c₁, d, hCount, -, -, hFree, hTake⟩
        · rw [hSkip] at hRun
          have hSame : c₁.fullCount = c.fullCount ∧ c₁.nrFreeDslab = c.nrFreeDslab := by
            rw [hc₁]
            exact ⟨rfl, rfl⟩
          rw [← hSame.1, ← hSame.2]
          exact ih hRun
        · rw [hTake] at hRun
          obtain ⟨hLength, hFull, hSame⟩ := ih hRun
          simp only [List.length_cons] at hLength
          exact ⟨by omega, by omega, hSame.trans hFree⟩

variable (start) in
/-- From a cursor that is `k` channels before a full list, the loop gets to take
a slab. -/
theorem selectDrop_reaches {k : Nat} (hMore : 0 < n)
    (hSome : (c.dslabFull ((c.nextOpsPoolRemoveChannel + 1 + k) % cfg.nrChannels)).list ≠ []) :
    ∃ (c₁ : Cache) (d : Nat), c₁.fullCount + 1 = c.fullCount ∧
      (∀ channel, (c.dslabFull channel).list = [] → (c₁.dslabFull channel).list = []) ∧
      ∀ fuel, ∃ fuel', Cache.selectDrop cfg fuel' n c start =
        Cache.selectDrop cfg fuel (n - 1) c₁ (d :: start) := by
  induction k generalizing c with
  | zero =>
      rcases selectDrop_succ cfg c start hMore with
        ⟨c₁, rfl, hEmpty, -⟩ | ⟨c₁, d, hCount, -, hKeep, -, hTake⟩
      · exact absurd hEmpty hSome
      · exact ⟨c₁, d, hCount, hKeep, fun fuel => ⟨fuel + 1, hTake fuel⟩⟩
  | succ k ih =>
      rcases selectDrop_succ cfg c start hMore with
        ⟨c₁, hc₁, -, hSkip⟩ | ⟨c₁, d, hCount, -, hKeep, -, hTake⟩
      · have hNext : (c₁.dslabFull
            ((c₁.nextOpsPoolRemoveChannel + 1 + k) % cfg.nrChannels)).list ≠ [] := by
          subst hc₁
          dsimp only
          rw [Nat.add_assoc, Nat.mod_add_mod]
          rwa [show c.nextOpsPoolRemoveChannel + 1 + (k + 1) =
            c.nextOpsPoolRemoveChannel + 1 + (1 + k) by omega] at hSome
        obtain ⟨c₂, d, hCount, hKeep, hReach⟩ := ih hNext
        have hSame : c₁.dslabFull = c.dslabFull := by rw [hc₁]
        refine ⟨c₂, d, ?_, fun channel hEmpty => hKeep channel (hSame ▸ hEmpty), fun fuel => ?_⟩
        · rw [hCount, Cache.fullCount, hSame]
          rfl
        · obtain ⟨fuel', hRun⟩ := hReach fuel
          exact ⟨fuel' + 1, (hSkip fuel').trans hRun⟩
      · exact ⟨c₁, d, hCount, hKeep, fun fuel => ⟨fuel + 1, hTake fuel⟩⟩

/-- With enough full slabs on the lists of the channels, the loop ends. -/
theorem selectDrop_ends (hLists : ∀ channel, cfg.nrChannels ≤ channel →
    (c.dslabFull channel).list = []) (hEnough : n ≤ c.fullCount) :
    ∃ fuel r, Cache.selectDrop cfg fuel n c start = .ok r := by
  by_cases hDone : n ≤ 0
  · exact ⟨0, _, selectDrop_done hDone⟩
  generalize hm : n.toNat = m
  induction m generalizing n c start with
  | zero => omega
  | succ m ih =>
      have hPos : 0 < c.fullCount := by omega
      obtain ⟨x, hx⟩ := List.exists_mem_of_length_pos hPos
      obtain ⟨channel, hMem⟩ := (Table.mem_flatMap rfl).mp hx
      have hSome : (c.dslabFull channel).list ≠ [] := List.ne_nil_of_mem hMem
      have hLt : channel < cfg.nrChannels := by
        by_contra hGe
        exact hSome (hLists channel (Nat.le_of_not_lt hGe))
      -- the number of channels from the cursor to this one
      obtain ⟨k, hk⟩ := exists_add_mod (c.nextOpsPoolRemoveChannel + 1) hLt
      obtain ⟨c₁, d, hCount, hKeep, hReach⟩ :=
        selectDrop_reaches start (Int.not_le.mp hDone) (hk ▸ hSome)
      obtain ⟨fuel, r, hRest⟩ : ∃ fuel r,
          Cache.selectDrop cfg fuel (n - 1) c₁ (d :: start) = .ok r := by
        by_cases hLast : n - 1 ≤ 0
        · exact ⟨0, _, selectDrop_done hLast⟩
        · exact ih (fun ch hGe => hKeep ch (hLists ch hGe)) (by omega) hLast (by omega)
      obtain ⟨fuel', hRun⟩ := hReach fuel
      exact ⟨fuel', r, hRun.trans hRest⟩

end

/-- The loop ends exactly when there are enough full slabs. -/
theorem Inv.selectDrop_ends_iff {n : Int} (hInv : Inv cfg c g) :
    (∃ fuel r, Cache.selectDrop cfg fuel n c [] = .ok r) ↔ n ≤ c.fullCount := by
  constructor
  · rintro ⟨fuel, ⟨toDrop, c'⟩, hRun⟩
    have hCounts := (selectDrop_counts hRun).2.1
    omega
  · refine selectDrop_ends fun channel hGe => List.eq_nil_iff_forall_not_mem.mpr fun x hx => ?_
    obtain ⟨hPlace, hAt⟩ := hInv.lists.mem_dslabFull.mp hx
    have hLt := hInv.channel_lt (Finset.mem_Ico.mp (hInv.disk_of_place rfl hPlace))
    omega

/-! ### Handing back -/

/-- The first loop leaves the slabs that come after the one it loses. -/
theorem backToOpsPool_counts (cfg : Config) (o i : Int) (toDrop : List Nat) (c : Cache) :
    (Cache.backToOpsPool cfg o i toDrop c).1.length = toDrop.length - ((o - i).toNat + 1) ∧
      (Cache.backToOpsPool cfg o i toDrop c).2.nrFreeDslab = c.nrFreeDslab := by
  induction toDrop generalizing c i with
  | nil => exact ⟨by simp [Cache.backToOpsPool], rfl⟩
  | cons d rest ih =>
      simp only [Cache.backToOpsPool]
      split
      · refine ⟨?_, rfl⟩
        simp only [List.length_cons]
        omega
      · obtain ⟨hLength, hFree⟩ := ih (i + 1) { c.resetSlab d with
          opsPool := (c.resetSlab d).opsPool.modify
            (cfg.channelId ((c.resetSlab d).slabs d).blockId) (·.add d)
          opsPoolSize := (c.resetSlab d).opsPoolSize + 1 }
        refine ⟨hLength.trans ?_, hFree⟩
        simp only [List.length_cons]
        omega

theorem backToDslabFree_counts {ds : List Nat}
    (hRun : ds.foldlM (Cache.backToDslabFree build cfg) c = .ok c') :
    c'.nrFreeDslab = c.nrFreeDslab + ds.length := by
  have hLoop := Execution.foldlM_rule
    (fun rest (c' : Cache) => c'.nrFreeDslab + rest.length = c.nrFreeDslab + ds.length)
    (fun d rest c₁ c₂ h hStep => by
      simp only [Cache.backToDslabFree, Cache.linkDslabFree, Execution.bind_eq_ok,
        Execution.pure_eq_ok] at hStep
      obtain ⟨_, -, rfl⟩ := hStep
      simp only [List.length_cons] at h
      simp only [Cache.resetSlab]
      omega) hRun rfl
  simpa using hLoop

theorem dropDslabs_counts {ds : List Nat}
    (hRun : ds.foldlM (Cache.dropDslab build cfg) c = .ok c') :
    c'.nrFreeDslab = c.nrFreeDslab ∧ c'.gauges = c.gauges := by
  refine Execution.foldlM_rule
    (fun _ (c' : Cache) => c'.nrFreeDslab = c.nrFreeDslab ∧ c'.gauges = c.gauges)
    (fun d rest c₁ c₂ h hStep => ⟨?_, (gauges_dropDslab hStep).trans h.2⟩) hRun ⟨rfl, rfl⟩
  simp only [Cache.dropDslab, Execution.bind_eq_ok, Execution.pure_eq_ok] at hStep
  obtain ⟨_, -, rfl⟩ := hStep
  exact h.1

/-- The counters after `do_quick_gc`. The pool gets what it was to get, the free
lists one slab less than that. -/
theorem doQuickGc_counts {fuel : Nat} {f o : Int} (ho : 0 ≤ o)
    (hRun : Cache.doQuickGc build cfg fuel f o c = .ok c') :
    c'.opsPoolSize = c.opsPoolSize + min (max (f + o) 0) o ∧
      c'.nrFreeDslab = c.nrFreeDslab + max (f - 1) 0 ∧ c'.waterMarks = c.waterMarks := by
  simp only [Cache.doQuickGc, Execution.bind_eq_ok, Execution.pure_eq_ok] at hRun
  obtain ⟨_, -, _, -, ⟨toDrop, c₁⟩, hSelect, c₂, hDrop, c₄, hFree, _, -, rfl⟩ := hRun
  obtain ⟨hLength, -, hFree₁⟩ := selectDrop_counts hSelect
  obtain ⟨hMarks₁, hSize₁, -⟩ := gauges_selectDrop hSelect
  obtain ⟨hFree₂, hGauges₂⟩ := dropDslabs_counts hDrop
  have hSize₂ : c₂.opsPoolSize = c₁.opsPoolSize := congrArg Gauges.opsPoolSize hGauges₂
  obtain ⟨hMarks₃, hSize₃, -⟩ := gauges_backToOpsPool cfg o 0 toDrop c₂
  obtain ⟨hRest, hFree₃⟩ := backToOpsPool_counts cfg o 0 toDrop c₂
  have hFree₄ := backToDslabFree_counts hFree
  have hGauges₄ := gauges_frees (backToDslabFree_frees hFree)
  have hSize₄ := congrArg Gauges.opsPoolSize hGauges₄
  simp only [List.length_nil] at hLength
  simp only [Cache.gauges] at hSize₄
  dsimp only at hDrop hSize₄ hFree₄ hFree₂ ⊢
  refine ⟨?_, ?_, ?_⟩
  · omega
  · omega
  · exact ((congrArg Gauges.marks hGauges₄).trans hMarks₃).trans
      ((congrArg Gauges.marks hGauges₂).trans hMarks₁)

/-! ### Conservation -/

/-- Every disk slab is free, full, over-provisioned, or on no list. -/
theorem Inv.partition (hInv : Inv cfg c g) :
    c.nrFreeDslab + c.fullCount + c.opsPoolSize + g.disksAt cfg .nowhere = cfg.nrBlocks := by
  have hFull : c.fullCount = g.disksAt cfg .dslabFull :=
    hInv.length_flatMap (p := .dslabFull) rfl fun _ => rfl
  rw [hInv.nrFreeDslab_eq, hInv.opsPoolSize_eq, hFull, ← card_diskSlabs]
  have hOne : ∀ x ∈ cfg.diskSlabs,
      (if g.place x = .dslabFree then 1 else 0) + (if g.place x = .dslabFull then 1 else 0) +
        (if g.place x = .opsPool then 1 else 0) + (if g.place x = .nowhere then 1 else 0) = 1 := by
    intro x hx
    rcases hInv.disk_place hx with h | h | h | h <;> simp [h]
  have hSum := Finset.sum_congr rfl hOne
  simp only [Finset.sum_add_distrib, ← Finset.card_filter, ← Finset.card_eq_sum_ones] at hSum
  simp only [Ghost.disksAt]
  exact_mod_cast hSum

theorem Inv.conserved (hInv : Inv cfg c g) (hRest : ∀ x ∈ cfg.diskSlabs, (g.role x).Resting) :
    c.nrFreeDslab + c.fullCount + c.opsPoolSize +
      (cfg.diskSlabs.filter fun x => g.role x = .diskLoose).card = cfg.nrBlocks := by
  rw [← hInv.partition, Ghost.disksAt,
    Finset.filter_congr fun x hx => hInv.nowhere_iff_loose hx (hRest x hx)]

end KVCache
