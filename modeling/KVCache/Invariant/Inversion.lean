import KVCache.Semantics.Threads

/-! What a step of the collector can do, said once. Every property of its steps
is a case analysis over these transitions. -/

namespace KVCache

/-- The transitions of the collector that do not stop, with what they test and
compute. Assertions are left out. -/
inductive GcStep (build : Build) (cfg : Config) (pick : List Nat) (fuel : Nat) (c : Cache) :
    GcAt → Cache → GcAt → Prop
  | wake (h : 0 < c.nrFullDslab) : GcStep build cfg pick fuel c .idle c .awake
  | look : GcStep build cfg pick fuel c .awake c (.decide c.nrFreeDslab)
  | exhausted {nrFree : Int} (h : c.index.nrFreeIndexEntry = 0) :
      GcStep build cfg pick fuel c (.decide nrFree) c (.quickSelect 1 0)
  | pressed {nrFree : Int} (hIndex : c.index.nrFreeIndexEntry ≠ 0)
      (h : nrFree < c.freeBlockWaterMarkLow) :
      GcStep build cfg pick fuel c (.decide nrFree) c .quickTune
  | relaxed {nrFree : Int} (hIndex : c.index.nrFreeIndexEntry ≠ 0)
      (h : c.freeBlockWaterMarkLow ≤ nrFree) :
      GcStep build cfg pick fuel c (.decide nrFree) c (.scan 0 [])
  | quickTune : GcStep build cfg pick fuel c .quickTune
      { c with
        freeBlockWaterMarkLow := c.quickWaterMarks.1
        freeBlockWaterMarkHigh := c.quickWaterMarks.2 }
      (.quickSelect c.quickAmounts.1 c.quickAmounts.2)
  | quickSelect {f o : Int} {toDrop : List Nat} {c' : Cache}
      (h : c.selectDrop cfg fuel (f + o) [] = .ok (toDrop, c')) :
      GcStep build cfg pick fuel c (.quickSelect f o) c' (.quickEvict o toDrop toDrop)
  | quickEvict {o : Int} {toDrop todo : List Nat} {d : Nat} {c' : Cache}
      (h : c.dropDslab build cfg d = .ok c') :
      GcStep build cfg pick fuel c (.quickEvict o toDrop (d :: todo)) c'
        (.quickEvict o toDrop todo)
  | backToOpsPool {o : Int} {toDrop rest : List Nat} {c' : Cache}
      (h : Cache.backToOpsPool cfg o 0 toDrop c = (rest, c')) :
      GcStep build cfg pick fuel c (.quickEvict o toDrop []) c' (.quickFree rest)
  | backToDslabFree {rest : List Nat} {c' : Cache}
      (h : rest.foldlM (Cache.backToDslabFree build cfg) c = .ok c') :
      GcStep build cfg pick fuel c (.quickFree rest) c' .idle
  | scan {channel : Nat} {pq : List Nat} (hChannel : channel < cfg.nrChannels)
      (h : Threads.HeapKeeps c channel pq pick) :
      GcStep build cfg pick fuel c (.scan channel pq) c (.scan (channel + 1) pick)
  | scanned {channel : Nat} {pq : List Nat} (hChannel : cfg.nrChannels ≤ channel) :
      GcStep build cfg pick fuel c (.scan channel pq) c (Threads.startClass cfg
        ⟨⟨(List.range cfg.nrSlabClass).map (c.classToDrop pq)⟩,
          ⟨List.replicate cfg.nrChannels default⟩, c.opsPoolSize⟩ 0)
  | batchNext {n : NormalGc} {cid d : Nat} {toDrop left : List Nat} {moved : Int}
      (h : (c.slabs d).nrUsed + moved ≤ (c.slabs d).nrSlots) :
      GcStep build cfg pick fuel c (.batch n cid toDrop moved (d :: left)) c
        (.batch n cid (toDrop ++ [d]) (moved + (c.slabs d).nrUsed) left)
  | batchEnd {n : NormalGc} {cid : Nat} {toDrop left : List Nat} {moved : Int} :
      GcStep build cfg pick fuel c (.batch n cid toDrop moved left) c
        (Threads.endBatch cfg c n cid toDrop)
  | take {n : NormalGc} {cid ops : Nat} {toDrop : List Nat} {c' : Cache}
      (h : c.takeOps cfg = (some ops, c')) :
      GcStep build cfg pick fuel c (.take n cid toDrop) c' (.relink n cid ops toDrop)
  | relink {n : NormalGc} {cid ops : Nat} {toDrop : List Nat} {c' : Cache}
      {freeList : Table SlabList}
      (h : c.relinkFull cfg ops toDrop n.freeList = (c', freeList)) :
      GcStep build cfg pick fuel c (.relink n cid ops toDrop) c'
        (.prepare { n with freeList := freeList } cid ops toDrop)
  | prepare {n : NormalGc} {cid ops first : Nat} {rest : List Nat} :
      GcStep build cfg pick fuel c (.prepare n cid ops (first :: rest))
        (c.prepareBuffer cfg first) (.check n cid ops 0 (first :: rest))
  | check {n : NormalGc} {cid ops d : Nat} {size : Int} {todo : List Nat} :
      GcStep build cfg pick fuel c (.check n cid ops size (d :: todo)) c
        (.move n cid ops (size + (c.slabs d).nrUsed) d (c.readDslab d) todo)
  | write {n : NormalGc} {cid ops : Nat} {size : Int} :
      GcStep build cfg pick fuel c (.check n cid ops size [])
        (c.writeBlock cfg cfg.gcBuffer ops) (.copy n cid ops)
  | move {n : NormalGc} {cid ops d : Nat} {size : Int} {fake : Slab} {todo : List Nat} {c' : Cache}
      (h : c.moveLive build cfg d fake = .ok c') :
      GcStep build cfg pick fuel c (.move n cid ops size d fake todo) c' (.check n cid ops size todo)
  | copy {n : NormalGc} {cid ops : Nat} :
      GcStep build cfg pick fuel c (.copy n cid ops) (c.copyHeader cfg.gcBuffer ops)
        (.modify n cid ops)
  | modify {n : NormalGc} {cid ops : Nat} :
      GcStep build cfg pick fuel c (.modify n cid ops) (c.modifyIndexTo cfg cfg.gcBuffer ops)
        (Threads.startClass cfg n (cid + 1))
  | tune {n : NormalGc} :
      GcStep build cfg pick fuel c (.tune n) (c.tuneOpsPool n.oldOpsSize).2
        (.refill n (c.tuneOpsPool n.oldOpsSize).1
          (n.oldOpsSize - (c.tuneOpsPool n.oldOpsSize).2.opsPoolSize) 0)
  | refillSkip {n : NormalGc} {newOpsSize left : Int} {channel : Nat} (hLeft : 0 < left)
      (h : (n.freeList channel).list = []) :
      GcStep build cfg pick fuel c (.refill n newOpsSize left channel) c
        (.refill n newOpsSize left (cfg.nextChannel channel))
  | refill {n : NormalGc} {newOpsSize left : Int} {channel d : Nat} {rest : List Nat} {c' : Cache}
      {freeList : Table SlabList} (hLeft : 0 < left) (hList : (n.freeList channel).list = d :: rest)
      (h : c.refillOps n.freeList channel d = (c', freeList)) :
      GcStep build cfg pick fuel c (.refill n newOpsSize left channel) c'
        (.refill { n with freeList := freeList } newOpsSize (left - 1) (cfg.nextChannel channel))
  | refilled {n : NormalGc} {newOpsSize left : Int} {channel : Nat} (hLeft : left ≤ 0) :
      GcStep build cfg pick fuel c (.refill n newOpsSize left channel) c
        (.shrink n (c.opsPoolSize - newOpsSize).toNat)
  | shrink {n : NormalGc} {count : Nat} {c' : Cache} {freeList : Table SlabList}
      (h : c.shrinkOps cfg n.freeList = (c', freeList)) :
      GcStep build cfg pick fuel c (.shrink n (count + 1)) c'
        (.shrink { n with freeList := freeList } count)
  | shrunk {n : NormalGc} : GcStep build cfg pick fuel c (.shrink n 0) c (.reclaim n)
  | reclaim {n : NormalGc} {c' : Cache} (h : c.reclaim build cfg n.freeList = .ok c') :
      GcStep build cfg pick fuel c (.reclaim n) c' .idle

variable {build : Build} {cfg : Config} {pick : List Nat} {fuel : Nat} {c c' : Cache} {a a' : GcAt}

theorem stepQuick_inv (hRun : Threads.stepQuick build cfg fuel c a = .ok (c', a')) :
    GcStep build cfg pick fuel c a c' a' := by
  cases a with
  | idle =>
      simp only [Threads.stepQuick] at hRun
      split at hRun
      · cases hRun
      · rename_i hFull
        obtain ⟨rfl, rfl⟩ := Prod.mk.inj (Except.ok.inj hRun)
        exact .wake (Int.not_le.mp hFull)
  | awake =>
      simp only [Threads.stepQuick, Execution.bind_eq_ok, Execution.pure_eq_ok] at hRun
      obtain ⟨_, -, hEnd⟩ := hRun
      obtain ⟨rfl, rfl⟩ := Prod.mk.inj hEnd
      exact .look
  | decide nrFree =>
      simp only [Threads.stepQuick] at hRun
      split at hRun
      · obtain ⟨rfl, rfl⟩ := Prod.mk.inj (Except.ok.inj hRun)
        exact .exhausted ‹_›
      · split at hRun <;> obtain ⟨rfl, rfl⟩ := Prod.mk.inj (Except.ok.inj hRun)
        · exact .pressed ‹_› ‹_›
        · exact .relaxed ‹_› (Int.not_lt.mp ‹_›)
  | quickTune =>
      simp only [Threads.stepQuick, Execution.bind_eq_ok, Execution.pure_eq_ok] at hRun
      obtain ⟨_, -, _, -, hEnd⟩ := hRun
      obtain ⟨rfl, rfl⟩ := Prod.mk.inj hEnd
      exact .quickTune
  | quickSelect f o =>
      simp only [Threads.stepQuick, Execution.bind_eq_ok, Execution.pure_eq_ok] at hRun
      obtain ⟨_, -, _, -, ⟨toDrop, c₁⟩, hSelect, hEnd⟩ := hRun
      obtain ⟨rfl, rfl⟩ := Prod.mk.inj hEnd
      exact .quickSelect hSelect
  | quickEvict o toDrop todo =>
      cases todo with
      | nil =>
          obtain ⟨rfl, rfl⟩ := Prod.mk.inj (Except.ok.inj hRun)
          exact .backToOpsPool rfl
      | cons d todo =>
          simp only [Threads.stepQuick, Execution.bind_eq_ok, Execution.pure_eq_ok] at hRun
          obtain ⟨c₁, hDrop, hEnd⟩ := hRun
          obtain ⟨rfl, rfl⟩ := Prod.mk.inj hEnd
          exact .quickEvict hDrop
  | quickFree rest =>
      simp only [Threads.stepQuick, Execution.bind_eq_ok, Execution.pure_eq_ok] at hRun
      obtain ⟨c₁, hBack, _, -, hEnd⟩ := hRun
      obtain ⟨rfl, rfl⟩ := Prod.mk.inj hEnd
      exact .backToDslabFree hBack
  | _ => cases hRun

theorem stepChoose_inv (hRun : Threads.stepChoose build cfg pick c a = .ok (c', a')) :
    GcStep build cfg pick fuel c a c' a' := by
  cases a with
  | scan channel pq =>
      simp only [Threads.stepChoose] at hRun
      split at hRun
      · split at hRun
        · cases hRun
        · split at hRun
          · obtain ⟨rfl, rfl⟩ := Prod.mk.inj (Except.ok.inj hRun)
            exact .scan ‹_› ‹_›
          · cases hRun
      · rename_i hChannel
        simp only [Execution.bind_eq_ok, Execution.pure_eq_ok] at hRun
        obtain ⟨_, -, hEnd⟩ := hRun
        obtain ⟨rfl, rfl⟩ := Prod.mk.inj hEnd
        exact .scanned (Nat.le_of_not_lt hChannel)
  | batch n cid toDrop moved left =>
      cases left with
      | nil =>
          obtain ⟨rfl, rfl⟩ := Prod.mk.inj (Except.ok.inj hRun)
          exact .batchEnd
      | cons d left =>
          simp only [Threads.stepChoose, Execution.bind_eq_ok] at hRun
          obtain ⟨_, -, hRun⟩ := hRun
          split at hRun
          · obtain ⟨rfl, rfl⟩ := Prod.mk.inj (Execution.pure_eq_ok.mp hRun)
            exact .batchEnd
          · rename_i hFits
            obtain ⟨rfl, rfl⟩ := Prod.mk.inj (Execution.pure_eq_ok.mp hRun)
            exact .batchNext (Int.not_lt.mp hFits)
  | _ => cases hRun

theorem stepCollect_inv (hRun : Threads.stepCollect build cfg c a = .ok (c', a')) :
    GcStep build cfg pick fuel c a c' a' := by
  cases a with
  | take n cid toDrop =>
      simp only [Threads.stepCollect] at hRun
      generalize hTake : c.takeOps cfg = taken at hRun
      obtain ⟨ops, c₁⟩ := taken
      cases ops with
      | none => cases build <;> cases hRun
      | some ops =>
          obtain ⟨rfl, rfl⟩ := Prod.mk.inj (Except.ok.inj hRun)
          exact .take hTake
  | relink n cid ops toDrop =>
      obtain ⟨rfl, rfl⟩ := Prod.mk.inj (Except.ok.inj hRun)
      exact .relink rfl
  | prepare n cid ops toDrop =>
      cases toDrop with
      | nil => cases hRun
      | cons first rest =>
          obtain ⟨rfl, rfl⟩ := Prod.mk.inj (Except.ok.inj hRun)
          exact .prepare
  | check n cid ops size todo =>
      cases todo with
      | nil =>
          simp only [Threads.stepCollect, Execution.bind_eq_ok, Execution.pure_eq_ok] at hRun
          obtain ⟨_, -, hEnd⟩ := hRun
          obtain ⟨rfl, rfl⟩ := Prod.mk.inj hEnd
          exact .write
      | cons d todo =>
          simp only [Threads.stepCollect, Cache.checkMove, Execution.bind_eq_ok,
            Execution.pure_eq_ok] at hRun
          obtain ⟨_, ⟨_, -, _, -, _, -, rfl⟩, hEnd⟩ := hRun
          obtain ⟨rfl, rfl⟩ := Prod.mk.inj hEnd
          exact .check
  | move n cid ops size d fake todo =>
      simp only [Threads.stepCollect, Execution.bind_eq_ok, Execution.pure_eq_ok] at hRun
      obtain ⟨c₁, hMove, hEnd⟩ := hRun
      obtain ⟨rfl, rfl⟩ := Prod.mk.inj hEnd
      exact .move hMove
  | copy n cid ops =>
      obtain ⟨rfl, rfl⟩ := Prod.mk.inj (Except.ok.inj hRun)
      exact .copy
  | modify n cid ops =>
      obtain ⟨rfl, rfl⟩ := Prod.mk.inj (Except.ok.inj hRun)
      exact .modify
  | _ => cases hRun

theorem stepHandBack_inv (hRun : Threads.stepHandBack build cfg c a = .ok (c', a')) :
    GcStep build cfg pick fuel c a c' a' := by
  cases a with
  | tune n =>
      simp only [Threads.stepHandBack, Execution.bind_eq_ok, Execution.pure_eq_ok] at hRun
      obtain ⟨_, -, hEnd⟩ := hRun
      obtain ⟨rfl, rfl⟩ := Prod.mk.inj hEnd
      exact .tune
  | refill n newOpsSize left channel =>
      simp only [Threads.stepHandBack] at hRun
      split at hRun
      · simp only [Execution.bind_eq_ok, Execution.pure_eq_ok] at hRun
        obtain ⟨_, -, hEnd⟩ := hRun
        obtain ⟨rfl, rfl⟩ := Prod.mk.inj hEnd
        exact .refilled ‹_›
      · rename_i hLeft
        split at hRun
        · obtain ⟨rfl, rfl⟩ := Prod.mk.inj (Except.ok.inj hRun)
          exact .refillSkip (Int.not_le.mp hLeft) ‹_›
        · obtain ⟨rfl, rfl⟩ := Prod.mk.inj (Except.ok.inj hRun)
          exact .refill (Int.not_le.mp hLeft) ‹_› rfl
  | shrink n count =>
      cases count with
      | zero =>
          obtain ⟨rfl, rfl⟩ := Prod.mk.inj (Except.ok.inj hRun)
          exact .shrunk
      | succ count =>
          obtain ⟨rfl, rfl⟩ := Prod.mk.inj (Except.ok.inj hRun)
          exact .shrink rfl
  | reclaim n =>
      simp only [Threads.stepHandBack, Execution.bind_eq_ok, Execution.pure_eq_ok] at hRun
      obtain ⟨c₁, hReclaim, _, -, hEnd⟩ := hRun
      obtain ⟨rfl, rfl⟩ := Prod.mk.inj hEnd
      exact .reclaim hReclaim
  | _ => cases hRun

/-- A step of the collector is one of its transitions. -/
theorem stepGc_inv (hRun : Threads.stepGc build cfg pick fuel c a = .ok (c', a')) :
    GcStep build cfg pick fuel c a c' a' := by
  unfold Threads.stepGc at hRun
  split at hRun
  iterate 2 exact stepChoose_inv hRun
  iterate 7 exact stepCollect_inv hRun
  iterate 4 exact stepHandBack_inv hRun
  exact stepQuick_inv hRun

end KVCache
