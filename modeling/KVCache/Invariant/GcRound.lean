import KVCache.Invariant.NormalGc
import KVCache.Invariant.Census

/-! A round of the collector. Normal GC chooses full disk slabs, collects a
batch for each class, and hands what it emptied back to the pool and to the
free lists. -/

namespace KVCache

variable {build : Build} {cfg : Config} {c c' : Cache} {g g' : Ghost} {d : Nat}
  {freeList freeList' : Table SlabList}

/-! ### Choosing -/

theorem pqPush_perm (weight : Nat → Int) (d : Nat) (pq : List Nat) :
    (Cache.pqPush weight d pq).Perm (d :: pq) := by
  induction pq with
  | nil => exact .refl _
  | cons x rest ih =>
      unfold Cache.pqPush
      split
      · exact .refl _
      · exact (ih.cons x).trans (.swap d x rest)

/-- The scan keeps slabs that it has seen, or drops them. -/
theorem scanDslab_subperm {pq pq' : List Nat} (hRun : c.scanDslab pq d = .ok pq') :
    pq'.Subperm (d :: pq) := by
  unfold Cache.scanDslab at hRun
  split at hRun
  · obtain rfl := Except.ok.inj hRun
    exact (pqPush_perm _ _ _).subperm
  · split at hRun
    · cases hRun
    · rename_i top rest _
      split at hRun
      · obtain rfl := Except.ok.inj hRun
        exact (pqPush_perm _ _ _).subperm.trans ((List.sublist_cons_self top rest).cons_cons d).subperm
      · obtain rfl := Except.ok.inj hRun
        exact (List.sublist_cons_self d _).subperm

/-- The slabs on the full lists, channel by channel. -/
def Cache.fullSlabs (cfg : Config) (c : Cache) : List Nat :=
  (List.range cfg.nrChannels).flatMap fun channel => (c.dslabFull channel).list

theorem scanDslabs_subperm {pq : List Nat} (hRun : c.scanDslabs cfg = .ok pq) :
    pq.Subperm (c.fullSlabs cfg) := by
  have hLoop := Execution.foldlM_rule
    (fun rest (pq : List Nat) => (pq ++ rest).Subperm (c.fullSlabs cfg))
    (fun x rest pq pq' hSub hStep => ?_) hRun (.refl _)
  · simpa using hLoop
  · have hPerm : (pq ++ x :: rest).Perm (x :: pq ++ rest) := List.perm_middle
    exact ((scanDslab_subperm hStep).append (.refl rest)).trans (hPerm.symm.subperm.trans hSub)

theorem Inv.nodup_fullSlabs (hInv : Inv cfg c g) : (c.fullSlabs cfg).Nodup := by
  refine List.nodup_flatMap.mpr ⟨fun ch _ => (hInv.lists.holds .dslabFull ch (by simp)).nodup, ?_⟩
  refine List.nodup_range.imp fun {ch ch'} hne => ?_
  intro x hx hx'
  rw [hInv.lists.mem_dslabFull] at hx hx'
  exact hne (hx.2.symm.trans hx'.2)

theorem Inv.role_of_fullSlabs (hInv : Inv cfg c g) (hIdle : g.GcIdle)
    (hd : d ∈ c.fullSlabs cfg) : g.role d = .diskFull := by
  obtain ⟨ch, -, hMem⟩ := List.mem_flatMap.mp hd
  exact hIdle.full (hInv.lists.mem_dslabFull.mp hMem).1

/-- The slabs of a class among full slabs. -/
theorem batch_of_full {pq : List Nat} (hNodup : pq.Nodup) (hFull : ∀ d ∈ pq, g.role d = .diskFull)
    (k : Nat) : Batch c g k (c.classToDrop pq k) := by
  have hMem : ∀ d ∈ c.classToDrop pq k, d ∈ pq ∧ (c.slabs d).cid = k := by
    intro d hd
    rw [Cache.classToDrop, List.mem_reverse, List.mem_filter] at hd
    simpa using hd
  refine ⟨?_, fun d hd => hFull d (hMem d hd).1, fun d hd => (hMem d hd).2⟩
  exact List.nodup_reverse.mpr (hNodup.filter _)

/-- The candidates of a class are full slabs of the class. -/
theorem Inv.batch_classToDrop {pq : List Nat} (hInv : Inv cfg c g) (hIdle : g.GcIdle)
    (hRun : c.scanDslabs cfg = .ok pq) (k : Nat) : Batch c g k (c.classToDrop pq k) := by
  obtain ⟨seen, hPerm, hSeen⟩ := scanDslabs_subperm hRun
  refine batch_of_full (hPerm.nodup_iff.mp (hInv.nodup_fullSlabs.sublist hSeen)) (fun d hd => ?_) k
  exact hInv.role_of_fullSlabs hIdle (hSeen.subset (hPerm.mem_iff.mpr hd))

/-! ### All classes -/

theorem Ghost.GcIdle.settled (h : g.GcIdle) : g.Settled := fun x hx => absurd hx (h x)

/-- No class yields a batch, or there is no slab to collect into. -/
def NoBatch (build : Build) (c : Cache) (kept : Nat → List Nat) (ks : List Nat) : Prop :=
  c.opsPoolSize ≤ 0 ∨
    ∀ k ∈ ks, ∀ batch, c.takeBatch build (kept k) 0 = .ok batch → batch.length ≤ 1

theorem collectClasses_noBatch {kept : Nat → List Nat} {ks : List Nat}
    (hNone : NoBatch build c kept ks)
    (hRun : Cache.collectClasses build cfg kept ks c freeList = .ok (c', freeList')) :
    c' = c ∧ freeList' = freeList := by
  induction ks with
  | nil =>
      obtain ⟨rfl, rfl⟩ := Prod.mk.inj (Except.ok.inj hRun)
      exact ⟨rfl, rfl⟩
  | cons k ks ih =>
      unfold Cache.collectClasses at hRun
      obtain ⟨batch, hBatch, hRun⟩ := Execution.bind_eq_ok.mp hRun
      split at hRun
      · rename_i hLong
        split at hRun
        · obtain ⟨rfl, rfl⟩ := Prod.mk.inj (Execution.pure_eq_ok.mp hRun)
          exact ⟨rfl, rfl⟩
        · rename_i hOps
          rcases hNone with hPool | hShort
          · exact absurd hPool hOps
          · exact absurd (hShort k (by simp) batch hBatch) (by omega)
      · refine ih (hNone.imp id fun hShort k' hk' => hShort k' (by simp [hk'])) hRun

/-- What a part of normal GC does. It loses no slab. -/
structure Round (cfg : Config) (c : Cache) (g : Ghost) (c' : Cache) (g' : Ghost) : Prop where
  silent : Silent cfg .gc c g c' g'
  loose : g.SameLoose g'

theorem Silent.round (h : Silent cfg .gc c g c' g) : Round cfg c g c' g := ⟨h, .refl g⟩

theorem Round.trans {c'' : Cache} {g'' : Ghost} (h : Round cfg c g c' g')
    (h' : Round cfg c' g' c'' g'') : Round cfg c g c'' g'' :=
  ⟨h.silent.trans h'.silent, h.loose.trans h'.loose⟩

/-- Between two batches, and after the last one: what was emptied waits on the
local list. -/
structure Between (cfg : Config) (c : Cache) (g : Ghost) (freeList : Table SlabList) : Prop where
  inv : Inv cfg c g
  settled : g.Settled
  freeList : FreeList cfg g freeList

/-- A batch does not touch the slabs kept for another class. -/
theorem Batch.collected {k k' ops : Nat} {batch ds : List Nat} (hOther : Batch c g k' ds)
    (hInv : Inv cfg c g) (hSettled : g.Settled) (hTaken : Batch c g k batch) (hne : k' ≠ k)
    (hOps : g.role ops = .opsFree)
    (hSame : ∀ x, x ∉ batch → x ≠ ops → x ≠ cfg.gcBuffer → (c.slabs x).Same (c'.slabs x)) :
    Batch c' (g.collected batch ops) k' ds := by
  have hRole : ∀ x ∈ ds, x ∉ batch ∧ x ≠ ops ∧ x ≠ cfg.gcBuffer := by
    intro x hx
    have hFull := hOther.full x hx
    refine ⟨fun hMem => ?_, ?_, ?_⟩
    · exact hne (Int.natCast_inj.mp ((hOther.cid x hx).symm.trans (hTaken.cid x hMem)))
    · rintro rfl
      rw [hFull] at hOps
      cases hOps
    · rintro rfl
      rw [hSettled.buffer hInv] at hFull
      cases hFull
  refine ⟨hOther.nodup, fun x hx => ?_, fun x hx => ?_⟩
  · obtain ⟨hBatchNot, hOpsNot, -⟩ := hRole x hx
    rw [collected_of_not_mem hOpsNot hBatchNot]
    exact hOther.full x hx
  · obtain ⟨hBatchNot, hOpsNot, hBufferNot⟩ := hRole x hx
    rw [(hSame x hBatchNot hOpsNot hBufferNot).cid]
    exact hOther.cid x hx

namespace Between

/-- The loop over the classes. -/
theorem collectClasses {kept : Nat → List Nat} {ks : List Nat} (h : Between cfg c g freeList)
    (hKept : ∀ k ∈ ks, Batch c g k (kept k)) (hNodup : ks.Nodup)
    (hRun : Cache.collectClasses build cfg kept ks c freeList = .ok (c', freeList')) :
    ∃ g', Round cfg c g c' g' ∧ Between cfg c' g' freeList' := by
  induction ks generalizing c g freeList with
  | nil =>
      obtain ⟨rfl, rfl⟩ := Prod.mk.inj (Except.ok.inj hRun)
      exact ⟨g, (Silent.refl h.inv).round, h⟩
  | cons k ks ih =>
      obtain ⟨hNot, hNodup⟩ := List.nodup_cons.mp hNodup
      have hFirst := hKept k (by simp)
      have hRest : ∀ k' ∈ ks, Batch c g k' (kept k') := fun k' hk' => hKept k' (by simp [hk'])
      unfold Cache.collectClasses at hRun
      obtain ⟨batch, hBatch, hRun⟩ := Execution.bind_eq_ok.mp hRun
      split at hRun
      · split at hRun
        · obtain ⟨rfl, rfl⟩ := Prod.mk.inj (Execution.pure_eq_ok.mp hRun)
          exact ⟨g, (Silent.refl h.inv).round, h⟩
        · obtain ⟨⟨c₁, freeList₁⟩, hGc, hRun⟩ := Execution.bind_eq_ok.mp hRun
          obtain ⟨hSub, hSum⟩ := takeBatch_spec h.inv hFirst (by omega) hBatch
          have hTaken := hFirst.sublist hSub
          obtain ⟨ops, hOps, hSilent, hList₁, hSame⟩ :=
            h.inv.gcDslabs h.settled h.freeList hTaken (by omega) hGc
          have hKept₁ : ∀ k' ∈ ks, Batch c₁ (g.collected batch ops) k' (kept k') :=
            fun k' hk' => (hRest k' hk').collected h.inv h.settled hTaken
              (fun hEq => hNot (hEq ▸ hk')) hOps hSame
          obtain ⟨g', hRound, hBetween⟩ :=
            ih ⟨hSilent.inv, h.settled.collected, hList₁⟩ hKept₁ hNodup hRun
          exact ⟨g', (Round.mk hSilent (hTaken.sameLoose hOps)).trans hRound, hBetween⟩
      · exact ih h hRest hNodup hRun

/-! ### Handing back -/

theorem clean_of_mem {channel : Nat} (h : Between cfg c g freeList)
    (hMem : d ∈ (freeList channel).list) :
    g.role d = .diskClean ∧ g.channel cfg d = channel := by
  obtain ⟨hFreed, hChannel⟩ := (h.freeList.mem channel d).mp hMem
  refine ⟨h.settled d ?_, hChannel⟩
  generalize g.role d = r at hFreed
  cases r <;> first | exact trivial | exact hFreed.elim

theorem settled_become {r : Role} (h : Between cfg c g freeList)
    (hr : r.Collecting → r = .diskClean) : (g.become d r).Settled := by
  intro x hx
  by_cases hEq : x = d
  · subst x
    rw [g.become_self] at hx ⊢
    exact hr hx
  · rw [g.become_of_ne _ hEq] at hx ⊢
    exact h.settled x hx

/-- A slab goes from the local list to the pool. -/
theorem refillOps {channel : Nat} (h : Between cfg c g freeList)
    (hMem : d ∈ (freeList channel).list)
    (hRun : c.refillOps freeList channel d = (c', freeList')) :
    Round cfg c g c' (g.become d .opsFree) ∧ Between cfg c' (g.become d .opsFree) freeList' := by
  obtain ⟨rfl, rfl⟩ := Prod.mk.inj hRun
  obtain ⟨hRole, hChannel⟩ := h.clean_of_mem hMem
  have hReset := h.inv.resetClean hRole
  have hLink := hReset.inv.linkOpsPool (g.become_self _ _) hChannel
  rw [g.become_become] at hLink
  have hAll := hReset.trans hLink
  refine ⟨⟨hAll, .become (by simp [hRole]) (by simp)⟩, hAll.inv,
    h.settled_become (by simp [Role.Collecting]), ?_⟩
  rw [← hChannel]
  exact h.freeList.erase id fun _ => rfl

theorem refillOpsPool {fuel channel : Nat} {left : Int} (h : Between cfg c g freeList)
    (hRun : Cache.refillOpsPool cfg fuel left channel c freeList = .ok (c', freeList')) :
    ∃ g', Round cfg c g c' g' ∧ Between cfg c' g' freeList' ∧ g'.drift = g.drift := by
  induction fuel generalizing left channel c g freeList with
  | zero =>
      unfold Cache.refillOpsPool at hRun
      split at hRun
      · obtain ⟨rfl, rfl⟩ := Prod.mk.inj (Except.ok.inj hRun)
        exact ⟨g, (Silent.refl h.inv).round, h, rfl⟩
      · cases hRun
  | succ fuel ih =>
      unfold Cache.refillOpsPool at hRun
      split at hRun
      · obtain ⟨rfl, rfl⟩ := Prod.mk.inj (Except.ok.inj hRun)
        exact ⟨g, (Silent.refl h.inv).round, h, rfl⟩
      · simp only at hRun
        split at hRun
        · exact ih h hRun
        · rename_i first _ hList
          have hMem : first ∈ (freeList channel).list := by rw [hList]; simp
          obtain ⟨hRound, hNext⟩ := h.refillOps hMem rfl
          obtain ⟨g', hRound', hBetween, hDrift⟩ := ih hNext hRun
          exact ⟨g', hRound.trans hRound', hBetween, hDrift⟩

/-- A slab of the pool goes to the local list. -/
theorem shrinkOps (h : Between cfg c g freeList)
    (hRun : c.shrinkOps cfg freeList = (c', freeList')) :
    ∃ g', Round cfg c g c' g' ∧ Between cfg c' g' freeList' ∧ g'.drift = g.drift := by
  have hCursor : Silent cfg .gc c g
      { c with nextOpsPoolRemoveChannel := (c.nextOpsPoolRemoveChannel + 1) % cfg.nrChannels } g :=
    h.inv.unrelated rfl rfl rfl h.inv.lists.congr
  simp only [Cache.shrinkOps] at hRun
  split at hRun
  · obtain ⟨rfl, rfl⟩ := Prod.mk.inj hRun
    exact ⟨g, hCursor.round, ⟨hCursor.inv, h.settled, h.freeList⟩, rfl⟩
  · rename_i first _ hList
    obtain ⟨rfl, rfl⟩ := Prod.mk.inj hRun
    have hMem : first ∈ (c.opsPool (cfg.nextChannel c.nextOpsPoolRemoveChannel)).list := by
      rw [hList]; simp
    obtain ⟨hRole, hChannel, hUnlink⟩ := hCursor.inv.unlinkOps hMem
    have hRange := (hUnlink.inv.slab first).range
    rw [g.become_self] at hRange
    have hReset : Silent cfg .gc _ (g.become first .diskLoose) _
        ((g.become first .diskLoose).become first .diskClean) :=
      hUnlink.inv.reset (x := first) (r := .diskClean) (by rw [g.become_self]; rfl) (by simp)
        (by rw [g.become_self]; trivial) trivial (by rw [g.become_self]; trivial)
        (by rw [g.place_become_self]; rfl) hRange fun _ _ => trivial
    rw [g.become_become] at hReset
    have hAll := (hCursor.trans hUnlink).trans hReset
    refine ⟨g.become first .diskClean, ⟨hAll, .become (by simp [hRole]) (by simp)⟩,
      ⟨hAll.inv, h.settled_become fun _ => rfl, ?_⟩, rfl⟩
    rw [← hChannel]
    exact h.freeList.add (by rw [hRole]; exact id) trivial

theorem shrinkOpsPool {count : Nat} (h : Between cfg c g freeList)
    (hRun : Cache.shrinkOpsPool cfg count c freeList = (c', freeList')) :
    ∃ g', Round cfg c g c' g' ∧ Between cfg c' g' freeList' ∧ g'.drift = g.drift := by
  induction count generalizing c g freeList with
  | zero =>
      obtain ⟨rfl, rfl⟩ := Prod.mk.inj hRun
      exact ⟨g, (Silent.refl h.inv).round, h, rfl⟩
  | succ count ih =>
      obtain ⟨g₁, hRound₁, hBetween₁, hDrift₁⟩ := h.shrinkOps rfl
      obtain ⟨g₂, hRound₂, hBetween₂, hDrift₂⟩ := ih hBetween₁ hRun
      exact ⟨g₂, hRound₁.trans hRound₂, hBetween₂, hDrift₂.trans hDrift₁⟩

end Between

/-- Emptied slabs of one channel become free. -/
theorem Inv.reclaimList {channel : Nat} {ds : List Nat} (hInv : Inv cfg c g)
    (hRoles : ∀ d ∈ ds, g.role d = .diskClean) (hChannel : ∀ d ∈ ds, g.channel cfg d = channel)
    (hNodup : ds.Nodup) (hRun : ds.foldlM (Cache.linkDslabFree build cfg channel) c = .ok c') :
    Silent cfg .gc c g c' (g.becomeAll ds .diskFree) := by
  induction ds generalizing c g with
  | nil =>
      obtain rfl : c = c' := by simpa using hRun
      rw [g.becomeAll_nil]
      exact .refl hInv
  | cons d ds ih =>
      rw [List.foldlM_cons, Execution.bind_eq_ok] at hRun
      obtain ⟨c₁, hFirst, hRest⟩ := hRun
      obtain ⟨hNot, hNodup⟩ := List.nodup_cons.mp hNodup
      have hLink := hInv.linkDslabFree (hRoles d (by simp)) (hChannel d (by simp)) hFirst
      rw [g.becomeAll_cons]
      exact hLink.trans (ih hLink.inv (g.become_tail _ hNot hRoles)
        (fun x hx => hChannel x (by simp [hx])) hNodup hRest)

/-- The loop over the channels, with the channels still to come. -/
structure Reclaiming (cfg : Config) (freeList : Table SlabList) (c₀ : Cache) (g₀ : Ghost)
    (channels : List Nat) (c : Cache) (g : Ghost) : Prop where
  round : Round cfg c₀ g₀ c g
  drift : g.drift = g₀.drift
  settled : g.Settled
  nodup : channels.Nodup
  clean : ∀ x, g.role x = .diskClean ↔ ∃ channel ∈ channels, x ∈ (freeList channel).list

theorem Reclaiming.step {c₀ : Cache} {g₀ : Ghost} {channel : Nat} {channels : List Nat}
    (h : Reclaiming cfg freeList c₀ g₀ (channel :: channels) c g)
    (hList : FreeList cfg g₀ freeList)
    (hRun : (freeList channel).list.foldlM (Cache.linkDslabFree build cfg channel) c = .ok c') :
    Reclaiming cfg freeList c₀ g₀ channels c' (g.becomeAll (freeList channel).list .diskFree) := by
  obtain ⟨hNot, hNodup⟩ := List.nodup_cons.mp h.nodup
  have hChannel : ∀ d ∈ (freeList channel).list, g.channel cfg d = channel := by
    intro d hd
    rw [Ghost.channel, h.round.silent.frame.block]
    exact ((hList.mem channel d).mp hd).2
  have hClean : ∀ d ∈ (freeList channel).list, g.role d = .diskClean :=
    fun d hd => (h.clean d).mpr ⟨channel, by simp, hd⟩
  have hSilent := h.round.silent.inv.reclaimList hClean hChannel (hList.nodup channel) hRun
  constructor
  case round =>
    exact h.round.trans ⟨hSilent, .becomeAll (fun d hd => by simp [hClean d hd]) (by simp)⟩
  case drift => exact h.drift
  case settled =>
    intro x hx
    by_cases hMem : x ∈ (freeList channel).list
    · rw [Ghost.becomeAll_of_mem _ _ hMem] at hx
      exact hx.elim
    · rw [Ghost.becomeAll_of_not_mem _ _ hMem] at hx ⊢
      exact h.settled x hx
  case nodup => exact hNodup
  case clean =>
    intro x
    by_cases hMem : x ∈ (freeList channel).list
    · rw [Ghost.becomeAll_of_mem _ _ hMem]
      refine iff_of_false (by simp) ?_
      rintro ⟨channel', hIn, hMem'⟩
      -- a slab is on the list of its channel only
      have hEq := ((hList.mem channel x).mp hMem).2.symm.trans ((hList.mem channel' x).mp hMem').2
      exact hNot (hEq ▸ hIn)
    · rw [Ghost.becomeAll_of_not_mem _ _ hMem, h.clean x]
      simp [hMem]

theorem Between.reclaiming (h : Between cfg c g freeList) :
    Reclaiming cfg freeList c g (List.range cfg.nrChannels) c g where
  round := (Silent.refl h.inv).round
  drift := rfl
  settled := h.settled
  nodup := List.nodup_range
  clean := fun x => by
    constructor
    · intro hRole
      have hRange := (h.inv.slab x).range
      rw [hRole] at hRange
      exact ⟨g.channel cfg x, List.mem_range.mpr (h.inv.channel_lt hRange),
        (h.freeList.mem _ x).mpr ⟨by rw [hRole]; trivial, rfl⟩⟩
    · rintro ⟨channel, -, hMem⟩
      exact (h.clean_of_mem hMem).1

theorem Between.reclaim (h : Between cfg c g freeList) (hRun : c.reclaim build cfg freeList = .ok c') :
    ∃ g', Round cfg c g c' g' ∧ g'.GcIdle ∧ g'.drift = g.drift := by
  obtain ⟨g', hDone⟩ := Execution.foldlM_rule
    (fun channels c' => ∃ g', Reclaiming cfg freeList c g channels c' g')
    (fun channel channels c₁ c₂ ⟨g₁, hBefore⟩ hStep => ⟨_, hBefore.step h.freeList hStep⟩) hRun
    ⟨g, h.reclaiming⟩
  refine ⟨g', hDone.round, fun x hx => ?_, hDone.drift⟩
  obtain ⟨_, hMem, -⟩ := (hDone.clean x).mp (hDone.settled x hx)
  simp at hMem

/-- The water marks do not concern the slabs. -/
theorem Inv.tuneOpsPool (hInv : Inv cfg c g) (oldOpsSize : Int) :
    Silent cfg .gc c g (c.tuneOpsPool oldOpsSize).2 g := by
  unfold Cache.tuneOpsPool
  split
  · exact hInv.unrelated rfl rfl rfl hInv.lists.congr
  · exact .refl hInv

/-- The part of normal GC after the batches. -/
theorem Between.finishNormalGc {fuel : Nat} {oldOpsSize : Int} (h : Between cfg c g freeList)
    (hRun : c.finishNormalGc build cfg fuel oldOpsSize freeList = .ok c') :
    ∃ g', Round cfg c g c' g' ∧ g'.GcIdle ∧ g'.drift = g.drift := by
  have hTune := h.inv.tuneOpsPool oldOpsSize
  unfold Cache.finishNormalGc at hRun
  simp only [Execution.bind_eq_ok, Execution.pure_eq_ok] at hRun
  obtain ⟨_, -, ⟨c₁, freeList₁⟩, hRefill, _, -, c₂, hReclaim, _, -, rfl⟩ := hRun
  obtain ⟨g₁, hRound₁, hBetween₁, hDrift₁⟩ :=
    (Between.mk hTune.inv h.settled h.freeList).refillOpsPool hRefill
  obtain ⟨g₂, hRound₂, hBetween₂, hDrift₂⟩ := hBetween₁.shrinkOpsPool rfl
  obtain ⟨g₃, hRound₃, hIdle, hDrift₃⟩ := hBetween₂.reclaim hReclaim
  exact ⟨g₃, (hTune.round.trans hRound₁).trans (hRound₂.trans hRound₃), hIdle,
    hDrift₃.trans (hDrift₂.trans hDrift₁)⟩

/-- A local list that holds nothing yet. -/
theorem Ghost.GcIdle.emptyList (h : g.GcIdle) :
    FreeList cfg g ⟨List.replicate cfg.nrChannels default⟩ := by
  have hEmpty : ∀ channel,
      ((⟨List.replicate cfg.nrChannels default⟩ : Table SlabList) channel).list = [] := by
    intro channel
    rw [Table.get_replicate_default]
    rfl
  refine ⟨fun channel => by rw [hEmpty]; exact List.nodup_nil, fun channel x => ?_⟩
  have hNot := h x
  simp only [hEmpty, List.not_mem_nil, false_iff, not_and]
  intro hFreed
  generalize g.role x = r at hFreed hNot
  cases r <;> first | exact absurd trivial hNot | exact hFreed.elim

/-- Normal GC finds something to collect. -/
def Collects (build : Build) (cfg : Config) (c : Cache) : Prop :=
  ∃ pq, c.scanDslabs cfg = .ok pq ∧
    ¬NoBatch build c (c.classToDrop pq) (List.range cfg.nrSlabClass)

/-- `normal_gc`. -/
theorem Inv.normalGc {fuel : Nat} (hInv : Inv cfg c g) (hIdle : g.GcIdle)
    (hRun : c.normalGc build cfg fuel = .ok c') :
    ∃ g', Round cfg c g c' g' ∧ g'.GcIdle ∧ (¬Collects build cfg c → g'.drift = g.drift) := by
  unfold Cache.normalGc at hRun
  simp only [Execution.bind_eq_ok] at hRun
  obtain ⟨pq, hScan, _, -, ⟨c₁, freeList⟩, hClasses, hFinish⟩ := hRun
  have hStart : Between cfg c g ⟨List.replicate cfg.nrChannels default⟩ :=
    ⟨hInv, hIdle.settled, hIdle.emptyList⟩
  by_cases hCollects : Collects build cfg c
  · obtain ⟨g₁, hRound₁, hBetween⟩ := hStart.collectClasses
      (fun k _ => hInv.batch_classToDrop hIdle hScan k) List.nodup_range hClasses
    obtain ⟨g₂, hRound₂, hIdle', -⟩ := hBetween.finishNormalGc hFinish
    exact ⟨g₂, hRound₁.trans hRound₂, hIdle', fun hNot => absurd hCollects hNot⟩
  · have hNone : NoBatch build c (c.classToDrop pq) (List.range cfg.nrSlabClass) := by
      by_contra hSome
      exact hCollects ⟨pq, hScan, hSome⟩
    obtain ⟨rfl, rfl⟩ := collectClasses_noBatch hNone hClasses
    obtain ⟨g₂, hRound₂, hIdle', hDrift⟩ := hStart.finishNormalGc hFinish
    exact ⟨g₂, hRound₂, hIdle', fun _ => hDrift⟩

/-! ### The choice of `do_slab_gc` -/

/-- The call of `do_quick_gc` with which a round starts: the state with the
water marks raised, and how many slabs are asked for, for the free lists and
for the pool. A round of normal GC has none. -/
def Cache.quickStart (c : Cache) : Option (Cache × Int × Int) :=
  if c.index.nrFreeIndexEntry = 0 then some (c, 1, 0)
  else if c.nrFreeDslab < c.freeBlockWaterMarkLow then
    some ({ c with
      freeBlockWaterMarkLow := c.quickWaterMarks.1
      freeBlockWaterMarkHigh := c.quickWaterMarks.2 }, c.quickAmounts.1, c.quickAmounts.2)
  else none

theorem quickStart_same {c₀ : Cache} {f o : Int} (h : c.quickStart = some (c₀, f, o)) :
    c₀ = { c with
      freeBlockWaterMarkLow := c₀.freeBlockWaterMarkLow
      freeBlockWaterMarkHigh := c₀.freeBlockWaterMarkHigh } := by
  unfold Cache.quickStart at h
  split at h
  · obtain ⟨rfl, -⟩ := Prod.mk.inj (Option.some.inj h)
    rfl
  · split at h
    · obtain ⟨rfl, -⟩ := Prod.mk.inj (Option.some.inj h)
      rfl
    · cases h

theorem doSlabGc_cases {fuel : Nat} (hRun : c.doSlabGc build cfg fuel = .ok c') :
    (∃ c₀ f o, c.quickStart = some (c₀, f, o) ∧ c₀.doQuickGc build cfg fuel f o = .ok c') ∨
      c.quickStart = none ∧ c.normalGc build cfg fuel = .ok c' := by
  unfold Cache.doSlabGc at hRun
  by_cases hFull : c.nrFullDslab ≤ 0
  · simp only [if_pos hFull] at hRun
    cases hRun
  · simp only [if_neg hFull] at hRun
    obtain ⟨_, -, hRun⟩ := Execution.bind_eq_ok.mp hRun
    unfold Cache.quickStart
    split at hRun
    · rename_i hEntry
      exact .inl ⟨c, 1, 0, by rw [if_pos hEntry], hRun⟩
    · rename_i hEntry
      rw [if_neg hEntry]
      split at hRun
      · rename_i hMark
        unfold Cache.quickGc at hRun
        obtain ⟨_, -, hRun⟩ := Execution.bind_eq_ok.mp hRun
        obtain ⟨_, -, hRun⟩ := Execution.bind_eq_ok.mp hRun
        exact .inl ⟨_, _, _, if_pos hMark, hRun⟩
      · rename_i hMark
        exact .inr ⟨if_neg hMark, hRun⟩

/-- A round that leaves no slab behind: quick GC is not asked for free slabs,
or not for any. -/
def KeepsSlabs (c : Cache) : Prop :=
  ∀ c₀ f o, c.quickStart = some (c₀, f, o) → f ≤ 0 ∨ f + o ≤ 0

theorem keepsSlabs_iff {c₀ : Cache} {f o : Int} (h : c.quickStart = some (c₀, f, o)) :
    KeepsSlabs c ↔ f ≤ 0 ∨ f + o ≤ 0 := by
  simp [KeepsSlabs, h]

theorem keepsSlabs_of_normal (h : c.quickStart = none) : KeepsSlabs c := by
  simp [KeepsSlabs, h]

/-- A round that drops no key whose entry points elsewhere. -/
def DropsOwnKeys (cfg : Config) (fuel : Nat) (c : Cache) : Prop :=
  ∀ c₀ f o toDrop c₁, c.quickStart = some (c₀, f, o) →
    c₀.selectDrop cfg fuel (f + o) [] = .ok (toDrop, c₁) → OwnKeys cfg c toDrop

/-- A round in which normal GC has no batch to collect. -/
def CollectsNone (build : Build) (cfg : Config) (c : Cache) : Prop :=
  c.quickStart = none → ¬Collects build cfg c

instance : Decidable (KeepsSlabs c) :=
  match h : c.quickStart with
  | none => isTrue (keepsSlabs_of_normal h)
  | some (_, f, o) => decidable_of_iff (f ≤ 0 ∨ f + o ≤ 0) (keepsSlabs_iff h).symm

instance {ds : List Nat} : Decidable (OwnKeys cfg c ds) :=
  decidable_of_iff (∀ d ∈ ds, ∀ i < (c.slabs d).nrAlloc,
    ∀ e ∈ c.index.getIndexEntry cfg (c.slotAt d i).1, (c.index.entries e).slabId ∈ ds) .rfl

instance {fuel : Nat} : Decidable (DropsOwnKeys cfg fuel c) :=
  match h : c.quickStart with
  | none => isTrue fun c₀ f o toDrop c₁ hStart => by rw [h] at hStart; cases hStart
  | some (c₀, f, o) =>
      match hSelect : c₀.selectDrop cfg fuel (f + o) [] with
      | .error e => isTrue fun c₀' f' o' toDrop c₁ hStart hRun => by
          rw [h] at hStart
          obtain ⟨rfl, rfl, rfl⟩ := by simpa using hStart
          rw [hSelect] at hRun
          cases hRun
      | .ok (toDrop, c₁) => decidable_of_iff (OwnKeys cfg c toDrop) (by
          refine ⟨fun hOwn c₀' f' o' toDrop' c₁' hStart hRun => ?_,
            fun hOwn => hOwn c₀ f o toDrop c₁ h hSelect⟩
          rw [h] at hStart
          obtain ⟨rfl, rfl, rfl⟩ := by simpa using hStart
          rw [hSelect] at hRun
          obtain ⟨rfl, rfl⟩ := by simpa using hRun
          exact hOwn)

instance {kept : Nat → List Nat} {ks : List Nat} : Decidable (NoBatch build c kept ks) :=
  decidable_of_iff (c.opsPoolSize ≤ 0 ∨ ∀ k ∈ ks,
    ∀ batch ∈ (c.takeBatch build (kept k) 0).toOption, batch.length ≤ 1) (by
      refine or_congr .rfl (forall₂_congr fun k _ => forall_congr' fun batch => ?_)
      cases c.takeBatch build (kept k) 0 <;> simp [Except.toOption, eq_comm])

instance : Decidable (CollectsNone build cfg c) :=
  match h : c.scanDslabs cfg with
  | .error e => isTrue fun _ ⟨pq, hScan, _⟩ => by rw [h] at hScan; cases hScan
  | .ok pq => decidable_of_iff
      (c.quickStart = none → NoBatch build c (c.classToDrop pq) (List.range cfg.nrSlabClass))
      (imp_congr_right fun _ => by simp [Collects, h])

/-- What a round does. -/
structure GcRound (build : Build) (cfg : Config) (fuel : Nat) (c : Cache) (g : Ghost) (c' : Cache)
    (g' : Ghost) : Prop where
  inv : Inv cfg c' g'
  frame : Frame cfg .gc c g c' g'
  idle : g'.GcIdle
  view : ∀ key object, c'.view cfg key = some object → c.view cfg key = some object
  loose : KeepsSlabs c → g.SameLoose g'
  lost : ¬KeepsSlabs c → g.LosesOne g'
  drift : CollectsNone build cfg c → g'.drift = g.drift
  exact : DropsOwnKeys cfg fuel c → g'.exact = g.exact

/-- `do_slab_gc`. -/
theorem Inv.doSlabGc {fuel : Nat} (hInv : Inv cfg c g) (hIdle : g.GcIdle)
    (hRun : c.doSlabGc build cfg fuel = .ok c') :
    ∃ g', GcRound build cfg fuel c g c' g' := by
  rcases doSlabGc_cases hRun with ⟨c₀, f, o, hStart, hQuick⟩ | ⟨hStart, hNormal⟩
  · have hSame := quickStart_same hStart
    have hMarks : Silent cfg .gc c g c₀ g := by
      rw [hSame]
      exact hInv.unrelated rfl rfl rfl hInv.lists.congr
    obtain ⟨toDrop, c₁, g', hSelect, hRound⟩ := hMarks.inv.doQuickGc hIdle hQuick
    refine ⟨g', hRound.inv, hMarks.frame.trans hRound.frame, hRound.idle, fun key object hView => ?_,
      fun hKeeps => hRound.kept (hKeeps c₀ f o hStart), fun hNot => ?_, fun _ => hRound.drift,
      fun hOwn => ?_⟩
    · rw [← hMarks.view]
      exact hRound.view key object hView
    · have hAmounts := (keepsSlabs_iff hStart).not.mp hNot
      exact hRound.lost (by omega) (by omega)
    · have hKeys := hOwn c₀ f o toDrop c₁ hStart hSelect
      refine hRound.exact ?_
      rw [hSame]
      exact hKeys
  · obtain ⟨g', hRound, hIdle', hDrift⟩ := hInv.normalGc hIdle hNormal
    have hSilent := hRound.silent
    exact ⟨g', hSilent.inv, hSilent.frame, hIdle',
      fun key object hView => (hSilent.view key).symm.trans hView, fun _ => hRound.loose,
      fun hNot => absurd (keepsSlabs_of_normal hStart) hNot,
      fun hNone => hDrift (hNone hStart), fun _ => hSilent.exact⟩

end KVCache
