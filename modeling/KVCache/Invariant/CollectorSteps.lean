import KVCache.Invariant.Threads

/-! What the collector knows at each place of a round, and how its steps keep
it. Use counts that it has read may have become smaller since; so a batch that
fitted into the buffer when it was put together still fits when its slots are
moved. -/

namespace KVCache

variable {build : Build} {cfg : Config} {c c' : Cache} {g g' : Ghost} {w : Worker} {d ops : Nat}
  {n : NormalGc} {cid : Nat} {toDrop todo held : List Nat}

/-- Quick GC holds the slabs of `toDrop`; those of `todo` are still in use. -/
structure Evicting (g : Ghost) (toDrop todo : List Nat) : Prop where
  nodup : toDrop.Nodup
  nodupTodo : todo.Nodup
  sub : ∀ d ∈ todo, d ∈ toDrop
  dropped : ∀ d ∈ todo, g.role d = .diskDropped
  clean : ∀ d ∈ toDrop, d ∉ todo → g.role d = .diskClean
  all : ∀ x, (g.role x).Collecting → x ∈ toDrop

/-- In a round of normal GC, beside what it has emptied the collector holds at
most the slabs of `held`, and the candidates of the classes from `cid` on are
still full. -/
structure InRound (cfg : Config) (c : Cache) (g : Ghost) (n : NormalGc) (cid : Nat)
    (held : List Nat) : Prop where
  freeList : FreeList cfg g n.freeList
  held : ∀ x, (g.role x).Collecting → g.role x = .diskClean ∨ x ∈ held
  kept : ∀ k, cid ≤ k → k < cfg.nrSlabClass → Batch c g k (n.slabClassToDrop k)

/-- The live slots of the slabs fit into one slab of the class. -/
def FitsSlab (cfg : Config) (c : Cache) (cid : Nat) (ds : List Nat) : Prop :=
  c.usedSum ds ≤ cfg.slabSlots (cfg.classSize cid)

/-- Unlinked slabs of a class whose live slots fit into the buffer. -/
structure Unlinked (cfg : Config) (c : Cache) (g : Ghost) (cid : Nat) (ds : List Nat) : Prop where
  nodup : ds.Nodup
  dropped : ∀ d ∈ ds, g.role d = .diskDropped
  ofClass : ∀ d ∈ ds, (c.slabs d).OfClass cfg cid
  fits : FitsSlab cfg c cid ds

/-- What the collector knows. -/
def GcOk (cfg : Config) (c : Cache) (g : Ghost) : GcAt → Prop
  | .idle | .awake | .decide _ | .quickTune | .quickSelect _ _ => g.GcIdle
  | .quickEvict _ toDrop todo => Evicting g toDrop todo
  | .quickFree rest => Evicting g rest []
  | .scan _ pq => g.GcIdle ∧ pq.Nodup ∧ ∀ d ∈ pq, g.role d = .diskFull
  | .batch n cid toDrop nrSlotsMoved left =>
      InRound cfg c g n (cid + 1) [] ∧ Batch c g cid (toDrop ++ left) ∧
        c.usedSum toDrop ≤ nrSlotsMoved ∧ nrSlotsMoved ≤ cfg.slabSlots (cfg.classSize cid)
  | .take n cid toDrop =>
      InRound cfg c g n (cid + 1) [] ∧ Batch c g cid toDrop ∧ FitsSlab cfg c cid toDrop
  | .relink n cid ops toDrop =>
      InRound cfg c g n (cid + 1) [] ∧ Batch c g cid toDrop ∧ FitsSlab cfg c cid toDrop ∧
        g.role ops = .diskLoose
  | .prepare n cid ops toDrop =>
      InRound cfg c g n (cid + 1) (ops :: toDrop) ∧ Unlinked cfg c g cid toDrop ∧
        g.role ops = .diskTaken .gc ∧ g.role cfg.gcBuffer = .bufferIdle
  | .check n cid ops size todo =>
      InRound cfg c g n (cid + 1) (cfg.gcBuffer :: ops :: todo) ∧ Filling cfg c g todo ∧
        g.role ops = .diskTaken .gc ∧ size + c.usedSum todo ≤ (c.slabs cfg.gcBuffer).nrSlots
  | .move n cid ops size d fake todo =>
      InRound cfg c g n (cid + 1) (cfg.gcBuffer :: ops :: d :: todo) ∧
        Filling cfg c g (d :: todo) ∧ g.role ops = .diskTaken .gc ∧
        size + c.usedSum todo ≤ (c.slabs cfg.gcBuffer).nrSlots ∧ fake.Same (c.readDslab d)
  | .copy n cid ops =>
      InRound cfg c g n (cid + 1) [cfg.gcBuffer, ops] ∧
        g.role cfg.gcBuffer = .bufferSource ops ∧ g.role ops = .diskWritten .gc cfg.gcBuffer
  | .modify n cid ops =>
      InRound cfg c g n (cid + 1) [cfg.gcBuffer, ops] ∧
        g.role cfg.gcBuffer = .bufferSource ops ∧ g.role ops = .diskCopy .gc cfg.gcBuffer
  | .tune n | .refill n _ _ _ | .shrink n _ | .reclaim n =>
      InRound cfg c g n cfg.nrSlabClass []

/-! ### The other threads -/

namespace Frame

variable (h : Frame cfg w c g c' g') (hw : w ≠ .gc)

include h hw

theorem evicting (hEvict : Evicting g toDrop todo) : Evicting g' toDrop todo where
  nodup := hEvict.nodup
  nodupTodo := hEvict.nodupTodo
  sub := hEvict.sub
  dropped := fun d hd => h.keep (hEvict.dropped d hd) rfl hw
  clean := fun d hd hNot => h.keep (hEvict.clean d hd hNot) rfl hw
  all := fun x hx => hEvict.all x ((h.collecting hw).mp hx)

theorem inRound (hRound : InRound cfg c g n cid held) : InRound cfg c' g' n cid held where
  freeList := h.freeList hw hRound.freeList
  held := fun x hx => by
    rw [h.role_of_collecting hw hx]
    exact hRound.held x ((h.collecting hw).mp hx)
  kept := fun k hk hClass => h.batch hw (hRound.kept k hk hClass)

theorem unlinked {ds : List Nat} (hUnlinked : Unlinked cfg c g cid ds) :
    Unlinked cfg c' g' cid ds where
  nodup := hUnlinked.nodup
  dropped := fun d hd => h.keep (hUnlinked.dropped d hd) rfl hw
  ofClass := fun d hd =>
    (h.same_of_role hw (hUnlinked.dropped d hd) rfl).ofClass (hUnlinked.ofClass d hd)
  fits := (h.usedSum_le hw fun d hd => by rw [hUnlinked.dropped d hd]; rfl).trans hUnlinked.fits

theorem usedSum_full {k : Nat} {ds : List Nat} (hBatch : Batch c g k ds) :
    c'.usedSum ds ≤ c.usedSum ds :=
  h.usedSum_le hw fun d hd => by rw [hBatch.full d hd]; rfl

theorem usedSum_filling {ds : List Nat} (hFilling : Filling cfg c g ds) :
    c'.usedSum ds ≤ c.usedSum ds :=
  h.usedSum_le hw fun d hd => by rw [hFilling.dropped d hd]; rfl

theorem buffer_same {ds : List Nat} (hFilling : Filling cfg c g ds) :
    (c.slabs cfg.gcBuffer).Same (c'.slabs cfg.gcBuffer) :=
  h.same_of_role hw hFilling.buffer rfl

theorem filling {ds : List Nat} (hFilling : Filling cfg c g ds) (hInv : Inv cfg c' g') :
    Filling cfg c' g' ds where
  inv := hInv
  buffer := h.keep hFilling.buffer rfl hw
  dropped := fun d hd => h.keep (hFilling.dropped d hd) rfl hw
  slotSize := fun d hd => by
    rw [(h.buffer_same hw hFilling).slotSize,
      (h.same_of_role hw (hFilling.dropped d hd) rfl).slotSize]
    exact hFilling.slotSize d hd
  cid := fun d hd => by
    rw [(h.buffer_same hw hFilling).cid, (h.same_of_role hw (hFilling.dropped d hd) rfl).cid]
    exact hFilling.cid d hd
  room := by
    rw [(h.buffer_same hw hFilling).nrAlloc, (h.buffer_same hw hFilling).nrSlots]
    have hLe := h.usedSum_filling hw hFilling
    have hRoom := hFilling.room
    omega
  nodup := hFilling.nodup

/-- What was read from the block of a dropped slab is still there. -/
theorem readDslab {fake : Slab} (hRole : g.role d = .diskDropped)
    (hFake : fake.Same (c.readDslab d)) : fake.Same (c'.readDslab d) := by
  refine hFake.trans ?_
  have hOwner : (g.role d).owner ≠ some w := by
    rw [hRole]
    exact fun hEq => hw (Option.some.inj hEq).symm
  have hBlock := h.stored d hOwner (by rw [hRole]; trivial)
  have hSame := h.same d hOwner
  simp only [Cache.readDslab, hBlock, Slab.Same]
  rw [hSame]

end Frame

theorem GcOk.stable {a : GcAt} (h : GcOk cfg c g a) (hFrame : Frame cfg w c g c' g')
    (hw : w ≠ .gc) (hInv : Inv cfg c' g') : GcOk cfg c' g' a := by
  cases a with
  | idle | awake | decide _ | quickTune | quickSelect _ _ => exact hFrame.gcIdle hw h
  | quickEvict _ toDrop todo => exact hFrame.evicting hw h
  | quickFree rest => exact hFrame.evicting hw h
  | scan channel pq =>
      exact ⟨hFrame.gcIdle hw h.1, h.2.1, fun d hd => hFrame.keep (h.2.2 d hd) rfl hw⟩
  | batch n cid toDrop moved left =>
      obtain ⟨hRound, hBatch, hSum, hMoved⟩ := h
      have hTaken : Batch c g cid toDrop := hBatch.sublist (List.sublist_append_left _ _)
      exact ⟨hFrame.inRound hw hRound, hFrame.batch hw hBatch,
        (hFrame.usedSum_full hw hTaken).trans hSum, hMoved⟩
  | take n cid toDrop =>
      obtain ⟨hRound, hBatch, hFits⟩ := h
      exact ⟨hFrame.inRound hw hRound, hFrame.batch hw hBatch,
        (hFrame.usedSum_full hw hBatch).trans hFits⟩
  | relink n cid ops toDrop =>
      obtain ⟨hRound, hBatch, hFits, hOps⟩ := h
      exact ⟨hFrame.inRound hw hRound, hFrame.batch hw hBatch,
        (hFrame.usedSum_full hw hBatch).trans hFits, hFrame.keep hOps rfl hw⟩
  | prepare n cid ops toDrop =>
      obtain ⟨hRound, hUnlinked, hOps, hBuffer⟩ := h
      exact ⟨hFrame.inRound hw hRound, hFrame.unlinked hw hUnlinked, hFrame.keep hOps rfl hw,
        hFrame.keep hBuffer rfl hw⟩
  | check n cid ops size todo =>
      obtain ⟨hRound, hFilling, hOps, hSize⟩ := h
      refine ⟨hFrame.inRound hw hRound, hFrame.filling hw hFilling hInv, hFrame.keep hOps rfl hw, ?_⟩
      rw [(hFrame.buffer_same hw hFilling).nrSlots]
      have hLe := hFrame.usedSum_filling hw hFilling
      omega
  | move n cid ops size d fake todo =>
      obtain ⟨hRound, hFilling, hOps, hSize, hFake⟩ := h
      refine ⟨hFrame.inRound hw hRound, hFrame.filling hw hFilling hInv, hFrame.keep hOps rfl hw,
        ?_, hFrame.readDslab hw (hFilling.dropped d (by simp)) hFake⟩
      rw [(hFrame.buffer_same hw hFilling).nrSlots]
      have hLe : c'.usedSum todo ≤ c.usedSum todo :=
        hFrame.usedSum_le hw fun x hx => by rw [hFilling.dropped x (by simp [hx])]; rfl
      omega
  | copy n cid ops =>
      exact ⟨hFrame.inRound hw h.1, hFrame.keep h.2.1 rfl hw, hFrame.keep h.2.2 rfl hw⟩
  | modify n cid ops =>
      exact ⟨hFrame.inRound hw h.1, hFrame.keep h.2.1 rfl hw, hFrame.keep h.2.2 rfl hw⟩
  | tune n | refill n _ _ _ | shrink n _ | reclaim n => exact hFrame.inRound hw h

/-! ### Quick GC -/

/-- A step that keeps the invariant and after which lookups find no more than
before. -/
structure Forgets (cfg : Config) (w : Worker) (c : Cache) (g : Ghost) (c' : Cache) (g' : Ghost) :
    Prop where
  inv : Inv cfg c' g'
  frame : Frame cfg w c g c' g'
  view : ∀ key object, c'.view cfg key = some object → c.view cfg key = some object

theorem Silent.forgets (h : Silent cfg w c g c' g') : Forgets cfg w c g c' g' :=
  ⟨h.inv, h.frame, fun key _ hView => (h.view key).symm.trans hView⟩

namespace Evicting

theorem start (hIdle : g.GcIdle) (hNodup : toDrop.Nodup) :
    Evicting (g.becomeAll toDrop .diskDropped) toDrop toDrop where
  nodup := hNodup
  nodupTodo := hNodup
  sub := fun _ hd => hd
  dropped := fun d hd => g.becomeAll_of_mem _ hd
  clean := fun d hd hNot => absurd hd hNot
  all := fun x hx => by
    by_contra hNot
    rw [g.becomeAll_of_not_mem _ hNot] at hx
    exact hIdle x hx

theorem next (h : Evicting g toDrop (d :: todo)) :
    Evicting { g.become d .diskClean with exact := false } toDrop todo := by
  obtain ⟨hNot, hNodup⟩ := List.nodup_cons.mp h.nodupTodo
  constructor
  case nodup => exact h.nodup
  case nodupTodo => exact hNodup
  case sub => exact fun x hx => h.sub x (by simp [hx])
  case dropped => exact g.become_tail _ hNot h.dropped
  case clean =>
    intro x hx hDone
    by_cases hxd : x = d
    · subst x
      exact g.become_self d _
    · exact (g.become_of_ne _ hxd).trans (h.clean x hx (by simp [hxd, hDone]))
  case all =>
    intro x hx
    by_cases hxd : x = d
    · subst x
      exact h.sub d (by simp)
    · exact h.all x (g.become_of_ne _ hxd ▸ hx)

theorem handedBack {rest : List Nat} {room : Int} (h : Evicting g toDrop [])
    (hBack : Inv.HandedBack g toDrop rest room g') : Evicting g' rest [] where
  nodup := hBack.nodup
  nodupTodo := List.nodup_nil
  sub := by simp
  dropped := by simp
  clean := fun d hd _ => (hBack.left d hd).2
  all := fun x hx => by
    by_cases hMem : x ∈ toDrop
    · by_contra hNot
      rcases hBack.back x hMem hNot with hRole | hRole <;> rw [hRole] at hx <;> exact hx
    · exact absurd (h.all x (hBack.other x hMem ▸ hx)) hMem

theorem finish (h : Evicting g toDrop []) : (g.becomeAll toDrop .diskFree).GcIdle := by
  intro x hx
  by_cases hMem : x ∈ toDrop
  · rw [g.becomeAll_of_mem _ hMem] at hx
    exact hx
  · rw [g.becomeAll_of_not_mem _ hMem] at hx
    exact hMem (h.all x hx)

end Evicting

/-- A step of `do_slab_gc` outside of `normal_gc`. -/
theorem GcOk.stepQuick {fuel : Nat} {a a' : GcAt} (h : GcOk cfg c g a) (hInv : Inv cfg c g)
    (hRun : Threads.stepQuick build cfg fuel c a = .ok (c', a')) :
    ∃ g', Forgets cfg .gc c g c' g' ∧ GcOk cfg c' g' a' := by
  cases a with
  | idle =>
      simp only [Threads.stepQuick] at hRun
      split at hRun
      · cases hRun
      · obtain ⟨rfl, rfl⟩ := Prod.mk.inj (Except.ok.inj hRun)
        exact ⟨g, (Silent.refl hInv).forgets, h⟩
  | awake =>
      simp only [Threads.stepQuick, Execution.bind_eq_ok, Execution.pure_eq_ok] at hRun
      obtain ⟨_, -, hEnd⟩ := hRun
      obtain ⟨rfl, rfl⟩ := Prod.mk.inj hEnd
      exact ⟨g, (Silent.refl hInv).forgets, h⟩
  | decide nrFree =>
      simp only [Threads.stepQuick] at hRun
      split at hRun
      · obtain ⟨rfl, rfl⟩ := Prod.mk.inj (Except.ok.inj hRun)
        exact ⟨g, (Silent.refl hInv).forgets, h⟩
      · split at hRun <;> obtain ⟨rfl, rfl⟩ := Prod.mk.inj (Except.ok.inj hRun)
        · exact ⟨g, (Silent.refl hInv).forgets, h⟩
        · exact ⟨g, (Silent.refl hInv).forgets, h, List.nodup_nil, by simp⟩
  | quickTune =>
      simp only [Threads.stepQuick, Execution.bind_eq_ok, Execution.pure_eq_ok] at hRun
      obtain ⟨_, -, _, -, hEnd⟩ := hRun
      obtain ⟨rfl, rfl⟩ := Prod.mk.inj hEnd
      refine ⟨g, Silent.forgets ?_, h⟩
      exact hInv.unrelated rfl rfl rfl hInv.lists.congr
  | quickSelect f o =>
      simp only [Threads.stepQuick, Execution.bind_eq_ok, Execution.pure_eq_ok] at hRun
      obtain ⟨_, -, _, -, ⟨toDrop, c₁⟩, hSelect, hEnd⟩ := hRun
      obtain ⟨rfl, rfl⟩ := Prod.mk.inj hEnd
      obtain ⟨new, rfl, hNodup, -, -, hSilent⟩ := hInv.selectDrop (fun x => h.full) hSelect
      rw [List.append_nil]
      exact ⟨_, hSilent.forgets, .start h hNodup⟩
  | quickEvict o toDrop todo =>
      cases todo with
      | nil =>
          simp only [Threads.stepQuick] at hRun
          generalize hBack : Cache.backToOpsPool cfg o 0 toDrop c = back at hRun
          obtain ⟨rest, c₁⟩ := back
          obtain ⟨rfl, rfl⟩ := Prod.mk.inj (Except.ok.inj hRun)
          obtain ⟨g', hSilent, hHanded⟩ :=
            hInv.backToOpsPool (fun d hd => h.clean d hd (by simp)) h.nodup hBack
          exact ⟨g', hSilent.forgets, h.handedBack hHanded⟩
      | cons d todo =>
          simp only [Threads.stepQuick, Execution.bind_eq_ok, Execution.pure_eq_ok] at hRun
          obtain ⟨c₁, hDrop, hEnd⟩ := hRun
          obtain ⟨rfl, rfl⟩ := Prod.mk.inj hEnd
          obtain ⟨hInv', hFrame, hDropped⟩ := hInv.dropDslab (h.dropped d (by simp)) hDrop
          exact ⟨_, ⟨hInv', hFrame, fun _ _ => hDropped.view⟩, h.next⟩
  | quickFree rest =>
      simp only [Threads.stepQuick, Execution.bind_eq_ok, Execution.pure_eq_ok] at hRun
      obtain ⟨c₁, hBack, _, -, hEnd⟩ := hRun
      obtain ⟨rfl, rfl⟩ := Prod.mk.inj hEnd
      have hSilent := hInv.backToDslabFree (fun d hd => h.clean d hd (by simp)) h.nodup hBack
      exact ⟨_, hSilent.forgets, h.finish⟩
  | _ => cases hRun

/-! ### Choosing a batch -/

namespace InRound

theorem later {cid' : Nat} (h : InRound cfg c g n cid held) (hLe : cid ≤ cid') :
    InRound cfg c g n cid' held :=
  ⟨h.freeList, h.held, fun k hk => h.kept k (hLe.trans hk)⟩

/-- After the last class, and after a jump to the end, no candidates matter. -/
theorem ended (h : InRound cfg c g n cid held) : InRound cfg c g n cfg.nrSlabClass held :=
  ⟨h.freeList, h.held, fun _ hk hClass => absurd hk (Nat.not_le_of_lt hClass)⟩

theorem settled (h : InRound cfg c g n cid []) : g.Settled := by
  intro x hx
  simpa using h.held x hx

theorem between (h : InRound cfg c g n cid []) (hInv : Inv cfg c g) : Between cfg c g n.freeList :=
  ⟨hInv, h.settled, h.freeList⟩

theorem startClass (h : InRound cfg c g n cid []) :
    GcOk cfg c g (Threads.startClass cfg n cid) := by
  unfold Threads.startClass
  split
  · rename_i hClass
    refine ⟨h.later (Nat.le_succ cid), h.kept cid (Nat.le_refl cid) hClass, Int.le_refl 0, ?_⟩
    exact Int.natCast_nonneg _
  · exact h.ended

theorem endBatch (h : InRound cfg c g n (cid + 1) []) (hBatch : Batch c g cid toDrop)
    (hFits : FitsSlab cfg c cid toDrop) : GcOk cfg c g (Threads.endBatch cfg c n cid toDrop) := by
  unfold Threads.endBatch
  split
  · split
    · exact h.ended
    · exact ⟨h, hBatch, hFits⟩
  · exact h.startClass

end InRound

theorem Cache.usedSum_concat (c : Cache) (ds : List Nat) (d : Nat) :
    c.usedSum (ds ++ [d]) = c.usedSum ds + (c.slabs d).nrUsed := by
  simp [Cache.usedSum]

/-- A step of `normal_gc` up to a complete batch changes nothing in the cache. -/
theorem GcOk.stepChoose {pick : List Nat} {a a' : GcAt} (h : GcOk cfg c g a) (hInv : Inv cfg c g)
    (hRun : Threads.stepChoose build cfg pick c a = .ok (c', a')) :
    c' = c ∧ GcOk cfg c g a' := by
  cases a with
  | scan channel pq =>
      obtain ⟨hIdle, hNodup, hFull⟩ := h
      simp only [Threads.stepChoose] at hRun
      split at hRun
      · split at hRun
        · cases hRun
        · split at hRun
          · rename_i hKeeps
            obtain ⟨rfl, rfl⟩ := Prod.mk.inj (Except.ok.inj hRun)
            refine ⟨rfl, hIdle, hKeeps.1, fun d hd => ?_⟩
            rcases hKeeps.2.1 d hd with hOld | hNew
            · exact hFull d hOld
            · exact hIdle.full (hInv.lists.mem_dslabFull.mp hNew).1
          · cases hRun
      · simp only [Execution.bind_eq_ok, Execution.pure_eq_ok] at hRun
        obtain ⟨_, -, hEnd⟩ := hRun
        obtain ⟨rfl, rfl⟩ := Prod.mk.inj hEnd
        refine ⟨rfl, InRound.startClass ⟨hIdle.emptyList, fun x hx => absurd hx (hIdle x), ?_⟩⟩
        intro k _ hClass
        have hKept : (⟨(List.range cfg.nrSlabClass).map (c.classToDrop pq)⟩ : Table (List Nat)) k =
            c.classToDrop pq k := by
          simp [Table.get, List.getD_eq_getElem?_getD, hClass]
        simp only [hKept]
        exact batch_of_full hNodup hFull k
  | batch n cid toDrop moved left =>
      obtain ⟨hRound, hBatch, hSum, hMoved⟩ := h
      have hTaken : Batch c g cid toDrop := hBatch.sublist (List.sublist_append_left _ _)
      cases left with
      | nil =>
          obtain ⟨rfl, rfl⟩ := Prod.mk.inj (Except.ok.inj hRun)
          exact ⟨rfl, hRound.endBatch hTaken (hSum.trans hMoved)⟩
      | cons d left =>
          simp only [Threads.stepChoose, Execution.bind_eq_ok] at hRun
          obtain ⟨_, -, hRun⟩ := hRun
          split at hRun <;> obtain ⟨rfl, rfl⟩ := Prod.mk.inj (Execution.pure_eq_ok.mp hRun)
          · exact ⟨rfl, hRound.endBatch hTaken (hSum.trans hMoved)⟩
          · rename_i hRoom
            have hSlots := (hBatch.ofClass hInv (d := d) (by simp)).nrSlots
            refine ⟨rfl, hRound, by simpa using hBatch, ?_, ?_⟩
            · rw [Cache.usedSum_concat]
              omega
            · omega
  | _ => cases hRun

/-! ### Collecting a batch -/

section

variable {y : Nat} {r : Role}

/-- A slab that is no candidate changes its role. -/
theorem Batch.become {k : Nat} {ds : List Nat} (h : Batch c g k ds) (hOld : g.role y ≠ .diskFull)
    (hCid : ∀ x, g.role x = .diskFull → (c'.slabs x).cid = (c.slabs x).cid) :
    Batch c' (g.become y r) k ds := by
  refine ⟨h.nodup, fun x hx => ?_, fun x hx => (hCid x (h.full x hx)).trans (h.cid x hx)⟩
  have hne : x ≠ y := by
    rintro rfl
    exact hOld (h.full x hx)
  rw [g.become_of_ne r hne]
  exact h.full x hx

theorem InRound.become {held' : List Nat} (h : InRound cfg c g n cid held)
    (hOld : g.role y ≠ .diskFull) (hFreed : r.Freed ↔ (g.role y).Freed)
    (hHeld : r.Collecting → r = .diskClean ∨ y ∈ held')
    (hSub : ∀ x ∈ held, x = y ∨ x ∈ held')
    (hCid : ∀ x, g.role x = .diskFull → (c'.slabs x).cid = (c.slabs x).cid) :
    InRound cfg c' (g.become y r) n cid held' := by
  constructor
  case freeList =>
    refine h.freeList.congr rfl fun x => ?_
    by_cases hx : x = y
    · subst x
      rw [g.become_self]
      exact hFreed
    · rw [g.become_of_ne r hx]
  case held =>
    intro x hx
    by_cases hxy : x = y
    · subst x
      rw [g.become_self] at hx ⊢
      exact hHeld hx
    · rw [g.become_of_ne r hxy] at hx ⊢
      refine (h.held x hx).imp_right fun hMem => ?_
      exact (hSub x hMem).resolve_left hxy
  case kept => exact fun k hk hClass => (h.kept k hk hClass).become hOld hCid

end

/-- What is read of a block does not include the use count. -/
theorem Cache.moveLive_same {fake fake' : Slab} (h : fake.Same fake') :
    c.moveLive build cfg d fake = c.moveLive build cfg d fake' := by
  rw [h]
  rfl

/-- The slabs of the batch leave the full lists. -/
theorem GcOk.relinkFull {freeList : Table SlabList} (hRound : InRound cfg c g n (cid + 1) [])
    (hBatch : Batch c g cid toDrop) (hFits : FitsSlab cfg c cid toDrop)
    (hOps : g.role ops = .diskLoose) (hInv : Inv cfg c g)
    (hRun : c.relinkFull cfg ops toDrop n.freeList = (c', freeList)) :
    ∃ g', Silent cfg .gc c g c' g' ∧
      GcOk cfg c' g' (.prepare { n with freeList := freeList } cid ops toDrop) := by
  obtain ⟨hSlabs, hSilent, hList⟩ :=
    hInv.relinkFull hOps hRound.freeList hBatch.full hBatch.nodup hRun
  have hOpsNot : ops ∉ toDrop := fun hMem => g.ne_of_role hOps (hBatch.full ops hMem) (by simp) rfl
  have hFullNe : ∀ x, g.role x = .diskFull → x ≠ ops := fun x hx => g.ne_of_role hx hOps
  have hBuffer := hRound.settled.buffer hInv
  have hBufferNot : cfg.gcBuffer ∉ toDrop := fun hMem =>
    g.ne_of_role hBuffer (hBatch.full _ hMem) (by simp) rfl
  refine ⟨_, hSilent, ⟨hList, fun x hx => ?_, fun k hk hClass => ?_⟩, ⟨hBatch.nodup, ?_, ?_, ?_⟩,
    ?_, ?_⟩
  · by_cases hMem : x ∈ ops :: toDrop
    · exact .inr hMem
    · obtain ⟨hne, hNot⟩ : x ≠ ops ∧ x ∉ toDrop := by simpa using hMem
      rw [relinked_of_not_mem hne hNot] at hx ⊢
      exact .inl (hRound.settled x hx)
  · have hKept := hRound.kept k hk hClass
    refine ⟨hKept.nodup, fun x hx => ?_, fun x hx => ?_⟩
    · have hNot : x ∉ toDrop := by
        intro hMem
        have hSame := (hKept.cid x hx).symm.trans (hBatch.cid x hMem)
        omega
      rw [relinked_of_not_mem (hFullNe x (hKept.full x hx)) hNot]
      exact hKept.full x hx
    · rw [hSlabs x (hFullNe x (hKept.full x hx))]
      exact hKept.cid x hx
  · exact fun x hx => relinked_of_mem hx
  · intro x hx
    rw [hSlabs x (hFullNe x (hBatch.full x hx))]
    exact hBatch.ofClass hInv hx
  · have hSum : c'.usedSum toDrop = c.usedSum toDrop :=
      Cache.usedSum_congr fun x hx => by rw [hSlabs x (hFullNe x (hBatch.full x hx))]
    rw [FitsSlab, hSum]
    exact hFits
  · exact relinked_ops hOpsNot
  · rw [relinked_of_not_mem (g.ne_of_role hBuffer hOps) hBufferNot]
    exact hBuffer

/-- A step of `gc_dslabs` is silent. -/
theorem GcOk.stepCollect {a a' : GcAt} (h : GcOk cfg c g a) (hInv : Inv cfg c g)
    (hRun : Threads.stepCollect build cfg c a = .ok (c', a')) :
    ∃ g', Silent cfg .gc c g c' g' ∧ GcOk cfg c' g' a' := by
  have hGc : Worker.gc ≠ .writer := by simp
  cases a with
  | take n cid toDrop =>
      obtain ⟨hRound, hBatch, hFits⟩ := h
      simp only [Threads.stepCollect] at hRun
      generalize hTake : c.takeOps cfg = taken at hRun
      obtain ⟨ops, c₁⟩ := taken
      cases ops with
      | none => cases build <;> cases hRun
      | some ops =>
          obtain ⟨rfl, rfl⟩ := Prod.mk.inj (Except.ok.inj hRun)
          obtain ⟨hOps, hSlabs, hSilent⟩ := hInv.takeOpsFrom hTake
          have hNotFull : g.role ops ≠ .diskFull := by simp [hOps]
          have hCid : ∀ x, g.role x = .diskFull → (c₁.slabs x).cid = (c.slabs x).cid :=
            fun x _ => by rw [hSlabs]
          refine ⟨_, hSilent, hRound.become hNotFull (by simp [hOps, Role.Freed]) False.elim
            (by simp) hCid, hBatch.become hNotFull hCid, ?_, g.become_self ops _⟩
          have hSum : c₁.usedSum toDrop = c.usedSum toDrop :=
            Cache.usedSum_congr fun x _ => by rw [hSlabs]
          rw [FitsSlab, hSum]
          exact hFits
  | relink n cid ops toDrop =>
      obtain ⟨hRound, hBatch, hFits, hOps⟩ := h
      simp only [Threads.stepCollect] at hRun
      generalize hRelink : c.relinkFull cfg ops toDrop n.freeList = relinked at hRun
      obtain ⟨c₁, freeList⟩ := relinked
      obtain ⟨rfl, rfl⟩ := Prod.mk.inj (Except.ok.inj hRun)
      exact GcOk.relinkFull hRound hBatch hFits hOps hInv hRelink
  | prepare n cid ops toDrop =>
      obtain ⟨hRound, hUnlinked, hOps, hBuffer⟩ := h
      cases toDrop with
      | nil => cases hRun
      | cons first rest =>
          obtain ⟨rfl, rfl⟩ := Prod.mk.inj (Except.ok.inj hRun)
          obtain ⟨hSilent, hFilling⟩ := hInv.startFilling hBuffer hUnlinked.dropped
            hUnlinked.ofClass hUnlinked.fits hUnlinked.nodup
          refine ⟨_, hSilent, hRound.become (by simp [hBuffer]) (by simp [hBuffer, Role.Freed])
            (fun _ => .inr (by simp)) (fun x hx => .inr (List.mem_cons_of_mem _ hx)) ?_, hFilling,
            (g.become_of_ne _ (g.ne_of_role hOps hBuffer)).trans hOps, ?_⟩
          · intro x hx
            simp only [Cache.prepareBuffer]
            rw [Table.get_modify_of_ne _ _ (g.ne_of_role hx hBuffer)]
          · have hRoom := hFilling.room
            omega
  | check n cid ops size todo =>
      obtain ⟨hRound, hFilling, hOps, hSize⟩ := h
      cases todo with
      | nil =>
          simp only [Threads.stepCollect, Execution.bind_eq_ok, Execution.pure_eq_ok] at hRun
          obtain ⟨_, -, hEnd⟩ := hRun
          obtain ⟨rfl, rfl⟩ := Prod.mk.inj hEnd
          have hne := g.ne_of_role hFilling.buffer hOps
          have hOps' : (g.become cfg.gcBuffer (.bufferSource ops)).role ops = .diskTaken .gc :=
            (g.become_of_ne _ hne.symm).trans hOps
          have hSource : InRound cfg c (g.become cfg.gcBuffer (.bufferSource ops)) n (cid + 1)
              [cfg.gcBuffer, ops] :=
            hRound.become (by simp [hFilling.buffer]) (by simp [hFilling.buffer, Role.Freed])
              (fun _ => .inr (by simp)) (fun _ hx => .inr hx) fun _ _ => rfl
          refine ⟨_, hInv.writeBlock hGc hFilling.buffer hOps, ?_, ?_, Ghost.become_self _ _ _⟩
          · exact hSource.become (by simp [hOps']) (by simp [hOps', Role.Freed])
              (fun _ => .inr (by simp)) (fun _ hx => .inr hx) fun _ _ => rfl
          · exact (Ghost.become_of_ne _ _ hne).trans (g.become_self _ _)
      | cons d todo =>
          simp only [Threads.stepCollect, Execution.bind_eq_ok, Execution.pure_eq_ok] at hRun
          obtain ⟨size', hCheck, hEnd⟩ := hRun
          obtain ⟨rfl, rfl⟩ := Prod.mk.inj hEnd
          simp only [Cache.checkMove, Execution.bind_eq_ok, Execution.pure_eq_ok] at hCheck
          obtain ⟨_, -, _, -, _, -, rfl⟩ := hCheck
          refine ⟨g, .refl hInv, hRound, hFilling, hOps, ?_, .refl _⟩
          rw [Cache.usedSum_cons] at hSize
          omega
  | move n cid ops size d fake todo =>
      obtain ⟨hRound, hFilling, hOps, hSize, hFake⟩ := h
      simp only [Threads.stepCollect, Execution.bind_eq_ok, Execution.pure_eq_ok] at hRun
      obtain ⟨c₁, hMove, hEnd⟩ := hRun
      obtain ⟨rfl, rfl⟩ := Prod.mk.inj hEnd
      obtain ⟨c₂, hMove', hSilent, hMoved, hRest⟩ := hFilling.move build
      rw [Cache.moveLive_same hFake, hMove'] at hMove
      obtain rfl := Except.ok.inj hMove
      have hd := hFilling.dropped d (by simp)
      have hBuffer := hFilling.buffer
      refine ⟨_, hSilent, hRound.become (by simp [hd]) (by simp [hd, Role.Freed]) (fun _ => .inl rfl)
        (fun x hx => ?_) (fun x hx => ?_), hRest,
        (g.become_of_ne _ (g.ne_of_role hOps hd)).trans hOps, ?_⟩
      · simp only [List.mem_cons] at hx ⊢
        tauto
      · rw [hMoved.slab x (g.ne_of_role hx hBuffer) (g.ne_of_role hx hd)]
      · rw [hFilling.usedSum_moved hMoved, hMoved.nrSlots]
        exact hSize
  | copy n cid ops =>
      obtain ⟨rfl, rfl⟩ := Prod.mk.inj (Except.ok.inj hRun)
      obtain ⟨hRound, hBuffer, hOps⟩ := h
      refine ⟨_, hInv.copyHeader hGc hOps, hRound.become (by simp [hOps]) (by simp [hOps, Role.Freed])
        (fun _ => .inr (by simp)) (fun x hx => .inr hx) (fun x hx => ?_),
        (g.become_of_ne _ (g.ne_of_role hBuffer hOps)).trans hBuffer, g.become_self ops _⟩
      simp only [Cache.copyHeader]
      rw [Table.get_modify_of_ne _ _ (g.ne_of_role hx hOps)]
  | modify n cid ops =>
      obtain ⟨rfl, rfl⟩ := Prod.mk.inj (Except.ok.inj hRun)
      obtain ⟨hRound, hBuffer, hOps⟩ := h
      have hOps' : (g.become cfg.gcBuffer .bufferIdle).role ops = .diskCopy .gc cfg.gcBuffer :=
        (g.become_of_ne _ (g.ne_of_role hOps hBuffer)).trans hOps
      have hIdle : InRound cfg c (g.become cfg.gcBuffer .bufferIdle) n (cid + 1) [ops] :=
        hRound.become (by simp [hBuffer]) (by simp [hBuffer, Role.Freed]) False.elim
          (fun _ hx => List.mem_cons.mp hx) fun _ _ => rfl
      refine ⟨_, hInv.modifyIndexTo hGc hBuffer hOps, InRound.startClass ?_⟩
      exact hIdle.become (by simp [hOps']) (by simp [hOps', Role.Freed, Role.filled]) False.elim
        (fun _ hx => .inl (by simpa using hx)) fun x _ => (Inv.modifyIndexTo_same c _ _ x).cid
  | _ => cases hRun

/-! ### Handing back -/

theorem Between.inRound (n : NormalGc) (h : Between cfg c g n.freeList) :
    InRound cfg c g n cfg.nrSlabClass [] :=
  ⟨h.freeList, fun x hx => .inl (h.settled x hx),
    fun _ hk hClass => absurd hk (Nat.not_le_of_lt hClass)⟩

/-- A step of `normal_gc` after the batches is silent. -/
theorem GcOk.stepHandBack {a a' : GcAt} (h : GcOk cfg c g a) (hInv : Inv cfg c g)
    (hRun : Threads.stepHandBack build cfg c a = .ok (c', a')) :
    ∃ g', Silent cfg .gc c g c' g' ∧ GcOk cfg c' g' a' := by
  cases a with
  | tune n =>
      simp only [Threads.stepHandBack, Execution.bind_eq_ok, Execution.pure_eq_ok] at hRun
      obtain ⟨_, -, hEnd⟩ := hRun
      obtain ⟨rfl, rfl⟩ := Prod.mk.inj hEnd
      have hTune := hInv.tuneOpsPool n.oldOpsSize
      exact ⟨g, hTune, Between.inRound n ⟨hTune.inv, h.settled, h.freeList⟩⟩
  | refill n newOpsSize left channel =>
      simp only [Threads.stepHandBack] at hRun
      split at hRun
      · simp only [Execution.bind_eq_ok, Execution.pure_eq_ok] at hRun
        obtain ⟨_, -, hEnd⟩ := hRun
        obtain ⟨rfl, rfl⟩ := Prod.mk.inj hEnd
        exact ⟨g, .refl hInv, h⟩
      · split at hRun
        · obtain ⟨rfl, rfl⟩ := Prod.mk.inj (Except.ok.inj hRun)
          exact ⟨g, .refl hInv, h⟩
        · rename_i d rest hList
          generalize hRefill : c.refillOps n.freeList channel d = refilled at hRun
          obtain ⟨c₁, freeList⟩ := refilled
          obtain ⟨rfl, rfl⟩ := Prod.mk.inj (Except.ok.inj hRun)
          obtain ⟨hRound, hBetween⟩ := (h.between hInv).refillOps (by rw [hList]; simp) hRefill
          exact ⟨_, hRound.silent, Between.inRound { n with freeList := freeList } hBetween⟩
  | shrink n count =>
      cases count with
      | zero =>
          obtain ⟨rfl, rfl⟩ := Prod.mk.inj (Except.ok.inj hRun)
          exact ⟨g, .refl hInv, h⟩
      | succ count =>
          simp only [Threads.stepHandBack] at hRun
          generalize hShrink : c.shrinkOps cfg n.freeList = shrunk at hRun
          obtain ⟨c₁, freeList⟩ := shrunk
          obtain ⟨rfl, rfl⟩ := Prod.mk.inj (Except.ok.inj hRun)
          obtain ⟨g', hRound, hBetween, -⟩ := (h.between hInv).shrinkOps hShrink
          exact ⟨g', hRound.silent, Between.inRound { n with freeList := freeList } hBetween⟩
  | reclaim n =>
      simp only [Threads.stepHandBack, Execution.bind_eq_ok, Execution.pure_eq_ok] at hRun
      obtain ⟨c₁, hReclaim, _, -, hEnd⟩ := hRun
      obtain ⟨rfl, rfl⟩ := Prod.mk.inj hEnd
      obtain ⟨g', hRound, hIdle, -⟩ := (h.between hInv).reclaim hReclaim
      exact ⟨g', hRound.silent, hIdle⟩
  | _ => cases hRun

/-! ### Any step -/

/-- A step of `normal_gc` is silent. -/
theorem GcOk.stepNormal {pick : List Nat} {fuel : Nat} {a a' : GcAt} (h : GcOk cfg c g a)
    (hInv : Inv cfg c g) (hNormal : a.InNormalGc)
    (hRun : Threads.stepGc build cfg pick fuel c a = .ok (c', a')) :
    ∃ g', Silent cfg .gc c g c' g' ∧ GcOk cfg c' g' a' := by
  cases a with
  | scan _ _ | batch _ _ _ _ _ =>
      obtain ⟨rfl, hOk⟩ := h.stepChoose hInv hRun
      exact ⟨g, .refl hInv, hOk⟩
  | take _ _ _ | relink _ _ _ _ | prepare _ _ _ _ | check _ _ _ _ _ | move _ _ _ _ _ _ _
  | copy _ _ _ | modify _ _ _ =>
      simp only [Threads.stepGc] at hRun
      exact h.stepCollect hInv hRun
  | tune _ | refill _ _ _ _ | shrink _ _ | reclaim _ =>
      simp only [Threads.stepGc] at hRun
      exact h.stepHandBack hInv hRun
  | _ => exact hNormal.elim

theorem GcOk.step {pick : List Nat} {fuel : Nat} {a a' : GcAt} (h : GcOk cfg c g a)
    (hInv : Inv cfg c g) (hRun : Threads.stepGc build cfg pick fuel c a = .ok (c', a')) :
    ∃ g', Forgets cfg .gc c g c' g' ∧ GcOk cfg c' g' a' ∧
      (a.InNormalGc → ∀ key, c'.view cfg key = c.view cfg key) := by
  by_cases hNormal : a.InNormalGc
  · obtain ⟨g', hSilent, hOk⟩ := h.stepNormal hInv hNormal hRun
    exact ⟨g', hSilent.forgets, hOk, fun _ => hSilent.view⟩
  · have hQuick : Threads.stepQuick build cfg fuel c a = .ok (c', a') := by
      cases a <;> first | exact hRun | exact absurd trivial hNormal
    obtain ⟨g', hForgets, hOk⟩ := h.stepQuick hInv hQuick
    exact ⟨g', hForgets, hOk, fun hIn => absurd hIn hNormal⟩

end KVCache
