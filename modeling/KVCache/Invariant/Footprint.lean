import KVCache.Semantics.Reader
import KVCache.Invariant.NormalGc

/-! The bytes of slabs change only where a slot is written. All other steps
work on headers, lists and the index. -/

namespace KVCache

variable {build : Build} {cfg : Config} {c c' c'' : Cache} {rs : List Region}

/-- Headers, lists and the index may differ, the data areas do not. -/
def SameData (c c' : Cache) : Prop := ∀ x, (c'.slabs x).data = (c.slabs x).data

theorem SameData.refl (c : Cache) : SameData c c := fun _ => rfl

theorem SameData.trans (h : SameData c c') (h' : SameData c' c'') : SameData c c'' :=
  fun x => (h' x).trans (h x)

theorem sameData_of_slabs (h : c'.slabs = c.slabs) : SameData c c' := fun x => by rw [h]

/-- A change of the header of a slab. -/
theorem data_modify {f : Slab → Slab} (slabs : Table Slab) (y x : Nat)
    (hf : (f (slabs y)).data = (slabs y).data) :
    ((slabs.modify y f) x).data = (slabs x).data :=
  Table.get_modify_proj _ _ _ _ _ hf

/-- The bytes outside of the regions are the same. -/
def Written (rs : List Region) (c c' : Cache) : Prop :=
  ∀ x i, (∀ r ∈ rs, r.sid = x → i < r.offset ∨ r.offset + r.length ≤ i) →
    (c'.slabs x).data i = (c.slabs x).data i

theorem SameData.written (h : SameData c c') : Written rs c c' := fun x i _ => by rw [h x]

theorem Written.trans {rs' : List Region} (h : Written rs c c') (h' : Written rs' c' c'') :
    Written (rs ++ rs') c c'' := fun x i hOut =>
  (h' x i fun r hr => hOut r (List.mem_append_right rs hr)).trans
    (h x i fun r hr => hOut r (List.mem_append_left rs' hr))

/-- A view that no write hits reads the same bytes. -/
theorem Written.read (h : Written rs c c') {slice : Slice} (hMiss : ∀ r ∈ rs, r.Misses slice) :
    slice.read c' = slice.read c := by
  cases slice with
  | buffer bytes => rfl
  | memory sid offset length =>
      refine Table.getRange_congr fun i hLow hHigh => h sid i fun r hr hSid => ?_
      rcases hMiss r hr with hne | hBefore | hAfter
      · exact absurd hSid hne
      · exact .inr (hBefore.trans hLow)
      · exact .inl (Nat.lt_of_lt_of_le hHigh hAfter)

/-! ### Writing a slot -/

theorem get_slotWrite_of_outside (data : Table UInt8) (offset : Nat) (key : Key) (value : Value)
    {i : Nat} (h : i < offset ∨ offset + slotSize key value ≤ i) :
    (Slot.write data offset key value) i = data i := by
  simp only [slotSize, Slot.headerSize] at h
  simp only [Slot.write, Slot.headerSize]
  rw [Table.get_setRange_of_outside _ _ _ _ (by omega),
    Table.get_setRange_of_outside _ _ _ _ (by omega),
    Table.get_setRange_of_outside _ _ _ _ (by simp only [Bytes.length_ofInt]; omega),
    Table.get_setRange_of_outside _ _ _ _ (by simp only [Bytes.length_ofInt]; omega)]

/-- A slab whose only new bytes are those of a slot. -/
theorem written_slot {sid offset : Nat} {key : Key} {value : Value}
    (hSelf : (c'.slabs sid).data = Slot.write (c.slabs sid).data offset key value)
    (hOther : ∀ x ≠ sid, (c'.slabs x).data = (c.slabs x).data) :
    Written [⟨sid, offset, slotSize key value⟩] c c' := by
  intro x i hOut
  by_cases hx : x = sid
  · subst x
    rw [hSelf]
    exact get_slotWrite_of_outside _ _ _ _ (hOut _ (List.mem_singleton_self _) rfl)
  · rw [hOther x hx]

/-! ### The writer -/

theorem allocPartial_sameData {cid sid slotId : Nat}
    (hRun : c.allocPartial build cid sid = .ok (c', slotId)) : SameData c c' := by
  simp only [Cache.allocPartial, Slab.slotAlloc, Execution.bind_eq_ok, Execution.pure_eq_ok] at hRun
  obtain ⟨_, -, _, -, ⟨slab, slot⟩, ⟨_, -, hSlab⟩, hEnd⟩ := hRun
  obtain ⟨rfl, rfl⟩ := Prod.mk.inj hSlab
  split at hEnd <;> obtain ⟨rfl, -⟩ := Prod.mk.inj (Execution.pure_eq_ok.mp hEnd) <;> intro x
  all_goals
    rw [Table.get_set]
    split
    · subst x
      rfl
    · rfl

theorem slotAlloc_sameData {size sid slotId : Nat}
    (hRun : c.slotAlloc build cfg size = .ok (.slot c' sid slotId)) : SameData c c' := by
  unfold Cache.slotAlloc at hRun
  split at hRun
  · cases hRun
  · split at hRun
    · simp only [Execution.bind_eq_ok, Execution.pure_eq_ok] at hRun
      obtain ⟨⟨c₁, slot⟩, hAlloc, hEnd⟩ := hRun
      obtain ⟨rfl, -, -⟩ := SlotAlloc.slot.inj hEnd
      exact allocPartial_sameData hAlloc
    · simp only [Execution.bind_eq_ok, Execution.pure_eq_ok] at hRun
      obtain ⟨⟨c₁, slot⟩, hAlloc, hEnd⟩ := hRun
      obtain ⟨rfl, -, -⟩ := SlotAlloc.slot.inj hEnd
      exact SameData.trans (fun x => data_modify _ _ x rfl) (allocPartial_sameData hAlloc)
    · cases hRun

theorem putSlot_written {key : Key} {value : Value} {sid slotId : Nat}
    (hRun : c.putSlot build cfg key value = .ok (.slot c' sid slotId)) :
    Written (c.putWrites build cfg key value) c c' := by
  simp only [Cache.putSlot, Execution.bind_eq_ok] at hRun
  obtain ⟨alloc, hAlloc, hEnd⟩ := hRun
  cases alloc with
  | tooLarge => cases hEnd
  | wait => cases hEnd
  | slot c₁ sid₁ slotId₁ =>
      obtain ⟨rfl, rfl, rfl⟩ := SlotAlloc.slot.inj (Execution.pure_eq_ok.mp hEnd)
      simp only [Cache.putWrites, hAlloc]
      have hSame : Written [] c c₁ := (slotAlloc_sameData hAlloc).written
      refine hSame.trans (written_slot ?_ fun x hx => ?_)
      · simp [Cache.writeSlot, Slab.writeSlot]
      · rw [Cache.writeSlot, Table.get_modify_of_ne _ _ hx]

theorem insertEntry_sameData {key : Key} {sid slotId : Nat}
    (hRun : c.insertEntry cfg key sid slotId = some c') : SameData c c' := by
  unfold Cache.insertEntry at hRun
  split at hRun
  · cases hRun
  · obtain rfl := Option.some.inj hRun
    exact .refl c

theorem putIndex_sameData {key : Key} {sid slotId : Nat}
    (hRun : c.putIndex build cfg key sid slotId = .ok (some c')) : SameData c c' := by
  unfold Cache.putIndex at hRun
  split at hRun
  · simp only [Cache.overwriteEntry, Execution.bind_eq_ok, Execution.pure_eq_ok] at hRun
    obtain ⟨_, ⟨_, -, rfl⟩, hEnd⟩ := hRun
    obtain rfl := Option.some.inj hEnd
    exact fun x => data_modify _ _ x rfl
  · exact insertEntry_sameData (Except.ok.inj hRun)

theorem putFull_sameData (c : Cache) (sid : Nat) : SameData c (c.putFull sid) := by
  unfold Cache.putFull
  split <;> exact .refl c

theorem delete_sameData {key : Key} (hRun : c.delete build cfg key = .ok c') : SameData c c' := by
  unfold Cache.delete at hRun
  split at hRun
  · obtain rfl := Except.ok.inj hRun
    exact .refl c
  · cases build with
    | release =>
        obtain rfl := Except.ok.inj hRun
        exact .refl c
    | debug =>
        simp only [Execution.bind_eq_ok, Execution.pure_eq_ok] at hRun
        obtain ⟨_, -, rfl⟩ := hRun
        exact fun x => data_modify _ _ x rfl

/-! ### The flush thread -/

theorem takeFull_sameData {m : Nat} (hRun : c.takeFull build = .ok (m, c')) : SameData c c' := by
  rw [takeFull_changes hRun]
  exact .refl c

theorem takeFreeFrom_sameData {beginning rounds : Nat} {found : Option (Nat × Nat)}
    (hRun : Cache.takeFreeFrom build cfg beginning rounds c = .ok (found, c')) : SameData c c' := by
  obtain ⟨_, _, _, rfl⟩ := takeFreeFrom_changes hRun
  exact .refl c

theorem resetSlab_sameData (c : Cache) (x : Nat) : SameData c (c.resetSlab x) :=
  fun x => data_modify _ _ x rfl

theorem copyHeader_sameData (c : Cache) (src dst : Nat) : SameData c (c.copyHeader src dst) :=
  fun x => data_modify _ _ x rfl

theorem modifyIndexTo_sameData (c : Cache) (src dst : Nat) :
    SameData c (c.modifyIndexTo cfg src dst) := fun x => by
  rw [Inv.modifyIndexTo_same c src dst x]

theorem stepFlush_sameData {a a' : FlushAt}
    (hRun : Threads.stepFlush build cfg c a = .ok (c', a')) : SameData c c' := by
  cases a with
  | idle =>
      simp only [Threads.stepFlush, Execution.bind_eq_ok, Execution.pure_eq_ok] at hRun
      obtain ⟨⟨m, c₁⟩, hTake, hEnd⟩ := hRun
      obtain ⟨rfl, -⟩ := Prod.mk.inj hEnd
      exact takeFull_sameData hTake
  | holding m =>
      simp only [Threads.stepFlush, Execution.bind_eq_ok] at hRun
      obtain ⟨⟨found, c₁⟩, hTake, hEnd⟩ := hRun
      cases found <;> obtain ⟨rfl, -⟩ := Prod.mk.inj (Execution.pure_eq_ok.mp hEnd) <;>
        exact takeFreeFrom_sameData hTake
  | copied m d channel =>
      simp only [Threads.stepFlush, Execution.bind_eq_ok, Execution.pure_eq_ok] at hRun
      obtain ⟨_, -, _, -, hEnd⟩ := hRun
      obtain ⟨rfl, -⟩ := Prod.mk.inj hEnd
      exact modifyIndexTo_sameData c m d
  | found m d channel =>
      obtain ⟨rfl, -⟩ := Prod.mk.inj (Except.ok.inj hRun)
      exact .refl c
  | written m d channel =>
      obtain ⟨rfl, -⟩ := Prod.mk.inj (Except.ok.inj hRun)
      exact copyHeader_sameData c m d
  | moved m d channel =>
      obtain ⟨rfl, -⟩ := Prod.mk.inj (Except.ok.inj hRun)
      exact resetSlab_sameData c m
  | reset m d channel =>
      obtain ⟨rfl, -⟩ := Prod.mk.inj (Except.ok.inj hRun)
      exact .refl c
  | freed d channel =>
      obtain ⟨rfl, -⟩ := Prod.mk.inj (Except.ok.inj hRun)
      exact .refl c

/-! ### The collector -/

theorem foldlM_sameData {f : Cache → Nat → Except Stop Cache} {ds : List Nat}
    (hBody : ∀ c d c', f c d = .ok c' → SameData c c') (hRun : ds.foldlM f c = .ok c') :
    SameData c c' :=
  Execution.foldlM_rule (fun _ c₁ => SameData c c₁)
    (fun d _ c₁ c₂ hBefore hStep => hBefore.trans (hBody c₁ d c₂ hStep)) hRun (.refl c)

theorem dropDslab_sameData {d : Nat} (hRun : c.dropDslab build cfg d = .ok c') : SameData c c' := by
  simp only [Cache.dropDslab, Execution.bind_eq_ok, Execution.pure_eq_ok] at hRun
  obtain ⟨_, -, rfl⟩ := hRun
  exact fun x => data_modify _ _ x rfl

theorem backToOpsPool_sameData {ds : List Nat} {o i : Int} :
    SameData c (Cache.backToOpsPool cfg o i ds c).2 := by
  induction ds generalizing c i with
  | nil => exact .refl c
  | cons d rest ih =>
      simp only [Cache.backToOpsPool]
      split
      · exact resetSlab_sameData c d
      · exact (resetSlab_sameData c d).trans fun x => ih x

theorem linkDslabFree_sameData {channel d : Nat}
    (hRun : Cache.linkDslabFree build cfg channel c d = .ok c') : SameData c c' := by
  simp only [Cache.linkDslabFree, Execution.bind_eq_ok, Execution.pure_eq_ok] at hRun
  obtain ⟨_, -, rfl⟩ := hRun
  exact resetSlab_sameData c d

theorem reclaim_sameData {freeList : Table SlabList}
    (hRun : c.reclaim build cfg freeList = .ok c') : SameData c c' :=
  foldlM_sameData (fun _ _ _ hStep => foldlM_sameData (fun _ _ _ => linkDslabFree_sameData) hStep)
    hRun

theorem takeOpsFrom_sameData {begin rounds : Nat} {ops : Option Nat}
    (hRun : Cache.takeOpsFrom cfg begin rounds c = (ops, c')) : SameData c c' := by
  induction rounds generalizing c with
  | zero =>
      obtain ⟨-, rfl⟩ := Prod.mk.inj hRun
      exact .refl c
  | succ rounds ih =>
      simp only [Cache.takeOpsFrom] at hRun
      split at hRun
      · obtain ⟨-, rfl⟩ := Prod.mk.inj hRun
        exact .refl c
      · split at hRun
        · have hRest := ih hRun
          exact fun x => hRest x
        · obtain ⟨-, rfl⟩ := Prod.mk.inj hRun
          exact .refl c

theorem relinkFull_sameData {ops : Nat} {toDrop : List Nat} {freeList : Table SlabList} :
    SameData c (c.relinkFull cfg ops toDrop freeList).1 := by
  refine Execution.foldl_rule (fun _ (s : Cache × Table SlabList) => SameData c s.1)
    (fun d _ s hBefore => ?_) ?_
  · exact fun x => hBefore x
  · exact resetSlab_sameData c ops

theorem shrinkOps_sameData {freeList : Table SlabList} :
    SameData c (c.shrinkOps cfg freeList).1 := by
  simp only [Cache.shrinkOps]
  split
  · exact .refl c
  · exact fun x => data_modify _ _ x rfl

theorem tuneOpsPool_sameData (c : Cache) (oldOpsSize : Int) :
    SameData c (c.tuneOpsPool oldOpsSize).2 := by
  unfold Cache.tuneOpsPool
  split <;> exact .refl c

theorem stepQuick_sameData {fuel : Nat} {a a' : GcAt}
    (hRun : Threads.stepQuick build cfg fuel c a = .ok (c', a')) : SameData c c' := by
  cases a with
  | idle =>
      simp only [Threads.stepQuick] at hRun
      split at hRun
      · cases hRun
      · obtain ⟨rfl, -⟩ := Prod.mk.inj (Except.ok.inj hRun)
        exact .refl c
  | awake =>
      simp only [Threads.stepQuick, Execution.bind_eq_ok, Execution.pure_eq_ok] at hRun
      obtain ⟨_, -, hEnd⟩ := hRun
      obtain ⟨rfl, -⟩ := Prod.mk.inj hEnd
      exact .refl c
  | decide nrFree =>
      simp only [Threads.stepQuick] at hRun
      split at hRun
      · obtain ⟨rfl, -⟩ := Prod.mk.inj (Except.ok.inj hRun)
        exact .refl c
      · split at hRun <;> obtain ⟨rfl, -⟩ := Prod.mk.inj (Except.ok.inj hRun) <;> exact .refl c
  | quickTune =>
      simp only [Threads.stepQuick, Execution.bind_eq_ok, Execution.pure_eq_ok] at hRun
      obtain ⟨_, -, _, -, hEnd⟩ := hRun
      obtain ⟨rfl, -⟩ := Prod.mk.inj hEnd
      exact .refl c
  | quickSelect f o =>
      simp only [Threads.stepQuick, Execution.bind_eq_ok, Execution.pure_eq_ok] at hRun
      obtain ⟨_, -, _, -, ⟨toDrop, c₁⟩, hSelect, hEnd⟩ := hRun
      obtain ⟨rfl, -⟩ := Prod.mk.inj hEnd
      exact sameData_of_slabs (selectDrop_same hSelect).1
  | quickEvict o toDrop todo =>
      cases todo with
      | nil =>
          obtain ⟨rfl, -⟩ := Prod.mk.inj (Except.ok.inj hRun)
          exact backToOpsPool_sameData
      | cons d todo =>
          simp only [Threads.stepQuick, Execution.bind_eq_ok, Execution.pure_eq_ok] at hRun
          obtain ⟨c₁, hDrop, hEnd⟩ := hRun
          obtain ⟨rfl, -⟩ := Prod.mk.inj hEnd
          exact dropDslab_sameData hDrop
  | quickFree rest =>
      simp only [Threads.stepQuick, Execution.bind_eq_ok, Execution.pure_eq_ok] at hRun
      obtain ⟨c₁, hBack, _, -, hEnd⟩ := hRun
      obtain ⟨rfl, -⟩ := Prod.mk.inj hEnd
      exact foldlM_sameData (fun _ _ _ => linkDslabFree_sameData) hBack
  | _ => cases hRun

theorem stepChoose_sameData {pick : List Nat} {a a' : GcAt}
    (hRun : Threads.stepChoose build cfg pick c a = .ok (c', a')) : SameData c c' := by
  cases a with
  | scan channel pq =>
      simp only [Threads.stepChoose] at hRun
      split at hRun
      · split at hRun
        · cases hRun
        · split at hRun
          · obtain ⟨rfl, -⟩ := Prod.mk.inj (Except.ok.inj hRun)
            exact .refl c
          · cases hRun
      · simp only [Execution.bind_eq_ok, Execution.pure_eq_ok] at hRun
        obtain ⟨_, -, hEnd⟩ := hRun
        obtain ⟨rfl, -⟩ := Prod.mk.inj hEnd
        exact .refl c
  | batch n cid toDrop moved left =>
      cases left with
      | nil =>
          obtain ⟨rfl, -⟩ := Prod.mk.inj (Except.ok.inj hRun)
          exact .refl c
      | cons d left =>
          simp only [Threads.stepChoose, Execution.bind_eq_ok] at hRun
          obtain ⟨_, -, hRun⟩ := hRun
          split at hRun <;> obtain ⟨rfl, -⟩ := Prod.mk.inj (Execution.pure_eq_ok.mp hRun) <;>
            exact .refl c
  | _ => cases hRun

theorem stepHandBack_sameData {a a' : GcAt}
    (hRun : Threads.stepHandBack build cfg c a = .ok (c', a')) : SameData c c' := by
  cases a with
  | tune n =>
      simp only [Threads.stepHandBack, Execution.bind_eq_ok, Execution.pure_eq_ok] at hRun
      obtain ⟨_, -, hEnd⟩ := hRun
      obtain ⟨rfl, -⟩ := Prod.mk.inj hEnd
      exact tuneOpsPool_sameData c n.oldOpsSize
  | refill n newOpsSize left channel =>
      simp only [Threads.stepHandBack] at hRun
      split at hRun
      · simp only [Execution.bind_eq_ok, Execution.pure_eq_ok] at hRun
        obtain ⟨_, -, hEnd⟩ := hRun
        obtain ⟨rfl, -⟩ := Prod.mk.inj hEnd
        exact .refl c
      · split at hRun <;> obtain ⟨rfl, -⟩ := Prod.mk.inj (Except.ok.inj hRun)
        · exact .refl c
        · exact fun x => data_modify _ _ x rfl
  | shrink n count =>
      cases count with
      | zero =>
          obtain ⟨rfl, -⟩ := Prod.mk.inj (Except.ok.inj hRun)
          exact .refl c
      | succ count =>
          obtain ⟨rfl, -⟩ := Prod.mk.inj (Except.ok.inj hRun)
          exact shrinkOps_sameData
  | reclaim n =>
      simp only [Threads.stepHandBack, Execution.bind_eq_ok, Execution.pure_eq_ok] at hRun
      obtain ⟨c₁, hReclaim, _, -, hEnd⟩ := hRun
      obtain ⟨rfl, -⟩ := Prod.mk.inj hEnd
      exact reclaim_sameData hReclaim
  | _ => cases hRun

/-! ### Moving slots -/

theorem moveSlot_written {d i : Nat} {fake : Slab}
    (hRun : Cache.moveSlot build cfg d fake c i = .ok c') :
    Written (Cache.slotWrites cfg d fake c i) c c' := by
  simp only [Cache.moveSlot] at hRun
  split at hRun
  · obtain rfl := Except.ok.inj hRun
    exact (SameData.refl c).written
  · rename_i e hGet
    split at hRun
    · rename_i hLive
      simp only [Slab.slotAlloc, Execution.bind_eq_ok, Execution.pure_eq_ok] at hRun
      obtain ⟨⟨slab, newSlot⟩, ⟨_, -, hSlab⟩, rfl⟩ := hRun
      obtain ⟨rfl, rfl⟩ := Prod.mk.inj hSlab
      simp only [Cache.slotWrites, hGet, if_pos hLive]
      refine written_slot ?_ fun x hx => ?_
      · rw [Table.get_set_self]
        rfl
      · rw [Table.get_set_of_ne _ _ hx]
    · obtain rfl := Except.ok.inj hRun
      exact (SameData.refl c).written

theorem moveSlots_written {d : Nat} {fake : Slab} {slots : List Nat}
    (hRun : slots.foldlM (Cache.moveSlot build cfg d fake) c = .ok c') :
    Written (c.moveWrites build cfg d fake slots) c c' := by
  induction slots generalizing c with
  | nil =>
      obtain rfl : c = c' := by simpa using hRun
      exact (SameData.refl c).written
  | cons i rest ih =>
      rw [List.foldlM_cons, Execution.bind_eq_ok] at hRun
      obtain ⟨c₁, hFirst, hRest⟩ := hRun
      simp only [Cache.moveWrites, hFirst]
      exact (moveSlot_written hFirst).trans (ih hRest)

theorem moveLive_written {d : Nat} {fake : Slab} (hRun : c.moveLive build cfg d fake = .ok c') :
    Written (c.moveWrites build cfg d fake (List.range fake.nrAlloc)) c c' := by
  simp only [Cache.moveLive, Execution.bind_eq_ok, Execution.pure_eq_ok] at hRun
  obtain ⟨c₁, hMove, rfl⟩ := hRun
  intro x i hOut
  rw [data_modify _ _ _ rfl]
  exact moveSlots_written hMove x i hOut

theorem stepCollect_written {a a' : GcAt} {pick : List Nat} {fuel : Nat} {t : Threads}
    (hRun : Threads.stepCollect build cfg t.cache a = .ok (c', a')) (hAt : t.gc = a) :
    Written (t.writes build cfg (.gc pick fuel)) t.cache c' := by
  cases a with
  | take n cid toDrop =>
      refine SameData.written ?_
      simp only [Threads.stepCollect] at hRun
      generalize hTake : t.cache.takeOps cfg = taken at hRun
      obtain ⟨ops, c₁⟩ := taken
      cases ops with
      | none => cases build <;> cases hRun
      | some ops =>
          obtain ⟨rfl, -⟩ := Prod.mk.inj (Except.ok.inj hRun)
          exact takeOpsFrom_sameData hTake
  | relink n cid ops toDrop =>
      obtain ⟨rfl, -⟩ := Prod.mk.inj (Except.ok.inj hRun)
      exact relinkFull_sameData.written
  | prepare n cid ops toDrop =>
      cases toDrop with
      | nil => cases hRun
      | cons first rest =>
          obtain ⟨rfl, -⟩ := Prod.mk.inj (Except.ok.inj hRun)
          exact SameData.written fun x => data_modify _ _ x rfl
  | check n cid ops size todo =>
      refine SameData.written ?_
      cases todo with
      | nil =>
          simp only [Threads.stepCollect, Execution.bind_eq_ok, Execution.pure_eq_ok] at hRun
          obtain ⟨_, -, hEnd⟩ := hRun
          obtain ⟨rfl, -⟩ := Prod.mk.inj hEnd
          exact .refl t.cache
      | cons d todo =>
          simp only [Threads.stepCollect, Execution.bind_eq_ok, Execution.pure_eq_ok] at hRun
          obtain ⟨_, -, hEnd⟩ := hRun
          obtain ⟨rfl, -⟩ := Prod.mk.inj hEnd
          exact .refl t.cache
  | move n cid ops size d fake todo =>
      simp only [Threads.stepCollect, Execution.bind_eq_ok, Execution.pure_eq_ok] at hRun
      obtain ⟨c₁, hMove, hEnd⟩ := hRun
      obtain ⟨rfl, -⟩ := Prod.mk.inj hEnd
      simp only [Threads.writes, hAt]
      exact moveLive_written hMove
  | copy n cid ops =>
      obtain ⟨rfl, -⟩ := Prod.mk.inj (Except.ok.inj hRun)
      exact (copyHeader_sameData _ _ _).written
  | modify n cid ops =>
      obtain ⟨rfl, -⟩ := Prod.mk.inj (Except.ok.inj hRun)
      exact (modifyIndexTo_sameData _ _ _).written
  | _ => cases hRun

/-! ### Any step -/

theorem stepGc_written {a : GcAt} {pick : List Nat} {fuel : Nat} {t : Threads}
    (hRun : Threads.stepGc build cfg pick fuel t.cache t.gc = .ok (c', a)) :
    Written (t.writes build cfg (.gc pick fuel)) t.cache c' := by
  cases hAt : t.gc with
  | scan _ _ | batch _ _ _ _ _ =>
      simp only [hAt, Threads.stepGc] at hRun
      exact (stepChoose_sameData hRun).written
  | take _ _ _ | relink _ _ _ _ | prepare _ _ _ _ | check _ _ _ _ _ | move _ _ _ _ _ _ _
  | copy _ _ _ | modify _ _ _ =>
      simp only [hAt, Threads.stepGc] at hRun
      exact stepCollect_written hRun hAt
  | tune _ | refill _ _ _ _ | shrink _ _ | reclaim _ =>
      simp only [hAt, Threads.stepGc] at hRun
      exact (stepHandBack_sameData hRun).written
  | _ =>
      simp only [hAt, Threads.stepGc] at hRun
      exact (stepQuick_sameData hRun).written

theorem beginPut_written {key : Key} {value : Value} {t t' : Threads}
    (hRun : t.beginPut build cfg key value = .ok t') :
    Written (t.writes build cfg (.put key value)) t.cache t'.cache := by
  unfold Threads.beginPut at hRun
  cases hAt : t.writer with
  | idle =>
      rw [hAt] at hRun
      obtain ⟨alloc, hAlloc, hRun⟩ := Execution.bind_eq_ok.mp hRun
      cases alloc with
      | tooLarge =>
          obtain rfl := Execution.pure_eq_ok.mp hRun
          exact (SameData.refl _).written
      | wait => cases hRun
      | slot c sid slotId =>
          obtain rfl := Execution.pure_eq_ok.mp hRun
          simp only [Threads.writes, hAt]
          exact putSlot_written hAlloc
  | _ =>
      rw [hAt] at hRun
      cases hRun

theorem stepWriter_sameData {t t' : Threads} {done : List Event}
    (hRun : t.stepWriter build cfg = .ok (t', done)) : SameData t.cache t'.cache := by
  unfold Threads.stepWriter at hRun
  split at hRun
  · cases hRun
  · obtain ⟨found, hIndex, hRun⟩ := Execution.bind_eq_ok.mp hRun
    cases found with
    | none =>
        obtain ⟨rfl, -⟩ := Prod.mk.inj (Execution.pure_eq_ok.mp hRun)
        exact .refl _
    | some c =>
        obtain ⟨rfl, -⟩ := Prod.mk.inj (Execution.pure_eq_ok.mp hRun)
        exact putIndex_sameData hIndex
  · split at hRun
    · rename_i hInsert
      obtain ⟨rfl, -⟩ := Prod.mk.inj (Except.ok.inj hRun)
      exact insertEntry_sameData hInsert
    · cases hRun
  · obtain ⟨rfl, -⟩ := Prod.mk.inj (Except.ok.inj hRun)
    exact putFull_sameData _ _

/-- A step changes the bytes that it is said to write, and no others. -/
theorem step_written {t t' : Threads} {act : Act} {done : List Event}
    (hRun : t.step build cfg act = .ok (t', done)) :
    Written (t.writes build cfg act) t.cache t'.cache := by
  cases act with
  | put key value =>
      simp only [Threads.step, Execution.bind_eq_ok, Execution.pure_eq_ok] at hRun
      obtain ⟨t₁, hPut, hEnd⟩ := hRun
      obtain ⟨rfl, -⟩ := Prod.mk.inj hEnd
      exact beginPut_written hPut
  | writer => exact (stepWriter_sameData hRun).written
  | delete key =>
      simp only [Threads.step, Execution.bind_eq_ok, Execution.pure_eq_ok] at hRun
      obtain ⟨c, hDelete, hEnd⟩ := hRun
      obtain ⟨rfl, -⟩ := Prod.mk.inj hEnd
      exact (delete_sameData hDelete).written
  | flush =>
      simp only [Threads.step, Execution.bind_eq_ok, Execution.pure_eq_ok] at hRun
      obtain ⟨⟨c, a⟩, hFlush, hEnd⟩ := hRun
      obtain ⟨rfl, -⟩ := Prod.mk.inj hEnd
      exact (stepFlush_sameData hFlush).written
  | gc pick fuel =>
      simp only [Threads.step, Execution.bind_eq_ok, Execution.pure_eq_ok] at hRun
      obtain ⟨⟨c, a⟩, hGc, hEnd⟩ := hRun
      obtain ⟨rfl, -⟩ := Prod.mk.inj hEnd
      exact stepGc_written hGc

/-- A view reads the same bytes as long as no step writes under it. -/
theorem read_of_spared {slice : Slice} {t t' : Threads} {acts : List Act} {done : List Event}
    (hRun : Threads.run build cfg t acts = .ok (t', done))
    (hSpared : Runs.Along (Threads.step build cfg) (fun t => t.Spares build cfg slice) t acts) :
    slice.read t'.cache = slice.read t.cache :=
  Runs.run_invariant (P := fun t' => slice.read t'.cache = slice.read t.cache)
    (fun _ _ _ _ hBefore hMiss hStep => ((step_written hStep).read hMiss).trans hBefore) hRun
    hSpared rfl

end KVCache
