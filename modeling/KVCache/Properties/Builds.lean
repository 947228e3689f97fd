import KVCache.Properties.Lookup

/-! Debug and release builds. An assertion that holds makes no difference, as
long as its argument has no effect. The argument of the one in `Delete` has: it
decrements the use count. -/

namespace KVCache

open Execution

variable {cfg : Config} {c : Cache} {s s' : Sys} {op : Op} {ops : List Op}
  {events done : List Event}

/-! ### Operations without an effect in an assertion -/

theorem assertThat_agree {site : Assertion} {cond : Bool} :
    Agree (assertThat .debug site cond) (assertThat .release site cond) := by
  intro a h
  cases a
  rfl

theorem Slab.slotAlloc_agree {t : Slab} : Agree (t.slotAlloc .debug) (t.slotAlloc .release) :=
  assertThat_agree.bind fun _ => .refl _

namespace Cache

theorem allocPartial_agree {cid sid : Nat} :
    Agree (c.allocPartial .debug cid sid) (c.allocPartial .release cid sid) :=
  assertThat_agree.bind fun _ => assertThat_agree.bind fun _ =>
    Slab.slotAlloc_agree.bind fun _ => .refl _

theorem slotAlloc_agree {size : Nat} :
    Agree (c.slotAlloc .debug cfg size) (c.slotAlloc .release cfg size) := by
  unfold slotAlloc
  split
  · exact .refl _
  · split
    · exact allocPartial_agree.bind fun _ => .refl _
    · exact allocPartial_agree.bind fun _ => .refl _
    · exact .refl _

theorem putSlot_agree {key : Key} {value : Value} :
    Agree (c.putSlot .debug cfg key value) (c.putSlot .release cfg key value) :=
  slotAlloc_agree.bind fun _ => .refl _

theorem putIndex_agree {key : Key} {sid slotId : Nat} :
    Agree (c.putIndex .debug cfg key sid slotId) (c.putIndex .release cfg key sid slotId) := by
  unfold putIndex
  split
  · exact (assertThat_agree.bind fun _ => .refl _).bind fun _ => .refl _
  · exact .refl _

theorem getSlice_agree {key : Key} :
    Agree (c.getSlice .debug cfg key) (c.getSlice .release cfg key) := by
  unfold getSlice
  split
  · exact .refl _
  · exact .ite (assertThat_agree.bind fun _ => .refl _) (.refl _)

theorem takeFull_agree : Agree (c.takeFull .debug) (c.takeFull .release) := by
  unfold takeFull
  split
  · exact .refl _
  · exact assertThat_agree.bind fun _ => .refl _

theorem takeFreeFrom_agree {beginning rounds : Nat} :
    Agree (takeFreeFrom .debug cfg beginning rounds c)
      (takeFreeFrom .release cfg beginning rounds c) := by
  induction rounds generalizing c with
  | zero => exact .refl _
  | succ rounds ih =>
      simp only [takeFreeFrom]
      split
      · exact assertThat_agree.bind fun _ => assertThat_agree.bind fun _ => .refl _
      · exact .ite ih (.refl _)

theorem finishFlush_agree {m d channel : Nat} :
    Agree (c.finishFlush .debug cfg m d channel) (c.finishFlush .release cfg m d channel) :=
  assertThat_agree.bind fun _ => assertThat_agree.bind fun _ => .refl _

theorem linkDslabFree_agree {channel d : Nat} :
    Agree (linkDslabFree .debug cfg channel c d) (linkDslabFree .release cfg channel c d) :=
  assertThat_agree.bind fun _ => .refl _

theorem doQuickGc_agree {fuel : Nat} {f o : Int} :
    Agree (doQuickGc .debug cfg fuel f o c) (doQuickGc .release cfg fuel f o c) :=
  assertThat_agree.bind fun _ => assertThat_agree.bind fun _ => (Agree.refl _).bind fun _ =>
    (Agree.foldlM (fun _ _ => assertThat_agree.bind fun _ => .refl _) _ _).bind fun _ =>
      (Agree.foldlM (fun _ _ => linkDslabFree_agree) _ _).bind fun _ =>
        assertThat_agree.bind fun _ => .refl _

theorem quickGc_agree {fuel : Nat} : Agree (quickGc .debug cfg fuel c) (quickGc .release cfg fuel c) :=
  assertThat_agree.bind fun _ => assertThat_agree.bind fun _ => doQuickGc_agree

theorem takeBatch_agree {ds : List Nat} {moved : Int} :
    Agree (c.takeBatch .debug ds moved) (c.takeBatch .release ds moved) := by
  induction ds generalizing moved with
  | nil => exact .refl _
  | cons d ds ih => exact assertThat_agree.bind fun _ => .ite (.refl _) (ih.bind fun _ => .refl _)

theorem moveSlot_agree {d slotId : Nat} {fake : Slab} :
    Agree (moveSlot .debug cfg d fake c slotId) (moveSlot .release cfg d fake c slotId) := by
  unfold moveSlot
  split
  · exact .refl _
  · exact .ite (Slab.slotAlloc_agree.bind fun _ => .refl _) (.refl _)

theorem moveDslab_agree {size : Int} {d : Nat} :
    Agree (moveDslab .debug cfg (c, size) d) (moveDslab .release cfg (c, size) d) :=
  (assertThat_agree.bind fun _ => assertThat_agree.bind fun _ => assertThat_agree.bind fun _ =>
    .refl _).bind fun _ =>
      ((Agree.foldlM (fun _ _ => moveSlot_agree) _ _).bind fun _ => .refl _).bind fun _ => .refl _

theorem gcDslabs_agree {toDrop : List Nat} {freeList : Table SlabList} :
    Agree (gcDslabs .debug cfg toDrop c freeList) (gcDslabs .release cfg toDrop c freeList) := by
  unfold gcDslabs
  split
  · exact (Agree.foldlM (fun _ _ => moveDslab_agree) _ _).bind fun _ =>
      assertThat_agree.bind fun _ => .refl _
  · exact .refl _
  · exact assertThat_agree.bind fun _ => .refl _

theorem collectClasses_agree {kept : Nat → List Nat} {ks : List Nat} {freeList : Table SlabList} :
    Agree (collectClasses .debug cfg kept ks c freeList)
      (collectClasses .release cfg kept ks c freeList) := by
  induction ks generalizing c freeList with
  | nil => exact .refl _
  | cons k ks ih =>
      exact takeBatch_agree.bind fun _ =>
        .ite (.ite (.refl _) (gcDslabs_agree.bind fun _ => ih)) ih

theorem finishNormalGc_agree {fuel : Nat} {size : Int} {freeList : Table SlabList} :
    Agree (c.finishNormalGc .debug cfg fuel size freeList)
      (c.finishNormalGc .release cfg fuel size freeList) :=
  assertThat_agree.bind fun _ => (Agree.refl _).bind fun _ => assertThat_agree.bind fun _ =>
    (Agree.foldlM (fun _ _ => .foldlM (fun _ _ => linkDslabFree_agree) _ _) _ _).bind fun _ =>
      assertThat_agree.bind fun _ => .refl _

theorem normalGc_agree {fuel : Nat} :
    Agree (c.normalGc .debug cfg fuel) (c.normalGc .release cfg fuel) :=
  (Agree.refl _).bind fun _ => assertThat_agree.bind fun _ =>
    collectClasses_agree.bind fun _ => finishNormalGc_agree

theorem doSlabGc_agree {fuel : Nat} :
    Agree (c.doSlabGc .debug cfg fuel) (c.doSlabGc .release cfg fuel) :=
  .ite (.refl _) (assertThat_agree.bind fun _ => .ite doQuickGc_agree (.ite quickGc_agree normalGc_agree))

theorem create_agree : Agree (create .debug cfg) (create .release cfg) :=
  ((Agree.foldlM (fun _ _ => assertThat_agree.bind fun _ =>
    .ite (.refl _) (assertThat_agree.bind fun _ => .refl _)) _ _).bind fun _ =>
      assertThat_agree.bind fun _ => .refl _).bind fun _ => .refl _

end Cache

namespace Sys

theorem putStart_agree {key : Key} {value : Value} :
    Agree (s.putStart .debug cfg key value) (s.putStart .release cfg key value) := by
  refine .ite (.refl _) (Cache.putSlot_agree.bind fun alloc => ?_)
  cases alloc with
  | tooLarge => exact .refl _
  | wait => exact .refl _
  | slot c sid slotId => exact Cache.putIndex_agree.bind fun _ => .refl _

theorem flushFrom_agree {m : Nat} :
    Agree (s.flushFrom .debug cfg m) (s.flushFrom .release cfg m) := by
  refine Cache.takeFreeFrom_agree.bind fun found => ?_
  obtain ⟨_ | ⟨d, channel⟩, c⟩ := found
  · exact .refl _
  · exact Cache.finishFlush_agree.bind fun _ => .refl _

theorem flushStart_agree : Agree (s.flushStart .debug cfg) (s.flushStart .release cfg) :=
  .ite (.refl _) (Cache.takeFull_agree.bind fun _ => flushFrom_agree)

theorem flushResume_agree : Agree (s.flushResume .debug cfg) (s.flushResume .release cfg) := by
  unfold flushResume
  split
  · exact .refl _
  · exact flushFrom_agree

/-- A `Delete` that does not find its key. -/
def DeleteMisses (cfg : Config) (s : Sys) : Op → Prop
  | .delete key => s.cache.index.getIndexEntry cfg key = none
  | _ => True

instance DeleteMisses.decidable (s : Sys) : (op : Op) → Decidable (DeleteMisses cfg s op)
  | .delete key => inferInstanceAs (Decidable (s.cache.index.getIndexEntry cfg key = none))
  | .put _ _ | .putResume | .get _ | .flush | .flushResume | .gc _ => isTrue trivial

/-- Only a `Delete` that finds its key tells the builds apart. -/
theorem step_agree (hMiss : s.DeleteMisses cfg op) :
    Agree (s.step .debug cfg op) (s.step .release cfg op) := by
  cases op with
  | put key value => exact putStart_agree
  | putResume => exact .refl _
  | delete key =>
      have hNone : s.cache.index.getIndexEntry cfg key = none := hMiss
      simp only [step, Cache.delete, hNone]
      exact .refl _
  | get key => exact Cache.getSlice_agree.bind fun _ => .refl _
  | flush => exact flushStart_agree.bind fun _ => .refl _
  | flushResume => exact flushResume_agree.bind fun _ => .refl _
  | gc fuel => exact Cache.doSlabGc_agree.bind fun _ => .refl _

/-- A `Delete` that finds its key leaves a use count behind in a release build
that a debug build has decremented. -/
theorem deleteMisses_of_step_eq (hDebug : s.step .debug cfg op = .ok (s', done))
    (hRelease : s.step .release cfg op = .ok (s', done)) : s.DeleteMisses cfg op := by
  cases op with
  | delete key =>
      change s.cache.index.getIndexEntry cfg key = none
      cases hGet : s.cache.index.getIndexEntry cfg key with
      | none => rfl
      | some e =>
          simp only [step, Cache.delete, hGet, bind_eq_ok, pure_eq_ok, Prod.mk.injEq] at hDebug hRelease
          obtain ⟨c₁, ⟨_, -, rfl⟩, rfl, -⟩ := hDebug
          obtain ⟨c₂, hSame, hEq, -⟩ := hRelease
          obtain rfl := Except.ok.inj hSame
          have hUsed := congrArg (fun t : Sys => (t.cache.slabs
            ((s.cache.index.unlink cfg key e).indexEntryFree e |>.entries e).slabId).nrUsed) hEq
          simp only [Table.get_modify_self] at hUsed
          omega
  | put key value => trivial
  | putResume => trivial
  | get key => trivial
  | flush => trivial
  | flushResume => trivial
  | gc fuel => trivial

/-! ### Runs -/

theorem run_agree_iff {r : Sys × List Event} (hRun : run .debug cfg s ops = .ok r) :
    (∀ n, run .release cfg s (ops.take n) = run .debug cfg s (ops.take n)) ↔
      Along .debug cfg (DeleteMisses cfg) s ops := by
  induction ops generalizing s r with
  | nil => exact ⟨fun _ => trivial, fun _ n => by rw [List.take_nil]; rfl⟩
  | cons op rest ih =>
      obtain ⟨s₁, first, later, hStep, hRest, -⟩ := Runs.run_cons.mp hRun
      have hAlong : Along .debug cfg (DeleteMisses cfg) s (op :: rest) ↔
          s.DeleteMisses cfg op ∧ Along .debug cfg (DeleteMisses cfg) s₁ rest :=
        Runs.along_cons hStep
      rw [hAlong, ← ih hRest]
      constructor
      · intro hAll
        have hSingle : run .debug cfg s [op] = .ok (s₁, first) :=
          Runs.run_single.mpr hStep
        have hRelease : s.step .release cfg op = .ok (s₁, first) :=
          Runs.run_single.mp ((hAll 1).trans hSingle)
        refine ⟨deleteMisses_of_step_eq hStep hRelease, fun n => ?_⟩
        obtain ⟨⟨s₂, middle⟩, hMiddle⟩ := Runs.run_take hRest n
        have hLong : run .release cfg s (op :: rest.take n) = .ok (s₂, middle ++ first) :=
          (hAll (n + 1)).trans (Runs.run_cons.mpr ⟨s₁, first, middle, hStep, hMiddle, rfl⟩)
        obtain ⟨s₃, first', later', hStep', hRest', hEvents⟩ := Runs.run_cons.mp hLong
        obtain ⟨rfl, rfl⟩ := Prod.mk.inj (Except.ok.inj (hStep'.symm.trans hRelease))
        rw [List.append_cancel_right hEvents] at hRest'
        exact hRest'.trans hMiddle.symm
      · rintro ⟨hMiss, hAll⟩ n
        cases n with
        | zero => rfl
        | succ n =>
            have hRelease := step_agree hMiss _ hStep
            obtain ⟨⟨s₂, middle⟩, hMiddle⟩ := Runs.run_take hRest n
            have hDebug : run .debug cfg s (op :: rest.take n) = .ok (s₂, middle ++ first) :=
              Runs.run_cons.mpr ⟨s₁, first, middle, hStep, hMiddle, rfl⟩
            rw [List.take_succ_cons, hDebug]
            exact Runs.run_cons.mpr ⟨s₁, first, middle, hRelease, (hAll n).trans hMiddle, rfl⟩

end Sys

end KVCache
