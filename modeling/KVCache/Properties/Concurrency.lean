import KVCache.Invariant.Footprint
import KVCache.Properties.Overflow

/-! What other threads mean for a lookup. The background threads move objects,
and no lookup under the index lock can tell. The bytes of a value are copied
after the lock has been released, though, and by then the slab may have been
flushed, reset and used again. -/

namespace KVCache

variable {build : Build} {cfg : Config} {c c' : Cache} {g g' : Ghost} {t t' : Threads}
  {events done : List Event} {act : Act} {key : Key} {value : Value}

/-! ### Lookups under the lock -/

/-- What `get_slice` returns for what the index entry of a key points to. -/
def sliceResult (key : Key) : Option (Key × Value) → Status × Option Value
  | none => (.notFound, none)
  | some (k, v) => if key ≠ k then (.notFound, none) else (.ok, some v)

/-- A lookup depends on the view alone; its assertion holds. -/
theorem Inv.getSlice_eq (hInv : Inv cfg c g) (build : Build) (key : Key) :
    c.getSlice build cfg key = .ok (sliceResult key (c.view cfg key)) := by
  unfold Cache.getSlice Cache.view
  cases hGet : c.index.getIndexEntry cfg key with
  | none => rfl
  | some e =>
      have hInside := hInv.index.inside e (hInv.index.indexed_of_get hGet)
      have hAssert : assertThat build .getSliceSlotId
          ((c.index.entries e).slotId < (c.slabs (c.index.entries e).slabId).nrAlloc) = .ok () := by
        cases build with
        | release => rfl
        | debug => exact if_pos (decide_eq_true hInside)
      simp only [Option.map_some, sliceResult]
      split
      · rw [hAssert]
        simp only [bind, Except.bind]
        split <;> rfl
      · split <;> rfl

/-- No step of the flush thread and no step of `normal_gc` changes what a lookup
of any key returns. -/
theorem getSlice_of_background (hCfg : cfg.WellFormed) (hReach : Threads.Reachable build cfg t)
    (hAct : act.Background t) (hStep : t.step build cfg act = .ok (t', done)) (key : Key) :
    t'.cache.getSlice build cfg key = t.cache.getSlice build cfg key := by
  obtain ⟨g, hInv⟩ := hReach.inv hCfg.sound
  obtain ⟨g', hNext⟩ := hInv.step hStep
  rw [hInv.inv.getSlice_eq, hNext.inv.inv.getSlice_eq, hNext.view hAct]

/-- The step in which the collector moves the only live slot of a batch. -/
theorem getSlice_of_move :
    ∃ t t' done, Threads.Reachable .debug .small t ∧ t.gc.toMove = [5] ∧
      t.step .debug .small (.gc [] 0) = .ok (t', done) ∧
      t.cache.getSlice .debug .small [1] = .ok (.ok, some [8]) ∧
      t'.cache.getSlice .debug .small [1] = .ok (.ok, some [8]) := by
  obtain ⟨⟨t, events⟩, hRun, hCheck⟩ := Execution.ok_of_check
    (x := Threads.start .debug .small (Act.putFlushed [1] [7] ++ Act.putFlushed [1] [8] ++
      List.replicate 14 (Act.gc [5, 6] 0)))
    (fun r => decide (r.1.gc.toMove = [5] ∧
      r.1.cache.getSlice .debug .small [1] = .ok (.ok, some [8]) ∧
      (r.1.step .debug .small (.gc [] 0)).toBool)) (by decide +kernel)
  obtain ⟨hMove, hGet, hOk⟩ := of_decide_eq_true hCheck
  have hReach : Threads.Reachable .debug .small t := ⟨_, events, hRun⟩
  cases hStep : t.step .debug .small (.gc [] 0) with
  | error stop =>
      rw [hStep] at hOk
      cases hOk
  | ok r =>
      have hNormal : Act.Background t (.gc [] 0) := by
        show t.gc.InNormalGc
        revert hMove
        cases t.gc <;> first | (intro hMove; cases hMove; done) | exact fun _ => trivial
      refine ⟨t, r.1, r.2, hReach, hMove, hStep, hGet, ?_⟩
      rw [← hGet]
      exact getSlice_of_background Config.small_wellFormed hReach hNormal hStep [1]

/-! ### Copying after the lock -/

/-- A value was bound to a key at some moment of a run: a lookup under the lock
finds it. -/
def BoundDuring (build : Build) (cfg : Config) (t : Threads) (acts : List Act) (key : Key)
    (value : Value) : Prop :=
  ∃ n t₁ done, Threads.run build cfg t (acts.take n) = .ok (t₁, done) ∧
    t₁.cache.view cfg key = some (key, value)

/-- The view that a successful lookup returns is one of a value of its key. -/
theorem view_of_lookupSlice {slice : Slice}
    (h : c.lookupSlice build cfg key = .ok (.ok, some slice)) :
    c.view cfg key = some (key, slice.read c) := by
  have hGet : c.getSlice build cfg key = .ok (.ok, some (slice.read c)) := by
    have hWhole := c.get_eq_copySlice build cfg key
    rw [h] at hWhole
    exact hWhole
  exact view_of_getSlice hGet

/-- The schedule that puts another value under the view: the slab of the value
is flushed, and the next `Put` takes it. -/
def Act.flushAndReuse : List Act := List.replicate 8 .flush ++ [.put [2] [9]]

end KVCache
