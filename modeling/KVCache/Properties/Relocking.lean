import KVCache.Semantics.Locking
import KVCache.Properties.Waiting

/-! No thread asks for a mutex that it holds. The flush and the collector take
their locks one after the other, so what matters are the locks held where the
calling thread enters them. One of the calls in `Put` is made under the index
lock, when no index entry is left. -/

namespace KVCache

open Locks

/-- The thread holds none of the locks that the collector takes. -/
structure FreeForGc (held : Held Mutex) : Prop where
  index : held .index = none
  dslabFree : held .dslabFree = none
  dslabFull : held .dslabFull = none

/-- The thread holds none of the locks that the flush takes. -/
structure FreeForFlush (held : Held Mutex) : Prop extends FreeForGc held where
  mslabFree : held .mslabFree = none
  mslabFull : held .mslabFull = none

variable {Good : Site → Shared → Prop} {held : Held Mutex} {u : Setup}

namespace Routine

variable {α : Type}

theorem keeps_onCache (f : Cache → Except Stop (α × Cache)) : Keeps Good held (onCache f) :=
  .call _

theorem keeps_update (f : Cache → Cache) : Keeps Good held (update f) := keeps_onCache _

theorem keeps_see (f : Shared → α) : Keeps Good held (see f) := .call _

theorem keeps_guarded {mutex : Option Mutex} {body : Routine α}
    (hFree : ∀ l, mutex = some l → held l = none) (hBody : ∀ held, Keeps Good held body) :
    Keeps Good held (guarded mutex body) := by
  cases mutex with
  | some l => exact .withLock (hFree l rfl) (hBody _)
  | none => exact hBody held

theorem keeps_stuck : Keeps Good held (stuck : Routine α) := .call _

end Routine

open Routine

/-- The locks that the collector takes. -/
theorem GcAt.mutex_free {a : GcAt} {l : Mutex} (h : FreeForGc held)
    (hMutex : a.mutex u.cfg = some l) : held l = none := by
  have hCases : l = .index ∨ l = .dslabFree ∨ l = .dslabFull := by
    unfold GcAt.mutex at hMutex
    split at hMutex
    all_goals first
      | (obtain rfl := Option.some.inj hMutex; simp)
      | (split at hMutex <;> first | (obtain rfl := Option.some.inj hMutex; simp) | cases hMutex)
      | cases hMutex
  rcases hCases with rfl | rfl | rfl
  · exact h.index
  · exact h.dslabFree
  · exact h.dslabFull

namespace Setup

theorem gcRound_keeps (h : FreeForGc held) (fuel : Nat) (a : GcAt) :
    Keeps Good held (u.gcRound fuel a) := by
  induction fuel generalizing a with
  | zero => exact keeps_stuck
  | succ fuel ih =>
      unfold gcRound
      refine Keeps.bind (keeps_guarded ?_ fun _ => keeps_onCache _) fun next => ?_
      · exact fun l hMutex => GcAt.mutex_free h hMutex
      · exact .ite (fun _ => .pure _) fun _ => ih next

theorem doSlabGc_keeps (h : FreeForGc held) : Keeps Good held u.doSlabGc := by
  unfold doSlabGc
  refine Keeps.bind (.withLock h.dslabFull ?_) fun _ => ?_
  · exact .bind (.waitFor _ (by simp)) fun _ => keeps_see _
  · exact .ite (fun _ => .pure _) fun _ => gcRound_keeps h _ _

theorem slabGc_keeps (h : u.enableBackgroundGc = false → FreeForGc held) :
    Keeps Good held u.slabGc := by
  unfold slabGc
  refine .ite (fun _ => .pure _) fun hMode => ?_
  exact .bind (doSlabGc_keeps (h (by simpa using hMode))) fun _ => .pure _

theorem waitSlabGc_keeps (h : held .dslabFree = none) :
    Keeps Good held u.waitSlabGcUntilShutdown := by
  unfold waitSlabGcUntilShutdown
  refine .ite (fun _ => .withLock h ?_) fun _ => .pure _
  exact .bind (.waitFor _ (by simp)) fun _ => keeps_see _

theorem findDslab_keeps (h : FreeForGc held) (fuel : Nat) :
    Keeps Good held (u.findDslab fuel) := by
  induction fuel with
  | zero => exact keeps_stuck
  | succ fuel ih =>
      unfold findDslab
      refine Keeps.bind (.withLock h.dslabFree (keeps_onCache _)) fun found => ?_
      cases found with
      | some found => exact .pure _
      | none =>
          refine Keeps.bind (slabGc_keeps fun _ => h) fun _ => ?_
          refine Keeps.bind (waitSlabGc_keeps h.dslabFree) fun _ => ?_
          exact .ite (fun _ => ih) fun _ => .pure _

theorem finishSlabFlush_keeps (h : FreeForFlush held) (m d channel : Nat) :
    Keeps Good held (u.finishSlabFlush m d channel) := by
  unfold finishSlabFlush
  refine Keeps.bind (keeps_update _) fun _ => ?_
  refine Keeps.bind (keeps_onCache _) fun _ => ?_
  refine Keeps.bind (.withLock h.index (keeps_update _)) fun _ => ?_
  refine Keeps.bind (keeps_update _) fun _ => ?_
  refine Keeps.bind (.withLock h.mslabFree (keeps_update _)) fun _ => ?_
  exact .withLock h.dslabFull (keeps_update _)

theorem doSlabFlush_keeps (h : FreeForFlush held) : Keeps Good held u.doSlabFlush := by
  unfold doSlabFlush
  refine Keeps.bind (.withLock h.mslabFull ?_) fun full => ?_
  · refine Keeps.bind (.waitFor _ (by simp)) fun _ => ?_
    refine Keeps.bind (keeps_see _) fun _ => ?_
    exact .ite (fun _ => .pure _) fun _ => keeps_onCache _
  · cases full with
    | none => exact .pure _
    | some m =>
        refine Keeps.bind (findDslab_keeps h.toFreeForGc _) fun found => ?_
        cases found with
        | none => exact .pure _
        | some found => exact .bind (finishSlabFlush_keeps h _ _ _) fun _ => .pure _

theorem slabFlush_keeps (h : u.enableBackgroundFlush = false → FreeForFlush held) :
    Keeps Good held u.slabFlush := by
  unfold slabFlush
  refine .ite (fun _ => .pure _) fun hMode => ?_
  exact .bind (doSlabFlush_keeps (h (by simpa using hMode))) fun _ => .pure _

theorem waitSlabFlush_keeps (h : held .mslabFree = none) :
    Keeps Good held u.waitSlabFlushUntilShutdown := by
  unfold waitSlabFlushUntilShutdown
  refine .ite (fun _ => .withLock h ?_) fun _ => .pure _
  exact .bind (.waitFor _ (by simp)) fun _ => keeps_see _

theorem slotAlloc_keeps (h : FreeForFlush held) (size fuel : Nat) :
    Keeps Good held (u.slotAlloc size fuel) := by
  induction fuel with
  | zero => exact keeps_stuck
  | succ fuel ih =>
      unfold slotAlloc
      split
      · exact .pure _
      · refine Keeps.bind (keeps_onCache _) fun slot => ?_
        cases slot with
        | some slot => exact .pure _
        | none =>
            refine Keeps.bind (.withLock h.mslabFree (keeps_onCache _)) fun taken => ?_
            cases taken with
            | some sid => exact .bind (keeps_update _) fun _ => ih
            | none =>
                refine Keeps.bind (slabFlush_keeps fun _ => h) fun _ => ?_
                refine Keeps.bind (waitSlabFlush_keeps h.mslabFree) fun _ => ?_
                exact .ite (fun _ => ih) fun _ => .pure _

/-- The wait for an index entry, with threads for the flush and the collector. -/
theorem awaitEntry_keeps (hFlush : u.enableBackgroundFlush = true)
    (hGc : u.enableBackgroundGc = true) (hHeld : held .index = some .exclusive) (key : Key)
    (sid slotId fuel : Nat) : Keeps Good held (u.awaitEntry key sid slotId fuel) := by
  induction fuel with
  | zero => exact keeps_stuck
  | succ fuel ih =>
      unfold awaitEntry
      refine Keeps.bind (slabFlush_keeps (by simp [hFlush])) fun _ => ?_
      refine Keeps.bind (slabGc_keeps (by simp [hGc])) fun _ => ?_
      refine Keeps.bind (.waitFor _ hHeld) fun _ => ?_
      refine Keeps.bind (keeps_onCache _) fun _ => ?_
      exact .ite (fun _ => .pure _) fun _ => ih

/-- With an entry at hand, the index update does not enter the wait. -/
theorem indexAction_found {key : Key} {sid slotId : Nat} {s s' : Shared} {found : Bool}
    (hEntry : s.cache.index.getIndexEntry u.cfg key ≠ none ∨ s.cache.index.freeIndexEntry ≠ [])
    (hRun : u.indexAction key sid slotId s = .ok (found, s')) : found = true := by
  obtain ⟨result, hIndex, hEnd⟩ := Execution.bind_eq_ok.mp hRun
  cases result with
  | some c =>
      obtain ⟨rfl, -⟩ := Prod.mk.inj (Execution.pure_eq_ok.mp hEnd)
      rfl
  | none =>
      unfold Cache.putIndex at hIndex
      split at hIndex
      · obtain ⟨_, -, hIndex⟩ := Execution.bind_eq_ok.mp hIndex
        cases Execution.pure_eq_ok.mp hIndex
      · rename_i hNone
        have hFree := hEntry.resolve_left (not_not.mpr hNone)
        simp only [Cache.insertEntry, Index.indexEntryAlloc] at hIndex
        split at hIndex
        · rename_i hAlloc
          split at hAlloc
          · exact absurd ‹_› hFree
          · cases hAlloc
        · cases hIndex

theorem putIndex_keeps (hHeld : held .index = some .exclusive) (key : Key) (sid slotId : Nat) :
    Keeps u.EntryAtHand held (u.putIndex key sid slotId) := by
  intro s found s' hGood hRun
  refine Keeps.ite (fun _ => .pure _) fun hMissing => ?_
  rcases hGood with ⟨hFlush, hGc⟩ | hEntry
  · exact awaitEntry_keeps hFlush hGc hHeld key sid slotId _
  · exact absurd (indexAction_found hEntry hRun) hMissing

theorem putFull_keeps (h : held .mslabFull = none) (sid : Nat) :
    Keeps Good held (u.putFull sid) := by
  unfold putFull
  refine Keeps.bind (keeps_see _) fun _ => ?_
  refine .ite (fun _ => .withLock h ?_) fun _ => .pure _
  refine Keeps.bind (keeps_update _) fun _ => ?_
  exact .ite (fun hMode => slabFlush_keeps (by simp [hMode])) fun _ => .pure _

/-! ### Clients and background threads -/

/-- The locks of a thread between two operations. -/
def noLocks : Held Mutex := fun _ => none

theorem freeForFlush_noLocks : FreeForFlush noLocks := ⟨⟨rfl, rfl, rfl⟩, rfl, rfl⟩

/-- In `Put`, up to its index update. -/
theorem freeForFlush_writer : FreeForFlush (Function.update noLocks .writer (some .exclusive)) :=
  ⟨⟨rfl, rfl, rfl⟩, rfl, rfl⟩

theorem put_keeps (key : Key) (value : Value) : Keeps u.EntryAtHand noLocks (u.put key value) := by
  refine .withLock rfl (Keeps.bind (slotAlloc_keeps freeForFlush_writer _ _) fun slot => ?_)
  cases slot with
  | error status => exact .pure _
  | ok slot =>
      refine Keeps.bind (keeps_update _) fun _ => ?_
      refine Keeps.bind (.withLock freeForFlush_writer.index ?_) fun _ => ?_
      · exact putIndex_keeps (by simp) key _ _
      · exact .bind (putFull_keeps freeForFlush_writer.mslabFull _) fun _ => .pure _

theorem get_keeps (key : Key) : Keeps Good noLocks (u.get key) :=
  .bind (.withLock rfl (keeps_onCache _)) fun _ => keeps_see _

theorem delete_keeps (key : Key) : Keeps Good noLocks (u.delete key) :=
  .withLock rfl (keeps_onCache _)

theorem perform_keeps (call : Call) : Keeps u.EntryAtHand noLocks (u.perform call) := by
  cases call with
  | put key value => exact .bind (put_keeps key value) fun _ => .pure _
  | get key => exact .bind (get_keeps key) fun _ => .pure _
  | delete key => exact delete_keeps key

theorem client_keeps (calls : List Call) : Keeps u.EntryAtHand noLocks (u.client calls) := by
  induction calls with
  | nil => exact .pure _
  | cons call rest ih => exact .bind (perform_keeps call) fun _ => ih

theorem worker_keeps {body : Routine Bool} (hBody : Keeps Good noLocks body) (fuel : Nat) :
    Keeps Good noLocks (worker body fuel) := by
  induction fuel with
  | zero => exact keeps_stuck
  | succ fuel ih => exact .bind hBody fun _ => .ite (fun _ => ih) fun _ => .pure _

theorem threads_keeps (clients : List (List Call)) :
    ∀ routine ∈ u.threads clients, Keeps u.EntryAtHand noLocks routine := by
  intro routine hMem
  simp only [threads, List.mem_append, List.mem_map, List.mem_singleton] at hMem
  rcases hMem with ((⟨calls, -, rfl⟩ | hFlush) | hGc) | rfl
  · exact client_keeps calls
  · split at hFlush
    · obtain rfl := List.mem_singleton.mp hFlush
      exact worker_keeps (doSlabFlush_keeps freeForFlush_noLocks) _
    · cases hFlush
  · split at hGc
    · obtain rfl := List.mem_singleton.mp hGc
      exact worker_keeps (doSlabGc_keeps freeForFlush_noLocks.toFreeForGc) _
    · cases hGc
  · exact .call _

theorem pool_disciplined (clients : List (List Call)) (c : Cache) :
    (u.pool clients c).Disciplined u.EntryAtHand := by
  intro t ht
  obtain ⟨routine, hRoutine, rfl⟩ := List.mem_map.mp ht
  exact (threads_keeps clients routine hRoutine).mono fun _ _ _ => trivial

end Setup

/-- In every run of any number of clients and of the background threads, on
any cache, no thread asks for a mutex that it holds, as long as every `Put`
finds an index entry or can leave flushing and collecting to other threads. -/
theorem not_relocks (u : Setup) (clients : List (List Call)) (c : Cache) {order : List Nat}
    {pool : Pool Mutex Shared Site Stop} {done : List Unit}
    (hAlong : Runs.Along Pool.step (Pool.Meets u.EntryAtHand) (u.pool clients c) order)
    (hRun : (u.pool clients c).run order = .ok (pool, done)) : ∀ t ∈ pool.threads, ¬t.Relocks :=
  (Setup.pool_disciplined clients c).never_relocks hAlong hRun

/-- A cache that flushes and collects in the calling thread. -/
def Setup.foreground (cfg : Config) : Setup where
  build := .debug
  cfg := cfg
  enableBackgroundFlush := false
  enableBackgroundGc := false
  heap := fun c channel pq => pq ++ (c.dslabFull channel).list
  fuel := 20

/-- Three objects for three entries, with a flush for the third one. -/
theorem not_relocks_three_puts :
    ∃ c pool done, Cache.create .debug .fewEntries = .ok c ∧
      ((Setup.foreground .fewEntries).pool [[.put [1] [7], .put [2] [8], .put [3] [9]]] c).run
        (List.replicate 72 0) = .ok (pool, done) ∧ ∀ t ∈ pool.threads, ¬t.Relocks := by
  obtain ⟨c, hCreate, hCheck⟩ := Execution.ok_of_check
    (x := Cache.create .debug .fewEntries)
    (fun c =>
      let pool := (Setup.foreground .fewEntries).pool
        [[.put [1] [7], .put [2] [8], .put [3] [9]]] c
      decide (Runs.Along Pool.step (Pool.Meets (Setup.foreground .fewEntries).EntryAtHand) pool
          (List.replicate 72 0)) &&
        match pool.run (List.replicate 72 0) with
        | .ok _ => true
        | .error _ => false)
    (by decide +kernel)
  obtain ⟨hAlong, hCheck⟩ := Bool.and_eq_true_iff.mp hCheck
  split at hCheck
  · rename_i result hRun
    obtain ⟨pool, done⟩ := result
    exact ⟨c, pool, done, hCreate, hRun, not_relocks _ _ c (of_decide_eq_true hAlong) hRun⟩
  · cases hCheck

/-- The fourth object for three entries: `Put` flushes under the index lock, and
the flush asks for it. -/
theorem put_relocks_index :
    ¬∀ (u : Setup) (clients : List (List Call)) (c : Cache) (order : List Nat)
      (pool : Pool Mutex Shared Site Stop) (done : List Unit), u.cfg.WellFormed →
      Cache.create u.build u.cfg = .ok c → (u.pool clients c).run order = .ok (pool, done) →
      ∀ t ∈ pool.threads, ¬t.Relocks := by
  intro hAll
  have hWellFormed : Config.fewEntries.WellFormed :=
    { channels := by decide, blocks := by decide, order := by decide, slabSize := by decide
      memory := by decide, ops := by decide +kernel, classes := by decide }
  obtain ⟨c, hCreate, hCheck⟩ := Execution.ok_of_check
    (x := Cache.create .debug .fewEntries)
    (fun c =>
      match ((Setup.foreground .fewEntries).pool
          [[.put [1] [7], .put [2] [8], .put [3] [9], .put [4] [1]]] c).run
            (List.replicate 116 0) with
      | .ok r => r.1.threads.any fun t => decide t.Relocks
      | .error _ => false)
    (by decide +kernel)
  split at hCheck
  · rename_i result hRun
    obtain ⟨t, hMem, hRelocks⟩ := List.any_eq_true.mp hCheck
    exact hAll (.foreground .fewEntries) _ c _ result.1 result.2 hWellFormed hCreate hRun t hMem
      (of_decide_eq_true hRelocks)
  · cases hCheck

end KVCache
