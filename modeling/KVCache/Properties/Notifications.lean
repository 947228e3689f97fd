import KVCache.Data.Erasure
import KVCache.Data.Oversleeping
import KVCache.Properties.Sleepers

/-! The condition variables implement the waits. Without its notifications, the
program of every thread is the one with the mutexes alone, and so is every run:
what holds of threads that wait for a condition holds of threads that sleep and
are notified, whoever is woken too early, too late or never. -/

namespace KVCache

open Monitors
open Locks (Held)

variable {u : Setup} {α : Type}

/-! ### Programs without notifications -/

namespace Setup

theorem gcRound_plain (fuel : Nat) (a : GcAt) : Prog.Plain (u.gcRound fuel a) := by
  induction fuel generalizing a with
  | zero => exact fun _ => trivial
  | succ fuel ih =>
      unfold gcRound
      refine Prog.Plain.bind ?_ fun next => .ite trivial (ih next)
      cases a.mutex u.cfg with
      | none => exact fun _ => trivial
      | some l => exact .withLock fun _ => trivial

theorem doSlabGc_plain : Prog.Plain u.doSlabGc :=
  .bind (.withLock fun _ => trivial) fun _ => .ite trivial (gcRound_plain _ _)

theorem slabGc_plain : Prog.Plain u.slabGc :=
  .ite trivial (doSlabGc_plain.bind fun _ => trivial)

theorem waitSlabGc_plain : Prog.Plain u.waitSlabGcUntilShutdown :=
  .ite (.withLock fun _ => trivial) trivial

theorem findDslab_plain (fuel : Nat) : Prog.Plain (u.findDslab fuel) := by
  induction fuel with
  | zero => exact fun _ => trivial
  | succ fuel ih =>
      unfold findDslab
      refine Prog.Plain.bind (.withLock fun _ => trivial) fun found => ?_
      cases found with
      | some found => trivial
      | none => exact slabGc_plain.bind fun _ => waitSlabGc_plain.bind fun _ => .ite ih trivial

theorem finishSlabFlush_plain (m d channel : Nat) : Prog.Plain (u.finishSlabFlush m d channel) := by
  unfold finishSlabFlush
  refine Prog.Plain.bind (fun _ => trivial) fun _ => ?_
  refine Prog.Plain.bind (fun _ => trivial) fun _ => ?_
  refine Prog.Plain.bind (.withLock fun _ => trivial) fun _ => ?_
  refine Prog.Plain.bind (fun _ => trivial) fun _ => ?_
  exact .bind (.withLock fun _ => trivial) fun _ => .withLock fun _ => trivial

theorem doSlabFlush_plain : Prog.Plain u.doSlabFlush := by
  unfold doSlabFlush
  refine Prog.Plain.bind (.withLock ?_) fun full => ?_
  · refine Prog.Plain.bind (x := Locks.Prog.waitFor _ _) trivial fun _ => ?_
    exact .bind (fun _ => trivial) fun _ => .ite trivial fun _ => trivial
  · cases full with
    | none => trivial
    | some m =>
        refine (findDslab_plain _).bind fun found => ?_
        cases found with
        | none => trivial
        | some found => exact (finishSlabFlush_plain _ _ _).bind fun _ => trivial

theorem waitSlabFlush_plain : Prog.Plain u.waitSlabFlushUntilShutdown :=
  .ite (.withLock fun _ => trivial) trivial

end Setup

/-! ### Erasure -/

namespace Signals

theorem erase_doSlabGc : (doSlabGc u).erase = u.doSlabGc := by
  refine (Prog.erase_bind_eq (Prog.erase_lift Setup.doSlabGc_plain) fun next => ?_).trans
    (Prog.bind_ret _)
  cases next <;> rfl

theorem erase_doSlabFlush : (doSlabFlush u).erase = u.doSlabFlush := by
  refine (Prog.erase_bind_eq (Prog.erase_lift Setup.doSlabFlush_plain) fun more => ?_).trans
    (Prog.bind_ret _)
  cases more <;> rfl

theorem erase_slabFlush (hFlush : u.enableBackgroundFlush = true) :
    slabFlush.erase = u.slabFlush := by
  rw [Setup.slabFlush, if_pos hFlush]
  rfl

theorem erase_slotAlloc (hFlush : u.enableBackgroundFlush = true) (size fuel : Nat) :
    (slotAlloc u size fuel).erase = u.slotAlloc size fuel := by
  induction fuel with
  | zero => rfl
  | succ fuel ih =>
      unfold slotAlloc Setup.slotAlloc
      cases getSlabClass u.cfg size with
      | none => rfl
      | some cid =>
          refine Prog.erase_bind_eq rfl fun slot => ?_
          cases slot with
          | some slot => rfl
          | none =>
              refine Prog.erase_bind_eq rfl fun taken => ?_
              cases taken with
              | some sid => exact Prog.erase_bind_eq rfl fun _ => ih
              | none =>
                  refine Prog.erase_bind_eq (erase_slabFlush hFlush) fun _ => ?_
                  refine Prog.erase_bind_eq (Prog.erase_lift Setup.waitSlabFlush_plain) fun more => ?_
                  rw [Prog.erase_ite, ih]
                  rfl

theorem erase_awaitEntry (hFlush : u.enableBackgroundFlush = true) (key : Key)
    (sid slotId fuel : Nat) :
    (awaitEntry u key sid slotId fuel).erase = u.awaitEntry key sid slotId fuel := by
  induction fuel with
  | zero => rfl
  | succ fuel ih =>
      refine Prog.erase_bind_eq (erase_slabFlush hFlush) fun _ => ?_
      refine Prog.erase_bind_eq (Prog.erase_lift Setup.slabGc_plain) fun _ => ?_
      refine Prog.erase_bind_eq rfl fun _ => ?_
      refine Prog.erase_bind_eq rfl fun found => ?_
      rw [Prog.erase_ite, ih]
      rfl

theorem erase_putIndex (hFlush : u.enableBackgroundFlush = true) (key : Key) (sid slotId : Nat) :
    (putIndex u key sid slotId).erase = u.putIndex key sid slotId := by
  refine Prog.erase_bind_eq rfl fun found => ?_
  rw [Prog.erase_ite, erase_awaitEntry hFlush]
  rfl

theorem erase_putFull (hFlush : u.enableBackgroundFlush = true) (sid : Nat) :
    (putFull sid).erase = u.putFull sid := by
  refine Prog.erase_bind_eq rfl fun full => ?_
  rw [Prog.erase_ite, if_pos hFlush]
  refine congrArg (fun x => if full = true then x else pure ()) ?_
  refine (Prog.erase_withLock ..).trans (congrArg (Locks.Prog.withLock Mutex.mslabFull _) ?_)
  exact Prog.erase_bind_eq rfl fun _ => erase_slabFlush hFlush

theorem erase_put (hFlush : u.enableBackgroundFlush = true) (key : Key) (value : Value) :
    (put u key value).erase = u.put key value := by
  refine (Prog.erase_withLock ..).trans (congrArg (Locks.Prog.withLock Mutex.writer _) ?_)
  refine Prog.erase_bind_eq (erase_slotAlloc hFlush _ _) fun slot => ?_
  cases slot with
  | error status => rfl
  | ok slot =>
      refine Prog.erase_bind_eq rfl fun _ => ?_
      refine Prog.erase_bind_eq ?_ fun _ => ?_
      · refine (Prog.erase_withLock ..).trans (congrArg (Locks.Prog.withLock Mutex.index _) ?_)
        exact erase_putIndex hFlush _ _ _
      · exact Prog.erase_bind_eq (erase_putFull hFlush _) fun _ => rfl

theorem erase_client (hFlush : u.enableBackgroundFlush = true) (calls : List Call) :
    (client u calls).erase = u.client calls := by
  induction calls with
  | nil => rfl
  | cons call rest ih =>
      refine Prog.erase_bind_eq ?_ fun _ => ih
      cases call with
      | put key value => exact Prog.erase_bind_eq (erase_put hFlush key value) fun _ => rfl
      | get key => rfl
      | delete key => rfl

theorem erase_worker {body : Job Bool} {body' : Routine Bool} (h : body.erase = body')
    (fuel : Nat) : (worker body fuel).erase = Setup.worker body' fuel := by
  induction fuel with
  | zero => rfl
  | succ fuel ih =>
      refine Prog.erase_bind_eq h fun more => ?_
      rw [Prog.erase_ite, ih]
      rfl

/-- The threads with condition variables are those with mutexes alone, and
notifications. -/
theorem erase_threads (hBackground : u.enableBackgroundFlush = true ∧ u.enableBackgroundGc = true)
    (clients : List (List Call)) :
    (threads u clients ++ [close]).map Prog.erase = u.threads clients := by
  simp only [threads, Setup.threads, hBackground.1, hBackground.2, if_true, List.map_append,
    List.map_map, List.map_cons, List.map_nil, List.append_assoc, List.cons_append, List.nil_append]
  congr 1
  · exact List.map_congr_left fun calls _ => erase_client hBackground.1 calls
  · rw [erase_worker erase_doSlabFlush, erase_worker erase_doSlabGc]
    rfl

/-- The destructor keeps to the order of the locks, and to nothing else: it
changes what others wait for without their mutexes. -/
theorem close_minds {n i : Nat} :
    Minds (protocol (fun _ => False) n) i Setup.noLocks ∅ (fun _ => ∅) close := by
  refine Minds.bind (E := fun _ => ∅) ?_ fun _ => ?_
  · exact Minds.act subset_rfl (fun _ _ _ _ _ hWatched => hWatched.elim) fun _ => subset_rfl
  · have hNotify (v : Signal) : Minds (protocol (fun _ => False) n) i Setup.noLocks ∅ (fun _ => ∅)
        (Job.notifyAll v) := minds_notifyAll Set.sdiff_subset
    exact .bind (hNotify _) fun _ => .bind (hNotify _) fun _ => .bind (hNotify _) fun _ => hNotify _

theorem pool_ordered (hGc : u.enableBackgroundGc = true) (clients : List (List Call)) (c : Cache) :
    (pool (threads u clients ++ [close]) c).Sound (protocol (fun _ => False) clients.length)
      fun _ => ∅ := by
  refine pool_sound c fun i job hJob => ?_
  rw [List.getElem?_append] at hJob
  split at hJob
  · exact threads_minds hGc (fun _ _ _ _ _ => id) i job hJob
  · obtain rfl := List.mem_singleton.mp (List.mem_of_getElem? hJob)
    exact close_minds

theorem pool_follows (hBackground : u.enableBackgroundFlush = true ∧ u.enableBackgroundGc = true)
    (clients : List (List Call)) (c : Cache) :
    (pool (threads u clients ++ [close]) c).Follows (u.pool clients c) where
  state := rfl
  threads i := by
    rw [Setup.pool, ← erase_threads hBackground]
    simp only [pool, List.map_map, List.getElem?_map]
    cases (threads u clients ++ [close])[i]? with
    | none => exact .none
    | some job => exact .some (.runs _ job)

end Signals

/-- Every run of the threads with their condition variables, the destructor
included, is a run of the threads that wait with their mutexes alone: in the same
state, and with every thread at the same place. -/
theorem signals_refine (u : Setup) (clients : List (List Call)) (c : Cache) {moves : List Move}
    {pool : Pool Mutex Signal Shared Site Stop} {done : List Unit}
    (hBackground : u.enableBackgroundFlush = true ∧ u.enableBackgroundGc = true)
    (hRun : (Signals.pool (Signals.threads u clients ++ [Signals.close]) c).run moves =
      .ok (pool, done)) :
    ∃ order pool' done', (u.pool clients c).run order = .ok (pool', done') ∧ pool.Follows pool' :=
  (Signals.pool_ordered hBackground.2 clients c).run_erases
    (Signals.pool_follows hBackground clients c) hRun

/-- The notifications of the destructor come before the flush falls asleep. -/
theorem signals_refine_closed :
    ∃ c pool done order pool' done', Cache.create .debug .small = .ok c ∧
      (Signals.pool (Signals.threads (.background .small) [] ++ [Signals.close]) c).run
        (List.replicate 2 (.step 0 0) ++ List.replicate 5 (.step 2 0) ++ [.step 0 0]) =
          .ok (pool, done) ∧
      pool.threads.map Thread.phase = [.asleep, .running, .running] ∧
      ((Setup.background .small).pool [] c).run order = .ok (pool', done') ∧
      pool.Follows pool' := by
  obtain ⟨c, hCreate, hCheck⟩ := Execution.ok_of_check (x := Cache.create .debug .small)
    (fun c => decide (
      ((Signals.pool (Signals.threads (.background .small) [] ++ [Signals.close]) c).run
        (List.replicate 2 (.step 0 0) ++ List.replicate 5 (.step 2 0) ++ [.step 0 0])).map
          (fun r => r.1.threads.map Thread.phase) = .ok [.asleep, .running, .running]))
    (by decide +kernel)
  have hCheck := of_decide_eq_true hCheck
  cases hRun : (Signals.pool (Signals.threads (.background .small) [] ++ [Signals.close]) c).run
      (List.replicate 2 (.step 0 0) ++ List.replicate 5 (.step 2 0) ++ [.step 0 0]) with
  | error fault =>
      rw [hRun] at hCheck
      cases hCheck
  | ok r =>
      rw [hRun] at hCheck
      obtain ⟨order, pool', done', hOrder, hFollows⟩ :=
        signals_refine (.background .small) [] c ⟨rfl, rfl⟩ hRun
      exact ⟨c, r.1, r.2, order, pool', done', hCreate, hRun, Except.ok.inj hCheck, hOrder, hFollows⟩

/-! ### The destructor -/

/-- Only `Put` notifies the flush. -/
theorem Signals.collector_silent (fuel : Nat) :
    (Signals.worker (Signals.doSlabGc u) fuel).Silent .flush := by
  induction fuel with
  | zero => exact .lift _
  | succ fuel ih =>
      refine .bind ?_ fun _ => .ite ih trivial
      exact .bind (.lift _) fun _ => .ite ⟨Signal.noConfusion, trivial⟩ trivial

/-- The flag of the destructor is set without a mutex. A flush thread that has
looked at it before, and falls asleep when the destructor has notified everybody,
is never woken, and the destructor waits for its end for ever. -/
theorem flush_oversleeps (u : Setup) (clients : List (List Call)) (c : Cache)
    {moves later : List Move} {pool pool' : Pool Mutex Signal Shared Site Stop}
    {done done' : List Unit}
    (hRun : (Signals.pool (Signals.threads u clients ++ [Signals.close]) c).run moves =
      .ok (pool, done))
    (hOver : ∀ (i : Nat) t, pool.threads[i]? = some t → i ≠ clients.length →
      i ≠ clients.length + 1 → t.Finished)
    (hRests : ∃ t, pool.threads[clients.length]? = some t ∧ t.RestsOn .flush)
    (hNotified : ∀ move ∈ later, ∃ j pick, move = .step j pick)
    (hLater : pool.run later = .ok (pool', done')) :
    ∃ t, pool'.threads[clients.length]? = some t ∧ t.RestsOn .flush := by
  have hCollector : ∃ t, pool.threads[clients.length + 1]? = some t ∧ t.code.Silent .flush := by
    refine Runs.run_invariant (P := fun pool => ∃ t, pool.threads[clients.length + 1]? = some t ∧
      t.code.Silent .flush) (fun _ _ _ _ h _ hStep => Pool.silent_step h hStep) hRun
      (Runs.along_true _ moves)
      ⟨⟨fun _ => none, .running, Signals.worker (Signals.doSlabGc u) u.fuel⟩, ?_,
        Signals.collector_silent u.fuel⟩
    simp [Signals.pool, Signals.threads]
  refine Pool.Forgotten.rests (Pool.Forgotten.run ⟨hRests, fun {j t} ht hNe => ?_⟩ hNotified hLater)
  by_cases hEq : j = clients.length + 1
  · subst hEq
    obtain ⟨t', ht', hSilent⟩ := hCollector
    obtain rfl := Option.some.inj (ht.symm.trans ht')
    exact hSilent
  · obtain ⟨-, a, hCode⟩ := hOver j t ht hNe hEq
    rw [hCode]
    trivial

/-- The flush has looked at the flag, and the destructor has notified everybody. -/
def Signals.closed (pool : Pool Mutex Signal Shared Site Stop) : Bool :=
  (pool.threads[0]?.any fun t => decide (t.RestsOn .flush)) &&
    (pool.threads.drop 2).all fun t => decide t.Finished

/-- The flush looks at the flag, the destructor runs, and the flush falls asleep
with the flag set. The collector ends. -/
theorem flush_oversleeps_closed :
    ∃ c pool done pool' done', Cache.create .debug .small = .ok c ∧
      (Signals.pool (Signals.threads (.background .small) [] ++ [Signals.close]) c).run
        (List.replicate 2 (.step 0 0) ++ List.replicate 5 (.step 2 0)) = .ok (pool, done) ∧
      pool.run (.step 0 0 :: List.replicate 4 (.step 1 0)) = .ok (pool', done') ∧
      pool'.state.shutdown = true ∧ pool'.threads.map Thread.phase = [.asleep, .running, .running] ∧
      ∃ t, pool'.threads[0]? = some t ∧ t.RestsOn .flush := by
  obtain ⟨c, hCreate, hCheck⟩ := Execution.ok_of_check (x := Cache.create .debug .small)
    (fun c => decide (
      ((Signals.pool (Signals.threads (.background .small) [] ++ [Signals.close]) c).run
        (List.replicate 2 (.step 0 0) ++ List.replicate 5 (.step 2 0))).map (fun r =>
          (Signals.closed r.1, (r.1.run (.step 0 0 :: List.replicate 4 (.step 1 0))).map fun r =>
            (r.1.state.shutdown, r.1.threads.map Thread.phase))) =
        .ok (true, .ok (true, [.asleep, .running, .running]))))
    (by decide +kernel)
  have hCheck := of_decide_eq_true hCheck
  cases hRun : (Signals.pool (Signals.threads (.background .small) [] ++ [Signals.close]) c).run
      (List.replicate 2 (.step 0 0) ++ List.replicate 5 (.step 2 0)) with
  | error fault =>
      rw [hRun] at hCheck
      cases hCheck
  | ok r =>
      rw [hRun] at hCheck
      obtain ⟨hClosed, hMore⟩ := Prod.mk.inj (Except.ok.inj hCheck)
      obtain ⟨hFlush, hRest⟩ := Bool.and_eq_true_iff.mp hClosed
      cases hLater : r.1.run (.step 0 0 :: List.replicate 4 (.step 1 0)) with
      | error fault =>
          rw [hLater] at hMore
          cases hMore
      | ok r' =>
          rw [hLater] at hMore
          obtain ⟨hShutdown, hPhases⟩ := Prod.mk.inj (Except.ok.inj hMore)
          refine ⟨c, r.1, r.2, r'.1, r'.2, hCreate, hRun, hLater, hShutdown, hPhases, ?_⟩
          refine flush_oversleeps _ [] c hRun (fun i t ht hNe hNe' => ?_) ?_ ?_ hLater
          · have hMem : t ∈ r.1.threads.drop 2 := by
              refine List.mem_of_getElem? (i := i - 2) ?_
              rw [List.getElem?_drop, show 2 + (i - 2) = i by simp at hNe hNe'; omega, ht]
            exact of_decide_eq_true (List.all_eq_true.mp hRest t hMem)
          · obtain ⟨t, ht, hRests⟩ := (Option.any_eq_true _ _).mp hFlush
            exact ⟨t, ht, of_decide_eq_true hRests⟩
          · intro move hMem
            rcases List.mem_cons.mp hMem with rfl | hMem
            · exact ⟨0, 0, rfl⟩
            · exact ⟨1, 0, List.eq_of_mem_replicate hMem⟩

end KVCache
