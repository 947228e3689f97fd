import KVCache.Invariant.Routines
import KVCache.Properties.Lookup
import KVCache.Properties.Sleepers

/-! The threads with their mutexes refine the interleaving of whole steps. With
both background threads on, every run of the clients, the flush thread, the
collector and the destructor, action by action, is a schedule of the three
threads, in which a slot is chosen and written in one step. -/

namespace KVCache

open Locks

namespace Shadow

variable {u : Setup} {clients : List (List Call)}

/-- A client that has come to its end has no calls left. -/
def Ended (u : Setup) (clients : List (List Call)) (i : Nat) (s : Shared) (t : Shadow) : Prop :=
  i < clients.length → Rests u clients i [] s t

/-- All threads at their start, beside an interleaving that has not begun. -/
theorem simulated_pool {c : Cache} (hCfg : u.cfg.Sound)
    (hBackground : u.enableBackgroundFlush = true ∧ u.enableBackgroundGc = true)
    (hCreate : Cache.create u.build u.cfg = .ok c) :
    (u.pool clients c).Simulated (simulation u clients) (Ended u clients) ⟨.rest c, none, []⟩ := by
  have hEnded : ∀ {j : Nat} {A : Shared → Shadow → Prop} {B : Unit → Shared → Shadow → Prop}
      {x : Routine Unit}, (∀ a s t, B a s t → Ended u clients j s t) →
      Triple (simulation u clients) j (fun _ => none) A x B →
      Simulates (simulation u clients) j (fun _ _ B => ∀ s t, Rel u clients s t → B s t →
        Ended u clients j s t) (fun _ => none) A x :=
    fun hEnd h => Simulates.mono h fun _ a _ _ hPost s t hRel hA => hEnd a s t (hPost.2 s t hRel hA)
  constructor
  case rel =>
    obtain ⟨g, hInv, -⟩ := ThreadsInv.create hCfg hCreate
    exact ⟨⟨g, hInv⟩, rfl, fun _ h => absurd h (List.not_mem_nil),
      fun i calls hi => ⟨calls, [], hi, .nil⟩⟩
  case apart =>
    intro i j th th' _ hi _ l m m' hHeld
    obtain ⟨routine, -, rfl⟩ := List.mem_map.mp (List.mem_of_getElem? hi)
    cases hHeld
  case free => exact fun _ _ _ => ⟨rfl, rfl⟩
  case thread =>
    intro i th hi
    have hThreads : u.threads clients = clients.map u.client ++
        [Setup.worker u.doSlabFlush u.fuel, Setup.worker u.doSlabGc u.fuel, Setup.close] := by
      rw [Setup.threads, if_pos hBackground.1, if_pos hBackground.2]
      simp
    simp only [Setup.pool, List.getElem?_map, hThreads] at hi
    obtain ⟨routine, hRoutine, rfl⟩ := Option.map_eq_some_iff.mp hi
    by_cases hClient : i < clients.length
    · rw [List.getElem?_append_left (by simpa using hClient), List.getElem?_map] at hRoutine
      obtain ⟨calls, hCalls, rfl⟩ := Option.map_eq_some_iff.mp hRoutine
      exact ⟨Rests u clients i calls, ⟨[], hCalls, .nil⟩,
        hEnded (fun _ _ _ h _ => h) (triple_client hBackground (fun _ => rfl) calls)⟩
    · have hNoClient : ∀ s t, Ended u clients i s t := fun _ _ h => absurd h hClient
      rw [List.getElem?_append_right (by simpa using hClient), List.length_map] at hRoutine
      obtain ⟨k, rfl⟩ := Nat.exists_eq_add_of_le (Nat.le_of_not_lt hClient)
      rw [Nat.add_sub_cancel_left] at hRoutine
      rcases k with _ | _ | _ | k
      · obtain rfl := Option.some.inj hRoutine
        exact ⟨FlushIs .idle, rfl, hEnded (fun _ _ _ _ => hNoClient _ _)
          (triple_worker (fun _ => stable_onGoing_flush)
            (triple_doSlabFlush hBackground.2 fun _ => rfl) u.fuel)⟩
      · obtain rfl := Option.some.inj hRoutine
        exact ⟨GcIs .idle, rfl, hEnded (fun _ _ _ _ => hNoClient _ _)
          (triple_worker (fun _ => stable_onGoing_gc) (triple_doSlabGc fun _ => rfl) u.fuel)⟩
      · obtain rfl := Option.some.inj hRoutine
        exact ⟨_, trivial, hEnded (fun _ _ _ _ => hNoClient _ _) triple_close⟩
      · cases hRoutine

end Shadow

/-- Every run of the threads is a schedule of whole steps. Each client has made its
first calls, in their order, and each of them took effect at once or, as far as
updates are concerned, not at all; the caches differ at most by a slot that a `Put`
is about to write. -/
theorem pool_schedules {u : Setup} {clients : List (List Call)} {c : Cache} {order : List Nat}
    {pool : Pool Mutex Shared Site Stop} {done : List Unit} (hCfg : u.cfg.Sound)
    (hBackground : u.enableBackgroundFlush = true ∧ u.enableBackgroundGc = true)
    (hCreate : Cache.create u.build u.cfg = .ok c)
    (hRun : (u.pool clients c).run order = .ok (pool, done)) :
    ∃ acts log t, Threads.start u.build u.cfg acts = .ok (t, log.map Prod.snd) ∧
      (∀ e ∈ log, e.1 < clients.length) ∧
      (∀ i calls, clients[i]? = some calls → ∃ made rest, calls = made ++ rest ∧
        Performed u.cfg pool.state.shutdown made (updatesOf i log) ∧
        ∀ held, pool.threads[i]? = some ⟨held, .ret ()⟩ → rest = []) ∧
      (∃ draft, Relates u.build u.cfg draft pool.state.cache t) ∧
      (pool.free .writer .exclusive = true → t.cache = pool.state.cache ∧ t.writer = .idle) := by
  obtain ⟨t, hSteps, hSim⟩ := (Shadow.simulated_pool hCfg hBackground hCreate).run hRun
  obtain ⟨acts, events, hSchedule, hLog⟩ := Shadow.run_of_steps hSteps
  replace hLog : t.log.map Prod.snd = events := by simpa using hLog
  refine ⟨acts, t.log, t.threads, ?_, hSim.rel.logged.client, fun i calls hi => ?_,
    ⟨t.draft, hSim.rel.relates⟩, fun hFree => ?_⟩
  · rw [hLog]
    exact Execution.bind_eq_ok.mpr ⟨c, hCreate, hSchedule⟩
  · by_cases hEnd : ∃ held, pool.threads[i]? = some ⟨held, .ret ()⟩
    · obtain ⟨held, hAt⟩ := hEnd
      obtain ⟨made, hCalls, hMade⟩ := hSim.ended hAt (List.getElem?_eq_some_iff.mp hi).1
      exact ⟨made, [], Option.some.inj (hi.symm.trans hCalls), hMade, fun _ _ => rfl⟩
    · obtain ⟨rest, made, hCalls, hMade⟩ := hSim.rel.logged.left i calls hi
      exact ⟨made, rest, Option.some.inj (hi.symm.trans hCalls), hMade,
        fun held hAt => absurd ⟨held, hAt⟩ hEnd⟩
  · obtain ⟨hDraft, hWriter⟩ := hSim.free .writer (Pool.Simulated.held_of_free hFree) rfl
    have hRelates := hSim.rel.relates
    rw [hDraft] at hRelates
    exact ⟨hRelates, hWriter⟩

/-- A client puts an object and deletes it, and another one looks for it. -/
def Setup.putAndDelete : List (List Call) := [[.put [1] [7], .delete [1]], [.get [1]]]

/-- Both clients come to their ends, one after the other. -/
theorem pool_schedules_putAndDelete :
    ∃ c pool done acts t, ∃ log : List (Nat × Event), Cache.create .debug .small = .ok c ∧
      ((Setup.background .small).pool Setup.putAndDelete c).run
        (List.replicate 19 0 ++ List.replicate 4 1) = .ok (pool, done) ∧
      pool.free .writer .exclusive = true ∧
      Threads.start .debug .small acts = .ok (t, log.map Prod.snd) ∧
      t.cache = pool.state.cache := by
  obtain ⟨c, hCreate, hCheck⟩ := Execution.ok_of_check (x := Cache.create .debug .small)
    (fun c => decide ((((Setup.background .small).pool Setup.putAndDelete c).run
      (List.replicate 19 0 ++ List.replicate 4 1)).map
        (fun r => r.1.free .writer .exclusive) = .ok true))
    (by decide +kernel)
  have hCheck := of_decide_eq_true hCheck
  cases hRun : ((Setup.background .small).pool Setup.putAndDelete c).run
      (List.replicate 19 0 ++ List.replicate 4 1) with
  | error fault =>
      rw [hRun] at hCheck
      cases hCheck
  | ok r =>
      rw [hRun] at hCheck
      have hFree : r.1.free .writer .exclusive = true := Except.ok.inj hCheck
      obtain ⟨acts, log, t, hStart, -, -, -, hSame⟩ := pool_schedules
        (u := .background .small) Config.small_wellFormed.sound ⟨rfl, rfl⟩ hCreate hRun
      exact ⟨c, r.1, r.2, acts, t, log, hCreate, hRun, hFree, hStart, (hSame hFree).1⟩

end KVCache
