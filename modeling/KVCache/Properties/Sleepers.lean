import KVCache.Data.Wakeups
import KVCache.Invariant.Raising
import KVCache.Properties.Relocking

/-! Nobody oversleeps. Whoever makes a condition true does so under the mutex of
the waits for it, and notifies the sleepers before it sleeps itself; only
`Delete` does not. And only the writer mutex is held while another one is taken,
so that threads which cannot go on all wait for conditions that are false. -/

namespace KVCache

open Monitors
open Locks (Held)

/-- What is waited for with a mutex, or the end of the cache. -/
def Mutex.ready : Mutex → Shared → Bool
  | .writer, _ => true
  | .index, s => s.cache.ready .index
  | .mslabFree, s => s.cache.ready .mslabFree || s.shutdown
  | .mslabFull, s => s.cache.ready .mslabFull || s.shutdown
  | .dslabFree, s => s.cache.ready .dslabFree || s.shutdown
  | .dslabFull, s => s.cache.ready .dslabFull || s.shutdown

theorem Mutex.not_ready_cache {l : Mutex} {s : Shared} (h : l.ready s = false) :
    s.cache.ready l = false := by
  cases l with
  | writer => cases h
  | index => exact h
  | _ => exact (Bool.or_eq_false_iff.mp h).1

/-- The threads of a cache with `n` clients; the flush and the collector come
after them. Nobody who waits with one of the mutexes in `W` is left asleep. -/
def Signals.protocol (W : Mutex → Prop) (n : Nat) : Protocol Mutex Signal Shared where
  signal := Mutex.signal
  ready := Mutex.ready
  watched := W
  rank l := if l = .writer then 0 else 1
  single v := v ≠ .gcFinished
  sleeper v i held :=
    match v with
    | .flush => i = n
    | .gc => i = n + 1
    | .flushFinished => held .writer = some .exclusive
    | .gcFinished => True
  sleeper_unique {v i j held held'} hSingle hi hj := by
    cases v with
    | flush => exact .inl (hi.trans hj.symm)
    | gc => exact .inl (hi.trans hj.symm)
    | flushFinished =>
        refine .inr ⟨.writer, hi, ?_⟩
        rw [show held' .writer = some .exclusive from hj]
        exact Option.some_ne_none _
    | gcFinished => exact absurd rfl hSingle

/-- A call that frees index entries. -/
def Call.deletes : Call → Bool
  | .delete _ => true
  | _ => false

namespace Signals

variable {W : Mutex → Prop} {n i : Nat} {held : Held Mutex} {debts debts' : Set Signal} {u : Setup}
  {α : Type}

/-- The thread holds at most the writer mutex. -/
def OnlyWriter (held : Held Mutex) : Prop := ∀ l, l ≠ .writer → held l = none

theorem OnlyWriter.above {l : Mutex} (h : OnlyWriter held) (hl : l ≠ .writer) :
    (protocol W n).Above held l := by
  intro l' _ hHeld
  have hWriter : l' = .writer := by
    by_contra hOther
    exact hHeld (h l' hOther)
  simp [protocol, hWriter, hl]

theorem top_of_ne {l : Mutex} (hl : l ≠ .writer) : (protocol W n).Top l := by
  intro l'
  simp only [protocol, if_neg hl]
  split <;> omega

/-- A critical section under a mutex other than that of the writer. -/
theorem minds_lock {l : Mutex} {m : Locks.Mode} {body : Job α} {after : α → Set Signal}
    (h : OnlyWriter held) (hl : l ≠ .writer)
    (hBody : Minds (protocol W n) i (Function.update held l (some m)) debts after body) :
    Minds (protocol W n) i held debts after (.withLock l m body) :=
  .withLock (h l hl) (h.above hl) (.inr (top_of_ne hl)) hBody

/-! ### Actions -/

theorem raises_of_ready {s s' : Shared} (hEnd : s'.shutdown = s.shutdown)
    (hRaises : ∀ l, l ≠ .writer → W l → s.cache.ready l = false →
      s'.cache.ready l = true → held l = some .exclusive ∧ l.signal ∈ debts) :
    (protocol W n).Raises held debts s s' := by
  intro l hWatched hBefore hAfter
  have hBefore : l.ready s = false := hBefore
  have hAfter : l.ready s' = true := hAfter
  cases l with
  | writer => cases hBefore
  | index => exact hRaises .index (by decide) hWatched hBefore hAfter
  | mslabFree | mslabFull | dslabFree | dslabFull =>
      simp only [Mutex.ready, Bool.or_eq_false_iff, Bool.or_eq_true] at hBefore hAfter
      obtain ⟨hBefore, hGoes⟩ := hBefore
      rw [hEnd, hGoes] at hAfter
      exact hRaises _ (by decide) hWatched hBefore (hAfter.resolve_right Bool.false_ne_true)

/-- An action on the cache that makes conditions true under their mutexes. -/
theorem minds_onCache {f : Cache → Except Stop (α × Cache)} {after : α → Set Signal}
    (hDebts : debts ⊆ debts')
    (hRaises : ∀ c a c', f c = .ok (a, c') → ∀ l, l ≠ .writer → W l →
      c.ready l = false → c'.ready l = true → held l = some .exclusive ∧ l.signal ∈ debts')
    (hAfter : ∀ a, debts' ⊆ after a) :
    Minds (protocol W n) i held debts after (Job.ofRoutine (Routine.onCache f)) := by
  refine Minds.act hDebts (fun s a s' hRun => ?_) hAfter
  obtain ⟨⟨a', c'⟩, hf, hEnd⟩ := Execution.bind_eq_ok.mp hRun
  obtain ⟨rfl, rfl⟩ := Prod.mk.inj (Execution.pure_eq_ok.mp hEnd)
  exact raises_of_ready rfl (hRaises _ _ _ hf)

/-- An action that makes no condition true. -/
theorem minds_quiet {f : Cache → Except Stop (α × Cache)}
    (hQuiet : ∀ (c : Cache) a c', f c = .ok (a, c') → c.RaisesOnly [] c') :
    Minds (protocol W n) i held debts (fun _ => debts)
      (Job.ofRoutine (Routine.onCache f)) := by
  refine minds_onCache subset_rfl (fun c a c' hRun l _ _ hBefore hAfter => ?_) fun _ => subset_rfl
  have hReady := hQuiet c a c' hRun l List.not_mem_nil hAfter
  rw [hBefore] at hReady
  cases hReady

theorem minds_update {f : Cache → Cache} (hQuiet : ∀ c : Cache, c.RaisesOnly [] (f c)) :
    Minds (protocol W n) i held debts (fun _ => debts)
      (Job.ofRoutine (Routine.update f)) := by
  refine minds_quiet fun c a c' hRun => ?_
  obtain ⟨-, rfl⟩ := Prod.mk.inj (Except.ok.inj hRun)
  exact hQuiet c

/-- An update that makes the condition of the mutex in hand true. -/
theorem minds_raising {f : Cache → Cache} {l : Mutex} (hDebts : debts ⊆ debts')
    (hRaises : ∀ c : Cache, c.RaisesOnly [l] (f c)) (hSignal : l.signal ∈ debts') :
    Minds (protocol W n) i (Function.update held l (some .exclusive)) debts
      (fun _ => debts') (Job.ofRoutine (Routine.update f)) := by
  refine minds_onCache hDebts (fun c a c' hRun l' _ _ hBefore hAfter => ?_) fun _ => subset_rfl
  obtain ⟨-, rfl⟩ := Prod.mk.inj (Except.ok.inj hRun)
  obtain rfl : l' = l := by
    by_contra hOther
    have hReady := hRaises c l' (fun hMem => hOther (List.mem_singleton.mp hMem)) hAfter
    rw [hBefore] at hReady
    cases hReady
  exact ⟨Function.update_self .., hSignal⟩

theorem minds_see {f : Shared → α} :
    Minds (protocol W n) i held debts (fun _ => debts) (Job.ofRoutine (Routine.see f)) := by
  refine Minds.act subset_rfl (fun s a s' hRun => ?_) fun _ => subset_rfl
  obtain ⟨-, rfl⟩ := Prod.mk.inj (Except.ok.inj hRun)
  exact (protocol W n).raises_refl _ _ _

theorem minds_stuck {after : α → Set Signal} :
    Minds (protocol W n) i held debts after (Job.ofRoutine (Routine.stuck : Routine α)) := by
  refine ⟨debts, subset_rfl, fun s a s' hRun => ?_⟩
  cases hRun

theorem ofRoutine_bind {β : Type} (x : Routine α) (f : α → Routine β) :
    Job.ofRoutine (x >>= f) = Job.ofRoutine x >>= fun a => Job.ofRoutine (f a) :=
  Prog.lift_bind x f

theorem ofRoutine_lock (l : Mutex) (body : Routine α) :
    Job.ofRoutine (.lock l body) = .withLock l .exclusive (Job.ofRoutine body) :=
  Prog.lift_withLock l _ body

theorem ofRoutine_lockShared (l : Mutex) (body : Routine α) :
    Job.ofRoutine (.lockShared l body) = .withLock l .shared (Job.ofRoutine body) :=
  Prog.lift_withLock l _ body

theorem ofRoutine_ite {c : Prop} [Decidable c] (x y : Routine α) :
    Job.ofRoutine (if c then x else y) = if c then Job.ofRoutine x else Job.ofRoutine y :=
  Prog.lift_ite x y

/-- A wait inside of a critical section. -/
theorem minds_wait {l : Mutex} (h : OnlyWriter held) (hl : l ≠ .writer)
    (hSleeper : (protocol W n).sleeper l.signal i held) :
    Minds (protocol W n) i (Function.update held l (some .exclusive)) ∅ (fun _ => ∅)
      (Job.ofRoutine (.waitFor l l.ready)) := by
  refine Minds.wait (P := protocol W n) (Function.update_self ..) ?_ ?_
  · intro l' hNe hHeld
    rw [Function.update_of_ne hNe] at hHeld
    exact h.above hl l' hNe hHeld
  · rw [Function.update_idem, ← h l hl, Function.update_eq_self]
    exact hSleeper

theorem minds_notifyOne {v : Signal} {after : Unit → Set Signal} (hv : v ≠ .gcFinished)
    (hAfter : debts \ {v} ⊆ after ()) :
    Minds (protocol W n) i held debts after (Job.notifyOne v) :=
  (Minds.notify fun _ => hv).mono subset_rfl fun _ => hAfter

theorem minds_notifyAll {v : Signal} {after : Unit → Set Signal} (hAfter : debts \ {v} ⊆ after ()) :
    Minds (protocol W n) i held debts after (Job.notifyAll v) :=
  (Minds.notify fun hOne => Bool.noConfusion hOne).mono subset_rfl fun _ => hAfter

/-! ### The collector -/

theorem OnlyWriter.freeForGc (h : OnlyWriter held) : FreeForGc held :=
  ⟨h _ (by decide), h _ (by decide), h _ (by decide)⟩

theorem mutex_ne_writer {a : GcAt} {l : Mutex} (hMutex : a.mutex u.cfg = some l) :
    l ≠ .writer := by
  rintro rfl
  have hHolds : FreeForGc (Function.update Setup.noLocks .writer (some .exclusive)) :=
    ⟨rfl, rfl, rfl⟩
  cases GcAt.mutex_free hHolds hMutex

theorem gcAction_raises {a a' : GcAt} {c c' : Cache} {l : Mutex}
    (hRun : u.gcAction a c = .ok (a', c')) (hBefore : c.ready l = false)
    (hAfter : c'.ready l = true) : a.mutex u.cfg = some l ∧ l.signal = .gcFinished := by
  obtain ⟨⟨c₁, a₁⟩, hStep, hEnd⟩ := Execution.bind_eq_ok.mp hRun
  obtain ⟨rfl, rfl⟩ := Prod.mk.inj (Execution.pure_eq_ok.mp hEnd)
  exact (stepGc_inv hStep).raises hBefore hAfter

/-- Whoever waits for the collector is notified at the end of the round. -/
theorem gcRound_minds (h : OnlyWriter held) (fuel : Nat) (a : GcAt) :
    Minds (protocol W n) i held {.gcFinished}
      (fun next => if next then {.gcFinished} else ∅) (Job.ofRoutine (u.gcRound fuel a)) := by
  induction fuel generalizing a with
  | zero => exact minds_stuck
  | succ fuel ih =>
      unfold Setup.gcRound
      rw [ofRoutine_bind]
      refine .bind (E := fun _ => {.gcFinished}) ?_ fun next => ?_
      · cases hMutex : a.mutex u.cfg with
        | none =>
            refine minds_onCache subset_rfl (fun c a' c' hRun l _ _ hBefore hAfter => ?_)
              fun _ => subset_rfl
            have hRaised := (gcAction_raises hRun hBefore hAfter).1
            rw [hMutex] at hRaised
            cases hRaised
        | some l =>
            rw [show Routine.guarded (some l) _ = Routine.lock l (Routine.onCache (u.gcAction a))
              from rfl, ofRoutine_lock]
            refine minds_lock h (mutex_ne_writer hMutex) ?_
            refine minds_onCache subset_rfl (fun c a' c' hRun l' _ _ hBefore hAfter => ?_)
              fun _ => subset_rfl
            obtain ⟨hRaised, hSignal⟩ := gcAction_raises hRun hBefore hAfter
            obtain rfl := Option.some.inj (hMutex.symm.trans hRaised)
            exact ⟨Function.update_self .., hSignal⟩
      · rw [ofRoutine_ite]
        exact .ite (fun _ => .pure subset_rfl) fun _ => ih next

theorem doSlabGc_minds (h : OnlyWriter held) :
    Minds (protocol W n) (n + 1) held ∅ (fun _ => ∅) (doSlabGc u) := by
  unfold doSlabGc
  refine .bind (E := fun next => if next then {.gcFinished} else ∅) ?_ fun next => ?_
  · unfold Setup.doSlabGc
    rw [ofRoutine_bind, ofRoutine_lock, ofRoutine_bind]
    refine .bind (E := fun _ => ∅) (minds_lock h (by decide) ?_) fun _ => ?_
    · exact .bind (minds_wait h (by decide) rfl) fun _ => minds_see
    · rw [ofRoutine_ite]
      refine .ite (fun _ => .pure (Set.empty_subset _)) fun _ => ?_
      exact (gcRound_minds h _ _).mono (Set.empty_subset _) fun _ => subset_rfl
  · refine .ite (fun hNext => ?_) fun hNext => .pure ?_
    · refine .bind (E := fun _ => ∅) (minds_notifyAll ?_) fun _ => .pure subset_rfl
      simp [hNext]
    · rw [if_neg hNext]

/-! ### The flush -/

theorem waitSlabGc_minds (h : OnlyWriter held) :
    Minds (protocol W n) i held ∅ (fun _ => ∅)
      (Job.ofRoutine u.waitSlabGcUntilShutdown) := by
  unfold Setup.waitSlabGcUntilShutdown
  rw [ofRoutine_ite, ofRoutine_lock, ofRoutine_bind]
  refine .ite (fun _ => minds_lock h (by decide) ?_) fun _ => .pure subset_rfl
  exact .bind (minds_wait h (by decide) trivial) fun _ => minds_see

theorem slabGc_minds (hGc : u.enableBackgroundGc = true) :
    Minds (protocol W n) i held ∅ (fun _ => ∅) (Job.ofRoutine u.slabGc) := by
  unfold Setup.slabGc
  rw [if_pos hGc]
  exact .pure subset_rfl

theorem findDslab_minds (hGc : u.enableBackgroundGc = true) (h : OnlyWriter held) (fuel : Nat) :
    Minds (protocol W n) i held ∅ (fun _ => ∅) (Job.ofRoutine (u.findDslab fuel)) := by
  induction fuel with
  | zero => exact minds_stuck
  | succ fuel ih =>
      unfold Setup.findDslab
      rw [ofRoutine_bind, ofRoutine_lock]
      refine .bind (minds_lock h (by decide) (minds_quiet fun c a c' hRun => ?_)) fun found => ?_
      · exact takeFree_raises hRun
      · cases found with
        | some found => exact .pure subset_rfl
        | none =>
            rw [ofRoutine_bind]
            refine .bind (slabGc_minds hGc) fun _ => ?_
            rw [ofRoutine_bind]
            refine .bind (waitSlabGc_minds h) fun more => ?_
            rw [ofRoutine_ite]
            exact .ite (fun _ => ih) fun _ => .pure subset_rfl

/-- The flush owes a notification to the writer and one to the collector. -/
theorem finishSlabFlush_minds (h : OnlyWriter held) (m d channel : Nat) :
    Minds (protocol W n) i held ∅ (fun _ => {.flushFinished, .gc})
      (Job.ofRoutine (u.finishSlabFlush m d channel)) := by
  unfold Setup.finishSlabFlush
  rw [ofRoutine_bind]
  refine .bind (minds_update fun c l _ hReady => ?_) fun _ => ?_
  · cases l <;> exact hReady
  rw [ofRoutine_bind]
  refine .bind (minds_quiet fun c a c' hRun => ?_) fun _ => ?_
  · simp only [Execution.bind_eq_ok, Execution.pure_eq_ok] at hRun
    obtain ⟨_, -, _, -, hEnd⟩ := hRun
    obtain ⟨-, rfl⟩ := Prod.mk.inj hEnd
    exact raisesOnly_refl _ _
  rw [ofRoutine_bind, ofRoutine_lock]
  refine .bind (minds_lock h (by decide) (minds_update fun c => ?_)) fun _ => ?_
  · exact modifyIndexTo_raises _ _ _ _
  rw [ofRoutine_bind]
  refine .bind (minds_update fun c l _ hReady => ?_) fun _ => ?_
  · cases l <;> exact hReady
  rw [ofRoutine_bind, ofRoutine_lock, ofRoutine_lock]
  refine .bind (E := fun _ => {.flushFinished, .gc})
    (minds_lock h (by decide) (minds_raising (Set.empty_subset _) ?_ (.inl rfl)))
    fun _ => minds_lock h (by decide) (minds_raising subset_rfl ?_ (.inr rfl))
  · exact fun c => linkMslabFree_raises c m
  · exact fun c => linkDslabFull_raises c d channel

theorem doSlabFlush_minds (hGc : u.enableBackgroundGc = true) (h : OnlyWriter held) :
    Minds (protocol W n) n held ∅ (fun _ => ∅) (doSlabFlush u) := by
  unfold doSlabFlush
  refine .bind (E := fun more => if more then {.flushFinished, .gc} else ∅) ?_ fun more => ?_
  · unfold Setup.doSlabFlush
    rw [ofRoutine_bind, ofRoutine_lock, ofRoutine_bind]
    refine .bind (E := fun _ => ∅) (minds_lock h (by decide) ?_) fun full => ?_
    · refine .bind (minds_wait h (by decide) rfl) fun _ => ?_
      rw [ofRoutine_bind]
      refine .bind minds_see fun closing => ?_
      rw [ofRoutine_ite]
      refine .ite (fun _ => .pure subset_rfl) fun _ => minds_quiet fun c a c' hRun => ?_
      obtain ⟨⟨m, c₁⟩, hTake, hEnd⟩ := Execution.bind_eq_ok.mp hRun
      obtain ⟨-, rfl⟩ := Prod.mk.inj (Execution.pure_eq_ok.mp hEnd)
      exact takeFull_raises hTake
    · cases full with
      | none => exact .pure (Set.empty_subset _)
      | some m =>
          rw [ofRoutine_bind]
          refine .bind (findDslab_minds hGc h _) fun found => ?_
          cases found with
          | none => exact .pure (Set.empty_subset _)
          | some found =>
              rw [ofRoutine_bind]
              exact .bind (finishSlabFlush_minds h _ _ _) fun _ => .pure subset_rfl
  · refine .ite (fun hMore => ?_) fun hMore => .pure ?_
    · refine .bind (E := fun _ => {.gc}) (minds_notifyOne (by decide) ?_) fun _ => ?_
      · rw [if_pos hMore]
        exact fun v hv => hv.1.resolve_left hv.2
      · refine .bind (E := fun _ => ∅) (minds_notifyOne (by decide) ?_) fun _ => .pure subset_rfl
        rw [Set.sdiff_self]
    · rw [if_neg hMore]

/-! ### Client operations -/

theorem slabFlush_minds : Minds (protocol W n) i held ∅ (fun _ => ∅) slabFlush :=
  minds_notifyOne (by decide) Set.sdiff_subset

theorem waitSlabFlush_minds (h : OnlyWriter held) (hWriter : held .writer = some .exclusive) :
    Minds (protocol W n) i held ∅ (fun _ => ∅)
      (Job.ofRoutine u.waitSlabFlushUntilShutdown) := by
  unfold Setup.waitSlabFlushUntilShutdown
  rw [ofRoutine_ite, ofRoutine_lock, ofRoutine_bind]
  refine .ite (fun _ => minds_lock h (by decide) ?_) fun _ => .pure subset_rfl
  exact .bind (minds_wait h (by decide) hWriter) fun _ => minds_see

theorem slotAlloc_minds (h : OnlyWriter held) (hWriter : held .writer = some .exclusive)
    (size fuel : Nat) :
    Minds (protocol W n) i held ∅ (fun _ => ∅) (slotAlloc u size fuel) := by
  induction fuel with
  | zero => exact minds_stuck
  | succ fuel ih =>
      unfold slotAlloc
      split
      · exact .pure subset_rfl
      · refine .bind (minds_quiet fun c a c' hRun => slotOfPartial_raises hRun) fun slot => ?_
        cases slot with
        | some slot => exact .pure subset_rfl
        | none =>
            rw [ofRoutine_lock]
            refine .bind (minds_lock h (by decide) (minds_quiet fun c a c' hRun => ?_))
              fun taken => ?_
            · obtain rfl := congrArg Prod.snd (Except.ok.inj hRun)
              exact takeFreeMslab_raises c
            · cases taken with
              | some sid =>
                  refine .bind (minds_update fun c l _ hReady => ?_) fun _ => ih
                  cases l <;> exact hReady
              | none =>
                  refine .bind slabFlush_minds fun _ => ?_
                  refine .bind (waitSlabFlush_minds h hWriter) fun _ => ?_
                  exact .ite (fun _ => ih) fun _ => .pure subset_rfl

theorem awaitEntry_minds (hGc : u.enableBackgroundGc = true) (h : OnlyWriter held) (key : Key)
    (sid slotId fuel : Nat) :
    Minds (protocol W n) i (Function.update held .index (some .exclusive)) ∅ (fun _ => ∅)
      (awaitEntry u key sid slotId fuel) := by
  induction fuel with
  | zero => exact minds_stuck
  | succ fuel ih =>
      unfold awaitEntry
      refine .bind slabFlush_minds fun _ => ?_
      refine .bind (slabGc_minds hGc) fun _ => ?_
      refine .bind (minds_wait h (by decide) trivial) fun _ => ?_
      refine .bind (minds_quiet fun c a c' hRun => ?_) fun _ => ?_
      · split at hRun
        · rename_i hInsert
          obtain ⟨-, rfl⟩ := Prod.mk.inj (Except.ok.inj hRun)
          exact insertEntry_raises hInsert
        · obtain ⟨-, rfl⟩ := Prod.mk.inj (Except.ok.inj hRun)
          exact raisesOnly_refl _ _
      · exact .ite (fun _ => .pure subset_rfl) fun _ => ih

theorem putIndex_minds (hGc : u.enableBackgroundGc = true) (h : OnlyWriter held) (key : Key)
    (sid slotId : Nat) :
    Minds (protocol W n) i (Function.update held .index (some .exclusive)) ∅ (fun _ => ∅)
      (putIndex u key sid slotId) := by
  unfold putIndex
  refine .bind (.act subset_rfl (fun s a s' hRun => ?_) fun _ => subset_rfl) fun found => ?_
  · obtain ⟨result, hIndex, hEnd⟩ := Execution.bind_eq_ok.mp hRun
    cases result with
    | none =>
        obtain ⟨-, rfl⟩ := Prod.mk.inj (Execution.pure_eq_ok.mp hEnd)
        exact (protocol W n).raises_refl _ _ _
    | some c =>
        obtain ⟨-, rfl⟩ := Prod.mk.inj (Execution.pure_eq_ok.mp hEnd)
        refine raises_of_ready rfl fun l _ _ hBefore hAfter => ?_
        have hReady := putIndex_raises hIndex l List.not_mem_nil hAfter
        rw [hBefore] at hReady
        cases hReady
  · exact .ite (fun _ => .pure subset_rfl) fun _ => awaitEntry_minds hGc h _ _ _ _

theorem putFull_minds (h : OnlyWriter held) (sid : Nat) :
    Minds (protocol W n) i held ∅ (fun _ => ∅) (putFull sid) := by
  unfold putFull
  refine .bind minds_see fun full => .ite (fun _ => ?_) fun _ => .pure subset_rfl
  refine minds_lock h (by decide) ?_
  refine .bind (minds_raising (Set.empty_subset {.flush}) ?_ (Set.mem_singleton _)) fun _ => ?_
  · intro c l hOther hReady
    cases l with
    | mslabFull => exact absurd (List.mem_singleton_self _) hOther
    | _ => exact hReady
  · refine minds_notifyOne (by decide) ?_
    rw [Set.sdiff_self]

theorem put_minds (hGc : u.enableBackgroundGc = true) (key : Key) (value : Value) :
    Minds (protocol W n) i Setup.noLocks ∅ (fun _ => ∅) (put u key value) := by
  have hOnly : OnlyWriter (Function.update Setup.noLocks .writer (some .exclusive)) :=
    fun l hl => Function.update_of_ne hl ..
  refine .withLock rfl (fun l _ hHeld => absurd rfl hHeld) (.inl rfl) ?_
  refine .bind (slotAlloc_minds hOnly (Function.update_self ..) _ _) fun slot => ?_
  cases slot with
  | error status => exact .pure subset_rfl
  | ok slot =>
      refine .bind (minds_update fun c l _ hReady => ?_) fun _ => ?_
      · cases l <;> exact hReady
      refine .bind (minds_lock hOnly (by decide) (putIndex_minds hGc hOnly _ _ _)) fun _ => ?_
      exact .bind (putFull_minds hOnly _) fun _ => .pure subset_rfl

theorem onlyWriter_noLocks : OnlyWriter Setup.noLocks := fun _ _ => rfl

theorem get_minds (key : Key) :
    Minds (protocol W n) i Setup.noLocks ∅ (fun _ => ∅) (Job.ofRoutine (u.get key)) := by
  unfold Setup.get
  rw [ofRoutine_bind, ofRoutine_lockShared]
  refine .bind (minds_lock onlyWriter_noLocks (by decide) ?_) fun _ => minds_see
  refine minds_quiet fun c a c' hRun => ?_
  obtain ⟨result, -, hEnd⟩ := Execution.bind_eq_ok.mp hRun
  obtain ⟨-, rfl⟩ := Prod.mk.inj (Execution.pure_eq_ok.mp hEnd)
  exact raisesOnly_refl _ _

/-- `Delete` frees an index entry and notifies nobody. -/
theorem delete_minds (hDeletes : ¬W .index) (key : Key) :
    Minds (protocol W n) i Setup.noLocks ∅ (fun _ => ∅) (Job.ofRoutine (u.delete key)) := by
  unfold Setup.delete
  rw [ofRoutine_lock]
  refine minds_lock onlyWriter_noLocks (by decide) (minds_onCache subset_rfl ?_ fun _ => subset_rfl)
  intro c a c' hRun l _ hWatched hBefore hAfter
  obtain ⟨c₁, hDelete, hEnd⟩ := Execution.bind_eq_ok.mp hRun
  obtain ⟨-, rfl⟩ := Prod.mk.inj (Execution.pure_eq_ok.mp hEnd)
  have hOther : l ∉ [Mutex.index] := fun hMem => hDeletes (List.mem_singleton.mp hMem ▸ hWatched)
  have hReady := delete_raises hDelete l hOther hAfter
  rw [hBefore] at hReady
  cases hReady

/-! ### Clients and background threads -/

theorem perform_minds (hGc : u.enableBackgroundGc = true) (call : Call)
    (hDeletes : call.deletes = true → ¬W .index) :
    Minds (protocol W n) i Setup.noLocks ∅ (fun _ => ∅) (perform u call) := by
  cases call with
  | put key value => exact .bind (put_minds hGc key value) fun _ => .pure subset_rfl
  | get key => exact .bind (get_minds key) fun _ => .pure subset_rfl
  | delete key => exact delete_minds (hDeletes rfl) key

theorem client_minds (hGc : u.enableBackgroundGc = true) (calls : List Call)
    (hDeletes : ∀ call ∈ calls, call.deletes = true → ¬W .index) :
    Minds (protocol W n) i Setup.noLocks ∅ (fun _ => ∅) (client u calls) := by
  induction calls with
  | nil => exact .pure subset_rfl
  | cons call rest ih =>
      obtain ⟨hFirst, hRest⟩ := List.forall_mem_cons.mp hDeletes
      exact .bind (perform_minds hGc call hFirst) fun _ => ih hRest

theorem worker_minds {body : Job Bool}
    (hBody : Minds (protocol W n) i Setup.noLocks ∅ (fun _ => ∅) body) (fuel : Nat) :
    Minds (protocol W n) i Setup.noLocks ∅ (fun _ => ∅) (worker body fuel) := by
  induction fuel with
  | zero => exact minds_stuck
  | succ fuel ih => exact .bind hBody fun _ => .ite (fun _ => ih) fun _ => .pure subset_rfl

/-- Threads at their start, each of them minding the others. -/
theorem pool_sound {jobs : List (Job Unit)} (c : Cache)
    (hJobs : ∀ i job, jobs[i]? = some job →
      Minds (protocol W n) i Setup.noLocks ∅ (fun _ => ∅) job) :
    (pool jobs c).Sound (protocol W n) fun _ => ∅ where
  orderly {i t} hi := by
    simp only [pool, List.getElem?_map, Option.map_eq_some_iff] at hi
    obtain ⟨job, hJob, rfl⟩ := hi
    refine Orderly.mono (hJobs i job hJob) subset_rfl fun held e e' _ hLess hEnd => ?_
    obtain ⟨rfl, hNone⟩ := hEnd
    exact ⟨fun _ => rfl, Set.subset_empty_iff.mp (hLess.trans hNone)⟩
  exclusive {i j t u} hi _ _ l hHeld := by
    simp only [pool, List.getElem?_map, Option.map_eq_some_iff] at hi
    obtain ⟨job, -, rfl⟩ := hi
    cases hHeld
  dozing {i t l} hi hDozes := by
    simp only [pool, List.getElem?_map, Option.map_eq_some_iff] at hi
    obtain ⟨job, -, rfl⟩ := hi
    cases hDozes.1
  asleep {i t l} hi hSleeps := by
    simp only [pool, List.getElem?_map, Option.map_eq_some_iff] at hi
    obtain ⟨job, -, rfl⟩ := hi
    cases hSleeps.1

theorem threads_minds (hGc : u.enableBackgroundGc = true) {clients : List (List Call)}
    (hDeletes : ∀ calls ∈ clients, ∀ call ∈ calls, call.deletes = true → ¬W .index) (i : Nat)
    (job : Job Unit) (hJob : (threads u clients)[i]? = some job) :
    Minds (protocol W clients.length) i Setup.noLocks ∅ (fun _ => ∅) job := by
  simp only [threads, List.getElem?_append, List.length_map, List.getElem?_map] at hJob
  split at hJob
  · obtain ⟨calls, hCalls, rfl⟩ := Option.map_eq_some_iff.mp hJob
    exact client_minds hGc calls (hDeletes calls (List.mem_of_getElem? hCalls))
  · rename_i hLater
    obtain hFlush | hCollect | hNone : i - clients.length = 0 ∨ i - clients.length = 1 ∨
      2 ≤ i - clients.length := by omega
    · rw [hFlush] at hJob
      obtain rfl := Option.some.inj hJob
      obtain rfl : i = clients.length := by omega
      exact worker_minds (doSlabFlush_minds hGc onlyWriter_noLocks) _
    · rw [hCollect] at hJob
      obtain rfl := Option.some.inj hJob
      obtain rfl : i = clients.length + 1 := by omega
      exact worker_minds (doSlabGc_minds onlyWriter_noLocks) _
    · rw [List.getElem?_eq_none (by simpa using hNone)] at hJob
      cases hJob

theorem asksFor_writer_of_stuck {debts : Nat → Set Signal} {t : Thread Mutex Signal Shared Site Stop}
    {pool : Pool Mutex Signal Shared Site Stop} {l : Mutex}
    (h : pool.Sound (protocol W n) debts) (hStuck : pool.Stuck)
    (ht : pool.threads[i]? = some t) (hAsks : t.AsksFor l) : l = .writer := by
  by_contra hOther
  exact h.not_asksFor_top hStuck ht (top_of_ne hOther) hAsks

end Signals

/-- With threads for the flush and the collector, and any clients: when no thread
can make a step, every sleeper waits for a condition that is false, with
exception of a `Put` that waits for an index entry while others delete; and all
other threads have finished, or ask for the writer mutex while its owner
sleeps. -/
theorem stuck_sleeps (u : Setup) (clients : List (List Call)) (c : Cache) {moves : List Move}
    {pool : Pool Mutex Signal Shared Site Stop} {done : List Unit}
    (hBackground : u.enableBackgroundFlush = true ∧ u.enableBackgroundGc = true)
    (hRun : (Signals.pool (Signals.threads u clients) c).run moves = .ok (pool, done))
    (hStuck : pool.Stuck) :
    (∀ t ∈ pool.threads, ∀ l, t.SleepsAt l →
      (l = .index → ∀ calls ∈ clients, ∀ call ∈ calls, call.deletes = false) →
        pool.state.cache.ready l = false) ∧
    ∀ t ∈ pool.threads, t.Finished ∨ (∃ l, t.SleepsAt l) ∨
      (t.AsksFor .writer ∧ ∃ p ∈ pool.threads, p.held .writer ≠ none ∧ ∃ l, p.SleepsAt l) := by
  have hDeletes : ∀ calls ∈ clients, ∀ call ∈ calls, call.deletes = true →
      ¬(Mutex.index = .index → ∀ calls ∈ clients, ∀ call ∈ calls, call.deletes = false) := by
    intro calls hCalls call hCall hDelete hNobody
    rw [hNobody rfl calls hCalls call hCall] at hDelete
    cases hDelete
  obtain ⟨debts, hSound⟩ := (Signals.pool_sound (W := fun l => l = .index →
    ∀ calls ∈ clients, ∀ call ∈ calls, call.deletes = false) c
      (Signals.threads_minds hBackground.2 hDeletes)).run hRun
  constructor
  · intro t hMem l hSleeps hNobody
    obtain ⟨i, ht⟩ := List.getElem?_of_mem hMem
    exact Mutex.not_ready_cache (hSound.stuck_sleeper hStuck ht hSleeps hNobody)
  · intro t hMem
    obtain ⟨i, ht⟩ := List.getElem?_of_mem hMem
    rcases hSound.stuck_thread hStuck ht with hDone | hSleeps | ⟨l, hAsks, j, p, hp, hHeld⟩
    · exact .inl hDone
    · exact .inr (.inl hSleeps)
    · obtain rfl := Signals.asksFor_writer_of_stuck hSound hStuck ht hAsks
      refine .inr (.inr ⟨hAsks, p, List.mem_of_getElem? hp, hHeld, ?_⟩)
      obtain ⟨l', hSleeps | hAsks', hAbove⟩ := hSound.stuck_holder hStuck hp hHeld
      · exact ⟨l', hSleeps⟩
      · obtain rfl := Signals.asksFor_writer_of_stuck hSound hStuck hp hAsks'
        exact absurd hAbove (lt_irrefl _)

/-- A cache whose flush and collector have threads of their own. -/
def Setup.background (cfg : Config) : Setup :=
  { Setup.foreground cfg with enableBackgroundFlush := true, enableBackgroundGc := true }

/-- A client that puts a small object and a large one, and another client. -/
def Call.smallAndLarge : List (List Call) :=
  [[.put [1] [7], .put [2] (List.replicate 16 0)], [.put [3] [7]]]

/-- The background threads fall asleep, the first client goes as far as it can,
and the flush looks for a full slab in vain. -/
def Move.smallAndLarge : List Move :=
  List.replicate 3 (.step 2 2) ++ List.replicate 3 (.step 3 2) ++ List.replicate 22 (.step 0 2) ++
    List.replicate 3 (.step 2 2)

/-- The large object waits for a memory slab, of which the small one has the
last, and the other client waits for the writer mutex. -/
theorem stuck_sleeps_large_object :
    ∃ c pool done, Cache.create .debug .twoClasses = .ok c ∧
      (Signals.pool (Signals.threads (.background .twoClasses) Call.smallAndLarge) c).run
        Move.smallAndLarge = .ok (pool, done) ∧
      pool.threads.map Thread.phase = [.asleep, .running, .asleep, .asleep] ∧
      (∀ t ∈ pool.threads, ∀ l, t.SleepsAt l → pool.state.cache.ready l = false) ∧
      ∀ t ∈ pool.threads, t.Finished ∨ (∃ l, t.SleepsAt l) ∨
        (t.AsksFor .writer ∧ ∃ p ∈ pool.threads, p.held .writer ≠ none ∧ ∃ l, p.SleepsAt l) := by
  obtain ⟨c, hCreate, hCheck⟩ := Execution.ok_of_check (x := Cache.create .debug .twoClasses)
    (fun c => decide (
      ((Signals.pool (Signals.threads (.background .twoClasses) Call.smallAndLarge) c).run
        Move.smallAndLarge).map (fun r =>
        (r.1.threads.map Thread.phase, r.1.threads.all r.1.blocked)) =
          .ok ([.asleep, .running, .asleep, .asleep], true)))
    (by decide +kernel)
  have hCheck := of_decide_eq_true hCheck
  cases hRun : (Signals.pool (Signals.threads (.background .twoClasses) Call.smallAndLarge) c).run
      Move.smallAndLarge with
  | error fault =>
      rw [hRun] at hCheck
      cases hCheck
  | ok r =>
      rw [hRun] at hCheck
      obtain ⟨hPhases, hBlocked⟩ := Prod.mk.inj (Except.ok.inj hCheck)
      obtain ⟨hFalse, hThreads⟩ := stuck_sleeps _ _ c ⟨rfl, rfl⟩ hRun (Pool.stuck_of_blocked hBlocked)
      refine ⟨c, r.1, r.2, hCreate, hRun, hPhases, fun t ht l hSleeps => ?_, hThreads⟩
      exact hFalse t ht l hSleeps fun _ => by decide

end KVCache
