import KVCache.Data.Wakeups

/-! Threads with condition variables behave like threads that wait for their
conditions without being notified: every run of a sound pool is one of the pool
without notifications. A thread that looks at its condition again, and finds it
false, does nothing there. -/

namespace Monitors

open Locks (Mode Held Fault)

variable {L V σ S ε α β : Type}

namespace Prog

/-- A program that takes its locks unconditionally. -/
def Plain : Locks.Prog L σ S ε α → Prop
  | .ret _ => True
  | .act _ _ k => ∀ b, Plain (k b)
  | .acquire _ _ p k => (∀ s, p s = true) ∧ Plain k
  | .release _ k => Plain k
  | .wait _ _ k => Plain k

namespace Plain

theorem bind {x : Locks.Prog L σ S ε α} {f : α → Locks.Prog L σ S ε β} (hFirst : Plain x)
    (hNext : ∀ a, Plain (f a)) : Plain (x >>= f) := by
  change Plain (x.bind f)
  induction x with
  | ret a => exact hNext a
  | act site g k ih => exact fun b => ih b (hFirst b)
  | acquire l m p k ih => exact ⟨hFirst.1, ih hFirst.2⟩
  | release l k ih => exact ih hFirst
  | wait l p k ih => exact ih hFirst

theorem withLock {l : L} {m : Mode} {body : Locks.Prog L σ S ε α} (hBody : Plain body) :
    Plain (.withLock l m body) :=
  ⟨fun _ => rfl, hBody.bind fun _ => trivial⟩

theorem ite {c : Prop} [Decidable c] {x y : Locks.Prog L σ S ε α} (hThen : Plain x)
    (hElse : Plain y) : Plain (if c then x else y) := by
  split
  · exact hThen
  · exact hElse

end Plain

theorem erase_lift {signal : L → V} {x : Locks.Prog L σ S ε α} (h : Plain x) :
    erase (lift signal x) = x := by
  induction x with
  | ret a => rfl
  | act site f k ih => exact congrArg (Locks.Prog.act site f) (funext fun b => ih b (h b))
  | acquire l m p k ih =>
      obtain rfl : p = fun _ => true := funext h.1
      exact congrArg (Locks.Prog.acquire l m _) (ih h.2)
  | release l k ih => exact congrArg (Locks.Prog.release l) (ih h)
  | wait l p k ih => exact congrArg (Locks.Prog.wait l p) (ih h)

theorem bind_ret (x : Locks.Prog L σ S ε α) : x >>= Locks.Prog.ret = x := by
  change x.bind Locks.Prog.ret = x
  induction x with
  | ret a => rfl
  | act site g k ih => exact congrArg (Locks.Prog.act site g) (funext ih)
  | acquire l m p k ih => exact congrArg (Locks.Prog.acquire l m p) ih
  | release l k ih => exact congrArg (Locks.Prog.release l) ih
  | wait l p k ih => exact congrArg (Locks.Prog.wait l p) ih

theorem erase_bind (x : Prog L V σ S ε α) (f : α → Prog L V σ S ε β) :
    erase (x >>= f) = erase x >>= fun a => erase (f a) := by
  change erase (x.bind f) = (erase x).bind fun a => erase (f a)
  induction x with
  | ret a => rfl
  | act site g k ih => exact congrArg (Locks.Prog.act site g) (funext ih)
  | acquire l m k ih => exact congrArg (Locks.Prog.acquire l m _) ih
  | release l k ih => exact congrArg (Locks.Prog.release l) ih
  | wait v l p k ih => exact congrArg (Locks.Prog.wait l p) ih
  | notify v all k ih => exact ih

theorem erase_bind_eq {x : Prog L V σ S ε α} {f : α → Prog L V σ S ε β}
    {x' : Locks.Prog L σ S ε α} {f' : α → Locks.Prog L σ S ε β} (hFirst : erase x = x')
    (hNext : ∀ a, erase (f a) = f' a) : erase (x >>= f) = x' >>= f' := by
  rw [erase_bind, hFirst]
  exact congrArg (x' >>= ·) (funext hNext)

theorem erase_withLock (l : L) (m : Mode) (body : Prog L V σ S ε α) :
    erase (withLock l m body) = .withLock l m (erase body) :=
  congrArg (Locks.Prog.acquire l m _) (erase_bind body _)

theorem erase_ite {c : Prop} [Decidable c] (x y : Prog L V σ S ε α) :
    erase (if c then x else y) = if c then erase x else erase y :=
  apply_ite _ _ _ _

end Prog

variable [DecidableEq L] {t : Thread L V σ S ε} {t' : Locks.Thread L σ S ε} {i : Nat} {l : L}

/-- A thread, and the same thread when it waits for its condition at once with
the lock. -/
inductive Thread.Follows : Thread L V σ S ε → Locks.Thread L σ S ε → Prop
  | runs (held : Held L) (code : Prog L V σ S ε Unit) :
      Follows ⟨held, .running, code⟩ ⟨held, code.erase⟩
  /-- it has looked at the condition before, and has the lock again or still -/
  | looks {held : Held L} {phase : Phase} {l : L} (v : V) (p : σ → Bool) (k : Prog L V σ S ε Unit)
      (hPhase : phase ≠ .asleep) (hHeld : held l = some .exclusive) :
      Follows ⟨held, phase, .wait v l p k⟩
        ⟨Function.update held l none, .acquire l .exclusive p k.erase⟩
  | sleeps {held : Held L} {l : L} (v : V) (p : σ → Bool) (k : Prog L V σ S ε Unit)
      (hNone : held l = none) :
      Follows ⟨held, .asleep, .wait v l p k⟩ ⟨held, .acquire l .exclusive p k.erase⟩
  | woken {held : Held L} {l : L} (v : V) (p : σ → Bool) (k : Prog L V σ S ε Unit)
      (hNone : held l = none) :
      Follows ⟨held, .running, .acquire l .exclusive (.wait v l p k)⟩
        ⟨held, .acquire l .exclusive p k.erase⟩

namespace Thread.Follows

theorem held_le (h : t.Follows t') (l : L) : t'.held l = t.held l ∨ t'.held l = none := by
  cases h with
  | looks v p k hPhase hHeld =>
      rename_i held phase l'
      by_cases hEq : l = l'
      · subst hEq
        exact .inr (Function.update_self ..)
      · exact .inl (Function.update_of_ne hEq ..)
  | _ => exact .inl rfl

theorem wake (h : t.Follows t') : t.wake.Follows t' := by
  cases h with
  | runs held code => exact .runs held code
  | looks v p k hPhase hHeld =>
      rename_i held phase l'
      cases phase with
      | asleep => exact absurd rfl hPhase
      | _ => exact .looks v p k (fun hAsleep => Phase.noConfusion hAsleep) hHeld
  | sleeps v p k hNone => exact .woken v p k hNone
  | woken v p k hNone => exact .woken v p k hNone

end Thread.Follows

/-- Two pools in the same state, thread by thread. -/
structure Pool.Follows (pool : Pool L V σ S ε) (pool' : Locks.Pool L σ S ε) : Prop where
  state : pool'.state = pool.state
  threads : ∀ i : Nat, Option.Rel Thread.Follows pool.threads[i]? pool'.threads[i]?

namespace Pool

variable {P : Protocol L V σ} {debts : Nat → Set V} {pool next : Pool L V σ S ε}
  {pool' : Locks.Pool L σ S ε}

namespace Follows

theorem get (h : pool.Follows pool') (ht : pool.threads[i]? = some t) :
    ∃ t', pool'.threads[i]? = some t' ∧ Thread.Follows t t' := by
  have hRel := h.threads i
  rw [ht] at hRel
  cases ht' : pool'.threads[i]? with
  | none =>
      rw [ht'] at hRel
      cases hRel
  | some t' =>
      rw [ht'] at hRel
      cases hRel with
      | some hRel => exact ⟨t', rfl, hRel⟩

theorem back (h : pool.Follows pool') (ht' : pool'.threads[i]? = some t') :
    ∃ t, pool.threads[i]? = some t ∧ t.Follows t' := by
  have hRel := h.threads i
  rw [ht'] at hRel
  cases ht : pool.threads[i]? with
  | none =>
      rw [ht] at hRel
      cases hRel
  | some t =>
      rw [ht] at hRel
      cases hRel with
      | some hRel => exact ⟨t, rfl, hRel⟩

/-- The lock is as free without notifications. -/
theorem free {m : Mode} (h : pool.Follows pool') (hFree : pool.free l m = true) :
    pool'.free l m = true := by
  refine List.all_eq_true.mpr fun u' hMem => ?_
  obtain ⟨j, hj⟩ := List.getElem?_of_mem hMem
  obtain ⟨u, hu, hThread⟩ := h.back hj
  rcases hThread.held_le l with hSame | hNone
  · rw [hSame]
    exact List.all_eq_true.mp hFree u (List.mem_of_getElem? hu)
  · rw [hNone]
    rfl

/-- Both threads go on. -/
theorem resume {s : σ} {u : Thread L V σ S ε} {u' : Locks.Thread L σ S ε} (h : pool.Follows pool')
    (ht : pool.threads[i]? = some t) (hu : Thread.Follows u u') :
    (pool.resume i s u).Follows (pool'.resume i s u') where
  state := rfl
  threads j := by
    obtain ⟨t', ht', -⟩ := h.get ht
    have hLength := (List.getElem?_eq_some_iff.mp ht').1
    rw [resume_get ht]
    simp only [Locks.Pool.resume, List.getElem?_set, hLength, if_true]
    split
    · exact .some hu
    · exact h.threads j

/-- The thread without notifications stays where it is. -/
theorem stays {u : Thread L V σ S ε} (h : pool.Follows pool') (ht : pool.threads[i]? = some t)
    (ht' : pool'.threads[i]? = some t') (hu : Thread.Follows u t') :
    (pool.resume i pool.state u).Follows pool' where
  state := h.state
  threads j := by
    rw [resume_get ht]
    split
    · subst_vars
      rw [ht']
      exact .some hu
    · exact h.threads j

/-- A step of a thread without notifications. -/
theorem run_one {after : Locks.Pool L σ S ε} (ht' : pool'.threads[i]? = some t')
    (hStep : pool'.stepThread i t'.held t'.code = .ok after) :
    pool'.run [i] = .ok (after, []) := by
  refine Runs.run_single.mpr ?_
  simp only [Locks.Pool.step, ht', hStep]
  rfl

/-- A thread that is woken without notifications stays where it is. -/
theorem wakeOne (h : pool.Follows pool') (ht : pool.threads[i]? = some t) :
    (pool.resume i pool.state t.wake).Follows pool' := by
  obtain ⟨t', ht', hThread⟩ := h.get ht
  exact h.stays ht ht' hThread.wake

theorem wakeAll [DecidableEq V] (h : pool.Follows pool') (v : V) :
    (pool.wakeAll v).Follows pool' where
  state := h.state
  threads i := by
    have hRel := h.threads i
    simp only [Pool.wakeAll, List.getElem?_map]
    generalize pool.threads[i]? = o at hRel
    generalize pool'.threads[i]? = o' at hRel
    cases hRel with
    | none => exact .none
    | some hRel =>
        refine .some ?_
        dsimp only
        split
        · exact hRel.wake
        · exact hRel

end Follows

/-- A lock that one thread holds exclusively is free for the same thread without
notifications. -/
theorem Sound.free_erased (h : pool.Sound P debts) (hPool : pool.Follows pool')
    (ht : pool.threads[i]? = some t) (ht' : pool'.threads[i]? = some t')
    (hHeld : t.held l = some .exclusive) (hNone : t'.held l = none) :
    pool'.free l .exclusive = true := by
  refine List.all_eq_true.mpr fun u' hMem => ?_
  obtain ⟨j, hj⟩ := List.getElem?_of_mem hMem
  have hFree : u'.held l = none := by
    by_cases hEq : j = i
    · subst hEq
      obtain rfl := Option.some.inj (hj.symm.trans ht')
      exact hNone
    · obtain ⟨u, hu, hThread⟩ := hPool.back hj
      have hOther := h.exclusive ht hu (Ne.symm hEq) l hHeld
      rcases hThread.held_le l with hSame | hNone'
      · exact hSame.trans hOther
      · exact hNone'
  rw [hFree]
  rfl

variable [DecidableEq V] {n : Nat} {held : Held L} {code : Prog L V σ S ε Unit}

/-- A step of a thread that runs. -/
theorem Sound.stepRunning_erases (h : pool.Sound P debts) (hPool : pool.Follows pool')
    (ht : pool.threads[i]? = some ⟨held, .running, code⟩)
    (hStep : pool.stepRunning i n held code = .ok next) :
    ∃ order after done, pool'.run order = .ok (after, done) ∧ next.Follows after := by
  have hOrderly : Monitors.Orderly P i Ends held (debts i) code := h.orderly ht
  obtain ⟨t', ht', hThread⟩ := hPool.get ht
  cases hThread with
  | looks v p k hPhase hHeld =>
      rename_i l
      simp only [Pool.stepRunning] at hStep
      split at hStep
      · rename_i hReady
        obtain rfl := Except.ok.inj hStep
        -- nobody else has the lock, so that it can be taken in one step
        have hFree := h.free_erased hPool ht ht' hHeld (Function.update_self ..)
        refine ⟨[i], _, [], Follows.run_one ht' ?_, hPool.resume ht (.runs held k)⟩
        simp only [Locks.Pool.stepThread, hFree, hPool.state, hReady, Bool.and_self, if_true,
          Function.update_idem, ← hHeld, Function.update_eq_self]
      · obtain rfl := Except.ok.inj hStep
        exact ⟨[], pool', [], rfl, hPool.stays ht ht' (.looks v p k Phase.noConfusion hHeld)⟩
  | woken v p k hNone =>
      rename_i l
      simp only [Pool.stepRunning] at hStep
      split at hStep
      · obtain rfl := Except.ok.inj hStep
        have hLooks : Thread.Follows
            ⟨Function.update held l (some .exclusive), .running, .wait v l p k⟩
            ⟨Function.update (Function.update held l (some .exclusive)) l none,
              .acquire l .exclusive p k.erase⟩ :=
          .looks v p k Phase.noConfusion (Function.update_self ..)
        rw [Function.update_idem, ← hNone, Function.update_eq_self] at hLooks
        exact ⟨[], pool', [], rfl, hPool.stays ht ht' hLooks⟩
      · cases hStep
  | runs =>
      cases code with
      | ret a => cases hStep
      | act site f k =>
          simp only [Pool.stepRunning] at hStep
          split at hStep
          · rename_i b s hf
            obtain rfl := Except.ok.inj hStep
            refine ⟨[i], _, [], Follows.run_one ht' ?_, hPool.resume ht (.runs held (k b))⟩
            simp only [Prog.erase, Locks.Pool.stepThread, hPool.state, hf]
          · cases hStep
      | acquire l m k =>
          simp only [Pool.stepRunning] at hStep
          split at hStep
          · rename_i hFree
            obtain rfl := Except.ok.inj hStep
            refine ⟨[i], _, [], Follows.run_one ht' ?_, hPool.resume ht (.runs _ k)⟩
            simp only [Prog.erase, Locks.Pool.stepThread, hPool.state, hPool.free hFree,
              Bool.and_self, if_true]
          · cases hStep
      | release l k =>
          obtain rfl := Except.ok.inj hStep
          refine ⟨[i], _, [], Follows.run_one ht' ?_, hPool.resume ht (.runs _ k)⟩
          simp only [Prog.erase, Locks.Pool.stepThread, hPool.state]
      | wait v l p k =>
          obtain ⟨-, -, -, hHeld, -⟩ := hOrderly
          simp only [Pool.stepRunning] at hStep
          split at hStep
          · rename_i hReady
            obtain rfl := Except.ok.inj hStep
            refine ⟨[i], _, [], Follows.run_one ht' ?_, hPool.resume ht (.runs held k)⟩
            simp only [Prog.erase, Locks.Pool.stepThread, hPool.state, hReady, if_true]
          · rename_i hReady
            obtain rfl := Except.ok.inj hStep
            refine ⟨[i], _, [], Follows.run_one ht' ?_,
              hPool.resume ht (.looks v p k Phase.noConfusion hHeld)⟩
            simp only [Prog.erase, Locks.Pool.stepThread, hPool.state, hReady]
            rfl
      | notify v all k =>
          refine ⟨[], pool', [], rfl, ?_⟩
          cases all with
          | true =>
              obtain rfl := Except.ok.inj hStep
              exact (hPool.wakeAll v).stays (t := ⟨held, .running, .notify v true k⟩)
                (by simp [Pool.wakeAll, ht, Thread.sleepsOn]) ht' (.runs held k)
          | false =>
              simp only [Pool.stepRunning] at hStep
              split at hStep
              · split at hStep
                · rename_i u hu
                  split at hStep
                  · rename_i hOn
                    obtain rfl := Except.ok.inj hStep
                    have hNe : n ≠ i := by
                      rintro rfl
                      obtain rfl := Option.some.inj (hu.symm.trans ht)
                      cases hOn
                    refine (hPool.wakeOne hu).stays (t := ⟨held, .running, .notify v false k⟩) ?_ ht'
                      (.runs held k)
                    rw [resume_get hu, if_neg hNe, ht]
                  · cases hStep
                · cases hStep
              · obtain rfl := Except.ok.inj hStep
                exact hPool.stays ht ht' (.runs held k)

/-- A step is at most one step without notifications. -/
theorem Sound.step_erases {move : Move} {done : List Unit} (h : pool.Sound P debts)
    (hPool : pool.Follows pool') (hStep : pool.step move = .ok (next, done)) :
    ∃ order after done, pool'.run order = .ok (after, done) ∧ next.Follows after := by
  cases move with
  | step i pick =>
      simp only [Pool.step] at hStep
      split at hStep
      · cases hStep
      · rename_i t ht
        obtain ⟨_, hNext, hEnd⟩ := Execution.bind_eq_ok.mp hStep
        obtain ⟨rfl, -⟩ := Prod.mk.inj (Execution.pure_eq_ok.mp hEnd)
        obtain ⟨t', ht', hThread⟩ := hPool.get ht
        cases hThread with
        | runs held code => exact h.stepRunning_erases hPool ht hNext
        | woken v p k hNone => exact h.stepRunning_erases hPool ht (n := pick) hNext
        | sleeps v p k hNone => cases hNext
        | looks v p k hPhase hHeld =>
            rename_i held phase l
            cases phase with
            | running => exact h.stepRunning_erases hPool ht (n := pick) hNext
            | asleep => exact absurd rfl hPhase
            | dozing =>
                obtain rfl := Except.ok.inj hNext
                exact ⟨[], pool', [], rfl,
                  hPool.stays ht ht' (.sleeps v p k (Function.update_self ..))⟩
  | spurious i =>
      simp only [Pool.step] at hStep
      split at hStep
      · cases hStep
      · obtain ⟨rfl, -⟩ := Prod.mk.inj (Except.ok.inj hStep)
        exact ⟨[], pool', [], rfl, hPool.wakeOne ‹_›⟩

/-- Every run of a sound pool is one without notifications. -/
theorem Sound.run_erases {moves : List Move} {done : List Unit} (h : pool.Sound P debts)
    (hPool : pool.Follows pool') (hRun : pool.run moves = .ok (next, done)) :
    ∃ order after done, pool'.run order = .ok (after, done) ∧ next.Follows after := by
  have hEnd := Runs.run_invariant
    (P := fun pool => (∃ debts, pool.Sound P debts) ∧
      ∃ order after done, pool'.run order = .ok (after, done) ∧ pool.Follows after)
    (fun pool move next done hPools _ hStep => ?_) hRun (Runs.along_true _ moves)
    ⟨⟨debts, h⟩, [], pool', [], rfl, hPool⟩
  · exact hEnd.2
  · obtain ⟨⟨debts, hSound⟩, order, after, before, hOrder, hAfter⟩ := hPools
    obtain ⟨more, last, later, hMore, hLast⟩ := hSound.step_erases hAfter hStep
    exact ⟨hSound.step hStep, order ++ more, last, _, Runs.run_append hOrder hMore, hLast⟩

end Pool

end Monitors
