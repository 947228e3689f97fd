import KVCache.Data.Monitors

/-! No wake-up is lost in a pool of orderly threads. While a thread sleeps with
its condition true, another one is still going to notify it. So when no thread
can make a step, all sleepers wait for conditions that are false. -/

namespace Monitors

open Locks (Mode Held Fault)

variable {L V σ S ε : Type} {P : Protocol L V σ} {pool pool' : Pool L V σ S ε} {i j : Nat}
  {t u : Thread L V σ S ε} {l : L} {e : Set V} {debts : Nat → Set V}

/-! ### Sleepers -/

namespace Thread

@[simp] theorem wake_held : t.wake.held = t.held := by
  obtain ⟨held, phase, code⟩ := t
  cases phase <;> cases code <;> rfl

theorem dozesAt_of_wake (h : t.wake.DozesAt l) : t.DozesAt l := by
  obtain ⟨held, phase, code⟩ := t
  cases phase <;> cases code <;> first | exact h | cases h.1

theorem not_sleepsAt_wake : ¬t.wake.SleepsAt l := by
  obtain ⟨held, phase, code⟩ := t
  cases phase <;> cases code <;> simp [wake, SleepsAt]

theorem sleepsOn_iff [DecidableEq V] {v : V} : t.sleepsOn v = true ↔
    t.phase = .asleep ∧ ∃ l p k, t.code = .wait v l p k := by
  obtain ⟨held, phase, code⟩ := t
  cases phase with
  | running => simp [sleepsOn]
  | dozing => simp [sleepsOn]
  | asleep => cases code <;> simp [sleepsOn]

end Thread

/-- A thread ends without locks and with nothing left to notify. -/
def Ends (held : Held L) (debts : Set V) (_ : Unit) : Prop := (∀ l, held l = none) ∧ debts = ∅

variable [DecidableEq L]

/-- The thread is orderly from where it is. A sleeper is so with the lock that it
gave up. -/
def Thread.Orderly (P : Protocol L V σ) (i : Nat) (e : Set V) (t : Thread L V σ S ε) : Prop :=
  match t.phase with
  | .running => Monitors.Orderly P i Ends t.held e t.code
  | .dozing => (∃ l, t.DozesAt l) ∧ Monitors.Orderly P i Ends t.held e t.code
  | .asleep => ∃ l, t.SleepsAt l ∧ t.held l = none ∧
      Monitors.Orderly P i Ends (Function.update t.held l (some .exclusive)) e t.code

namespace Thread

/-- What an orderly sleeper is about to do once it is woken. -/
theorem Orderly.asleep (h : t.Orderly P i e) (hAsleep : t.phase = .asleep) :
    ∃ l k, t = ⟨t.held, .asleep, .wait (P.signal l) l (P.ready l) k⟩ ∧ t.held l = none ∧
      P.Above t.held l ∧ e = ∅ ∧ P.sleeper (P.signal l) i t.held ∧
      Monitors.Orderly P i Ends (Function.update t.held l (some .exclusive)) e
        (.wait (P.signal l) l (P.ready l) k) := by
  obtain ⟨held, phase, code⟩ := t
  obtain rfl : phase = .asleep := hAsleep
  obtain ⟨l, ⟨-, v, p, k, hCode⟩, hNone, hWait⟩ := h
  change code = _ at hCode
  change held l = none at hNone
  subst hCode
  obtain ⟨hDebts, rfl, rfl, -, hAbove, hSleeper, -⟩ := id hWait
  rw [Function.update_idem, ← hNone, Function.update_eq_self] at hSleeper
  refine ⟨l, k, rfl, hNone, fun l' hNe hHeld => hAbove l' hNe ?_, hDebts, hSleeper, hWait⟩
  rwa [Function.update_of_ne hNe]

/-- A thread that is woken is orderly. -/
theorem Orderly.wake (h : t.Orderly P i e) : t.wake.Orderly P i e := by
  cases hPhase : t.phase with
  | asleep =>
      obtain ⟨l, k, hEq, hNone, hAbove, hDebts, -, hWait⟩ := h.asleep hPhase
      rw [hEq]
      exact ⟨hNone, hAbove, .inl hDebts, hWait⟩
  | _ =>
      obtain ⟨held, phase, code⟩ := t
      obtain rfl : phase = _ := hPhase
      exact h

end Thread

/-- Every thread is orderly, with its own notifications to be made. A lock that
is held exclusively is held by one thread. A sleeper whose condition is true is
going to be notified. -/
structure Pool.Sound (P : Protocol L V σ) (pool : Pool L V σ S ε) (debts : Nat → Set V) :
    Prop where
  orderly : ∀ {i : Nat} {t : Thread L V σ S ε}, pool.threads[i]? = some t →
    t.Orderly P i (debts i)
  exclusive : ∀ {i j : Nat} {t u : Thread L V σ S ε}, pool.threads[i]? = some t →
    pool.threads[j]? = some u → i ≠ j → ∀ l, t.held l = some .exclusive → u.held l = none
  dozing : ∀ {i : Nat} {t : Thread L V σ S ε} {l : L}, pool.threads[i]? = some t → t.DozesAt l →
    P.watched l → P.ready l pool.state = false
  asleep : ∀ {i : Nat} {t : Thread L V σ S ε} {l : L}, pool.threads[i]? = some t → t.SleepsAt l →
    P.watched l → P.ready l pool.state = true →
    ∃ j u, pool.threads[j]? = some u ∧ P.signal l ∈ debts j

namespace Pool

omit [DecidableEq L] in
theorem resume_get {s : σ} (ht : pool.threads[i]? = some t) :
    (pool.resume i s u).threads[j]? = if i = j then some u else pool.threads[j]? := by
  have hLength := (List.getElem?_eq_some_iff.mp ht).1
  simp only [resume, List.getElem?_set, hLength, if_true]

namespace Sound

/-- Threads that are woken keep the pool sound. -/
theorem wakes (h : pool.Sound P debts) (hState : pool'.state = pool.state)
    (hThreads : ∀ {j : Nat} {u' : Thread L V σ S ε}, pool'.threads[j]? = some u' →
      ∃ u, pool.threads[j]? = some u ∧ (u' = u ∨ u' = u.wake))
    (hAll : ∀ {j : Nat} {u : Thread L V σ S ε}, pool.threads[j]? = some u →
      ∃ u', pool'.threads[j]? = some u') : pool'.Sound P debts where
  orderly hi := by
    obtain ⟨t, ht, rfl | rfl⟩ := hThreads hi
    · exact h.orderly ht
    · exact (h.orderly ht).wake
  exclusive hi hj hNe l hHeld := by
    obtain ⟨t, ht, hWake⟩ := hThreads hi
    obtain ⟨u, hu, hWake'⟩ := hThreads hj
    have hEq := h.exclusive ht hu hNe l
    rcases hWake with rfl | rfl <;> rcases hWake' with rfl | rfl <;>
      simpa using hEq (by simpa using hHeld)
  dozing hi hDozes hWatched := by
    obtain ⟨t, ht, rfl | rfl⟩ := hThreads hi
    · exact hState ▸ h.dozing ht hDozes hWatched
    · exact hState ▸ h.dozing ht (Thread.dozesAt_of_wake hDozes) hWatched
  asleep hi hSleeps hWatched hReady := by
    obtain ⟨t, ht, rfl | rfl⟩ := hThreads hi
    · obtain ⟨j, u, hu, hDebt⟩ := h.asleep ht hSleeps hWatched (hState ▸ hReady)
      obtain ⟨u', hu'⟩ := hAll hu
      exact ⟨j, u', hu', hDebt⟩
    · exact absurd hSleeps Thread.not_sleepsAt_wake

/-- A thread that dozes holds the lock of its wait. -/
theorem dozes_held (h : pool.Sound P debts) (ht : pool.threads[i]? = some t) (hDozes : t.DozesAt l) :
    t.held l = some .exclusive := by
  have hOrderly := h.orderly ht
  obtain ⟨held, phase, code⟩ := t
  obtain ⟨hPhase, v, p, k, hCode⟩ := hDozes
  obtain rfl : phase = .dozing := hPhase
  obtain rfl : code = _ := hCode
  exact hOrderly.2.2.2.2.1

/-- A thread goes on in another state. What it no longer has to notify, nobody
waits for. -/
theorem resume {s : σ} (h : pool.Sound P debts) (ht : pool.threads[i]? = some t)
    (hOrderly : u.Orderly P i e)
    (hHeld : ∀ l, u.held l = t.held l ∨ u.held l = none ∨
      ∃ m, u.held l = some m ∧ pool.free l m = true)
    (hRaises : P.Raises t.held e pool.state s)
    (hDebts : ∀ v ∈ debts i, v ∈ e ∨ ∀ {j : Nat} {w : Thread L V σ S ε} {l : L},
      pool.threads[j]? = some w → w.SleepsAt l → P.signal l ≠ v)
    (hRests : ∀ l, u.DozesAt l ∨ u.SleepsAt l → P.watched l → P.ready l s = false) :
    (pool.resume i s u).Sound P (Function.update debts i e) where
  orderly {j w} hj := by
    rw [resume_get ht] at hj
    split at hj
    · obtain rfl := Option.some.inj hj
      subst_vars
      rwa [Function.update_self]
    · rename_i hNe
      rw [Function.update_of_ne (Ne.symm hNe)]
      exact h.orderly hj
  exclusive {j j' w w'} hj hj' hNe l hExclusive := by
    rw [resume_get ht] at hj hj'
    split at hj
    · obtain rfl := Option.some.inj hj
      subst_vars
      rw [if_neg hNe] at hj'
      rcases hHeld l with hSame | hNone | ⟨m, hMode, hFree⟩
      · exact h.exclusive ht hj' hNe l (hSame ▸ hExclusive)
      · rw [hNone] at hExclusive
        cases hExclusive
      · obtain rfl := Option.some.inj (hMode.symm.trans hExclusive)
        have hw := List.all_eq_true.mp hFree w' (List.mem_of_getElem? hj')
        cases hLock : w'.held l with
        | none => rfl
        | some m' =>
            rw [hLock] at hw
            cases m' <;> cases hw
    · split at hj'
      · rename_i hOther _
        obtain rfl := Option.some.inj hj'
        subst_vars
        rcases hHeld l with hSame | hNone | ⟨m, hMode, hFree⟩
        · exact hSame.trans (h.exclusive hj ht hNe l hExclusive)
        · exact hNone
        · have hw := List.all_eq_true.mp hFree w (List.mem_of_getElem? hj)
          rw [hExclusive] at hw
          cases m <;> cases hw
      · exact h.exclusive hj hj' hNe l hExclusive
  dozing {j w l} hj hDozes hWatched := by
    rw [resume_get ht] at hj
    split at hj
    · obtain rfl := Option.some.inj hj
      exact hRests l (.inl hDozes) hWatched
    · rename_i hNe
      -- the lock of the wait keeps others from making the condition true
      refine Bool.eq_false_iff.mpr fun hReady => ?_
      have hBoth := hRaises l hWatched (h.dozing hj hDozes hWatched) hReady
      have hNone := h.exclusive ht hj hNe l hBoth.1
      rw [h.dozes_held hj hDozes] at hNone
      cases hNone
  asleep {j w l} hj hSleeps hWatched hReady := by
    rw [resume_get ht] at hj
    split at hj
    · obtain rfl := Option.some.inj hj
      exact absurd ((hRests l (.inr hSleeps) hWatched).symm.trans hReady) Bool.false_ne_true
    · have hKept : ∀ {j' : Nat} {w' : Thread L V σ S ε}, pool.threads[j']? = some w' →
          ∃ w'', (pool.resume i s u).threads[j']? = some w'' := by
        intro j' w' hj'
        rw [resume_get ht]
        split
        · exact ⟨u, rfl⟩
        · exact ⟨w', hj'⟩
      cases hBefore : P.ready l pool.state with
      | false =>
          obtain ⟨u', hu'⟩ := hKept ht
          refine ⟨i, u', hu', ?_⟩
          rw [Function.update_self]
          exact (hRaises l hWatched hBefore hReady).2
      | true =>
          obtain ⟨j', w', hj', hDebt⟩ := h.asleep hj hSleeps hWatched hBefore
          obtain ⟨w'', hw''⟩ := hKept hj'
          refine ⟨j', w'', hw'', ?_⟩
          by_cases hSelf : j' = i
          · subst hSelf
            rw [Function.update_self]
            exact (hDebts _ hDebt).resolve_right fun hNobody => hNobody hj hSleeps rfl
          · rwa [Function.update_of_ne hSelf]

/-! ### Steps -/

theorem wakeOne (h : pool.Sound P debts) (ht : pool.threads[i]? = some t) :
    (pool.resume i pool.state t.wake).Sound P debts := by
  refine h.wakes rfl (fun {j u'} hj => ?_) fun {j u} hj => ?_
  · rw [resume_get ht] at hj
    split at hj
    · obtain rfl := Option.some.inj hj
      subst_vars
      exact ⟨t, ht, .inr rfl⟩
    · exact ⟨u', hj, .inl rfl⟩
  · rw [resume_get ht]
    split
    · exact ⟨_, rfl⟩
    · exact ⟨u, hj⟩

/-- A thread runs on. -/
theorem runsOn {s : σ} {held : Held L} {code : Prog L V σ S ε Unit} (h : pool.Sound P debts)
    (ht : pool.threads[i]? = some t) (hOrderly : Monitors.Orderly P i Ends held e code)
    (hHeld : ∀ l, held l = t.held l ∨ held l = none ∨
      ∃ m, held l = some m ∧ pool.free l m = true)
    (hRaises : P.Raises t.held e pool.state s)
    (hDebts : ∀ v ∈ debts i, v ∈ e ∨ ∀ {j : Nat} {w : Thread L V σ S ε} {l : L},
      pool.threads[j]? = some w → w.SleepsAt l → P.signal l ≠ v) :
    ∃ debts', (pool.resume i s ⟨held, .running, code⟩).Sound P debts' := by
  refine ⟨_, h.resume ht (u := ⟨held, .running, code⟩) hOrderly hHeld hRaises hDebts ?_⟩
  rintro l (⟨⟨⟩, -⟩ | ⟨⟨⟩, -⟩)

variable [DecidableEq V] {v : V}

theorem wakeAll (h : pool.Sound P debts) (v : V) : (pool.wakeAll v).Sound P debts := by
  refine h.wakes rfl (fun {j u'} hj => ?_) fun {j u} hj => ?_
  · simp only [Pool.wakeAll, List.getElem?_map, Option.map_eq_some_iff] at hj
    obtain ⟨u, hu, rfl⟩ := hj
    refine ⟨u, hu, ?_⟩
    split
    · exact .inr rfl
    · exact .inl rfl
  · simp only [Pool.wakeAll, List.getElem?_map, hj, Option.map_some]
    exact ⟨_, rfl⟩

/-- An orderly sleeper sleeps on the condition variable of its lock. -/
theorem sleepsOn (h : pool.Sound P debts) (ht : pool.threads[i]? = some t) (hSleeps : t.SleepsAt l) :
    t.sleepsOn (P.signal l) = true ∧ P.sleeper (P.signal l) i t.held := by
  obtain ⟨l', k, hEq, -, -, -, hSleeper, -⟩ := (h.orderly ht).asleep hSleeps.1
  obtain ⟨-, v, p, k', hCode⟩ := hSleeps
  rw [hEq] at hCode
  obtain ⟨-, rfl, -⟩ := Prog.wait.inj hCode
  exact ⟨Thread.sleepsOn_iff.mpr ⟨congrArg Thread.phase hEq, l', _, k, congrArg Thread.code hEq⟩,
    hSleeper⟩

/-- Once the only sleeper is woken, nobody sleeps on the condition variable. -/
theorem sleeper_alone (h : pool.Sound P debts) (hSingle : P.single v) (ht : pool.threads[i]? = some t)
    (hu : pool.threads[j]? = some u) (hFirst : t.sleepsOn v = true) (hSleeps : u.SleepsAt l)
    (hSignal : P.signal l = v) : i = j := by
  subst hSignal
  obtain ⟨-, hSleeper⟩ := h.sleepsOn hu hSleeps
  obtain ⟨hAsleep, l', p, k, hCode⟩ := Thread.sleepsOn_iff.mp hFirst
  obtain ⟨hOn, hSleeper'⟩ := h.sleepsOn ht ⟨hAsleep, _, p, k, hCode⟩
  obtain ⟨-, _, _, _, hCode'⟩ := Thread.sleepsOn_iff.mp hOn
  obtain ⟨hSame, -⟩ := Prog.wait.inj (hCode.symm.trans hCode')
  rw [← hSame] at hSleeper'
  by_contra hNe
  obtain hEq | ⟨l₁, hExclusive, hHeld⟩ := P.sleeper_unique hSingle hSleeper' hSleeper
  · exact hNe hEq
  · exact hHeld (h.exclusive ht hu hNe l₁ hExclusive)

/-- A notification that leaves nobody asleep on its condition variable. -/
theorem notifies {held : Held L} {code : Prog L V σ S ε Unit} (h : pool.Sound P debts)
    (ht : pool.threads[i]? = some t) (hHeld : t.held = held)
    (hOrderly : Monitors.Orderly P i Ends held (debts i \ {v}) code)
    (hNobody : ∀ {j : Nat} {w : Thread L V σ S ε} {l : L}, pool.threads[j]? = some w →
      w.SleepsAt l → P.signal l ≠ v) :
    ∃ debts', (pool.resume i pool.state ⟨held, .running, code⟩).Sound P debts' := by
  refine h.runsOn ht hOrderly (fun l => .inl (by rw [hHeld])) (P.raises_refl _ _ _) ?_
  intro v' hDebt
  by_cases hEq : v' = v
  · exact .inr (hEq ▸ hNobody)
  · exact .inl ⟨hDebt, hEq⟩

/-- A step of a thread that runs. -/
theorem stepRunning {held : Held L} {pick : Nat} {code : Prog L V σ S ε Unit}
    (h : pool.Sound P debts) (ht : pool.threads[i]? = some ⟨held, .running, code⟩)
    (hStep : pool.stepRunning i pick held code = .ok pool') : ∃ debts', pool'.Sound P debts' := by
  have hOrderly : Monitors.Orderly P i Ends held (debts i) code := h.orderly ht
  cases code with
  | ret a => cases hStep
  | act site f k =>
      obtain ⟨e, hSub, hAct⟩ := hOrderly
      simp only [Pool.stepRunning] at hStep
      split at hStep
      · rename_i b s hf
        obtain rfl := Except.ok.inj hStep
        obtain ⟨hRaises, hRest⟩ := hAct _ _ _ hf
        exact h.runsOn ht hRest (fun _ => .inl rfl) hRaises fun v hv => .inl (hSub hv)
      · cases hStep
  | acquire l m k =>
      obtain ⟨-, -, -, hRest⟩ := hOrderly
      simp only [Pool.stepRunning] at hStep
      split at hStep
      · rename_i hFree
        obtain rfl := Except.ok.inj hStep
        refine h.runsOn ht hRest (fun l' => ?_) (P.raises_refl _ _ _) fun v hv => .inl hv
        by_cases hEq : l' = l
        · subst hEq
          exact .inr (.inr ⟨m, Function.update_self .., hFree⟩)
        · exact .inl (Function.update_of_ne hEq ..)
      · cases hStep
  | release l k =>
      obtain rfl := Except.ok.inj hStep
      refine h.runsOn ht hOrderly (fun l' => ?_) (P.raises_refl _ _ _) fun v hv => .inl hv
      by_cases hEq : l' = l
      · subst hEq
        exact .inr (.inl (Function.update_self ..))
      · exact .inl (Function.update_of_ne hEq ..)
  | wait v l p k =>
      simp only [Pool.stepRunning] at hStep
      obtain ⟨hNone, rfl, rfl, hHeld, hAbove, hSleeper, hRest⟩ := id hOrderly
      split at hStep
      · obtain rfl := Except.ok.inj hStep
        exact h.runsOn ht (e := debts i) (hNone ▸ hRest) (fun _ => .inl rfl)
          (P.raises_refl _ _ _) fun v hv => .inl hv
      · rename_i hReady
        obtain rfl := Except.ok.inj hStep
        refine ⟨_, h.resume ht (e := debts i) ⟨⟨l, rfl, _, _, _, rfl⟩, hOrderly⟩
          (fun _ => .inl rfl) (P.raises_refl _ _ _) (fun v hv => .inl hv) ?_⟩
        rintro l' (⟨-, v, p, k', hCode⟩ | ⟨⟨⟩, -⟩) -
        obtain ⟨-, rfl, -⟩ := Prog.wait.inj hCode
        exact Bool.eq_false_iff.mpr hReady
  | notify v all k =>
      obtain ⟨hSingle, hRest⟩ := hOrderly
      cases all with
      | true =>
          obtain rfl := Except.ok.inj hStep
          refine (h.wakeAll v).notifies (t := ⟨held, .running, .notify v true k⟩) ?_ rfl hRest ?_
          · simp [Pool.wakeAll, ht, Thread.sleepsOn]
          · rintro j w l hw hSleeps rfl
            simp only [Pool.wakeAll, List.getElem?_map, Option.map_eq_some_iff] at hw
            obtain ⟨u, hu, rfl⟩ := hw
            split at hSleeps
            · exact Thread.not_sleepsAt_wake hSleeps
            · rename_i hAwake
              exact hAwake (h.sleepsOn hu hSleeps).1
      | false =>
          simp only [Pool.stepRunning] at hStep
          split at hStep
          · split at hStep
            · rename_i t' ht'
              split at hStep
              · rename_i hOn
                obtain rfl := Except.ok.inj hStep
                have hNe : pick ≠ i := by
                  rintro rfl
                  obtain rfl := Option.some.inj (ht'.symm.trans ht)
                  cases hOn
                refine (h.wakeOne ht').notifies (t := ⟨held, .running, .notify v false k⟩) ?_ rfl
                  hRest ?_
                · rw [resume_get ht', if_neg hNe, ht]
                · rintro j w l hw hSleeps hSignal
                  rw [resume_get ht'] at hw
                  split at hw
                  · obtain rfl := Option.some.inj hw
                    exact Thread.not_sleepsAt_wake hSleeps
                  · rename_i hOther
                    exact hOther (h.sleeper_alone (hSingle rfl) ht' hw hOn hSleeps hSignal)
              · cases hStep
            · cases hStep
          · rename_i hNobody
            obtain rfl := Except.ok.inj hStep
            refine h.notifies ht rfl hRest ?_
            rintro j w l hw hSleeps rfl
            exact hNobody (List.any_eq_true.mpr
              ⟨w, List.mem_of_getElem? hw, (h.sleepsOn hw hSleeps).1⟩)

/-- A step keeps the pool sound. -/
theorem step {move : Move} {done : List Unit} (h : pool.Sound P debts)
    (hStep : pool.step move = .ok (pool', done)) : ∃ debts', pool'.Sound P debts' := by
  cases move with
  | step i pick =>
      simp only [Pool.step] at hStep
      split at hStep
      · cases hStep
      · rename_i t ht
        obtain ⟨next, hNext, hEnd⟩ := Execution.bind_eq_ok.mp hStep
        obtain ⟨rfl, -⟩ := Prod.mk.inj (Execution.pure_eq_ok.mp hEnd)
        obtain ⟨held, phase, code⟩ := t
        cases phase with
        | running => exact h.stepRunning ht hNext
        | asleep => cases hNext
        | dozing =>
            obtain ⟨⟨l, -, v, p, k, hCode⟩, hWait⟩ := h.orderly ht
            obtain rfl : code = _ := hCode
            obtain rfl := Except.ok.inj hNext
            obtain ⟨-, -, -, hHeld, -⟩ := id hWait
            refine ⟨_, h.resume ht (e := debts i)
              (u := ⟨Function.update held l none, .asleep, .wait v l p k⟩)
              ⟨l, ⟨rfl, v, p, k, rfl⟩, Function.update_self .., ?_⟩ (fun l' => ?_)
              (P.raises_refl _ _ _) (fun v hv => .inl hv) ?_⟩
            · rw [Function.update_idem, ← hHeld, Function.update_eq_self]
              exact hWait
            · by_cases hEq : l' = l
              · subst hEq
                exact .inr (.inl (Function.update_self ..))
              · exact .inl (Function.update_of_ne hEq ..)
            · rintro l' (⟨⟨⟩, -⟩ | ⟨-, _, _, _, hCode⟩) hWatched
              obtain ⟨-, rfl, -⟩ := Prog.wait.inj hCode
              exact h.dozing ht ⟨rfl, v, p, k, rfl⟩ hWatched
  | spurious i =>
      simp only [Pool.step] at hStep
      split at hStep
      · cases hStep
      · obtain ⟨rfl, -⟩ := Prod.mk.inj (Except.ok.inj hStep)
        exact ⟨_, h.wakeOne ‹_›⟩

/-- A run keeps the pool sound. -/
theorem run {moves : List Move} {done : List Unit} (h : pool.Sound P debts)
    (hRun : pool.run moves = .ok (pool', done)) : ∃ debts', pool'.Sound P debts' :=
  Runs.run_invariant (P := fun pool => ∃ debts, pool.Sound P debts)
    (fun _ _ _ _ ⟨_, h⟩ _ hStep => h.step hStep) hRun (Runs.along_true _ moves) ⟨debts, h⟩

/-! ### Pools that cannot go on -/

/-- A thread that cannot make a step has finished, sleeps, or asks for a lock
that another one holds. -/
theorem stuck_thread (h : pool.Sound P debts) (hStuck : pool.Stuck)
    (ht : pool.threads[i]? = some t) :
    t.Finished ∨ (∃ l, t.SleepsAt l) ∨
      ∃ l, t.AsksFor l ∧ ∃ (j : Nat) (u : Thread L V σ S ε),
        pool.threads[j]? = some u ∧ u.held l ≠ none := by
  have hOrderly := h.orderly ht
  have hBlocked : ∀ pick, pool.stepThread i pick t = .error .blocked := by
    intro pick
    have hStep := hStuck i pick
    simp only [Pool.step, ht] at hStep
    cases hNext : pool.stepThread i pick t with
    | error fault =>
        rw [hNext] at hStep
        exact congrArg Except.error (Except.error.inj hStep)
    | ok next =>
        rw [hNext] at hStep
        cases hStep
  obtain ⟨held, phase, code⟩ := t
  cases phase with
  | asleep =>
      obtain ⟨l, hSleeps, -⟩ := hOrderly
      exact .inr (.inl ⟨l, hSleeps⟩)
  | dozing =>
      obtain ⟨⟨l, -, v, p, k, hCode⟩, -⟩ := hOrderly
      obtain rfl : code = _ := hCode
      cases hBlocked 0
  | running =>
      simp only [Pool.stepThread] at hBlocked
      cases code with
      | ret a => exact .inl ⟨rfl, a, rfl⟩
      | act site f k =>
          have hBlocked := hBlocked 0
          simp only [Pool.stepRunning] at hBlocked
          split at hBlocked <;> cases hBlocked
      | release l k => cases hBlocked 0
      | wait v l p k =>
          have hBlocked := hBlocked 0
          simp only [Pool.stepRunning] at hBlocked
          split at hBlocked <;> cases hBlocked
      | acquire l m k =>
          refine .inr (.inr ⟨l, ⟨rfl, m, k, rfl⟩, ?_⟩)
          have hBlocked := hBlocked 0
          simp only [Pool.stepRunning] at hBlocked
          split at hBlocked
          · cases hBlocked
          · rename_i hTaken
            simp only [Pool.free, List.all_eq_true, not_forall] at hTaken
            obtain ⟨u, hMem, hHeld⟩ := hTaken
            obtain ⟨j, hj⟩ := List.getElem?_of_mem hMem
            refine ⟨j, u, hj, fun hNone => hHeld ?_⟩
            rw [hNone]
            rfl
      | notify v all k =>
          cases all with
          | true => cases hBlocked 0
          | false =>
              by_cases hSome : pool.sleepers v = true
              · obtain ⟨u, hMem, hOn⟩ := List.any_eq_true.mp hSome
                obtain ⟨j, hj⟩ := List.getElem?_of_mem hMem
                have hBlocked := hBlocked j
                simp [Pool.stepRunning, hSome, hj, hOn] at hBlocked
              · have hBlocked := hBlocked 0
                simp [Pool.stepRunning, hSome] at hBlocked

/-- A thread that holds a lock in a stuck pool sleeps or asks for a lock above. -/
theorem stuck_holder (h : pool.Sound P debts) (hStuck : pool.Stuck)
    (ht : pool.threads[i]? = some t) (hHeld : t.held l ≠ none) :
    ∃ l', (t.SleepsAt l' ∨ t.AsksFor l') ∧ P.rank l < P.rank l' := by
  have hOrderly := h.orderly ht
  rcases h.stuck_thread hStuck ht with ⟨hPhase, a, hCode⟩ | ⟨l', hSleeps⟩ | ⟨l', hAsks, -⟩
  · obtain ⟨held, phase, code⟩ := t
    obtain rfl : phase = .running := hPhase
    obtain rfl : code = .ret a := hCode
    exact absurd (hOrderly.1 l) hHeld
  · obtain ⟨l₁, k, hEq, hNone, hAbove, -⟩ := hOrderly.asleep hSleeps.1
    refine ⟨l₁, .inl ⟨hSleeps.1, _, _, k, congrArg Thread.code hEq⟩, hAbove l ?_ hHeld⟩
    rintro rfl
    exact hHeld hNone
  · refine ⟨l', .inr hAsks, ?_⟩
    obtain ⟨held, phase, code⟩ := t
    obtain ⟨hPhase, m, k, hCode⟩ := hAsks
    obtain rfl : phase = .running := hPhase
    obtain rfl : code = .acquire l' m k := hCode
    obtain ⟨hFree, hAbove, -⟩ := hOrderly
    refine hAbove l ?_ hHeld
    rintro rfl
    exact hHeld hFree

/-- In a stuck pool nobody asks for a lock that is taken last. -/
theorem not_asksFor_top (h : pool.Sound P debts) (hStuck : pool.Stuck)
    (ht : pool.threads[i]? = some t) (hTop : P.Top l) : ¬t.AsksFor l := by
  intro hAsks
  rcases h.stuck_thread hStuck ht with ⟨-, a, hCode⟩ | ⟨l', hSleeps⟩ | ⟨l', hAsks', j, u, hu, hHeld⟩
  · obtain ⟨-, m, k, hCode'⟩ := hAsks
    rw [hCode] at hCode'
    cases hCode'
  · have hPhase := hAsks.1.symm.trans hSleeps.1
    cases hPhase
  · obtain ⟨-, m, k, hCode⟩ := hAsks
    obtain ⟨-, m', k', hCode'⟩ := hAsks'
    obtain ⟨rfl, -⟩ := Prog.acquire.inj (hCode.symm.trans hCode')
    obtain ⟨l₁, -, hAbove⟩ := h.stuck_holder hStuck hu hHeld
    exact absurd (hTop l₁) (by omega)

/-- In a stuck pool nobody has anything left to notify. -/
theorem stuck_debts (h : pool.Sound P debts) (hStuck : pool.Stuck)
    (ht : pool.threads[i]? = some t) : debts i = ∅ := by
  have hOrderly := h.orderly ht
  rcases h.stuck_thread hStuck ht with ⟨hPhase, a, hCode⟩ | ⟨l', hSleeps⟩ | ⟨l', hAsks, -⟩
  · obtain ⟨held, phase, code⟩ := t
    obtain rfl : phase = .running := hPhase
    obtain rfl : code = .ret a := hCode
    exact hOrderly.2
  · obtain ⟨-, -, -, -, -, hNone, -⟩ := hOrderly.asleep hSleeps.1
    exact hNone
  · have hNotTop := fun hTop => h.not_asksFor_top hStuck ht hTop hAsks
    obtain ⟨held, phase, code⟩ := t
    obtain ⟨hPhase, m, k, hCode⟩ := hAsks
    obtain rfl : phase = .running := hPhase
    obtain rfl : code = .acquire l' m k := hCode
    obtain ⟨-, -, hNone, -⟩ := hOrderly
    exact hNone.resolve_right hNotTop

/-- In a stuck pool the conditions of all sleepers are false. -/
theorem stuck_sleeper (h : pool.Sound P debts) (hStuck : pool.Stuck)
    (ht : pool.threads[i]? = some t) (hSleeps : t.SleepsAt l) (hWatched : P.watched l) :
    P.ready l pool.state = false := by
  refine Bool.eq_false_iff.mpr fun hReady => ?_
  obtain ⟨j, u, hu, hDebt⟩ := h.asleep ht hSleeps hWatched hReady
  rw [h.stuck_debts hStuck hu] at hDebt
  exact hDebt

end Sound

end Pool

end Monitors
