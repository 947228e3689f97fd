import KVCache.Data.Wakeups

/-! A wake-up that is lost for good. When nobody is left who notifies a condition
variable, a thread that has found its condition false sleeps on it for ever,
whatever becomes of the condition. -/

namespace Monitors

open Locks (Mode Held Fault)

variable {L V σ S ε α β : Type} {v : V}

/-- The program never notifies the condition variable. -/
def Prog.Silent (v : V) : Prog L V σ S ε α → Prop
  | .ret _ => True
  | .act _ _ k => ∀ b, (k b).Silent v
  | .acquire _ _ k => k.Silent v
  | .release _ k => k.Silent v
  | .wait _ _ _ k => k.Silent v
  | .notify v' _ k => v' ≠ v ∧ k.Silent v

namespace Prog.Silent

theorem lift {signal : L → V} (x : Locks.Prog L σ S ε α) : (Prog.lift signal x).Silent v := by
  induction x with
  | ret a => trivial
  | act site f k ih => exact ih
  | acquire l m p k ih => exact ih
  | release l k ih => exact ih
  | wait l p k ih => exact ih

theorem bind {x : Prog L V σ S ε α} {f : α → Prog L V σ S ε β} (hFirst : x.Silent v)
    (hNext : ∀ a, (f a).Silent v) : Prog.Silent v (x >>= f) := by
  change (x.bind f).Silent v
  induction x with
  | ret a => exact hNext a
  | act site g k ih => exact fun b => ih b (hFirst b)
  | acquire l m k ih => exact ih hFirst
  | release l k ih => exact ih hFirst
  | wait v' l p k ih => exact ih hFirst
  | notify v' all k ih => exact ⟨hFirst.1, ih hFirst.2⟩

theorem ite {c : Prop} [Decidable c] {x y : Prog L V σ S ε α} (hThen : x.Silent v)
    (hElse : y.Silent v) : Prog.Silent v (if c then x else y) := by
  split
  · exact hThen
  · exact hElse

end Prog.Silent

/-- The thread has found its condition false and waits on the condition variable. -/
def Thread.RestsOn (v : V) (t : Thread L V σ S ε) : Prop :=
  t.phase ≠ .running ∧ ∃ l p k, t.code = .wait v l p k

namespace Thread

variable {t : Thread L V σ S ε}

instance [DecidableEq V] : Decidable (t.RestsOn v) :=
  match h : t.code with
  | .wait v' l p k => decidable_of_iff (t.phase ≠ .running ∧ v' = v) (by
      rw [RestsOn, h]
      exact and_congr_right fun _ =>
        ⟨fun hSame => ⟨l, p, k, by rw [hSame]⟩, fun ⟨_, _, _, hCode⟩ => (Prog.wait.inj hCode).1⟩)
  | .ret _ | .act _ _ _ | .acquire _ _ _ | .release _ _ | .notify _ _ _ =>
      isFalse (by simp [RestsOn, h])

instance : Decidable t.Finished :=
  match h : t.code with
  | .ret a => decidable_of_iff (t.phase = .running) (by simp [Finished, h])
  | .act _ _ _ | .acquire _ _ _ | .release _ _ | .wait _ _ _ _ | .notify _ _ _ =>
      isFalse (by simp [Finished, h])

theorem silent_wake (h : t.code.Silent v) : t.wake.code.Silent v := by
  obtain ⟨held, phase, code⟩ := t
  cases phase <;> cases code <;> exact h

/-- A notification of another condition variable does not reach it. -/
theorem RestsOn.not_sleepsOn [DecidableEq V] {v' : V} (h : t.RestsOn v) (hNe : v' ≠ v) :
    t.sleepsOn v' = false := by
  refine Bool.eq_false_iff.mpr fun hOn => ?_
  obtain ⟨-, l, p, k, hCode⟩ := sleepsOn_iff.mp hOn
  obtain ⟨-, _, _, _, hCode'⟩ := h
  obtain ⟨hSame, -⟩ := Prog.wait.inj (hCode.symm.trans hCode')
  exact hNe hSame

end Thread

namespace Pool

variable [DecidableEq L] [DecidableEq V] {pool pool' : Pool L V σ S ε} {i j : Nat}
  {t : Thread L V σ S ε}

/-- What the step of a running thread does to the threads: it goes on itself, and
others are woken by a notification that it makes. -/
theorem stepRunning_cases {held : Held L} {pick : Nat} {code : Prog L V σ S ε Unit}
    (ht : pool.threads[i]? = some ⟨held, .running, code⟩)
    (hStep : pool.stepRunning i pick held code = .ok pool') :
    (∃ u, pool'.threads[i]? = some u ∧ (code.Silent v → u.code.Silent v)) ∧
      pool'.threads.length = pool.threads.length ∧ ∀ j, j ≠ i → ∀ w, pool.threads[j]? = some w → ∃ w', pool'.threads[j]? = some w' ∧
        (w' = w ∨ w' = w.wake ∧ ∃ v', w.sleepsOn v' = true ∧ (code.Silent v → v' ≠ v)) := by
  have hSelf (s : σ) (u : Thread L V σ S ε) : (pool.resume i s u).threads[i]? = some u := by
    rw [resume_get ht, if_pos rfl]
  have hLength (s : σ) (u : Thread L V σ S ε) :
      (pool.resume i s u).threads.length = pool.threads.length := List.length_set ..
  have hOther (s : σ) (u : Thread L V σ S ε) {j : Nat} (hj : j ≠ i) :
      (pool.resume i s u).threads[j]? = pool.threads[j]? := by
    rw [resume_get ht, if_neg (Ne.symm hj)]
  cases code with
  | ret a => cases hStep
  | act site f k =>
      simp only [stepRunning] at hStep
      split at hStep
      · obtain rfl := Except.ok.inj hStep
        exact ⟨⟨_, hSelf _ _, fun h => h _⟩, hLength _ _, fun j hj w hw => ⟨w, (hOther _ _ hj).trans hw, .inl rfl⟩⟩
      · cases hStep
  | acquire l m k =>
      simp only [stepRunning] at hStep
      split at hStep
      · obtain rfl := Except.ok.inj hStep
        exact ⟨⟨_, hSelf _ _, id⟩, hLength _ _, fun j hj w hw => ⟨w, (hOther _ _ hj).trans hw, .inl rfl⟩⟩
      · cases hStep
  | release l k =>
      obtain rfl := Except.ok.inj hStep
      exact ⟨⟨_, hSelf _ _, id⟩, hLength _ _, fun j hj w hw => ⟨w, (hOther _ _ hj).trans hw, .inl rfl⟩⟩
  | wait v' l p k =>
      simp only [stepRunning] at hStep
      split at hStep <;> obtain rfl := Except.ok.inj hStep <;>
        exact ⟨⟨_, hSelf _ _, id⟩, hLength _ _, fun j hj w hw => ⟨w, (hOther _ _ hj).trans hw, .inl rfl⟩⟩
  | notify v' all k =>
      cases all with
      | true =>
          obtain rfl := Except.ok.inj hStep
          have hWoken : (pool.wakeAll v').threads[i]? = some ⟨held, .running, .notify v' true k⟩ := by
            simp [wakeAll, ht, Thread.sleepsOn]
          refine ⟨⟨_, by rw [resume_get hWoken, if_pos rfl], fun h => h.2⟩, ?_, fun j hj w hw => ?_⟩
          · exact (List.length_set ..).trans (List.length_map ..)
          rw [resume_get hWoken, if_neg (Ne.symm hj)]
          simp only [wakeAll, List.getElem?_map, hw, Option.map_some]
          refine ⟨_, rfl, ?_⟩
          split
          · rename_i hOn
            exact .inr ⟨rfl, v', hOn, fun h => h.1⟩
          · exact .inl rfl
      | false =>
          simp only [stepRunning] at hStep
          split at hStep
          · split at hStep
            · rename_i t' ht'
              split at hStep
              · rename_i hOn
                obtain rfl := Except.ok.inj hStep
                have hNe : pick ≠ i := by
                  rintro rfl
                  obtain rfl := Option.some.inj (ht'.symm.trans ht)
                  cases hOn
                have hWoken : (pool.resume pick pool.state t'.wake).threads[i]? =
                    some ⟨held, .running, .notify v' false k⟩ := by
                  rw [resume_get ht', if_neg hNe, ht]
                refine ⟨⟨_, by rw [resume_get hWoken, if_pos rfl], fun h => h.2⟩, ?_,
                  fun j hj w hw => ?_⟩
                · exact (List.length_set ..).trans (List.length_set ..)
                rw [resume_get hWoken, if_neg (Ne.symm hj), resume_get ht']
                split
                · subst_vars
                  obtain rfl := Option.some.inj (hw.symm.trans ht')
                  exact ⟨_, rfl, .inr ⟨rfl, v', hOn, fun h => h.1⟩⟩
                · exact ⟨w, hw, .inl rfl⟩
              · cases hStep
            · cases hStep
          · obtain rfl := Except.ok.inj hStep
            exact ⟨⟨_, hSelf _ _, fun h => h.2⟩, hLength _ _,
              fun j hj w hw => ⟨w, (hOther _ _ hj).trans hw, .inl rfl⟩⟩

/-- The same for a step of any thread. -/
theorem step_cases {pick : Nat} {done : List Unit}
    (hStep : pool.step (.step i pick) = .ok (pool', done)) :
    ∃ t u, pool.threads[i]? = some t ∧ pool'.threads[i]? = some u ∧
      (t.code.Silent v → u.code.Silent v) ∧ (t.RestsOn v → u.RestsOn v) ∧
      pool'.threads.length = pool.threads.length ∧ ∀ j, j ≠ i → ∀ w, pool.threads[j]? = some w → ∃ w', pool'.threads[j]? = some w' ∧
        (w' = w ∨ w' = w.wake ∧ ∃ v', w.sleepsOn v' = true ∧ (t.code.Silent v → v' ≠ v)) := by
  simp only [step] at hStep
  split at hStep
  · cases hStep
  · rename_i t ht
    obtain ⟨_, hNext, hEnd⟩ := Execution.bind_eq_ok.mp hStep
    obtain ⟨rfl, -⟩ := Prod.mk.inj (Execution.pure_eq_ok.mp hEnd)
    obtain ⟨held, phase, code⟩ := t
    cases phase with
    | running =>
        obtain ⟨⟨u, hu, hSilent⟩, hLength, hOthers⟩ := stepRunning_cases (v := v) ht hNext
        exact ⟨_, u, ht, hu, hSilent, fun hRests => absurd rfl hRests.1, hLength, hOthers⟩
    | asleep => cases hNext
    | dozing =>
        cases code with
        | wait v' l p k =>
            obtain rfl := Except.ok.inj hNext
            refine ⟨_, ⟨Function.update held l none, .asleep, .wait v' l p k⟩, ht, ?_, id, ?_,
              List.length_set .., ?_⟩
            · rw [resume_get ht, if_pos rfl]
            · exact fun hRests => ⟨Phase.noConfusion, hRests.2⟩
            · intro j hj w hw
              exact ⟨w, by rw [resume_get ht, if_neg (Ne.symm hj), hw], .inl rfl⟩
        | _ => cases hNext

/-- A program that never notifies does not begin to. -/
theorem silent_step {move : Move} {done : List Unit} (ht : ∃ t, pool.threads[j]? = some t ∧
    t.code.Silent v) (hStep : pool.step move = .ok (pool', done)) :
    ∃ t, pool'.threads[j]? = some t ∧ t.code.Silent v := by
  obtain ⟨t, ht, hSilent⟩ := ht
  cases move with
  | step i pick =>
      obtain ⟨t', u, ht', hu, hOwn, -, -, hOthers⟩ := step_cases (v := v) hStep
      by_cases hEq : j = i
      · subst hEq
        obtain rfl := Option.some.inj (ht.symm.trans ht')
        exact ⟨u, hu, hOwn hSilent⟩
      · obtain ⟨w, hw, rfl | ⟨rfl, -⟩⟩ := hOthers j hEq t ht
        · exact ⟨w, hw, hSilent⟩
        · exact ⟨_, hw, t.silent_wake hSilent⟩
  | spurious i =>
      simp only [step] at hStep
      split at hStep
      · cases hStep
      · rename_i t' ht'
        obtain ⟨rfl, -⟩ := Prod.mk.inj (Except.ok.inj hStep)
        rw [resume_get ht']
        split
        · subst_vars
          obtain rfl := Option.some.inj (ht.symm.trans ht')
          exact ⟨_, rfl, t.silent_wake hSilent⟩
        · exact ⟨t, ht, hSilent⟩

/-- A thread waits, and no other one ever notifies it. -/
structure Forgotten (v : V) (i : Nat) (pool : Pool L V σ S ε) : Prop where
  rests : ∃ t, pool.threads[i]? = some t ∧ t.RestsOn v
  silent : ∀ {j : Nat} {t : Thread L V σ S ε}, pool.threads[j]? = some t → j ≠ i → t.code.Silent v

theorem Forgotten.step {pick : Nat} {done : List Unit} (h : pool.Forgotten v i)
    (hStep : pool.step (.step j pick) = .ok (pool', done)) : pool'.Forgotten v i where
  rests := by
    obtain ⟨t, ht, hRests⟩ := h.rests
    obtain ⟨t', u, ht', hu, -, hOwn, -, hOthers⟩ := step_cases (v := v) hStep
    by_cases hEq : i = j
    · subst hEq
      obtain rfl := Option.some.inj (ht.symm.trans ht')
      exact ⟨u, hu, hOwn hRests⟩
    · obtain ⟨w, hw, rfl | ⟨-, v', hOn, hNe⟩⟩ := hOthers i hEq t ht
      · exact ⟨w, hw, hRests⟩
      · rw [hRests.not_sleepsOn (hNe (h.silent ht' (Ne.symm hEq)))] at hOn
        cases hOn
  silent {k u} hu hNe := by
    obtain ⟨_, _, -, -, -, -, hLength, -⟩ := step_cases (v := v) hStep
    obtain ⟨hLess, -⟩ := List.getElem?_eq_some_iff.mp hu
    rw [hLength] at hLess
    have ht := List.getElem?_eq_getElem hLess
    obtain ⟨u', hu', hSilent⟩ := silent_step ⟨_, ht, h.silent ht hNe⟩ hStep
    obtain rfl := Option.some.inj (hu.symm.trans hu')
    exact hSilent

/-- Along every run without wake-ups out of nothing, it goes on sleeping. -/
theorem Forgotten.run {moves : List Move} {done : List Unit} (h : pool.Forgotten v i)
    (hMoves : ∀ move ∈ moves, ∃ j pick, move = .step j pick)
    (hRun : pool.run moves = .ok (pool', done)) : pool'.Forgotten v i := by
  induction moves generalizing pool done with
  | nil =>
      obtain ⟨rfl, -⟩ := Prod.mk.inj (Except.ok.inj hRun)
      exact h
  | cons move rest ih =>
      obtain ⟨⟨j, pick, rfl⟩, hRest⟩ := List.forall_mem_cons.mp hMoves
      obtain ⟨pool₁, first, later, hFirst, hLater, -⟩ := Runs.run_cons.mp hRun
      exact ih (h.step hFirst) hRest hLater

end Pool

end Monitors
