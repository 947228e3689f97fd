import KVCache.Data.Runs
import Mathlib.Logic.Function.Basic

/-! Threads that share a state and guard it by locks. A program is a sequence
of atomic actions on the state, of acquisitions and releases, and of waits on a
condition variable. Any number of threads run interleaved, and a lock that one
of them holds keeps the others out. A discipline on locks is checked on the
program of each thread alone, and then holds in every run of all of them. -/

namespace Locks

inductive Mode where
  | exclusive
  | shared
  deriving DecidableEq, Repr

/-- Only readers can hold a lock together. -/
def Mode.compatible : Mode → Mode → Bool
  | .shared, .shared => true
  | _, _ => false

/-- The locks that a thread holds. -/
abbrev Held (L : Type) := L → Option Mode

/-- A program over the locks `L` and the state `σ`. An action has a site in the
text of the program, and may stop all threads for a reason in `ε`. -/
inductive Prog (L σ S ε α : Type) : Type 1 where
  | ret (a : α)
  | act {β : Type} (site : S) (f : σ → Except ε (β × σ)) (k : β → Prog L σ S ε α)
  /-- goes on once the lock can be taken and the condition holds -/
  | acquire (l : L) (m : Mode) (p : σ → Bool) (k : Prog L σ S ε α)
  | release (l : L) (k : Prog L σ S ε α)
  /-- the wait of a condition variable: the lock is released until the condition
  holds -/
  | wait (l : L) (p : σ → Bool) (k : Prog L σ S ε α)

variable {L σ S ε α β : Type}

namespace Prog

def bind : Prog L σ S ε α → (α → Prog L σ S ε β) → Prog L σ S ε β
  | ret a, f => f a
  | act site g k, f => act site g fun b => (k b).bind f
  | acquire l m p k, f => acquire l m p (k.bind f)
  | release l k, f => release l (k.bind f)
  | wait l p k, f => wait l p (k.bind f)

instance : Monad (Prog L σ S ε) where
  pure := ret
  bind := bind

/-- An action that is not told apart from others. -/
def call [Inhabited S] (f : σ → Except ε (α × σ)) : Prog L σ S ε α := act default f ret

/-- A body inside of the scope of a lock guard. -/
def withLock (l : L) (m : Mode) (body : Prog L σ S ε α) : Prog L σ S ε α :=
  acquire l m (fun _ => true) (body.bind fun a => release l (ret a))

def waitFor (l : L) (p : σ → Bool) : Prog L σ S ε Unit := wait l p (ret ())

/-! ### Results -/

/-- Started in a state, the program returns a result in another state. Before
each of its steps, and while it waits, other threads change the state as `env`
allows. -/
inductive Returns (env : σ → σ → Prop) : Prog L σ S ε α → σ → α → σ → Prop where
  | ret (a : α) (s : σ) : Returns env (.ret a) s a s
  | act {β : Type} {site : S} {f : σ → Except ε (β × σ)} {k : β → Prog L σ S ε α} {b : β} {a : α}
      {s s₁ s₂ s' : σ} (hEnv : env s s₁) (hStep : f s₁ = .ok (b, s₂))
      (hRest : Returns env (k b) s₂ a s') : Returns env (.act site f k) s a s'
  | acquire {l : L} {m : Mode} {p : σ → Bool} {k : Prog L σ S ε α} {a : α} {s s₁ s' : σ}
      (hEnv : env s s₁) (hFree : p s₁ = true) (hRest : Returns env k s₁ a s') :
      Returns env (.acquire l m p k) s a s'
  | release {l : L} {k : Prog L σ S ε α} {a : α} {s s₁ s' : σ}
      (hEnv : env s s₁) (hRest : Returns env k s₁ a s') : Returns env (.release l k) s a s'
  | wait {l : L} {p : σ → Bool} {k : Prog L σ S ε α} {a : α} {s s₁ s' : σ}
      (hEnv : env s s₁) (hReady : p s₁ = true) (hRest : Returns env k s₁ a s') :
      Returns env (.wait l p k) s a s'

section

variable {env : σ → σ → Prop} {s s' : σ} {a b : α}

@[simp] theorem returns_ret : Returns env (.ret a : Prog L σ S ε α) s b s' ↔ b = a ∧ s' = s := by
  constructor
  · rintro ⟨⟩
    exact ⟨rfl, rfl⟩
  · rintro ⟨rfl, rfl⟩
    exact .ret b s'

@[simp] theorem returns_pure :
    Returns env (pure a : Prog L σ S ε α) s b s' ↔ b = a ∧ s' = s := returns_ret

/-- A sequence of two programs goes through the result of the first one. -/
theorem returns_bind {x : Prog L σ S ε β} {f : β → Prog L σ S ε α}
    (h : Returns env (x >>= f) s a s') :
    ∃ b s₁, Returns env x s b s₁ ∧ Returns env (f b) s₁ a s' := by
  change Returns env (x.bind f) s a s' at h
  induction x generalizing s with
  | ret b => exact ⟨b, s, .ret b s, h⟩
  | act site g k ih =>
      cases h with
      | act hEnv hStep hRest =>
          obtain ⟨b, s₃, hFirst, hNext⟩ := ih _ hRest
          exact ⟨b, s₃, .act hEnv hStep hFirst, hNext⟩
  | acquire l m p k ih =>
      cases h with
      | acquire hEnv hFree hRest =>
          obtain ⟨b, s₃, hFirst, hNext⟩ := ih hRest
          exact ⟨b, s₃, .acquire hEnv hFree hFirst, hNext⟩
  | release l k ih =>
      cases h with
      | release hEnv hRest =>
          obtain ⟨b, s₃, hFirst, hNext⟩ := ih hRest
          exact ⟨b, s₃, .release hEnv hFirst, hNext⟩
  | wait l p k ih =>
      cases h with
      | wait hEnv hReady hRest =>
          obtain ⟨b, s₃, hFirst, hNext⟩ := ih hRest
          exact ⟨b, s₃, .wait hEnv hReady hFirst, hNext⟩

/-- A guard returns what its body returns. -/
theorem returns_withLock {l : L} {m : Mode} {body : Prog L σ S ε α}
    (h : Returns env (withLock l m body) s a s') :
    ∃ s₁ s₂, env s s₁ ∧ Returns env body s₁ a s₂ ∧ env s₂ s' := by
  cases h with
  | acquire hEnv _ hRest =>
      obtain ⟨b, s₂, hBody, hLast⟩ := returns_bind (x := body) hRest
      cases hLast with
      | release hEnv' hEnd =>
          obtain ⟨rfl, rfl⟩ := returns_ret.mp hEnd
          exact ⟨_, s₂, hEnv, hBody, hEnv'⟩

end

end Prog

/-! ### Threads -/

structure Thread (L σ S ε : Type) : Type 1 where
  held : Held L
  code : Prog L σ S ε Unit

/-- The thread asks for a lock that it holds. -/
def Thread.Relocks (t : Thread L σ S ε) : Prop :=
  match t.code with
  | .acquire l _ _ _ => t.held l ≠ none
  | _ => False

instance (t : Thread L σ S ε) : Decidable t.Relocks :=
  match h : t.code with
  | .acquire l _ _ _ => decidable_of_iff (t.held l ≠ none) (by simp [Thread.Relocks, h])
  | .ret _ | .act _ _ _ | .release _ _ | .wait _ _ _ => isFalse (by simp [Thread.Relocks, h])

structure Pool (L σ S ε : Type) : Type 1 where
  state : σ
  threads : List (Thread L σ S ε)

inductive Fault (ε : Type) where
  | blocked
  | stop (reason : ε)
  deriving DecidableEq, Repr

namespace Pool

variable [DecidableEq L]

/-- No thread holds the lock in a way that keeps others out. -/
def free (pool : Pool L σ S ε) (l : L) (m : Mode) : Bool :=
  pool.threads.all fun t => (t.held l).all m.compatible

def resume (pool : Pool L σ S ε) (i : Nat) (s : σ) (t : Thread L σ S ε) : Pool L σ S ε :=
  ⟨s, pool.threads.set i t⟩

/-- The next step of a thread. -/
def stepThread (pool : Pool L σ S ε) (i : Nat) (held : Held L) :
    Prog L σ S ε Unit → Except (Fault ε) (Pool L σ S ε)
  | .ret _ => .error .blocked
  | .act _ f k =>
      match f pool.state with
      | .ok (b, s) => .ok (pool.resume i s ⟨held, k b⟩)
      | .error reason => .error (.stop reason)
  | .acquire l m p k =>
      if pool.free l m && p pool.state then
        .ok (pool.resume i pool.state ⟨Function.update held l (some m), k⟩)
      else .error .blocked
  | .release l k => .ok (pool.resume i pool.state ⟨Function.update held l none, k⟩)
  | .wait l p k =>
      if p pool.state then .ok (pool.resume i pool.state ⟨held, k⟩)
      else .ok (pool.resume i pool.state
        ⟨Function.update held l none, .acquire l .exclusive p k⟩)

def step (pool : Pool L σ S ε) (i : Nat) : Except (Fault ε) (Pool L σ S ε × List Unit) :=
  match pool.threads[i]? with
  | none => .error .blocked
  | some t => do return (← pool.stepThread i t.held t.code, [])

/-- Let the threads run in the given order. -/
def run (pool : Pool L σ S ε) (order : List Nat) : Except (Fault ε) (Pool L σ S ε × List Unit) :=
  Runs.run step pool order

/-- The action that a thread is about to take meets a condition on its site and
on the state. -/
def Meets (Good : S → σ → Prop) (pool : Pool L σ S ε) (i : Nat) : Prop :=
  match pool.threads[i]? with
  | some ⟨_, .act site _ _⟩ => Good site pool.state
  | _ => True

instance {Good : S → σ → Prop} [∀ site s, Decidable (Good site s)] (pool : Pool L σ S ε) (i : Nat) :
    Decidable (pool.Meets Good i) :=
  match h : pool.threads[i]? with
  | none => isTrue (by simp [Meets, h])
  | some ⟨held, .act site f k⟩ =>
      decidable_of_iff (Good site pool.state) (by simp [Meets, h])
  | some ⟨_, .ret _⟩ | some ⟨_, .acquire _ _ _ _⟩ | some ⟨_, .release _ _⟩ | some ⟨_, .wait _ _ _⟩ =>
      isTrue (by simp [Meets, h])

end Pool

/-! ### Discipline -/

variable [DecidableEq L] {Good : S → σ → Prop} {held : Held L} {l : L} {m : Mode}

/-- From `held` on, the program asks only for locks that it does not hold then,
releases only what it holds, and ends with `Q`. It may rely on `Good` whenever
it acts. -/
def Disciplined (Good : S → σ → Prop) (Q : Held L → α → Prop) :
    Held L → Prog L σ S ε α → Prop
  | held, .ret a => Q held a
  | held, .act site f k =>
      ∀ s b s', Good site s → f s = .ok (b, s') → Disciplined Good Q held (k b)
  | held, .acquire l m _ k => held l = none ∧ Disciplined Good Q (Function.update held l (some m)) k
  | held, .release l k => held l ≠ none ∧ Disciplined Good Q (Function.update held l none) k
  | held, .wait l _ k => held l = some .exclusive ∧ Disciplined Good Q held k

namespace Disciplined

variable {Q Q' : Held L → α → Prop}

theorem mono {x : Prog L σ S ε α} (h : Disciplined Good Q held x) (hQ : ∀ held a, Q held a → Q' held a) :
    Disciplined Good Q' held x := by
  induction x generalizing held with
  | ret a => exact hQ held a h
  | act site f k ih => exact fun s b s' hGood hf => ih b (h s b s' hGood hf)
  | acquire l m p k ih => exact ⟨h.1, ih h.2⟩
  | release l k ih => exact ⟨h.1, ih h.2⟩
  | wait l p k ih => exact ⟨h.1, ih h.2⟩

/-- The rule for a sequence of two programs. -/
theorem bind {x : Prog L σ S ε α} {f : α → Prog L σ S ε β} {R : Held L → β → Prop}
    (hFirst : Disciplined Good Q held x)
    (hNext : ∀ held a, Q held a → Disciplined Good R held (f a)) :
    Disciplined Good R held (x.bind f) := by
  induction x generalizing held with
  | ret a => exact hNext held a hFirst
  | act site g k ih => exact fun s b s' hGood hg => ih b (hFirst s b s' hGood hg)
  | acquire l m p k ih => exact ⟨hFirst.1, ih hFirst.2⟩
  | release l k ih => exact ⟨hFirst.1, ih hFirst.2⟩
  | wait l p k ih => exact ⟨hFirst.1, ih hFirst.2⟩

end Disciplined

/-- The program is disciplined and ends with the locks it began with. -/
def Keeps (Good : S → σ → Prop) (held : Held L) (x : Prog L σ S ε α) : Prop :=
  Disciplined Good (fun held' _ => held' = held) held x

namespace Keeps

theorem pure (a : α) : Keeps Good held (pure a : Prog L σ S ε α) := rfl

theorem bind {x : Prog L σ S ε α} {f : α → Prog L σ S ε β} (hFirst : Keeps Good held x)
    (hNext : ∀ a, Keeps Good held (f a)) : Keeps Good held (x >>= f) :=
  Disciplined.bind hFirst fun _ a hSame => hSame ▸ hNext a

theorem call [Inhabited S] (f : σ → Except ε (α × σ)) :
    Keeps Good held (Prog.call f : Prog L σ S ε α) := fun _ _ _ _ _ => rfl

/-- A guard asks for a lock that the thread does not hold. -/
theorem withLock {body : Prog L σ S ε α} (hFree : held l = none)
    (hBody : Keeps Good (Function.update held l (some m)) body) :
    Keeps Good held (Prog.withLock l m body) := by
  refine ⟨hFree, Disciplined.bind hBody fun held' a hSame => ?_⟩
  subst hSame
  refine ⟨by simp, ?_⟩
  show Function.update (Function.update held l (some m)) l none = held
  rw [Function.update_idem, ← hFree, Function.update_eq_self]

theorem waitFor (p : σ → Bool) (hHeld : held l = some .exclusive) :
    Keeps Good held (Prog.waitFor l p : Prog L σ S ε Unit) := ⟨hHeld, rfl⟩

theorem ite {c : Prop} [Decidable c] {x y : Prog L σ S ε α} (hThen : c → Keeps Good held x)
    (hElse : ¬c → Keeps Good held y) : Keeps Good held (if c then x else y) := by
  split
  · exact hThen ‹_›
  · exact hElse ‹_›

end Keeps

namespace Pool

variable {pool pool' : Pool L σ S ε} {i : Nat}

/-- Every thread is disciplined from where it is. -/
def Disciplined (Good : S → σ → Prop) (pool : Pool L σ S ε) : Prop :=
  ∀ t ∈ pool.threads, Locks.Disciplined Good (fun _ _ => True) t.held t.code

theorem Disciplined.resume {s : σ} {t : Thread L σ S ε} (h : pool.Disciplined Good)
    (ht : Locks.Disciplined Good (fun _ _ => True) t.held t.code) :
    (pool.resume i s t).Disciplined Good := by
  intro u hu
  rcases List.mem_or_eq_of_mem_set hu with hu | rfl
  · exact h u hu
  · exact ht

/-- A step keeps all threads disciplined. -/
theorem Disciplined.step {done : List Unit} (h : pool.Disciplined Good) (hMeets : pool.Meets Good i)
    (hStep : pool.step i = .ok (pool', done)) : pool'.Disciplined Good := by
  unfold Pool.step at hStep
  unfold Meets at hMeets
  cases hThread : pool.threads[i]? with
  | none =>
      rw [hThread] at hStep
      cases hStep
  | some t =>
      rw [hThread] at hStep hMeets
      obtain ⟨next, hNext, hEnd⟩ := Execution.bind_eq_ok.mp hStep
      obtain ⟨rfl, -⟩ := Prod.mk.inj (Execution.pure_eq_ok.mp hEnd)
      have ht := h t (List.mem_of_getElem? hThread)
      obtain ⟨held, code⟩ := t
      cases code with
      | ret a => cases hNext
      | act site f k =>
          simp only [stepThread] at hNext
          split at hNext
          · obtain rfl := Except.ok.inj hNext
            exact h.resume (ht _ _ _ hMeets ‹_›)
          · cases hNext
      | acquire l m p k =>
          simp only [stepThread] at hNext
          split at hNext
          · obtain rfl := Except.ok.inj hNext
            exact h.resume ht.2
          · cases hNext
      | release l k =>
          obtain rfl := Except.ok.inj hNext
          exact h.resume ht.2
      | wait l p k =>
          simp only [stepThread] at hNext
          split at hNext
          · obtain rfl := Except.ok.inj hNext
            exact h.resume ht.2
          · obtain rfl := Except.ok.inj hNext
            -- the lock is given up and asked for again
            refine h.resume ⟨by simp, ?_⟩
            rw [Function.update_idem, ← ht.1, Function.update_eq_self]
            exact ht.2

/-- No thread of a disciplined pool ever asks for a lock that it holds, while
the condition holds along the run. -/
theorem Disciplined.never_relocks {order : List Nat} {done : List Unit} (h : pool.Disciplined Good)
    (hAlong : Runs.Along Pool.step (Meets Good) pool order)
    (hRun : pool.run order = .ok (pool', done)) : ∀ t ∈ pool'.threads, ¬t.Relocks := by
  have hEnd : pool'.Disciplined Good :=
    Runs.run_invariant (fun _ _ _ _ h hMeets hStep => h.step hMeets hStep) hRun hAlong h
  rintro ⟨held, code⟩ ht hRelocks
  have hCode := hEnd _ ht
  cases code with
  | acquire l m p k => exact hRelocks hCode.1
  | _ => exact hRelocks

end Pool

end Locks
