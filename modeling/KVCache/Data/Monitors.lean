import KVCache.Data.Locks
import Mathlib.Order.BooleanAlgebra.Set

/-! Locks with condition variables. A thread that finds its condition false
gives up the lock and sleeps until it is notified, and a notification that finds
nobody asleep is lost. Between the look at the condition and the sleep another
thread may run, as long as it does not need the lock.

A discipline on the program of each thread rules out that a thread sleeps while
its condition holds and nobody is going to notify it. -/

namespace Monitors

open Locks (Mode Held Fault)

/-- A program over the locks `L` and the condition variables `V`. -/
inductive Prog (L V σ S ε α : Type) : Type 1 where
  | ret (a : α)
  | act {β : Type} (site : S) (f : σ → Except ε (β × σ)) (k : β → Prog L V σ S ε α)
  | acquire (l : L) (m : Mode) (k : Prog L V σ S ε α)
  | release (l : L) (k : Prog L V σ S ε α)
  /-- sleep on `v`, without the lock, until the condition holds -/
  | wait (v : V) (l : L) (p : σ → Bool) (k : Prog L V σ S ε α)
  /-- wake all threads that sleep on `v`, or one of them -/
  | notify (v : V) (all : Bool) (k : Prog L V σ S ε α)

variable {L V σ S ε α β : Type}

namespace Prog

def bind : Prog L V σ S ε α → (α → Prog L V σ S ε β) → Prog L V σ S ε β
  | ret a, f => f a
  | act site g k, f => act site g fun b => (k b).bind f
  | acquire l m k, f => acquire l m (k.bind f)
  | release l k, f => release l (k.bind f)
  | wait v l p k, f => wait v l p (k.bind f)
  | notify v all k, f => notify v all (k.bind f)

instance : Monad (Prog L V σ S ε) where
  pure := ret
  bind := bind

/-- A body inside of the scope of a lock guard. -/
def withLock (l : L) (m : Mode) (body : Prog L V σ S ε α) : Prog L V σ S ε α :=
  acquire l m (body.bind fun a => release l (ret a))

/-- A program that sleeps on the condition variable of a lock, wherever it waits
with this lock. -/
def lift (signal : L → V) : Locks.Prog L σ S ε α → Prog L V σ S ε α
  | .ret a => ret a
  | .act site f k => act site f fun b => lift signal (k b)
  | .acquire l m _ k => acquire l m (lift signal k)
  | .release l k => release l (lift signal k)
  | .wait l p k => wait (signal l) l p (lift signal k)

/-- A program without its notifications. -/
def erase : Prog L V σ S ε α → Locks.Prog L σ S ε α
  | ret a => .ret a
  | act site f k => .act site f fun b => (k b).erase
  | acquire l m k => .acquire l m (fun _ => true) k.erase
  | release l k => .release l k.erase
  | wait _ l p k => .wait l p k.erase
  | notify _ _ k => k.erase

section

variable {signal : L → V}

theorem lift_pure (a : α) :
    lift signal (pure a : Locks.Prog L σ S ε α) = (pure a : Prog L V σ S ε α) := rfl

theorem lift_bind (x : Locks.Prog L σ S ε α) (f : α → Locks.Prog L σ S ε β) :
    lift signal (x >>= f) = lift signal x >>= fun a => lift signal (f a) := by
  change lift signal (x.bind f) = (lift signal x).bind fun a => lift signal (f a)
  induction x with
  | ret a => rfl
  | act site g k ih => exact congrArg (act site g) (funext ih)
  | acquire l m p k ih => exact congrArg (acquire l m) ih
  | release l k ih => exact congrArg (release l) ih
  | wait l p k ih => exact congrArg (wait (signal l) l p) ih

theorem lift_withLock (l : L) (m : Mode) (body : Locks.Prog L σ S ε α) :
    lift signal (.withLock l m body) = withLock l m (lift signal body) :=
  congrArg (acquire l m) (lift_bind body _)

theorem lift_ite {c : Prop} [Decidable c] (x y : Locks.Prog L σ S ε α) :
    lift signal (if c then x else y) = if c then lift signal x else lift signal y :=
  apply_ite _ _ _ _

end

end Prog

/-! ### Threads -/

inductive Phase where
  | running
  /-- the condition was false, and the lock is still held -/
  | dozing
  | asleep
  deriving DecidableEq, Repr

structure Thread (L V σ S ε : Type) : Type 1 where
  held : Held L
  phase : Phase
  code : Prog L V σ S ε Unit

namespace Thread

variable (t : Thread L V σ S ε)

def Finished : Prop := t.phase = .running ∧ ∃ a, t.code = .ret a

/-- The thread wants to have the lock. -/
def AsksFor (l : L) : Prop := t.phase = .running ∧ ∃ m k, t.code = .acquire l m k

/-- The thread has seen that the condition of its wait is false. -/
def DozesAt (l : L) : Prop := t.phase = .dozing ∧ ∃ v p k, t.code = .wait v l p k

/-- The thread has given up the lock for its wait. -/
def SleepsAt (l : L) : Prop := t.phase = .asleep ∧ ∃ v p k, t.code = .wait v l p k

/-- The sleeper has to take its lock again before it looks at its condition. -/
def wake : Thread L V σ S ε → Thread L V σ S ε
  | ⟨held, .asleep, .wait v l p k⟩ => ⟨held, .running, .acquire l .exclusive (.wait v l p k)⟩
  | t => t

/-- The thread sleeps on the condition variable. -/
def sleepsOn [DecidableEq V] (v : V) : Thread L V σ S ε → Bool
  | ⟨_, .asleep, .wait v' _ _ _⟩ => v' = v
  | _ => false

end Thread

structure Pool (L V σ S ε : Type) : Type 1 where
  state : σ
  threads : List (Thread L V σ S ε)

/-- What happens next. A thread makes a step, with the sleeper that is woken if
it notifies one of several; or a sleeper wakes up without a notification. -/
inductive Move where
  | step (i pick : Nat)
  | spurious (i : Nat)
  deriving DecidableEq, Repr

namespace Pool

variable [DecidableEq L] [DecidableEq V]

/-- No thread holds the lock in a way that keeps others out. -/
def free (pool : Pool L V σ S ε) (l : L) (m : Mode) : Bool :=
  pool.threads.all fun t => (t.held l).all m.compatible

def resume (pool : Pool L V σ S ε) (i : Nat) (s : σ) (t : Thread L V σ S ε) : Pool L V σ S ε :=
  ⟨s, pool.threads.set i t⟩

/-- Who sleeps on the condition variable. -/
def sleepers (pool : Pool L V σ S ε) (v : V) : Bool := pool.threads.any (·.sleepsOn v)

def wakeAll (pool : Pool L V σ S ε) (v : V) : Pool L V σ S ε :=
  ⟨pool.state, pool.threads.map fun t => if t.sleepsOn v then t.wake else t⟩

/-- The next step of a thread that runs. -/
def stepRunning (pool : Pool L V σ S ε) (i pick : Nat) (held : Held L) :
    Prog L V σ S ε Unit → Except (Fault ε) (Pool L V σ S ε)
  | .ret _ => .error .blocked
  | .act _ f k =>
      match f pool.state with
      | .ok (b, s) => .ok (pool.resume i s ⟨held, .running, k b⟩)
      | .error reason => .error (.stop reason)
  | .acquire l m k =>
      if pool.free l m then
        .ok (pool.resume i pool.state ⟨Function.update held l (some m), .running, k⟩)
      else .error .blocked
  | .release l k =>
      .ok (pool.resume i pool.state ⟨Function.update held l none, .running, k⟩)
  | .wait v l p k =>
      if p pool.state then .ok (pool.resume i pool.state ⟨held, .running, k⟩)
      else .ok (pool.resume i pool.state ⟨held, .dozing, .wait v l p k⟩)
  | .notify v true k => .ok ((pool.wakeAll v).resume i pool.state ⟨held, .running, k⟩)
  | .notify v false k =>
      if pool.sleepers v then
        match pool.threads[pick]? with
        | some t =>
            if t.sleepsOn v then
              .ok ((pool.resume pick pool.state t.wake).resume i pool.state ⟨held, .running, k⟩)
            else .error .blocked
        | none => .error .blocked
      else .ok (pool.resume i pool.state ⟨held, .running, k⟩)

def stepThread (pool : Pool L V σ S ε) (i pick : Nat) :
    Thread L V σ S ε → Except (Fault ε) (Pool L V σ S ε)
  | ⟨held, .running, code⟩ => pool.stepRunning i pick held code
  | ⟨held, .dozing, .wait v l p k⟩ =>
      .ok (pool.resume i pool.state ⟨Function.update held l none, .asleep, .wait v l p k⟩)
  | _ => .error .blocked

def step (pool : Pool L V σ S ε) : Move → Except (Fault ε) (Pool L V σ S ε × List Unit)
  | .step i pick =>
      match pool.threads[i]? with
      | none => .error .blocked
      | some t => do return (← pool.stepThread i pick t, [])
  | .spurious i =>
      match pool.threads[i]? with
      | none => .error .blocked
      | some t => .ok (pool.resume i pool.state t.wake, [])

def run (pool : Pool L V σ S ε) (moves : List Move) :
    Except (Fault ε) (Pool L V σ S ε × List Unit) :=
  Runs.run step pool moves

/-- No thread can make a step. -/
def Stuck (pool : Pool L V σ S ε) : Prop :=
  ∀ i pick, pool.step (.step i pick) = .error .blocked

/-- The thread has finished, sleeps, or asks for a lock that it cannot have. -/
def blocked (pool : Pool L V σ S ε) : Thread L V σ S ε → Bool
  | ⟨_, .asleep, _⟩ => true
  | ⟨_, .running, .ret _⟩ => true
  | ⟨_, .running, .acquire l m _⟩ => !pool.free l m
  | _ => false

theorem stuck_of_blocked {pool : Pool L V σ S ε} (h : pool.threads.all pool.blocked = true) :
    pool.Stuck := by
  intro i pick
  simp only [step]
  split
  · rfl
  · rename_i t ht
    have hBlocked := List.all_eq_true.mp h t (List.mem_of_getElem? ht)
    obtain ⟨held, phase, code⟩ := t
    cases phase with
    | asleep => cases code <;> rfl
    | dozing => cases hBlocked
    | running =>
        cases code with
        | ret a => rfl
        | acquire l m k =>
            have hTaken : pool.free l m = false := by simpa [blocked] using hBlocked
            simp only [stepThread, stepRunning, hTaken]
            rfl
        | _ => cases hBlocked

end Pool

/-! ### Discipline -/

/-- What the waits of the threads have in common: the condition variable and the
condition that belong to a lock. -/
structure Protocol (L V σ : Type) where
  signal : L → V
  ready : L → σ → Bool
  /-- locks whose condition is not made true without a notification -/
  watched : L → Prop
  /-- a thread asks only for locks above those that it holds -/
  rank : L → Nat
  /-- condition variables on which at most one thread sleeps -/
  single : V → Prop
  /-- which thread sleeps on a condition variable, and with which locks -/
  sleeper : V → Nat → Held L → Prop
  sleeper_unique : ∀ {v i j} {held held' : Held L}, single v → sleeper v i held →
    sleeper v j held' → i = j ∨ ∃ l, held l = some .exclusive ∧ held' l ≠ none

namespace Protocol

variable (P : Protocol L V σ)

/-- No lock is taken after this one. -/
def Top (l : L) : Prop := ∀ l', P.rank l' ≤ P.rank l

/-- The lock is above all that are held, itself apart. -/
def Above (held : Held L) (l : L) : Prop := ∀ l', l' ≠ l → held l' ≠ none → P.rank l' < P.rank l

/-- Conditions that become true between two states do so under their lock, and
are to be notified. -/
def Raises (held : Held L) (debts : Set V) (s s' : σ) : Prop :=
  ∀ l, P.watched l → P.ready l s = false → P.ready l s' = true →
    held l = some .exclusive ∧ P.signal l ∈ debts

theorem raises_refl (held : Held L) (debts : Set V) (s : σ) : P.Raises held debts s s := by
  intro l _ hFalse hTrue
  exact absurd (hFalse.symm.trans hTrue) Bool.false_ne_true

end Protocol

variable [DecidableEq L]

/-- From `held` on, and with notifications in `debts` still to be made, the
program of thread `i` takes its locks in order, waits only with nothing left to
notify, and notifies what it makes true. It ends with `Q`. -/
def Orderly (P : Protocol L V σ) (i : Nat) (Q : Held L → Set V → α → Prop) :
    Held L → Set V → Prog L V σ S ε α → Prop
  | held, debts, .ret a => Q held debts a
  | held, debts, .act _ f k => ∃ debts', debts ⊆ debts' ∧ ∀ s b s', f s = .ok (b, s') →
      P.Raises held debts' s s' ∧ Orderly P i Q held debts' (k b)
  | held, debts, .acquire l m k => held l = none ∧ P.Above held l ∧ (debts = ∅ ∨ P.Top l) ∧
      Orderly P i Q (Function.update held l (some m)) debts k
  | held, debts, .release l k => Orderly P i Q (Function.update held l none) debts k
  | held, debts, .wait v l p k => debts = ∅ ∧ v = P.signal l ∧ p = P.ready l ∧
      held l = some .exclusive ∧ P.Above held l ∧ P.sleeper v i (Function.update held l none) ∧
      Orderly P i Q held ∅ k
  | held, debts, .notify v all k => (all = false → P.single v) ∧
      Orderly P i Q held (debts \ {v}) k

variable {P : Protocol L V σ} {i : Nat} {held : Held L} {debts debts' : Set V} {l : L} {m : Mode}

namespace Orderly

variable {Q Q' : Held L → Set V → α → Prop}

/-- With less to notify the program is orderly as well. -/
theorem mono {x : Prog L V σ S ε α} (h : Orderly P i Q held debts x) (hDebts : debts' ⊆ debts)
    (hQ : ∀ held e e' a, e' ⊆ e → Q held e a → Q' held e' a) :
    Orderly P i Q' held debts' x := by
  induction x generalizing held debts debts' with
  | ret a => exact hQ held debts debts' a hDebts h
  | act site f k ih =>
      obtain ⟨e, hSub, hStep⟩ := h
      refine ⟨e, hDebts.trans hSub, fun s b s' hf => ?_⟩
      obtain ⟨hRaises, hRest⟩ := hStep s b s' hf
      exact ⟨hRaises, ih b hRest subset_rfl⟩
  | acquire l m k ih =>
      obtain ⟨hFree, hAbove, hTop, hRest⟩ := h
      refine ⟨hFree, hAbove, hTop.imp_left fun hNone => ?_, ih hRest hDebts⟩
      exact Set.subset_empty_iff.mp (hNone ▸ hDebts)
  | release l k ih => exact ih h hDebts
  | wait v l p k ih =>
      obtain ⟨rfl, hSignal, hReady, hHeld, hAbove, hSleeper, hRest⟩ := h
      exact ⟨Set.subset_empty_iff.mp hDebts, hSignal, hReady, hHeld, hAbove, hSleeper,
        ih hRest subset_rfl⟩
  | notify v all k ih => exact ⟨h.1, ih h.2 (Set.sdiff_subset_sdiff_left hDebts)⟩

/-- The rule for a sequence of two programs. -/
theorem bind {x : Prog L V σ S ε α} {f : α → Prog L V σ S ε β} {R : Held L → Set V → β → Prop}
    (hFirst : Orderly P i Q held debts x)
    (hNext : ∀ held e a, Q held e a → Orderly P i R held e (f a)) :
    Orderly P i R held debts (x.bind f) := by
  induction x generalizing held debts with
  | ret a => exact hNext held debts a hFirst
  | act site g k ih =>
      obtain ⟨e, hSub, hStep⟩ := hFirst
      exact ⟨e, hSub, fun s b s' hg => ⟨(hStep s b s' hg).1, ih b (hStep s b s' hg).2⟩⟩
  | acquire l m k ih => exact ⟨hFirst.1, hFirst.2.1, hFirst.2.2.1, ih hFirst.2.2.2⟩
  | release l k ih => exact ih hFirst
  | wait v l p k ih =>
      obtain ⟨hNone, hSignal, hReady, hHeld, hAbove, hSleeper, hRest⟩ := hFirst
      exact ⟨hNone, hSignal, hReady, hHeld, hAbove, hSleeper, ih hRest⟩
  | notify v all k ih => exact ⟨hFirst.1, ih hFirst.2⟩

end Orderly

/-- The program is orderly, ends with the locks it began with, and leaves at
most the notifications in `E` to be made. -/
def Minds (P : Protocol L V σ) (i : Nat) (held : Held L) (debts : Set V) (E : α → Set V)
    (x : Prog L V σ S ε α) : Prop :=
  Orderly P i (fun held' e a => held' = held ∧ e ⊆ E a) held debts x

namespace Minds

variable {E E' : α → Set V} {F : β → Set V}

theorem pure {a : α} (h : debts ⊆ E a) :
    Minds P i held debts E (pure a : Prog L V σ S ε α) := ⟨rfl, h⟩

theorem bind {x : Prog L V σ S ε α} {f : α → Prog L V σ S ε β}
    (hFirst : Minds P i held debts E x) (hNext : ∀ a, Minds P i held (E a) F (f a)) :
    Minds P i held debts F (x >>= f) := by
  refine Orderly.bind hFirst fun held' e a hEnd => ?_
  obtain ⟨rfl, hSub⟩ := hEnd
  exact Orderly.mono (hNext a) hSub fun _ _ _ _ hLess hLast => ⟨hLast.1, hLess.trans hLast.2⟩

theorem mono {x : Prog L V σ S ε α} (h : Minds P i held debts E x)
    (hDebts : debts' ⊆ debts) (hAfter : ∀ a, E a ⊆ E' a) :
    Minds P i held debts' E' x :=
  Orderly.mono h hDebts fun _ _ _ a hLess hLast =>
    ⟨hLast.1, hLess.trans (hLast.2.trans (hAfter a))⟩

/-- An action makes conditions true only under their locks. -/
theorem act {site : S} {f : σ → Except ε (α × σ)} (hDebts : debts ⊆ debts')
    (hRaises : ∀ s a s', f s = .ok (a, s') → P.Raises held debts' s s')
    (hAfter : ∀ a, debts' ⊆ E a) :
    Minds P i held debts E (.act site f .ret : Prog L V σ S ε α) :=
  ⟨debts', hDebts, fun s a s' hf => ⟨hRaises s a s' hf, rfl, hAfter a⟩⟩

/-- A guard asks for a lock above those that the thread holds. -/
theorem withLock {body : Prog L V σ S ε α} (hFree : held l = none) (hAbove : P.Above held l)
    (hTop : debts = ∅ ∨ P.Top l)
    (hBody : Minds P i (Function.update held l (some m)) debts E body) :
    Minds P i held debts E (Prog.withLock l m body) := by
  refine ⟨hFree, hAbove, hTop, Orderly.bind hBody fun held' e a hEnd => ?_⟩
  obtain ⟨rfl, hSub⟩ := hEnd
  refine ⟨?_, hSub⟩
  rw [Function.update_idem, ← hFree, Function.update_eq_self]

theorem wait (hHeld : held l = some .exclusive) (hAbove : P.Above held l)
    (hSleeper : P.sleeper (P.signal l) i (Function.update held l none)) {E : Unit → Set V} :
    Minds P i held ∅ E
      (Prog.wait (P.signal l) l (P.ready l) (.ret ()) : Prog L V σ S ε Unit) :=
  ⟨rfl, rfl, rfl, hHeld, hAbove, hSleeper, rfl, Set.empty_subset _⟩

theorem notify {v : V} {all : Bool} (hSingle : all = false → P.single v) :
    Minds P i held debts (fun _ => debts \ {v})
      (Prog.notify v all (.ret ()) : Prog L V σ S ε Unit) :=
  ⟨hSingle, rfl, subset_rfl⟩

theorem ite {c : Prop} [Decidable c] {x y : Prog L V σ S ε α}
    (hThen : c → Minds P i held debts E x) (hElse : ¬c → Minds P i held debts E y) :
    Minds P i held debts E (if c then x else y) := by
  split
  · exact hThen ‹_›
  · exact hElse ‹_›

end Minds

end Monitors
