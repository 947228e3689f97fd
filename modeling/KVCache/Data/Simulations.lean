import KVCache.Data.Locks
import Mathlib.Logic.Relation

/-! Threads simulated by an abstract system. Every action of a thread is matched
by steps of the abstract system, or by none. The program of each thread is
checked alone, with an assertion on both states at each of its places; what the
other threads guarantee keeps the assertion while they run, and a lock hands
over what holds while it is free. -/

namespace Locks

variable {L σ τ S ε α β : Type}

/-- Together with the locks of one thread, another one may hold these. -/
def Held.Beside (held held' : Held L) : Prop :=
  ∀ l m m', held l = some m → held' l = some m' → m.compatible m' = true

theorem Mode.compatible_comm (m m' : Mode) : m.compatible m' = m'.compatible m := by
  cases m <;> cases m' <;> rfl

theorem Held.Beside.symm {held held' : Held L} (h : held.Beside held') : held'.Beside held := by
  intro l m m' hl hl'
  rw [Mode.compatible_comm]
  exact h l m' m hl' hl

/-- An abstract system beside the threads. `Rel` ties the two states together,
`Guar` is the most that an action of a thread under its locks does to them, and
`Free` is what holds while nobody has a lock. -/
structure Simulation (L σ τ : Type) where
  Step : τ → τ → Prop
  Rel : σ → τ → Prop
  Guar : Nat → Held L → σ → τ → σ → τ → Prop
  Free : L → σ → τ → Prop
  guar_refl : ∀ i held s t, Guar i held s t s t
  free_stable : ∀ {i held l s t s' t'}, held l = none → Guar i held s t s' t' → Free l s t →
    Free l s' t'

namespace Simulation

variable (P : Simulation L σ τ)

/-- The abstract system gets from one state to another. -/
def Steps : τ → τ → Prop := Relation.ReflTransGen P.Step

/-- The assertion of a thread outlasts what the other threads do. -/
def Stable (i : Nat) (held : Held L) (A : σ → τ → Prop) : Prop :=
  ∀ j held' s t s' t', j ≠ i → held.Beside held' → P.Guar j held' s t s' t' → A s t → A s' t'

variable {P} {i : Nat} {held : Held L} {A B : σ → τ → Prop}

theorem Stable.and (hA : P.Stable i held A) (hB : P.Stable i held B) :
    P.Stable i held fun s t => A s t ∧ B s t :=
  fun j held' s t s' t' hj hBeside hGuar h =>
    ⟨hA j held' s t s' t' hj hBeside hGuar h.1, hB j held' s t s' t' hj hBeside hGuar h.2⟩

theorem Stable.true : P.Stable i held fun _ _ => True := fun _ _ _ _ _ _ _ _ _ _ => trivial

/-- A thread that holds a lock more can rely on more. -/
theorem Stable.lock [DecidableEq L] {l : L} {m : Mode} (h : P.Stable i held A) (hl : held l = none) :
    P.Stable i (Function.update held l (some m)) A := by
  intro j held' s t s' t' hj hBeside hGuar hA
  refine h j held' s t s' t' hj (fun l' m₁ m₂ h₁ h₂ => hBeside l' m₁ m₂ ?_ h₂) hGuar hA
  rw [Function.update_of_ne]
  · exact h₁
  · rintro rfl
    rw [hl] at h₁
    cases h₁

end Simulation

/-! ### Programs -/

variable [DecidableEq L]

/-- From a place with the assertion `A` on, the program is matched by the
abstract system, and ends with `Q`. -/
def Simulates (P : Simulation L σ τ) (i : Nat) (Q : Held L → α → (σ → τ → Prop) → Prop) :
    Held L → (σ → τ → Prop) → Prog L σ S ε α → Prop
  | held, A, .ret a => P.Stable i held A ∧ Q held a A
  | held, A, .act (β := β) _ f k => P.Stable i held A ∧
      ∃ B : β → σ → τ → Prop,
        (∀ s t b s', P.Rel s t → A s t → f s = .ok (b, s') →
          ∃ t', P.Steps t t' ∧ P.Rel s' t' ∧ P.Guar i held s t s' t' ∧ B b s' t') ∧
        ∀ b, Simulates P i Q held (B b) (k b)
  | held, A, .acquire l m p k => P.Stable i held A ∧ held l = none ∧
      ∃ B : σ → τ → Prop,
        (∀ s t, P.Rel s t → A s t → p s = true → (m = .exclusive → P.Free l s t) → B s t) ∧
        Simulates P i Q (Function.update held l (some m)) B k
  | held, A, .release l k => P.Stable i held A ∧
      ∃ B : σ → τ → Prop,
        (∀ s t, P.Rel s t → A s t → P.Free l s t ∧ B s t) ∧
        Simulates P i Q (Function.update held l none) B k
  | held, A, .wait l p k => P.Stable i held A ∧ held l = some .exclusive ∧
      ∃ W B : σ → τ → Prop, P.Stable i (Function.update held l none) W ∧
        (∀ s t, P.Rel s t → A s t → P.Free l s t ∧ W s t) ∧
        (∀ s t, P.Rel s t → A s t → p s = true → B s t) ∧
        (∀ s t, P.Rel s t → W s t → p s = true → P.Free l s t → B s t) ∧
        Simulates P i Q held B k

namespace Simulates

variable {P : Simulation L σ τ} {i : Nat} {held : Held L} {A A' : σ → τ → Prop}
  {Q Q' : Held L → α → (σ → τ → Prop) → Prop} {x : Prog L σ S ε α}

theorem stable (h : Simulates P i Q held A x) : P.Stable i held A := by
  cases x with
  | ret a => exact h.1
  | act site f k => exact h.1
  | acquire l m p k => exact h.1
  | release l k => exact h.1
  | wait l p k => exact h.1

/-- A stronger assertion at the start. -/
theorem pre (h : Simulates P i Q held A x) (hStable : P.Stable i held A')
    (hPre : ∀ s t, P.Rel s t → A' s t → A s t)
    (hQ : ∀ held a (B B' : σ → τ → Prop), (∀ s t, P.Rel s t → B' s t → B s t) → Q held a B → Q held a B') :
    Simulates P i Q held A' x := by
  cases x with
  | ret a => exact ⟨hStable, hQ held a A A' hPre h.2⟩
  | act site f k =>
      obtain ⟨-, B, hAct, hRest⟩ := h
      exact ⟨hStable, B, fun s t b s' hRel hA' hf => hAct s t b s' hRel (hPre s t hRel hA') hf, hRest⟩
  | acquire l m p k =>
      obtain ⟨-, hl, B, hTake, hRest⟩ := h
      exact ⟨hStable, hl, B, fun s t hRel hA' => hTake s t hRel (hPre s t hRel hA'), hRest⟩
  | release l k =>
      obtain ⟨-, B, hGive, hRest⟩ := h
      exact ⟨hStable, B, fun s t hRel hA' => hGive s t hRel (hPre s t hRel hA'), hRest⟩
  | wait l p k =>
      obtain ⟨-, hl, W, B, hW, hSleep, hGo, hWake, hRest⟩ := h
      exact ⟨hStable, hl, W, B, hW, fun s t hRel hA' => hSleep s t hRel (hPre s t hRel hA'),
        fun s t hRel hA' => hGo s t hRel (hPre s t hRel hA'), hWake, hRest⟩

theorem mono (h : Simulates P i Q held A x)
    (hQ : ∀ held a B, P.Stable i held B → Q held a B → Q' held a B) : Simulates P i Q' held A x := by
  induction x generalizing held A with
  | ret a => exact ⟨h.1, hQ held a A h.1 h.2⟩
  | act site f k ih =>
      obtain ⟨hStable, B, hAct, hRest⟩ := h
      exact ⟨hStable, B, hAct, fun b => ih b (hRest b)⟩
  | acquire l m p k ih =>
      obtain ⟨hStable, hl, B, hTake, hRest⟩ := h
      exact ⟨hStable, hl, B, hTake, ih hRest⟩
  | release l k ih =>
      obtain ⟨hStable, B, hGive, hRest⟩ := h
      exact ⟨hStable, B, hGive, ih hRest⟩
  | wait l p k ih =>
      obtain ⟨hStable, hl, W, B, hW, hSleep, hGo, hWake, hRest⟩ := h
      exact ⟨hStable, hl, W, B, hW, hSleep, hGo, hWake, ih hRest⟩

theorem bind {f : α → Prog L σ S ε β} {R : Held L → β → (σ → τ → Prop) → Prop}
    (hFirst : Simulates P i Q held A x)
    (hNext : ∀ held a B, P.Stable i held B → Q held a B → Simulates P i R held B (f a)) :
    Simulates P i R held A (x.bind f) := by
  induction x generalizing held A with
  | ret a => exact hNext held a A hFirst.1 hFirst.2
  | act site g k ih =>
      obtain ⟨hStable, B, hAct, hRest⟩ := hFirst
      exact ⟨hStable, B, hAct, fun b => ih b (hRest b)⟩
  | acquire l m p k ih =>
      obtain ⟨hStable, hl, B, hTake, hRest⟩ := hFirst
      exact ⟨hStable, hl, B, hTake, ih hRest⟩
  | release l k ih =>
      obtain ⟨hStable, B, hGive, hRest⟩ := hFirst
      exact ⟨hStable, B, hGive, ih hRest⟩
  | wait l p k ih =>
      obtain ⟨hStable, hl, W, B, hW, hSleep, hGo, hWake, hRest⟩ := hFirst
      exact ⟨hStable, hl, W, B, hW, hSleep, hGo, hWake, ih hRest⟩

end Simulates

/-- From `A` on, the program is matched by the abstract system, keeps its locks
and ends with `B`. -/
def Triple (P : Simulation L σ τ) (i : Nat) (held : Held L) (A : σ → τ → Prop)
    (x : Prog L σ S ε α) (B : α → σ → τ → Prop) : Prop :=
  Simulates P i (fun held' a A' => held' = held ∧ ∀ s t, P.Rel s t → A' s t → B a s t) held A x

namespace Triple

variable {P : Simulation L σ τ} {i : Nat} {held : Held L} {A A' : σ → τ → Prop}
  {B B' : α → σ → τ → Prop} {x y : Prog L σ S ε α} {l : L} {m : Mode}

theorem stable (h : Triple P i held A x B) : P.Stable i held A := Simulates.stable h

theorem pre (h : Triple P i held A x B) (hStable : P.Stable i held A')
    (hPre : ∀ s t, P.Rel s t → A' s t → A s t) : Triple P i held A' x B :=
  Simulates.pre h hStable hPre fun _ _ _ _ hLess hQ =>
    ⟨hQ.1, fun s t hRel hB => hQ.2 s t hRel (hLess s t hRel hB)⟩

theorem post (h : Triple P i held A x B) (hPost : ∀ a s t, P.Rel s t → B a s t → B' a s t) :
    Triple P i held A x B' :=
  Simulates.mono h fun _ a _ _ hQ => ⟨hQ.1, fun s t hRel hA => hPost a s t hRel (hQ.2 s t hRel hA)⟩

theorem pure {a : α} (hStable : P.Stable i held A) (h : ∀ s t, P.Rel s t → A s t → B a s t) :
    Triple P i held A (pure a : Prog L σ S ε α) B := ⟨hStable, rfl, h⟩

theorem bind {f : α → Prog L σ S ε β} {C : β → σ → τ → Prop} (hFirst : Triple P i held A x B)
    (hNext : ∀ a, Triple P i held (B a) (f a) C) : Triple P i held A (x >>= f) C := by
  refine Simulates.bind hFirst fun held' a A' hStable hEnd => ?_
  obtain ⟨rfl, hPost⟩ := hEnd
  exact (hNext a).pre hStable hPost

/-- An action, together with the steps that match it. -/
theorem act {site : S} {f : σ → Except ε (α × σ)} (hStable : P.Stable i held A)
    (hEnd : ∀ a, P.Stable i held (B a))
    (h : ∀ s t a s', P.Rel s t → A s t → f s = .ok (a, s') →
      ∃ t', P.Steps t t' ∧ P.Rel s' t' ∧ P.Guar i held s t s' t' ∧ B a s' t') :
    Triple P i held A (.act site f .ret : Prog L σ S ε α) B :=
  ⟨hStable, B, h, fun a => ⟨hEnd a, rfl, fun _ _ _ hB => hB⟩⟩

/-- An action that only looks at the state. -/
theorem look {site : S} {f : σ → Except ε (α × σ)} (hStable : P.Stable i held A)
    (hEnd : ∀ a, P.Stable i held (B a)) (hSame : ∀ s a s', f s = .ok (a, s') → s' = s)
    (h : ∀ s t a, P.Rel s t → A s t → f s = .ok (a, s) → B a s t) :
    Triple P i held A (.act site f .ret : Prog L σ S ε α) B := by
  refine act hStable hEnd fun s t a s' hRel hA hf => ?_
  obtain rfl := hSame s a s' hf
  exact ⟨t, .refl, hRel, P.guar_refl i held s' t, h s' t a hRel hA hf⟩

theorem withLock {C : σ → τ → Prop} {D : α → σ → τ → Prop} (hFree : held l = none)
    (hStable : P.Stable i held A) (hEnd : ∀ a, P.Stable i held (B a))
    (hTake : ∀ s t, P.Rel s t → A s t → (m = .exclusive → P.Free l s t) → C s t)
    (hBody : Triple P i (Function.update held l (some m)) C x D)
    (hGive : ∀ a s t, P.Rel s t → D a s t → P.Free l s t ∧ B a s t) :
    Triple P i held A (.withLock l m x) B := by
  refine ⟨hStable, hFree, C, fun s t hRel hA _ => hTake s t hRel hA, ?_⟩
  refine Simulates.bind hBody fun held' a A' hStable' hPost => ?_
  obtain ⟨rfl, hPost⟩ := hPost
  have hBack : Function.update (Function.update held l (some m)) l none = held := by
    rw [Function.update_idem, ← hFree, Function.update_eq_self]
  refine ⟨hStable', B a, fun s t hRel hA' => hGive a s t hRel (hPost s t hRel hA'), ?_⟩
  rw [hBack]
  exact ⟨hEnd a, rfl, fun _ _ _ hB => hB⟩

/-- A guard on a lock that has nothing to hand over. -/
theorem guard (hNone : ∀ s t, P.Free l s t) (hFree : held l = none) (hStable : P.Stable i held A)
    (hEnd : ∀ a, P.Stable i held (B a))
    (hBody : Triple P i (Function.update held l (some m)) A x B) :
    Triple P i held A (.withLock l m x) B :=
  withLock hFree hStable hEnd (fun _ _ _ hA _ => hA) hBody fun _ s t _ hB => ⟨hNone s t, hB⟩

/-- A wait on a lock that has nothing to hand over. -/
theorem waitFor {p : σ → Bool} {C : σ → τ → Prop} (hNone : ∀ s t, P.Free l s t)
    (hHeld : held l = some .exclusive) (hStable : P.Stable i (Function.update held l none) A)
    (hEnd : P.Stable i held C) (h : ∀ s t, P.Rel s t → A s t → p s = true → C s t) :
    Triple P i held A (.waitFor l p : Prog L σ S ε Unit) fun _ => C := by
  refine ⟨?_, hHeld, A, C, hStable, fun s t _ hA => ⟨hNone s t, hA⟩, h,
    fun s t hRel hA hp _ => h s t hRel hA hp, hEnd, rfl, fun _ _ _ hC => hC⟩
  have hLock := hStable.lock (m := .exclusive) (Function.update_self l none held)
  rwa [Function.update_idem, ← hHeld, Function.update_eq_self] at hLock

theorem ite {c : Prop} [Decidable c] (hThen : c → Triple P i held A x B)
    (hElse : ¬c → Triple P i held A y B) : Triple P i held A (if c then x else y) B := by
  split
  · exact hThen ‹_›
  · exact hElse ‹_›

end Triple

/-! ### Pools -/

namespace Pool

variable {P : Simulation L σ τ} {pool pool' : Pool L σ S ε} {t t' : τ} {i : Nat} {s' : σ}
  {th th' : Thread L σ S ε} {End : Nat → σ → τ → Prop}

/-- The abstract system is in a state that matches all threads. A thread that
comes to its end leaves `End`. -/
structure Simulated (P : Simulation L σ τ) (End : Nat → σ → τ → Prop) (pool : Pool L σ S ε)
    (t : τ) : Prop where
  rel : P.Rel pool.state t
  apart : ∀ (i j : Nat) (th th' : Thread L σ S ε), i ≠ j → pool.threads[i]? = some th →
    pool.threads[j]? = some th' → th.held.Beside th'.held
  free : ∀ l, (∀ th ∈ pool.threads, th.held l = none) → P.Free l pool.state t
  thread : ∀ (i : Nat) (th : Thread L σ S ε), pool.threads[i]? = some th →
    ∃ A, A pool.state t ∧
      Simulates P i (fun _ _ B => ∀ s t, P.Rel s t → B s t → End i s t) th.held A th.code

omit [DecidableEq L] in
theorem getElem?_resume (pool : Pool L σ S ε) (hi : pool.threads[i]? = some th) (j : Nat) :
    (pool.resume i s' th').threads[j]? = if i = j then some th' else pool.threads[j]? := by
  have hLt : i < pool.threads.length := (List.getElem?_eq_some_iff.mp hi).1
  simp only [resume, List.getElem?_set]
  split
  · rfl
  · rfl

namespace Simulated

/-- One thread moves on, and the abstract system follows. -/
theorem resume (h : pool.Simulated P End t) (hi : pool.threads[i]? = some th)
    (hRel : P.Rel s' t') (hGuar : P.Guar i th.held pool.state t s' t')
    (hApart : ∀ j other, j ≠ i → pool.threads[j]? = some other → th'.held.Beside other.held)
    (hFree : ∀ l, th.held l ≠ none → th'.held l = none → P.Free l s' t')
    (hRest : ∃ A, A s' t' ∧
      Simulates P i (fun _ _ B => ∀ s t, P.Rel s t → B s t → End i s t) th'.held A th'.code) :
    (pool.resume i s' th').Simulated P End t' := by
  constructor
  case rel => exact hRel
  case apart =>
    intro j k one two hjk hj hk
    rw [getElem?_resume pool hi] at hj hk
    split at hj
    · obtain rfl := Option.some.inj hj
      rw [if_neg (fun hik => hjk (by omega))] at hk
      exact hApart k two (by omega) hk
    · split at hk
      · obtain rfl := Option.some.inj hk
        exact (hApart j one (by omega) hj).symm
      · exact h.apart j k one two hjk hj hk
  case free =>
    intro l hAll
    have hNew : th'.held l = none :=
      hAll th' (List.mem_of_getElem? (by rw [getElem?_resume pool hi, if_pos rfl]))
    by_cases hOld : th.held l = none
    · refine P.free_stable hOld hGuar (h.free l fun other hOther => ?_)
      obtain ⟨j, hj⟩ := List.getElem?_of_mem hOther
      by_cases hji : i = j
      · subst hji
        rw [hi] at hj
        rw [← Option.some.inj hj, hOld]
      · exact hAll other (List.mem_of_getElem? (by rw [getElem?_resume pool hi, if_neg hji]; exact hj))
    · exact hFree l hOld hNew
  case thread =>
    intro j other hj
    rw [getElem?_resume pool hi] at hj
    split at hj
    · rename_i hij
      obtain rfl := Option.some.inj hj
      rw [← hij]
      exact hRest
    · rename_i hij
      obtain ⟨A, hA, hCode⟩ := h.thread j other hj
      have hBeside := h.apart j i other th (Ne.symm hij) hj hi
      exact ⟨A, hCode.stable i th.held _ _ _ _ hij hBeside hGuar hA, hCode⟩

/-- Whoever takes a free lock stays apart from the others. -/
theorem beside_of_free {l : L} {m : Mode} (h : pool.Simulated P End t) (hi : pool.threads[i]? = some th)
    (hFree : pool.free l m = true) {j : Nat} {other : Thread L σ S ε} (hj : j ≠ i)
    (hOther : pool.threads[j]? = some other) :
    Held.Beside (Function.update th.held l (some m)) other.held := by
  intro l' m₁ m₂ h₁ h₂
  by_cases hl : l' = l
  · subst hl
    rw [Function.update_self] at h₁
    obtain rfl := Option.some.inj h₁
    have hAll := List.all_eq_true.mp hFree other (List.mem_of_getElem? hOther)
    rw [h₂] at hAll
    exact hAll
  · rw [Function.update_of_ne hl] at h₁
    exact h.apart i j th other hj.symm hi hOther l' m₁ m₂ h₁ h₂

omit [DecidableEq L] in
theorem held_of_free {l : L} (hFree : pool.free l .exclusive = true) :
    ∀ th ∈ pool.threads, th.held l = none := by
  intro th hth
  have hAll := List.all_eq_true.mp hFree th hth
  cases hHeld : th.held l with
  | none => rfl
  | some m =>
      rw [hHeld] at hAll
      cases m <;> cases hAll

theorem beside_of_release {l : L} (h : pool.Simulated P End t) (hi : pool.threads[i]? = some th)
    {j : Nat} {other : Thread L σ S ε} (hj : j ≠ i) (hOther : pool.threads[j]? = some other) :
    Held.Beside (Function.update th.held l none) other.held := by
  intro l' m₁ m₂ h₁ h₂
  refine h.apart i j th other hj.symm hi hOther l' m₁ m₂ ?_ h₂
  by_cases hl : l' = l
  · rw [hl, Function.update_self] at h₁
    cases h₁
  · rwa [Function.update_of_ne hl] at h₁

/-- Locks of a thread after one of them changed. -/
theorem eq_of_released {held : Held L} {l l' : L} {m : Option Mode} (hOld : held l' ≠ none)
    (hNew : Function.update held l m l' = none) : l' = l := by
  by_contra hl
  rw [Function.update_of_ne hl] at hNew
  exact hOld hNew

/-- A step of a thread is matched. -/
theorem step {done : List Unit} (h : pool.Simulated P End t) (hStep : pool.step i = .ok (pool', done)) :
    ∃ t', P.Steps t t' ∧ pool'.Simulated P End t' := by
  unfold Pool.step at hStep
  cases hi : pool.threads[i]? with
  | none =>
      rw [hi] at hStep
      cases hStep
  | some th =>
      rw [hi] at hStep
      obtain ⟨next, hNext, hEnd⟩ := Execution.bind_eq_ok.mp hStep
      obtain ⟨rfl, -⟩ := Prod.mk.inj (Execution.pure_eq_ok.mp hEnd)
      obtain ⟨A, hA, hCode⟩ := h.thread i th hi
      have hApart := fun j other (hj : j ≠ i) hOther => h.apart i j th other hj.symm hi hOther
      obtain ⟨held, code⟩ := th
      cases code with
      | ret a => cases hNext
      | act site f k =>
          obtain ⟨-, B, hAct, hRest⟩ := hCode
          simp only [stepThread] at hNext
          split at hNext
          · rename_i b s' hf
            obtain rfl := Except.ok.inj hNext
            obtain ⟨t', hSteps, hRel, hGuar, hB⟩ := hAct _ _ _ _ h.rel hA hf
            exact ⟨t', hSteps, h.resume hi hRel hGuar hApart (fun l hOld hNew => absurd hNew hOld)
              ⟨B b, hB, hRest b⟩⟩
          · cases hNext
      | acquire l m p k =>
          obtain ⟨-, hNone, B, hTake, hRest⟩ := hCode
          simp only [stepThread] at hNext
          split at hNext
          · rename_i hGo
            obtain ⟨hFree, hp⟩ := Bool.and_eq_true_iff.mp hGo
            obtain rfl := Except.ok.inj hNext
            have hB : B pool.state t := by
              refine hTake _ _ h.rel hA hp fun hm => ?_
              subst hm
              exact h.free l (held_of_free hFree)
            refine ⟨t, .refl, h.resume hi h.rel (P.guar_refl i held _ _)
              (fun j other hj hOther => h.beside_of_free hi hFree hj hOther)
              (fun l' hOld hNew => ?_) ⟨B, hB, hRest⟩⟩
            obtain rfl := eq_of_released hOld hNew
            exact absurd hNone hOld
          · cases hNext
      | release l k =>
          obtain ⟨-, B, hGive, hRest⟩ := hCode
          obtain rfl := Except.ok.inj hNext
          obtain ⟨hFree, hB⟩ := hGive _ _ h.rel hA
          refine ⟨t, .refl, h.resume hi h.rel (P.guar_refl i held _ _)
            (fun j other hj hOther => h.beside_of_release hi hj hOther)
            (fun l' hOld hNew => ?_) ⟨B, hB, hRest⟩⟩
          obtain rfl := eq_of_released hOld hNew
          exact hFree
      | wait l p k =>
          obtain ⟨-, hHeld, W, B, hW, hSleep, hGo, hWake, hRest⟩ := hCode
          simp only [stepThread] at hNext
          split at hNext
          · rename_i hp
            obtain rfl := Except.ok.inj hNext
            exact ⟨t, .refl, h.resume hi h.rel (P.guar_refl i held _ _) hApart
              (fun l hOld hNew => absurd hNew hOld) ⟨B, hGo _ _ h.rel hA hp, hRest⟩⟩
          · obtain rfl := Except.ok.inj hNext
            obtain ⟨hFree, hWait⟩ := hSleep _ _ h.rel hA
            refine ⟨t, .refl, h.resume hi h.rel (P.guar_refl i held _ _)
              (fun j other hj hOther => h.beside_of_release hi hj hOther)
              (fun l' hOld hNew => ?_) ⟨W, hWait, hW, Function.update_self l none held, B,
                fun s t hRel hWait hp hFree => hWake s t hRel hWait hp (hFree rfl), ?_⟩⟩
            · obtain rfl := eq_of_released hOld hNew
              exact hFree
            · rw [Function.update_idem, ← hHeld, Function.update_eq_self]
              exact hRest

theorem ended {held : Held L} (h : pool.Simulated P End t)
    (hi : pool.threads[i]? = some ⟨held, .ret ()⟩) : End i pool.state t := by
  obtain ⟨A, hA, -, hEnd⟩ := h.thread i _ hi
  exact hEnd _ _ h.rel hA

/-- A run is matched. -/
theorem run {order : List Nat} {done : List Unit} (h : pool.Simulated P End t)
    (hRun : pool.run order = .ok (pool', done)) :
    ∃ t', P.Steps t t' ∧ pool'.Simulated P End t' := by
  refine Runs.run_invariant (P := fun pool => ∃ t', P.Steps t t' ∧ pool.Simulated P End t') ?_ hRun
    (Runs.along_true pool order) ⟨t, .refl, h⟩
  rintro pool i pool' done ⟨t₁, hSteps, hSim⟩ - hStep
  obtain ⟨t₂, hMore, hSim'⟩ := hSim.step hStep
  exact ⟨t₂, hSteps.trans hMore, hSim'⟩

end Simulated

end Pool

end Locks
