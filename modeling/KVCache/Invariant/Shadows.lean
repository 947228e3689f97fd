import KVCache.Data.Simulations
import KVCache.Invariant.Following

/-! The interleaving of whole steps beside the threads with their mutexes: what
ties the two together, what an action of one thread leaves to the others, and
which step of the interleaving each action is. -/

namespace KVCache

open Locks

/-! ### The calls of the clients -/

/-- What a call does to the index: an update, or nothing when it only looks, when
no class has slots of its size, or when the cache shuts down. -/
inductive Call.Outcome (cfg : Config) (down : Bool) : Call → List Event → Prop
  | put (key : Key) (value : Value) : Outcome cfg down (.put key value) [.put key value]
  | tooLarge (key : Key) (value : Value) (h : getSlabClass cfg (slotSize key value) = none) :
      Outcome cfg down (.put key value) []
  | shutdown (key : Key) (value : Value) (h : down = true) : Outcome cfg down (.put key value) []
  | get (key : Key) : Outcome cfg down (.get key) []
  | delete (key : Key) : Outcome cfg down (.delete key) [.delete key]

/-- What calls do one after the other. -/
def Performed (cfg : Config) (down : Bool) (calls : List Call) (events : List Event) : Prop :=
  ∃ outcomes, List.Forall₂ (Call.Outcome cfg down) calls outcomes ∧ events = outcomes.flatten

/-- The updates of one client, the oldest first. -/
def updatesOf (i : Nat) (log : List (Nat × Event)) : List Event :=
  ((log.filter fun e => e.1 = i).map Prod.snd).reverse

section Clients

variable {cfg : Config} {down down' : Bool} {clients : List (List Call)} {i j : Nat} {call : Call}
  {calls rest : List Call} {events : List Event} {e : Event} {log log' : List (Nat × Event)}

theorem Call.Outcome.mono (h : Call.Outcome cfg down call events)
    (hDown : down = true → down' = true) : Call.Outcome cfg down' call events := by
  cases h with
  | put key value => exact .put key value
  | tooLarge key value hNone => exact .tooLarge key value hNone
  | shutdown key value hShut => exact .shutdown key value (hDown hShut)
  | get key => exact .get key
  | delete key => exact .delete key

theorem Performed.nil : Performed cfg down [] [] := ⟨[], .nil, rfl⟩

theorem Performed.mono (h : Performed cfg down calls events) (hDown : down = true → down' = true) :
    Performed cfg down' calls events := by
  obtain ⟨outcomes, hOutcomes, rfl⟩ := h
  exact ⟨outcomes, hOutcomes.imp fun _ _ hOutcome => hOutcome.mono hDown, rfl⟩

theorem Performed.append {events' : List Event} (h : Performed cfg down calls events)
    (hOutcome : Call.Outcome cfg down call events') :
    Performed cfg down (calls ++ [call]) (events ++ events') := by
  obtain ⟨outcomes, hOutcomes, rfl⟩ := h
  exact ⟨outcomes ++ [events'], List.rel_append hOutcomes (.cons hOutcome .nil), by simp⟩

theorem updatesOf_cons_self : updatesOf i ((i, e) :: log) = updatesOf i log ++ [e] := by
  simp [updatesOf]

theorem updatesOf_cons_ne (hij : i ≠ j) : updatesOf j ((i, e) :: log) = updatesOf j log := by
  simp [updatesOf, hij]

/-- A client has these calls left; the others are in the log. -/
def Left (cfg : Config) (clients : List (List Call)) (i : Nat) (rest : List Call) (down : Bool)
    (log : List (Nat × Event)) : Prop :=
  ∃ made, clients[i]? = some (made ++ rest) ∧ Performed cfg down made (updatesOf i log)

/-- The log has updates of clients only, and of each those of its first calls. -/
structure Logged (cfg : Config) (clients : List (List Call)) (down : Bool)
    (log : List (Nat × Event)) : Prop where
  client : ∀ e ∈ log, e.1 < clients.length
  left : ∀ i calls, clients[i]? = some calls → ∃ rest, Left cfg clients i rest down log

theorem Left.of_same (h : Left cfg clients i rest down log) (hDown : down = true → down' = true)
    (hLog : updatesOf i log' = updatesOf i log) : Left cfg clients i rest down' log' := by
  obtain ⟨made, hCalls, hMade⟩ := h
  refine ⟨made, hCalls, ?_⟩
  rw [hLog]
  exact hMade.mono hDown

/-- A call that leaves the index alone. -/
theorem Left.pass (h : Left cfg clients i (call :: rest) down log)
    (hOutcome : Call.Outcome cfg down call []) : Left cfg clients i rest down log := by
  obtain ⟨made, hCalls, hMade⟩ := h
  refine ⟨made ++ [call], by rw [hCalls]; simp, ?_⟩
  have hMore := hMade.append hOutcome
  rwa [List.append_nil] at hMore

/-- A call that updates the index. -/
theorem Left.cons (h : Left cfg clients i (call :: rest) down log)
    (hOutcome : Call.Outcome cfg down call [e]) : Left cfg clients i rest down ((i, e) :: log) := by
  obtain ⟨made, hCalls, hMade⟩ := h
  refine ⟨made ++ [call], by rw [hCalls]; simp, ?_⟩
  rw [updatesOf_cons_self]
  exact hMade.append hOutcome

theorem Logged.mono (h : Logged cfg clients down log) (hDown : down = true → down' = true) :
    Logged cfg clients down' log :=
  ⟨h.client, fun i calls hi => (h.left i calls hi).imp fun _ hLeft => hLeft.of_same hDown rfl⟩

theorem Logged.cons (h : Logged cfg clients down log)
    (hLeft : Left cfg clients i rest down ((i, e) :: log)) :
    Logged cfg clients down ((i, e) :: log) where
  client := by
    obtain ⟨made, hCalls, -⟩ := hLeft
    intro e' he'
    rcases List.mem_cons.mp he' with rfl | he'
    · exact (List.getElem?_eq_some_iff.mp hCalls).1
    · exact h.client e' he'
  left := fun j calls hj => by
    by_cases hij : i = j
    · subst hij
      exact ⟨rest, hLeft⟩
    · obtain ⟨rest', hOther⟩ := h.left j calls hj
      exact ⟨rest', hOther.of_same id (updatesOf_cons_ne hij)⟩

end Clients

/-! ### The interleaving -/

/-- The interleaving beside the threads, with the slot that is being written and
the updates so far, the latest first. -/
structure Shadow where
  threads : Threads
  draft : Option Draft
  log : List (Nat × Event)

namespace Shadow

variable {u : Setup} {clients : List (List Call)} {i : Nat} {held : Held Mutex} {s s' s'' : Shared} {t t' t'' : Shadow}
  {A B : Shared → Shadow → Prop} {c c' : Cache}

/-- The interleaving keeps its invariant and is in step with the cache. -/
structure Rel (u : Setup) (clients : List (List Call)) (s : Shared) (t : Shadow) : Prop where
  inv : ∃ g, ThreadsInv u.cfg t.threads g
  relates : Relates u.build u.cfg t.draft s.cache t.threads
  logged : Logged u.cfg clients s.shutdown t.log

/-- Thread `n` is the flush and the next one the collector; who has the writer's
lock is the writer. An action leaves the others at their places and their calls. -/
structure Guar (n i : Nat) (held : Held Mutex) (s : Shared) (t : Shadow) (s' : Shared)
    (t' : Shadow) : Prop where
  flush : i ≠ n → t'.threads.flush = t.threads.flush
  gc : i ≠ n + 1 → t'.threads.gc = t.threads.gc ∧ s.cache.nrFullDslab ≤ s'.cache.nrFullDslab
  writer : held .writer ≠ some .exclusive → t'.threads.writer = t.threads.writer ∧
    t'.draft = t.draft ∧ Undisturbed t.threads.writer s.cache s'.cache
  shutdown : s.shutdown = true → s'.shutdown = true
  log : ∀ j, j ≠ i → updatesOf j t'.log = updatesOf j t.log

theorem Guar.refl (n i : Nat) (held : Held Mutex) (s : Shared) (t : Shadow) :
    Guar n i held s t s t :=
  ⟨fun _ => rfl, fun _ => ⟨rfl, Int.le_refl _⟩, fun _ => ⟨rfl, rfl, .refl _ _⟩, id,
    fun _ _ => rfl⟩

theorem Guar.trans (h : Guar n i held s t s' t') (h' : Guar n i held s' t' s'' t'') :
    Guar n i held s t s'' t'' where
  flush := fun hi => (h'.flush hi).trans (h.flush hi)
  gc := fun hi => ⟨(h'.gc hi).1.trans (h.gc hi).1, (h.gc hi).2.trans (h'.gc hi).2⟩
  writer := fun hHeld => by
    obtain ⟨hWriter, hDraft, hCache⟩ := h.writer hHeld
    obtain ⟨hWriter', hDraft', hCache'⟩ := h'.writer hHeld
    rw [hWriter] at hCache'
    exact ⟨hWriter'.trans hWriter, hDraft'.trans hDraft, hCache'.lists.trans hCache.lists,
      fun sid hAt => (hCache'.full sid hAt).trans (hCache.full sid hAt)⟩
  shutdown := fun hDown => h'.shutdown (h.shutdown hDown)
  log := fun j hj => (h'.log j hj).trans (h.log j hj)

/-- A step of the interleaving, or only a choice of the next draft. -/
def Step (u : Setup) (t t' : Shadow) : Prop :=
  t'.threads = t.threads ∧ t'.log = t.log ∨
    ∃ act done, t.threads.step u.build u.cfg act = .ok (t'.threads, done) ∧
      t'.log.map Prod.snd = done ++ t.log.map Prod.snd

/-- The threads beside the interleaving. While nobody has the writer's lock, there
is no writer. -/
def simulation (u : Setup) (clients : List (List Call)) : Simulation Mutex Shared Shadow where
  Step := Step u
  Rel := Rel u clients
  Guar := Guar clients.length
  Free l _ t := l = .writer → t.draft = none ∧ t.threads.writer = .idle
  guar_refl := Guar.refl clients.length
  free_stable := by
    intro i held l s t s' t' hNone hGuar hFree hl
    obtain ⟨hWriter, hDraft, -⟩ := hGuar.writer (by rw [← hl, hNone]; simp)
    rw [hDraft, hWriter]
    exact hFree hl

theorem free_of_ne {l : Mutex} (hl : l ≠ .writer) (s : Shared) (t : Shadow) :
    (simulation u clients).Free l s t := fun hEq => absurd hEq hl

/-- Steps of the interleaving add up to a schedule. -/
theorem run_of_steps (h : (simulation u clients).Steps t t') :
    ∃ acts events, t.threads.run u.build u.cfg acts = .ok (t'.threads, events) ∧
      t'.log.map Prod.snd = events ++ t.log.map Prod.snd := by
  induction h with
  | refl => exact ⟨[], [], rfl, rfl⟩
  | tail _ hStep ih =>
      obtain ⟨acts, events, hRun, hLog⟩ := ih
      rcases hStep with ⟨hSame, hSameLog⟩ | ⟨act, done, hStep, hMore⟩
      · rw [hSame, hSameLog]
        exact ⟨acts, events, hRun, hLog⟩
      · refine ⟨acts ++ [act], _, Runs.run_append hRun (Runs.run_single.mpr hStep), ?_⟩
        rw [hMore, hLog, List.append_assoc]

/-! ### Assertions -/

/-- What concerns the writer alone, for the thread with its lock. -/
theorem stable_writer (hHeld : held .writer = some .exclusive)
    (h : ∀ s t s' t', t'.threads.writer = t.threads.writer → t'.draft = t.draft →
      Undisturbed t.threads.writer s.cache s'.cache → (s.shutdown = true → s'.shutdown = true) →
      updatesOf i t'.log = updatesOf i t.log → A s t → A s' t') :
    (simulation u clients).Stable i held A := by
  intro j held' s t s' t' hj hBeside hGuar hA
  have hOther : held' .writer ≠ some .exclusive := fun hBoth => by
    cases hBeside _ _ _ hHeld hBoth
  obtain ⟨hWriter, hDraft, hCache⟩ := hGuar.writer hOther
  exact h s t s' t' hWriter hDraft hCache hGuar.shutdown (hGuar.log i hj.symm) hA

/-- What concerns the place of the flush thread. -/
theorem stable_flush (h : ∀ s t s' t', t'.threads.flush = t.threads.flush → A s t → A s' t') :
    (simulation u clients).Stable clients.length held A :=
  fun _ _ s t s' t' hj _ hGuar hA => h s t s' t' (hGuar.flush hj) hA

/-- What concerns the place of the collector. -/
theorem stable_gc (h : ∀ s t s' t', t'.threads.gc = t.threads.gc →
      s.cache.nrFullDslab ≤ s'.cache.nrFullDslab → (s.shutdown = true → s'.shutdown = true) →
      A s t → A s' t') : (simulation u clients).Stable (clients.length + 1) held A :=
  fun _ _ s t s' t' hj _ hGuar hA =>
    h s t s' t' (hGuar.gc hj).1 (hGuar.gc hj).2 hGuar.shutdown hA

/-- A client has these calls left. -/
def Rests (u : Setup) (clients : List (List Call)) (i : Nat) (calls : List Call) (s : Shared)
    (t : Shadow) : Prop :=
  Left u.cfg clients i calls s.shutdown t.log

theorem stable_rests {calls : List Call} :
    (simulation u clients).Stable i held (Rests u clients i calls) :=
  fun _ _ _ _ _ _ hj _ hGuar h => h.of_same hGuar.shutdown (hGuar.log i hj.symm)

/-- The writer is at a place, with a draft or none, and has these calls left. -/
structure WriterIs (u : Setup) (clients : List (List Call)) (i : Nat) (calls : List Call)
    (draft : Option Draft) (a : WriterAt) (s : Shared) (t : Shadow) : Prop where
  draft : t.draft = draft
  writer : t.threads.writer = a
  rests : Rests u clients i calls s t

theorem WriterIs.of_same {calls : List Call} {draft : Option Draft} {a : WriterAt}
    (h : WriterIs u clients i calls draft a s t) (hWriter : t'.threads.writer = t.threads.writer)
    (hDraft : t'.draft = t.draft) (hDown : s.shutdown = true → s'.shutdown = true)
    (hLog : updatesOf i t'.log = updatesOf i t.log) : WriterIs u clients i calls draft a s' t' :=
  ⟨hDraft.trans h.draft, hWriter.trans h.writer, h.rests.of_same hDown hLog⟩

theorem stable_writerIs {calls : List Call} {draft : Option Draft} {a : WriterAt}
    (hHeld : held .writer = some .exclusive) :
    (simulation u clients).Stable i held (WriterIs u clients i calls draft a) :=
  stable_writer hHeld fun _ _ _ _ hWriter hDraft _ hDown hLog h =>
    h.of_same hWriter hDraft hDown hLog

def FlushIs (a : FlushAt) (_ : Shared) (t : Shadow) : Prop := t.threads.flush = a

theorem stable_flushIs {a : FlushAt} : (simulation u clients).Stable clients.length held (FlushIs a) :=
  stable_flush fun _ _ _ _ hFlush h => hFlush.trans h

def GcIs (a : GcAt) (_ : Shared) (t : Shadow) : Prop := t.threads.gc = a

theorem stable_gcIs {a : GcAt} : (simulation u clients).Stable (clients.length + 1) held (GcIs a) :=
  stable_gc fun _ _ _ _ hGc _ _ h => hGc.trans h

/-! ### Steps -/

theorem Rel.nrFullDslab (h : Rel u clients s t) : t.threads.cache.nrFullDslab = s.cache.nrFullDslab := by
  have hRelates := h.relates
  cases hDraft : t.draft with
  | none =>
      rw [hDraft] at hRelates
      rw [hRelates]
  | some dr =>
      rw [hDraft] at hRelates
      rw [hRelates.2.eq]
      rfl

theorem flushStep_nrFull {build : Build} {cfg : Config} {a a' : FlushAt}
    (h : FlushStep build cfg c a c' a') : c.nrFullDslab ≤ c'.nrFullDslab := by
  cases h with
  | find hTake =>
      obtain ⟨_, _, _, rfl⟩ := takeFreeFrom_changes hTake
      exact Int.le_refl _
  | miss hTake =>
      obtain ⟨_, _, _, rfl⟩ := takeFreeFrom_changes hTake
      exact Int.le_refl _
  | move =>
      obtain ⟨_, _, hChanges⟩ := modifyIndexTo_changes cfg c _ _
      rw [hChanges]
  | link => exact Int.le_of_lt (Int.lt_succ _)
  | _ => exact Int.le_refl _

theorem delete_nrFull {build : Build} {cfg : Config} {key : Key}
    (hRun : c.delete build cfg key = .ok c') : c'.nrFullDslab = c.nrFullDslab := by
  unfold Cache.delete at hRun
  split at hRun
  · obtain rfl := Except.ok.inj hRun
    rfl
  · cases build with
    | release =>
        obtain rfl := Except.ok.inj hRun
        rfl
    | debug =>
        simp only [Execution.bind_eq_ok, Execution.pure_eq_ok] at hRun
        obtain ⟨_, _, rfl⟩ := hRun
        rfl

/-- What is to be shown of an action that leaves a cache. -/
def Matches (u : Setup) (clients : List (List Call)) (i : Nat) (held : Held Mutex) (s : Shared) (t : Shadow) (c : Cache)
    (B : Shared → Shadow → Prop) : Prop :=
  ∃ t', (simulation u clients).Steps t t' ∧ Rel u clients { s with cache := c } t' ∧
    Guar clients.length i held s t { s with cache := c } t' ∧ B { s with cache := c } t'

theorem Rel.flush {a : FlushAt} (h : Rel u clients s t)
    (hRun : Threads.stepFlush u.build u.cfg s.cache t.threads.flush = .ok (c', a)) :
    Matches u clients clients.length held s t c' (FlushIs a) := by
  obtain ⟨g, hInv⟩ := h.inv
  obtain ⟨d, hStep, hRelates, hCache⟩ := hInv.follow_flush h.relates hRun
  have hAct : t.threads.step u.build u.cfg .flush =
      .ok ({ t.threads with cache := d, flush := a }, []) := by
    simp only [Threads.step, hStep]
    rfl
  obtain ⟨g', hNext⟩ := hInv.step hAct
  refine ⟨⟨{ t.threads with cache := d, flush := a }, t.draft, t.log⟩,
    .single (.inr ⟨_, _, hAct, rfl⟩), ⟨⟨g', hNext.inv⟩, hRelates, h.logged⟩,
    ⟨fun hn => absurd rfl hn, fun _ => ⟨rfl, ?_⟩, fun _ => ⟨rfl, rfl, hCache⟩, id,
      fun _ _ => rfl⟩, rfl⟩
  exact flushStep_nrFull (stepFlush_inv hRun)

theorem Rel.gc {pick : List Nat} {fuel : Nat} {a : GcAt} (h : Rel u clients s t)
    (hRun : Threads.stepGc u.build u.cfg pick fuel s.cache t.threads.gc = .ok (c', a)) :
    Matches u clients (clients.length + 1) held s t c' (GcIs a) := by
  obtain ⟨g, hInv⟩ := h.inv
  obtain ⟨d, hStep, hRelates, hCache⟩ := hInv.follow_gc h.relates hRun
  have hAct : t.threads.step u.build u.cfg (.gc pick fuel) =
      .ok ({ t.threads with cache := d, gc := a }, []) := by
    simp only [Threads.step, hStep]
    rfl
  obtain ⟨g', hNext⟩ := hInv.step hAct
  exact ⟨⟨{ t.threads with cache := d, gc := a }, t.draft, t.log⟩,
    .single (.inr ⟨_, _, hAct, rfl⟩), ⟨⟨g', hNext.inv⟩, hRelates, h.logged⟩,
    ⟨fun _ => rfl, fun hn => absurd rfl hn, fun _ => ⟨rfl, rfl, hCache⟩, id, fun _ _ => rfl⟩, rfl⟩

theorem Rel.delete {key : Key} {calls : List Call} (h : Rel u clients s t)
    (hRests : Rests u clients i (.delete key :: calls) s t)
    (hRun : s.cache.delete u.build u.cfg key = .ok c') :
    Matches u clients i held s t c' (Rests u clients i calls) := by
  obtain ⟨g, hInv⟩ := h.inv
  obtain ⟨d, hStep, hRelates, hCache⟩ := hInv.follow_delete h.relates hRun
  have hAct : t.threads.step u.build u.cfg (.delete key) =
      .ok ({ t.threads with cache := d }, [.delete key]) := by
    simp only [Threads.step, hStep]
    rfl
  obtain ⟨g', hNext⟩ := hInv.step hAct
  have hLeft := Left.cons hRests (.delete key)
  exact ⟨⟨{ t.threads with cache := d }, t.draft, (i, .delete key) :: t.log⟩,
    .single (.inr ⟨_, _, hAct, rfl⟩), ⟨⟨g', hNext.inv⟩, hRelates, h.logged.cons hLeft⟩,
    ⟨fun _ => rfl, fun _ => ⟨rfl, (delete_nrFull hRun).ge⟩, fun _ => ⟨rfl, rfl, hCache⟩, id,
      fun _ hj => updatesOf_cons_ne hj.symm⟩, hLeft⟩

/-- The writer moves on; the others stay where they are. -/
theorem Rel.writer {act : Act} {d : Cache} {a b : WriterAt} {draft : Option Draft}
    {calls : List Call} (draft' : Option Draft) (h : Rel u clients s t) (hHeld : held .writer = some .exclusive)
    (hAt : WriterIs u clients i calls draft b s t)
    (hAct : t.threads.step u.build u.cfg act =
      .ok ({ t.threads with cache := d, writer := a }, []))
    (hRelates : Relates u.build u.cfg draft' c' { t.threads with cache := d, writer := a })
    (hFull : c'.nrFullDslab = s.cache.nrFullDslab) :
    Matches u clients i held s t c' (WriterIs u clients i calls draft' a) := by
  obtain ⟨g, hInv⟩ := h.inv
  obtain ⟨g', hNext⟩ := hInv.step hAct
  exact ⟨⟨{ t.threads with cache := d, writer := a }, draft', t.log⟩,
    .single (.inr ⟨_, _, hAct, rfl⟩), ⟨⟨g', hNext.inv⟩, hRelates, h.logged⟩,
    ⟨fun _ => rfl, fun _ => ⟨rfl, hFull.ge⟩, fun hNot => absurd hHeld hNot, id, fun _ _ => rfl⟩,
    ⟨rfl, rfl, hAt.rests⟩⟩

/-- The writer gives the index entry of its key to the slot that it has written. -/
theorem Rel.commit {act : Act} {p : PendingPut} {b : WriterAt} {calls : List Call}
    (h : Rel u clients s t) (hHeld : held .writer = some .exclusive)
    (hAt : WriterIs u clients i (.put p.key p.value :: calls) none b s t)
    (hAct : t.threads.step u.build u.cfg act =
      .ok ({ t.threads with cache := c', writer := .indexed p.sid }, [.put p.key p.value]))
    (hFull : c'.nrFullDslab = s.cache.nrFullDslab) :
    Matches u clients i held s t c' (WriterIs u clients i calls none (.indexed p.sid)) := by
  obtain ⟨g, hInv⟩ := h.inv
  obtain ⟨g', hNext⟩ := hInv.step hAct
  have hLeft := Left.cons hAt.rests (.put p.key p.value)
  exact ⟨⟨{ t.threads with cache := c', writer := .indexed p.sid }, none,
      (i, .put p.key p.value) :: t.log⟩,
    .single (.inr ⟨_, _, hAct, rfl⟩), ⟨⟨g', hNext.inv⟩, rfl, h.logged.cons hLeft⟩,
    ⟨fun _ => rfl, fun _ => ⟨rfl, hFull.ge⟩, fun hNot => absurd hHeld hNot, id,
      fun _ hj => updatesOf_cons_ne hj.symm⟩, ⟨rfl, rfl, hLeft⟩⟩

/-- The writer does a part of its slot, which the interleaving has done before. -/
theorem Rel.draft {draft : Option Draft} {a : WriterAt} {calls : List Call}
    (draft' : Option Draft) (h : Rel u clients s t) (hHeld : held .writer = some .exclusive)
    (hAt : WriterIs u clients i calls draft a s t)
    (hRelates : Relates u.build u.cfg draft' c' t.threads)
    (hFull : c'.nrFullDslab = s.cache.nrFullDslab) :
    Matches u clients i held s t c' (WriterIs u clients i calls draft' a) :=
  ⟨⟨t.threads, draft', t.log⟩, .single (.inl ⟨rfl, rfl⟩), ⟨h.inv, hRelates, h.logged⟩,
    ⟨fun _ => rfl, fun _ => ⟨rfl, hFull.ge⟩, fun hNot => absurd hHeld hNot, id, fun _ _ => rfl⟩,
    ⟨rfl, hAt.writer, hAt.rests⟩⟩

/-! ### Actions -/

variable {α : Type}

theorem triple_onCache {f : Cache → Except Stop (α × Cache)} {B : α → Shared → Shadow → Prop}
    (hStable : (simulation u clients).Stable i held A)
    (hEnd : ∀ a, (simulation u clients).Stable i held (B a))
    (h : ∀ s t a c', Rel u clients s t → A s t → f s.cache = .ok (a, c') →
      Matches u clients i held s t c' (B a)) :
    Triple (simulation u clients) i held A (Routine.onCache f) B := by
  refine Triple.act hStable hEnd fun s t a s' hRel hA hf => ?_
  obtain ⟨⟨a', c'⟩, hRun, hEnd⟩ := Execution.bind_eq_ok.mp hf
  obtain ⟨rfl, rfl⟩ := Prod.mk.inj (Execution.pure_eq_ok.mp hEnd)
  exact h s t a' c' hRel hA hRun

theorem triple_update {f : Cache → Cache} (hStable : (simulation u clients).Stable i held A)
    (hEnd : (simulation u clients).Stable i held B)
    (h : ∀ s t, Rel u clients s t → A s t → Matches u clients i held s t (f s.cache) B) :
    Triple (simulation u clients) i held A (Routine.update f) fun _ => B :=
  triple_onCache hStable (fun _ => hEnd) fun s t a c' hRel hA hf => by
    obtain ⟨-, rfl⟩ := Prod.mk.inj (Except.ok.inj hf)
    exact h s t hRel hA

theorem triple_see {f : Shared → α} {B : α → Shared → Shadow → Prop}
    (hStable : (simulation u clients).Stable i held A)
    (hEnd : ∀ a, (simulation u clients).Stable i held (B a))
    (h : ∀ s t, Rel u clients s t → A s t → B (f s) s t) :
    Triple (simulation u clients) i held A (Routine.see f) B := by
  refine Triple.look hStable hEnd (fun s a s' hf => ?_) fun s t a hRel hA hf => ?_
  · exact (Prod.mk.inj (Except.ok.inj hf)).2.symm
  · obtain ⟨rfl, -⟩ := Prod.mk.inj (Except.ok.inj hf)
    exact h s t hRel hA

theorem triple_stuck {B : α → Shared → Shadow → Prop} (hStable : (simulation u clients).Stable i held A)
    (hEnd : ∀ a, (simulation u clients).Stable i held (B a)) :
    Triple (simulation u clients) i held A Routine.stuck B :=
  Triple.act hStable hEnd fun _ _ _ _ _ _ hf => by cases hf

end Shadow

end KVCache
