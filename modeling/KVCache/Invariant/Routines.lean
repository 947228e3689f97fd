import KVCache.Invariant.Shadows

/-! What the routines of the threads do to the interleaving of whole steps, from
their start to their end. Both background threads are on, so that `Put` leaves the
flush and the collection to them. -/

namespace KVCache

open Locks

namespace Shadow

variable {u : Setup} {clients : List (List Call)} {i : Nat} {calls : List Call}
  {held : Held Mutex} {s s' : Shared} {t t' : Shadow}
  {A B : Shared → Shadow → Prop}

/-! ### The flush thread -/

theorem triple_findDslab (hGc : u.enableBackgroundGc = true) (hNone : ∀ l, held l = none)
    (m fuel : Nat) :
    Triple (simulation u clients) clients.length held (FlushIs (.holding m)) (u.findDslab fuel)
      fun found s t => ∀ d channel, found = some (d, channel) → FlushIs (.found m d channel) s t := by
  have hEnd : ∀ found : Option (Nat × Nat), (simulation u clients).Stable clients.length held fun s t =>
      ∀ d channel, found = some (d, channel) → FlushIs (.found m d channel) s t :=
    fun found => stable_flush fun _ _ _ _ hFlush h d channel hEq => hFlush.trans (h d channel hEq)
  induction fuel with
  | zero => exact triple_stuck stable_flushIs hEnd
  | succ fuel ih =>
      refine Triple.bind (B := fun found s t =>
        FlushIs (found.elim (.holding m) fun r => .found m r.1 r.2) s t) ?_ fun found => ?_
      · refine Triple.guard (free_of_ne (by simp)) (hNone _) stable_flushIs (fun _ => stable_flushIs) ?_
        refine triple_onCache stable_flushIs (fun _ => stable_flushIs) fun s t found c' hRel hAt hRun => ?_
        refine hRel.flush ?_
        rw [show t.threads.flush = .holding m from hAt]
        simp only [Threads.stepFlush, hRun]
        cases found <;> rfl
      · cases found with
        | some r =>
            refine Triple.pure stable_flushIs fun s t _ hAt d channel hEq => ?_
            obtain rfl := Option.some.inj hEq
            exact hAt
        | none =>
            have hSlabGc : u.slabGc = pure () := by rw [Setup.slabGc, if_pos hGc]
            have hWait : u.waitSlabGcUntilShutdown = Routine.lock .dslabFree (do
                .waitFor .dslabFree fun s => 0 < s.cache.nrFreeDslab || s.shutdown
                Routine.see fun s => !s.shutdown) := by
              rw [Setup.waitSlabGcUntilShutdown, if_pos hGc]
            refine Triple.bind (B := fun _ => FlushIs (.holding m)) ?_ fun _ => ?_
            · rw [hSlabGc]
              exact Triple.pure stable_flushIs fun _ _ _ h => h
            · refine Triple.bind (B := fun _ => FlushIs (.holding m)) ?_ fun go => ?_
              · rw [hWait]
                refine Triple.guard (free_of_ne (by simp)) (hNone _) stable_flushIs
                  (fun _ => stable_flushIs) (Triple.bind (B := fun _ => FlushIs (.holding m)) ?_ fun _ => ?_)
                · exact Triple.waitFor (free_of_ne (by simp)) (by simp) stable_flushIs stable_flushIs
                    fun _ _ _ h _ => h
                · exact triple_see stable_flushIs (fun _ => stable_flushIs) fun _ _ _ h => h
              · cases go with
                | true => exact ih
                | false => exact Triple.pure stable_flushIs fun _ _ _ _ d channel hEq => by cases hEq

/-- An action that is a step of the flush thread. -/
theorem triple_flush {a a' : FlushAt} {f : Cache → Cache}
    (hStep : ∀ s t, Rel u clients s t → FlushIs a s t →
      Threads.stepFlush u.build u.cfg s.cache a = .ok (f s.cache, a')) :
    Triple (simulation u clients) clients.length held (FlushIs a) (Routine.update f) fun _ => FlushIs a' :=
  triple_update stable_flushIs stable_flushIs fun s t hRel hAt => by
    refine hRel.flush ?_
    rw [show t.threads.flush = a from hAt]
    exact hStep s t hRel hAt

/-- The assertions between the header and the index hold. -/
theorem Rel.stepFlush_copied {m d channel : Nat} (h : Rel u clients s t)
    (hAt : FlushIs (.copied m d channel) s t) :
    Threads.stepFlush u.build u.cfg s.cache (.copied m d channel) =
      .ok (s.cache.modifyIndexTo u.cfg m d, .moved m d channel) := by
  obtain ⟨g, hInv⟩ := h.inv
  have hOk := hInv.flush
  rw [show t.threads.flush = .copied m d channel from hAt] at hOk
  have hAvoids : Execution.Avoids Stop.Failed
      (Threads.stepFlush u.build u.cfg t.threads.cache (.copied m d channel)) :=
    hOk.avoids_step hInv.inv
  -- the headers are those of the interleaving
  have hSlabs : (s.cache.slabs m).cid = (t.threads.cache.slabs m).cid ∧
      (s.cache.slabs d).cid = (t.threads.cache.slabs d).cid := by
    have hRelates := h.relates
    cases hDraft : t.draft with
    | none =>
        rw [hDraft] at hRelates
        rw [hRelates]
        exact ⟨rfl, rfl⟩
    | some dr =>
        rw [hDraft] at hRelates
        obtain ⟨hm, hd⟩ := hOk.spares (hInv.owner_of_written hRelates.1)
        rw [hRelates.2.eq, slabs_amend hm, slabs_amend hd]
        exact ⟨rfl, rfl⟩
  simp only [Threads.stepFlush, hSlabs.1, hSlabs.2] at hAvoids ⊢
  cases hEq : assertThat u.build .flushCidEq
      ((t.threads.cache.slabs d).cid = (t.threads.cache.slabs m).cid) with
  | error e =>
      refine absurd (assertThat_failed hEq) (hAvoids e ?_)
      rw [hEq]
      rfl
  | ok _ =>
      cases hCid : assertThat u.build .flushCid ((t.threads.cache.slabs d).cid ≠ -1) with
      | error e =>
          refine absurd (assertThat_failed hCid) (hAvoids e ?_)
          rw [hEq, hCid]
          rfl
      | ok _ => rfl

theorem triple_finishSlabFlush (hNone : ∀ l, held l = none) (m d channel : Nat) :
    Triple (simulation u clients) clients.length held (FlushIs (.found m d channel)) (u.finishSlabFlush m d channel)
      fun _ => FlushIs .idle := by
  refine Triple.bind (B := fun _ => FlushIs (.copied m d channel)) ?_ fun _ => ?_
  · -- the write and the copy of the header are one action here
    refine triple_update stable_flushIs stable_flushIs fun s t hRel hAt => ?_
    obtain ⟨t₁, hSteps₁, hRel₁, hGuar₁, hAt₁⟩ : Matches u clients clients.length held s t
        (s.cache.writeBlock u.cfg m d) (FlushIs (.written m d channel)) := hRel.flush
      (by rw [show t.threads.flush = .found m d channel from hAt]; rfl)
    obtain ⟨t₂, hSteps₂, hRel₂, hGuar₂, hAt₂⟩ : Matches u clients clients.length held
        { s with cache := s.cache.writeBlock u.cfg m d } t₁
        ((s.cache.writeBlock u.cfg m d).copyHeader m d) (FlushIs (.copied m d channel)) := hRel₁.flush
      (by rw [show t₁.threads.flush = .written m d channel from hAt₁]; rfl)
    exact ⟨t₂, hSteps₁.trans hSteps₂, hRel₂, hGuar₁.trans hGuar₂, hAt₂⟩
  · refine Triple.bind (B := fun _ => FlushIs (.copied m d channel)) ?_ fun _ => ?_
    · refine triple_onCache stable_flushIs (fun _ => stable_flushIs) fun s t _ c' hRel hAt hRun => ?_
      simp only [Execution.bind_eq_ok, Execution.pure_eq_ok] at hRun
      obtain ⟨_, -, _, -, hEnd⟩ := hRun
      obtain ⟨-, rfl⟩ := Prod.mk.inj hEnd
      exact ⟨t, .refl, hRel, .refl clients.length clients.length held s t, hAt⟩
    · refine Triple.bind (B := fun _ => FlushIs (.moved m d channel)) ?_ fun _ => ?_
      · refine Triple.guard (free_of_ne (by simp)) (hNone _) stable_flushIs (fun _ => stable_flushIs) ?_
        exact triple_flush fun s t hRel hAt => hRel.stepFlush_copied hAt
      · refine Triple.bind (B := fun _ => FlushIs (.reset m d channel))
          (triple_flush fun _ _ _ _ => rfl) fun _ => ?_
        refine Triple.bind (B := fun _ => FlushIs (.freed d channel)) ?_ fun _ => ?_
        · refine Triple.guard (free_of_ne (by simp)) (hNone _) stable_flushIs
            (fun _ => stable_flushIs) ?_
          exact triple_flush fun _ _ _ _ => rfl
        · refine Triple.guard (free_of_ne (by simp)) (hNone _) stable_flushIs
            (fun _ => stable_flushIs) ?_
          exact triple_flush fun _ _ _ _ => rfl

/-- A background thread is at rest whenever its loop goes on. -/
def OnGoing (A : Shared → Shadow → Prop) (go : Bool) (s : Shared) (t : Shadow) : Prop :=
  go = true → A s t

theorem stable_onGoing_flush {a : FlushAt} {go : Bool} :
    (simulation u clients).Stable clients.length held (OnGoing (FlushIs a) go) :=
  stable_flush fun _ _ _ _ hFlush h hGo => hFlush.trans (h hGo)

theorem triple_doSlabFlush (hGc : u.enableBackgroundGc = true) (hNone : ∀ l, held l = none) :
    Triple (simulation u clients) clients.length held (FlushIs .idle) u.doSlabFlush (OnGoing (FlushIs .idle)) := by
  refine Triple.bind (B := fun full s t => ∀ m, full = some m → FlushIs (.holding m) s t) ?_
    fun full => ?_
  · have hEnd : ∀ {held : Held Mutex} (full : Option Nat), (simulation u clients).Stable clients.length held
        fun s t => ∀ m, full = some m → FlushIs (.holding m) s t :=
      fun full => stable_flush fun _ _ _ _ hFlush h m hEq => hFlush.trans (h m hEq)
    refine Triple.guard (free_of_ne (by simp)) (hNone _) stable_flushIs hEnd ?_
    refine Triple.bind (B := fun _ => FlushIs .idle) ?_ fun _ => ?_
    · exact Triple.waitFor (free_of_ne (by simp)) (by simp) stable_flushIs stable_flushIs
        fun _ _ _ h _ => h
    · refine Triple.bind (B := fun _ => FlushIs .idle)
        (triple_see stable_flushIs (fun _ => stable_flushIs) fun _ _ _ h => h) fun down => ?_
      cases down with
      | true => exact Triple.pure stable_flushIs fun _ _ _ _ m hEq => by cases hEq
      | false =>
          refine Triple.ite (fun hEq => by cases hEq) fun _ => ?_
          refine triple_onCache stable_flushIs hEnd fun s t full c' hRel hAt hRun => ?_
          simp only [Execution.bind_eq_ok, Execution.pure_eq_ok] at hRun
          obtain ⟨⟨m, c₁⟩, hTake, hEq⟩ := hRun
          obtain ⟨rfl, rfl⟩ := Prod.mk.inj hEq
          obtain ⟨t', hSteps, hRel', hGuar, hAt'⟩ : Matches u clients clients.length
              (Function.update held .mslabFull (some .exclusive)) s t c₁ (FlushIs (.holding m)) :=
            hRel.flush (by
              rw [show t.threads.flush = .idle from hAt]
              simp only [Threads.stepFlush, hTake]
              rfl)
          refine ⟨t', hSteps, hRel', hGuar, fun m' hEq => ?_⟩
          obtain rfl := Option.some.inj hEq
          exact hAt'
  · cases full with
    | none =>
        exact Triple.pure (stable_flush fun _ _ _ _ _ _ m hEq => by cases hEq)
          fun _ _ _ _ hGo => by cases hGo
    | some m =>
        refine Triple.bind ((triple_findDslab hGc hNone m u.fuel).pre
          (stable_flush fun _ _ _ _ hFlush h m hEq => hFlush.trans (h m hEq))
          fun _ _ _ h => h m rfl) fun found => ?_
        have hStable : (simulation u clients).Stable clients.length held fun s t => ∀ d channel,
            found = some (d, channel) → FlushIs (.found m d channel) s t :=
          stable_flush fun _ _ _ _ hFlush h d channel hEq => hFlush.trans (h d channel hEq)
        cases found with
        | none => exact Triple.pure hStable fun _ _ _ _ hGo => by cases hGo
        | some r =>
            refine Triple.bind ((triple_finishSlabFlush hNone m r.1 r.2).pre hStable
              fun _ _ _ h => h r.1 r.2 rfl) fun _ => ?_
            exact Triple.pure stable_flushIs fun _ _ _ h _ => h

/-- The loop of a background thread. -/
theorem triple_worker {body : Routine Bool} {A : Shared → Shadow → Prop}
    (hStable : ∀ go, (simulation u clients).Stable i held (OnGoing A go))
    (hBody : Triple (simulation u clients) i held A body (OnGoing A)) (fuel : Nat) :
    Triple (simulation u clients) i held A (Setup.worker body fuel) fun _ _ _ => True := by
  induction fuel with
  | zero => exact triple_stuck hBody.stable fun _ => .true
  | succ fuel ih =>
      refine Triple.bind hBody fun go => ?_
      cases go with
      | true => exact ih.pre (hStable true) fun _ _ _ h => h rfl
      | false => exact Triple.pure (hStable false) fun _ _ _ _ => trivial

/-! ### The collector -/

theorem triple_gcAction {a : GcAt} :
    Triple (simulation u clients) (clients.length + 1) held (GcIs a) (Routine.onCache (u.gcAction a)) GcIs := by
  refine triple_onCache stable_gcIs (fun _ => stable_gcIs) fun s t next c' hRel hAt hRun => ?_
  obtain ⟨⟨c₁, a'⟩, hStep, hEnd⟩ := Execution.bind_eq_ok.mp hRun
  obtain ⟨rfl, rfl⟩ := Prod.mk.inj (Execution.pure_eq_ok.mp hEnd)
  obtain rfl : t.threads.gc = a := hAt
  exact hRel.gc hStep

theorem stable_onGoing_gc {a : GcAt} {go : Bool} :
    (simulation u clients).Stable (clients.length + 1) held (OnGoing (GcIs a) go) :=
  stable_gc fun _ _ _ _ hGc _ _ h hGo => hGc.trans (h hGo)

theorem GcAt.mutex_ne_writer {cfg : Config} {a : GcAt} : a.mutex cfg ≠ some .writer := by
  unfold GcAt.mutex
  split
  all_goals try split
  all_goals simp

theorem triple_gcRound (hNone : ∀ l, held l = none) (fuel : Nat) (a : GcAt) :
    Triple (simulation u clients) (clients.length + 1) held (GcIs a) (u.gcRound fuel a) (OnGoing (GcIs .idle)) := by
  induction fuel generalizing a with
  | zero => exact triple_stuck stable_gcIs fun _ => stable_onGoing_gc
  | succ fuel ih =>
      refine Triple.bind (B := GcIs) ?_ fun next => ?_
      · cases hMutex : a.mutex u.cfg with
        | none => exact triple_gcAction
        | some l =>
            refine Triple.guard (free_of_ne ?_) (hNone l) stable_gcIs (fun _ => stable_gcIs)
              triple_gcAction
            rintro rfl
            exact GcAt.mutex_ne_writer hMutex
      · refine Triple.ite (fun hIdle => ?_) fun _ => ih next
        subst hIdle
        exact Triple.pure stable_gcIs fun _ _ _ h _ => h

theorem triple_doSlabGc (hNone : ∀ l, held l = none) :
    Triple (simulation u clients) (clients.length + 1) held (GcIs .idle) u.doSlabGc (OnGoing (GcIs .idle)) := by
  refine Triple.bind (B := fun down s t => down = false → GcIs .awake s t) ?_ fun down => ?_
  · have hEnd : ∀ {held : Held Mutex} (down : Bool), (simulation u clients).Stable (clients.length + 1) held
        fun s t => down = false → GcIs .awake s t :=
      fun down => stable_gc fun _ _ _ _ hGc _ _ h hEq => hGc.trans (h hEq)
    have hWoken : ∀ {held : Held Mutex}, (simulation u clients).Stable (clients.length + 1) held fun s t =>
        GcIs .idle s t ∧ (0 < s.cache.nrFullDslab ∨ s.shutdown = true) :=
      stable_gc fun _ _ _ _ hGc hFull hDown h =>
        ⟨hGc.trans h.1, h.2.imp (fun hPos => hPos.trans_le hFull) hDown⟩
    refine Triple.guard (free_of_ne (by simp)) (hNone _) stable_gcIs hEnd ?_
    refine Triple.bind (B := fun _ s t => GcIs .idle s t ∧
      (0 < s.cache.nrFullDslab ∨ s.shutdown = true)) ?_ fun _ => ?_
    · refine Triple.waitFor (free_of_ne (by simp)) (by simp) stable_gcIs hWoken
        fun s t _ hAt hp => ⟨hAt, ?_⟩
      simpa using hp
    · -- the collector wakes up when it sees that it is not to stop
      refine Triple.act hWoken hEnd fun s t down s' hRel hAt hf => ?_
      obtain ⟨rfl, rfl⟩ := Prod.mk.inj (Except.ok.inj hf)
      cases hDown : s.shutdown with
      | true =>
          exact ⟨t, .refl, hRel, (simulation u clients).guar_refl _ _ s t, fun hEq => by cases hEq⟩
      | false =>
          have hFull : 0 < s.cache.nrFullDslab := by
            rcases hAt.2 with hFull | hNot
            · exact hFull
            · rw [hDown] at hNot
              cases hNot
          have hWake : Threads.stepGc u.build u.cfg [] 0 s.cache t.threads.gc =
              .ok (s.cache, .awake) := by
            rw [show t.threads.gc = .idle from hAt.1]
            exact if_neg (by omega)
          obtain ⟨t', hSteps, hRel', hGuar, hAt'⟩ : Matches u clients (clients.length + 1)
            (Function.update held .dslabFull (some .exclusive)) s t s.cache (GcIs .awake) :=
            hRel.gc hWake
          exact ⟨t', hSteps, hRel', hGuar, fun _ => hAt'⟩
  · cases down with
    | true =>
        exact Triple.pure (stable_gc fun _ _ _ _ hGc _ _ h hEq => hGc.trans (h hEq))
          fun _ _ _ _ hGo => by cases hGo
    | false =>
        exact (triple_gcRound hNone u.fuel .awake).pre
          (stable_gc fun _ _ _ _ hGc _ _ h hEq => hGc.trans (h hEq)) fun _ _ _ h => h rfl

/-! ### The writer -/

/-- What `slot_alloc` returns: a slot that is counted and not yet written, or
nothing, and `Put` leaves the index alone. -/
def Allocated (u : Setup) (clients : List (List Call)) (i : Nat) (calls : List Call) (key : Key)
    (value : Value) : Except Status (Nat × Nat) → Shared → Shadow → Prop
  | .error _ => fun s t => WriterIs u clients i calls none .idle s t ∧
      Call.Outcome u.cfg s.shutdown (.put key value) []
  | .ok (sid, slotId) =>
      WriterIs u clients i calls (some ⟨.allocated, ⟨key, value, sid, slotId⟩⟩)
        (.written ⟨key, value, sid, slotId⟩)

theorem stable_allocated {key : Key} {value : Value} (hHeld : held .writer = some .exclusive)
    (r : Except Status (Nat × Nat)) :
    (simulation u clients).Stable i held (Allocated u clients i calls key value r) := by
  cases r with
  | error status =>
      exact stable_writer hHeld fun _ _ _ _ hWriter hDraft _ hDown hLog h =>
        ⟨h.1.of_same hWriter hDraft hDown hLog, h.2.mono hDown⟩
  | ok slot => exact stable_writerIs hHeld

/-- The free slab that the writer has taken, opened or not. -/
def Opening (u : Setup) (clients : List (List Call)) (i : Nat) (calls : List Call) (stage : Stage)
    (key : Key) (value : Value) (sid : Nat) (s : Shared) (t : Shadow) : Prop :=
  ∃ slotId, WriterIs u clients i calls (some ⟨stage, ⟨key, value, sid, slotId⟩⟩)
    (.written ⟨key, value, sid, slotId⟩) s t

theorem stable_opening {stage : Stage} {key : Key} {value : Value} {sid : Nat}
    (hHeld : held .writer = some .exclusive) :
    (simulation u clients).Stable i held (Opening u clients i calls stage key value sid) :=
  stable_writer hHeld fun _ _ _ _ hWriter hDraft _ hDown hLog h =>
    h.imp fun _ hAt => hAt.of_same hWriter hDraft hDown hLog

theorem stable_down {go : Bool} (hHeld : held .writer = some .exclusive) :
    (simulation u clients).Stable i held fun s t =>
      WriterIs u clients i calls none .idle s t ∧ (go = false → s.shutdown = true) :=
  stable_writer hHeld fun _ _ _ _ hWriter hDraft _ hDown hLog h =>
    ⟨h.1.of_same hWriter hDraft hDown hLog, fun hGo => hDown (h.2 hGo)⟩

/-- The writer needs a slot, and its class has no partial slab. -/
def NoPartial (u : Setup) (clients : List (List Call)) (i : Nat) (calls : List Call) (cid : Nat)
    (s : Shared) (t : Shadow) : Prop :=
  WriterIs u clients i calls none .idle s t ∧ s.cache.slabPartial cid = []

theorem stable_noPartial {cid : Nat} (hHeld : held .writer = some .exclusive) :
    (simulation u clients).Stable i held (NoPartial u clients i calls cid) :=
  stable_writer hHeld fun _ _ _ _ hWriter hDraft hCache hDown hLog h =>
    ⟨h.1.of_same hWriter hDraft hDown hLog, by rw [hCache.lists]; exact h.2⟩

section

variable {key : Key} {value : Value} {cid sid slotId : Nat}

theorem Rel.relates_of (h : Rel u clients s t) {draft : Option Draft} {a : WriterAt}
    (hAt : WriterIs u clients i calls draft a s t) :
    Relates u.build u.cfg draft s.cache t.threads := by
  rw [← hAt.1]
  exact h.relates

theorem nrFullDslab_slotOfPartial {c c' : Cache} {slot : Option (Nat × Nat)}
    (hRun : u.slotOfPartial cid c = .ok (slot, c')) : c'.nrFullDslab = c.nrFullDslab := by
  unfold Setup.slotOfPartial at hRun
  split at hRun
  · obtain ⟨-, rfl⟩ := Prod.mk.inj (Except.ok.inj hRun)
    rfl
  · obtain ⟨⟨c₁, i⟩, hAlloc, hEnd⟩ := Execution.bind_eq_ok.mp hRun
    obtain ⟨-, rfl⟩ := Prod.mk.inj (Execution.pure_eq_ok.mp hEnd)
    rw [(Draft.allocPartial_eq_ok.mp hAlloc).2]
    rfl

/-- The writer looks at the partial slab of its class for the first time. -/
theorem triple_slotOfPartial (hHeld : held .writer = some .exclusive)
    (hClass : getSlabClass u.cfg (slotSize key value) = some cid) :
    Triple (simulation u clients) i held (WriterIs u clients i calls none .idle)
      (Routine.onCache (u.slotOfPartial cid))
      fun slot s t => slot.elim (NoPartial u clients i calls cid s t) fun r =>
        Allocated u clients i calls key value (.ok r) s t := by
  refine triple_onCache (stable_writerIs hHeld) (fun slot => ?_) fun s t slot c' hRel hAt hRun => ?_
  · cases slot with
    | none => exact stable_noPartial hHeld
    | some r => exact stable_allocated hHeld (.ok r)
  · cases slot with
    | some r =>
        obtain ⟨sid, slotId⟩ := r
        obtain ⟨d, hPut, hEnds⟩ := ThreadsInv.follow_partial (hRel.relates_of hAt) hAt.2 hClass hRun
        have hAct : t.threads.step u.build u.cfg (.put key value) = .ok ({ t.threads with
            cache := d, writer := .written ⟨key, value, sid, slotId⟩ }, []) := by
          simp only [Threads.step, hPut]
          rfl
        exact hRel.writer _ hHeld hAt hAct ⟨rfl, hEnds⟩ (nrFullDslab_slotOfPartial hRun)
    | none =>
        simp only [Setup.slotOfPartial] at hRun
        split at hRun
        · rename_i hEmpty
          obtain ⟨-, rfl⟩ := Prod.mk.inj (Except.ok.inj hRun)
          exact ⟨t, .refl, hRel, .refl clients.length i held s t, hAt, hEmpty⟩
        · obtain ⟨_, _, hEnd⟩ := Execution.bind_eq_ok.mp hRun
          cases (Prod.mk.inj (Execution.pure_eq_ok.mp hEnd)).1

/-- After a slab was opened, its first slot is there. -/
theorem triple_slotOfOpened (hHeld : held .writer = some .exclusive) :
    Triple (simulation u clients) i held (Opening u clients i calls (.opened cid) key value sid)
      (Routine.onCache (u.slotOfPartial cid))
      fun slot s t => slot.elim (NoPartial u clients i calls cid s t) fun r =>
        Allocated u clients i calls key value (.ok r) s t := by
  refine triple_onCache (stable_opening hHeld) (fun slot => ?_) fun s t slot c' hRel hAt hRun => ?_
  · cases slot with
    | none => exact stable_noPartial hHeld
    | some r => exact stable_allocated hHeld (.ok r)
  · obtain ⟨slotId, hAt⟩ := hAt
    obtain ⟨hWriter, hEnds⟩ := hRel.relates_of hAt
    obtain ⟨c₁, hSlot, hEnds'⟩ := hEnds.slotOfPartial
    obtain ⟨rfl, rfl⟩ := Prod.mk.inj (Except.ok.inj (hRun.symm.trans hSlot))
    exact hRel.draft _ hHeld hAt ⟨hWriter, hEnds'⟩ (nrFullDslab_slotOfPartial hRun)

/-- The writer takes a free slab, if there is one. -/
theorem triple_takeFreeMslab (hHeld : held .writer = some .exclusive)
    (hClass : getSlabClass u.cfg (slotSize key value) = some cid) :
    Triple (simulation u clients) i held (NoPartial u clients i calls cid)
      (Routine.onCache fun c => .ok (Setup.takeFreeMslab c))
      fun slab s t => slab.elim (WriterIs u clients i calls none .idle s t) fun sid =>
        Opening u clients i calls (.taken cid) key value sid s t := by
  refine triple_onCache (stable_noPartial hHeld) (fun slab => ?_) fun s t slab c' hRel hAt hRun => ?_
  · cases slab with
    | none => exact stable_writerIs hHeld
    | some sid => exact stable_opening hHeld
  · obtain ⟨hAt, hEmpty⟩ := hAt
    have hTake := Except.ok.inj hRun
    unfold Setup.takeFreeMslab at hTake
    split at hTake
    · obtain ⟨rfl, rfl⟩ := Prod.mk.inj hTake
      exact ⟨t, .refl, hRel, .refl clients.length i held s t, hAt⟩
    · rename_i sid rest hFree
      obtain ⟨rfl, rfl⟩ := Prod.mk.inj hTake
      obtain ⟨g, hInv⟩ := hRel.inv
      obtain ⟨slotId, d, hPut, hEnds⟩ :=
        hInv.follow_take (hRel.relates_of hAt) hAt.2 hClass hEmpty hFree
      have hAct : t.threads.step u.build u.cfg (.put key value) = .ok ({ t.threads with
          cache := d, writer := .written ⟨key, value, sid, slotId⟩ }, []) := by
        simp only [Threads.step, hPut]
        rfl
      obtain ⟨t', hSteps, hRel', hGuar, hAt'⟩ := hRel.writer
        (some ⟨.taken cid, ⟨key, value, sid, slotId⟩⟩) hHeld hAt hAct ⟨rfl, hEnds⟩ rfl
      exact ⟨t', hSteps, hRel', hGuar, slotId, hAt'⟩

theorem triple_openTaken (hHeld : held .writer = some .exclusive) :
    Triple (simulation u clients) i held (Opening u clients i calls (.taken cid) key value sid)
      (Routine.update (u.openTaken cid sid))
      fun _ => Opening u clients i calls (.opened cid) key value sid := by
  refine triple_update (stable_opening hHeld) (stable_opening hHeld) fun s t hRel hAt => ?_
  obtain ⟨slotId, hAt⟩ := hAt
  obtain ⟨hWriter, hEnds⟩ := hRel.relates_of hAt
  obtain ⟨t', hSteps, hRel', hGuar, hAt'⟩ := hRel.draft
    (some ⟨.opened cid, ⟨key, value, sid, slotId⟩⟩) hHeld hAt ⟨hWriter, hEnds.openTaken⟩ rfl
  exact ⟨t', hSteps, hRel', hGuar, slotId, hAt'⟩

/-- `slot_alloc`, from its start or once more after a slab was opened. -/
theorem triple_slotAlloc (hFlush : u.enableBackgroundFlush = true)
    (hHeld : held .writer = some .exclusive) (hNone : held .mslabFree = none) (fuel : Nat) :
    Triple (simulation u clients) i held (WriterIs u clients i calls none .idle)
        (u.slotAlloc (slotSize key value) fuel) (Allocated u clients i calls key value) ∧
      ∀ cid sid, getSlabClass u.cfg (slotSize key value) = some cid →
        Triple (simulation u clients) i held (Opening u clients i calls (.opened cid) key value sid)
          (u.slotAlloc (slotSize key value) fuel) (Allocated u clients i calls key value) := by
  have hLocked : ∀ l, l ≠ .writer →
      Function.update held l (some .exclusive) .writer = some .exclusive :=
    fun l hl => by rw [Function.update_of_ne hl.symm, hHeld]
  have hSlabFlush : u.slabFlush = pure () := by rw [Setup.slabFlush, if_pos hFlush]
  have hWait : u.waitSlabFlushUntilShutdown = Routine.lock .mslabFree (do
      .waitFor .mslabFree fun s => s.cache.mslabFree.list ≠ [] || s.shutdown
      Routine.see fun s => !s.shutdown) := by
    rw [Setup.waitSlabFlushUntilShutdown, if_pos hFlush]
  induction fuel with
  | zero =>
      exact ⟨triple_stuck (stable_writerIs hHeld) (stable_allocated hHeld),
        fun _ _ _ => triple_stuck (stable_opening hHeld) (stable_allocated hHeld)⟩
  | succ fuel ih =>
      unfold Setup.slotAlloc
      cases hClass : getSlabClass u.cfg (slotSize key value) with
      | none =>
          refine ⟨Triple.pure (stable_writerIs hHeld) fun _ _ _ h => ⟨h, .tooLarge key value hClass⟩,
            fun cid sid hSome => ?_⟩
          cases hSome
      | some cid =>
          -- what follows the look at the partial slab
          suffices hNext : ∀ {A : Shared → Shadow → Prop},
              Triple (simulation u clients) i held A (Routine.onCache (u.slotOfPartial cid))
                (fun slot s t => slot.elim (NoPartial u clients i calls cid s t) fun r =>
                  Allocated u clients i calls key value (.ok r) s t) → Triple (simulation u clients) i held A _ _ by
            refine ⟨hNext (triple_slotOfPartial hHeld hClass), fun cid' sid hSome => ?_⟩
            obtain rfl := Option.some.inj hSome
            exact hNext (triple_slotOfOpened hHeld)
          intro A hLook
          refine Triple.bind hLook fun slot => ?_
          cases slot with
          | some r => exact Triple.pure (stable_allocated hHeld (.ok r)) fun _ _ _ h => h
          | none =>
              refine Triple.bind (B := fun slab s t => slab.elim (WriterIs u clients i calls none .idle s t) fun sid =>
                Opening u clients i calls (.taken cid) key value sid s t) ?_ fun slab => ?_
              · refine Triple.guard (free_of_ne (by simp)) hNone (stable_noPartial hHeld)
                  (fun slab => ?_) (triple_takeFreeMslab (hLocked _ (by simp)) hClass)
                cases slab with
                | none => exact stable_writerIs hHeld
                | some sid => exact stable_opening hHeld
              · cases slab with
                | some sid => exact Triple.bind (triple_openTaken hHeld) fun _ => ih.2 cid sid hClass
                | none =>
                    refine Triple.bind (B := fun _ => WriterIs u clients i calls none .idle) ?_ fun _ => ?_
                    · rw [hSlabFlush]
                      exact Triple.pure (stable_writerIs hHeld) fun _ _ _ h => h
                    · refine Triple.bind (B := fun go s t =>
                        WriterIs u clients i calls none .idle s t ∧ (go = false → s.shutdown = true))
                        ?_ fun go => ?_
                      · rw [hWait]
                        refine Triple.guard (free_of_ne (by simp)) hNone (stable_writerIs hHeld)
                          (fun _ => stable_down hHeld)
                          (Triple.bind (B := fun _ => WriterIs u clients i calls none .idle) ?_
                            fun _ => ?_)
                        · refine Triple.waitFor (free_of_ne (by simp)) (by simp)
                            (stable_writerIs ?_) (stable_writerIs (hLocked _ (by simp)))
                            fun _ _ _ h _ => h
                          rw [Function.update_of_ne (by simp), hLocked _ (by simp)]
                        · refine triple_see (stable_writerIs (hLocked _ (by simp)))
                            (fun _ => stable_down (hLocked _ (by simp))) fun s t _ h => ⟨h, ?_⟩
                          simp
                      · cases go with
                        | true => exact ih.1.pre (stable_down hHeld) fun _ _ _ h => h.1
                        | false =>
                            exact Triple.pure (stable_down hHeld) fun _ _ _ h =>
                              ⟨h.1, .shutdown key value (h.2 rfl)⟩

/-! ### The rest of `Put` -/

theorem triple_writeSlot {p : PendingPut} (hHeld : held .writer = some .exclusive) :
    Triple (simulation u clients) i held (WriterIs u clients i calls (some ⟨.allocated, p⟩) (.written p))
      (Routine.update (·.writeSlot p.sid p.slotId p.key p.value))
      fun _ => WriterIs u clients i calls none (.written p) := by
  refine triple_update (stable_writerIs hHeld) (stable_writerIs hHeld) fun s t hRel hAt => ?_
  obtain ⟨hWriter, hEnds⟩ := hRel.relates_of hAt
  exact hRel.draft none hHeld hAt hEnds.written rfl

theorem nrFullDslab_insertEntry {cfg : Config} {c c' : Cache}
    (hRun : c.insertEntry cfg key sid slotId = some c') : c'.nrFullDslab = c.nrFullDslab := by
  unfold Cache.insertEntry at hRun
  split at hRun
  · cases hRun
  · obtain rfl := Option.some.inj hRun
    rfl

theorem nrFullDslab_putIndex {build : Build} {cfg : Config} {c c' : Cache}
    (hRun : c.putIndex build cfg key sid slotId = .ok (some c')) :
    c'.nrFullDslab = c.nrFullDslab := by
  unfold Cache.putIndex at hRun
  split at hRun
  · simp only [Cache.overwriteEntry, Execution.bind_eq_ok, Execution.pure_eq_ok] at hRun
    obtain ⟨_, ⟨_, -, rfl⟩, hEnd⟩ := hRun
    obtain rfl := Option.some.inj hEnd
    rfl
  · exact nrFullDslab_insertEntry (Except.ok.inj hRun)

/-- The key has its index entry, or `Put` waits for one. -/
def Indexed (u : Setup) (clients : List (List Call)) (i : Nat) (calls : List Call) (p : PendingPut) :
    Bool → Shared → Shadow → Prop
  | true => WriterIs u clients i calls none (.indexed p.sid)
  | false => WriterIs u clients i (.put p.key p.value :: calls) none (.waiting p)

theorem stable_indexed {p : PendingPut} (hHeld : held .writer = some .exclusive) (found : Bool) :
    (simulation u clients).Stable i held (Indexed u clients i calls p found) := by
  cases found with
  | true => exact stable_writerIs hHeld
  | false => exact stable_writerIs hHeld

/-- The first look at the index finds an entry, or the wait begins. -/
theorem triple_indexAction {p : PendingPut} (hHeld : held .writer = some .exclusive) :
    Triple (simulation u clients) i held
      (WriterIs u clients i (.put p.key p.value :: calls) none (.written p))
      (Prog.act (Site.entry p.key) (u.indexAction p.key p.sid p.slotId) .ret : Routine Bool)
      (Indexed u clients i calls p) := by
  refine Triple.act (stable_writerIs hHeld) (stable_indexed hHeld)
    fun s t found s' hRel hAt hf => ?_
  have hCache : t.threads.cache = s.cache := hRel.relates_of hAt
  obtain ⟨entry, hPut, hEnd⟩ := Execution.bind_eq_ok.mp hf
  cases entry with
  | some c =>
      obtain ⟨rfl, rfl⟩ := Prod.mk.inj (Execution.pure_eq_ok.mp hEnd)
      have hAct : t.threads.step u.build u.cfg .writer =
          .ok ({ t.threads with cache := c, writer := .indexed p.sid }, [.put p.key p.value]) := by
        simp only [Threads.step, Threads.stepWriter, hAt.2, hCache, hPut]
        rfl
      exact hRel.commit hHeld hAt hAct (nrFullDslab_putIndex hPut)
  | none =>
      obtain ⟨rfl, rfl⟩ := Prod.mk.inj (Execution.pure_eq_ok.mp hEnd)
      have hAct : t.threads.step u.build u.cfg .writer =
          .ok ({ t.threads with cache := s.cache, writer := .waiting p }, []) := by
        simp only [Threads.step, Threads.stepWriter, hAt.2, hCache, hPut]
        rfl
      exact hRel.writer none hHeld hAt hAct rfl rfl

/-- The loop in which `Put` waits for an unused index entry. -/
theorem triple_awaitEntry {p : PendingPut}
    (hBackground : u.enableBackgroundFlush = true ∧ u.enableBackgroundGc = true)
    (hHeld : held .writer = some .exclusive) (hIndex : held .index = some .exclusive) (fuel : Nat) :
    Triple (simulation u clients) i held
      (WriterIs u clients i (.put p.key p.value :: calls) none (.waiting p))
      (u.awaitEntry p.key p.sid p.slotId fuel)
      fun _ => WriterIs u clients i calls none (.indexed p.sid) := by
  induction fuel with
  | zero => exact triple_stuck (stable_writerIs hHeld) fun _ => stable_writerIs hHeld
  | succ fuel ih =>
      have hSlabFlush : u.slabFlush = pure () := by rw [Setup.slabFlush, if_pos hBackground.1]
      have hSlabGc : u.slabGc = pure () := by rw [Setup.slabGc, if_pos hBackground.2]
      unfold Setup.awaitEntry
      rw [hSlabFlush, hSlabGc]
      refine Triple.bind (B := fun _ => Indexed u clients i calls p false)
        (Triple.pure (stable_writerIs hHeld) fun _ _ _ h => h) fun _ => ?_
      refine Triple.bind (B := fun _ => Indexed u clients i calls p false)
        (Triple.pure (stable_writerIs hHeld) fun _ _ _ h => h) fun _ => ?_
      refine Triple.bind (B := fun _ => Indexed u clients i calls p false) ?_ fun _ => ?_
      · refine Triple.waitFor (free_of_ne (by simp)) hIndex (stable_writerIs ?_)
          (stable_writerIs hHeld) fun _ _ _ h _ => h
        rw [Function.update_of_ne (by simp), hHeld]
      · refine Triple.bind (B := Indexed u clients i calls p) ?_ fun found => ?_
        · refine triple_onCache (stable_writerIs hHeld) (stable_indexed hHeld)
            fun s t found c' hRel hAt hRun => ?_
          have hCache : t.threads.cache = s.cache := hRel.relates_of hAt
          cases hInsert : s.cache.insertEntry u.cfg p.key p.sid p.slotId with
          | some c =>
              rw [hInsert] at hRun
              obtain ⟨rfl, rfl⟩ := Prod.mk.inj (Except.ok.inj hRun)
              have hAct : t.threads.step u.build u.cfg .writer = .ok ({ t.threads with
                  cache := c, writer := .indexed p.sid }, [.put p.key p.value]) := by
                simp only [Threads.step, Threads.stepWriter, hAt.2, hCache, hInsert]
              exact hRel.commit hHeld hAt hAct (nrFullDslab_insertEntry hInsert)
          | none =>
              rw [hInsert] at hRun
              obtain ⟨rfl, rfl⟩ := Prod.mk.inj (Except.ok.inj hRun)
              exact ⟨t, .refl, hRel, .refl clients.length i held s t, hAt⟩
        · cases found with
          | true => exact Triple.pure (stable_writerIs hHeld) fun _ _ _ h => h
          | false => exact ih

theorem triple_putIndex {p : PendingPut}
    (hBackground : u.enableBackgroundFlush = true ∧ u.enableBackgroundGc = true)
    (hHeld : held .writer = some .exclusive) (hIndex : held .index = some .exclusive) :
    Triple (simulation u clients) i held
      (WriterIs u clients i (.put p.key p.value :: calls) none (.written p))
      (u.putIndex p.key p.sid p.slotId)
      fun _ => WriterIs u clients i calls none (.indexed p.sid) := by
  refine Triple.bind (triple_indexAction hHeld) fun found => ?_
  cases found with
  | true => exact Triple.pure (stable_writerIs hHeld) fun _ _ _ h => h
  | false => exact triple_awaitEntry hBackground hHeld hIndex u.fuel

/-- What `Put` has seen of the slab it wrote in: it became full, or the call is over. -/
def SeenFull (u : Setup) (clients : List (List Call)) (i : Nat) (calls : List Call) (sid : Nat)
    (full : Bool) (s : Shared) (t : Shadow) : Prop :=
  WriterIs u clients i calls none (if full then .indexed sid else .idle) s t ∧
    (full = true → (s.cache.slabs sid).isFull = true)

theorem stable_seenFull {sid : Nat} (hHeld : held .writer = some .exclusive) (full : Bool) :
    (simulation u clients).Stable i held (SeenFull u clients i calls sid full) := by
  refine stable_writer hHeld fun s t s' t' hWriter hDraft hCache hDown hLog h =>
    ⟨h.1.of_same hWriter hDraft hDown hLog, fun hFull => ?_⟩
  have hAt := h.1.2
  rw [if_pos hFull] at hAt
  exact (hCache.full sid hAt).trans (h.2 hFull)

/-- A slab that became full is linked; any other one is left. -/
theorem triple_putFull (hFlush : u.enableBackgroundFlush = true)
    (hHeld : held .writer = some .exclusive) (hNone : held .mslabFull = none) (sid : Nat) :
    Triple (simulation u clients) i held (WriterIs u clients i calls none (.indexed sid))
      (u.putFull sid) fun _ => WriterIs u clients i calls none .idle := by
  refine Triple.bind (B := SeenFull u clients i calls sid) ?_ fun full => ?_
  · refine Triple.act (stable_writerIs hHeld) (stable_seenFull hHeld) fun s t full s' hRel hAt hf => ?_
    obtain ⟨hFull, rfl⟩ := Prod.mk.inj (Except.ok.inj hf)
    replace hFull : (s.cache.slabs sid).isFull = full := hFull
    have hCache : t.threads.cache = s.cache := hRel.relates_of hAt
    cases full with
    | true => exact ⟨t, .refl, hRel, .refl clients.length i held s t, hAt, fun _ => hFull⟩
    | false =>
        have hAct : t.threads.step u.build u.cfg .writer =
            .ok ({ t.threads with cache := s.cache, writer := .idle }, []) := by
          simp only [Threads.step, Threads.stepWriter, hAt.2, Cache.putFull, hCache, hFull]
          rfl
        obtain ⟨t', hSteps, hRel', hGuar, hAt'⟩ := hRel.writer none hHeld hAt hAct rfl rfl
        exact ⟨t', hSteps, hRel', hGuar, hAt', fun hEq => by cases hEq⟩
  · cases full with
    | false => exact Triple.pure (stable_seenFull hHeld false) fun _ _ _ h => h.1
    | true =>
        have hLocked : Function.update held .mslabFull (some .exclusive) .writer =
            some .exclusive := by rw [Function.update_of_ne (by simp), hHeld]
        refine Triple.guard (free_of_ne (by simp)) hNone (stable_seenFull hHeld true)
          (fun _ => stable_writerIs hHeld)
          (Triple.bind (B := fun _ => WriterIs u clients i calls none .idle) ?_ fun _ => ?_)
        · refine triple_update (stable_seenFull hLocked true) (stable_writerIs hLocked)
            fun s t hRel hAt => ?_
          obtain ⟨hAt, hFull⟩ : WriterIs u clients i calls none (.indexed sid) s t ∧ _ := hAt
          replace hFull := hFull rfl
          have hCache : t.threads.cache = s.cache := hRel.relates_of hAt
          have hAct : t.threads.step u.build u.cfg .writer = .ok ({ t.threads with
              cache := { s.cache with mslabFull := s.cache.mslabFull.add sid }
              writer := .idle }, []) := by
            simp only [Threads.step, Threads.stepWriter, hAt.2, Cache.putFull, hCache, hFull]
            rfl
          exact hRel.writer none hLocked hAt hAct rfl rfl
        · have hSlabFlush : u.slabFlush = pure () := by rw [Setup.slabFlush, if_pos hFlush]
          rw [if_pos hFlush, hSlabFlush]
          exact Triple.pure (stable_writerIs hLocked) fun _ _ _ h => h

theorem triple_put (hBackground : u.enableBackgroundFlush = true ∧ u.enableBackgroundGc = true)
    (hNone : ∀ l, held l = none) :
    Triple (simulation u clients) i held (Rests u clients i (.put key value :: calls))
      (u.put key value) fun _ => Rests u clients i calls := by
  have hHeld : Function.update held .writer (some .exclusive) .writer = some .exclusive :=
    Function.update_self _ _ _
  have hRest : ∀ l, l ≠ .writer → Function.update held .writer (some .exclusive) l = none :=
    fun l hl => by rw [Function.update_of_ne hl, hNone]
  refine Triple.withLock (hNone _) stable_rests (fun _ => stable_rests)
    (C := WriterIs u clients i (.put key value :: calls) none .idle)
    (D := fun _ => WriterIs u clients i calls none .idle) (fun s t _ hRests hFree => ?_) ?_
    fun _ s t _ hAt => ⟨fun _ => ⟨hAt.draft, hAt.writer⟩, hAt.rests⟩
  · obtain ⟨hDraft, hWriter⟩ := hFree rfl rfl
    exact ⟨hDraft, hWriter, hRests⟩
  refine Triple.bind (triple_slotAlloc hBackground.1 hHeld (hRest _ (by simp)) u.fuel).1
    fun r => ?_
  cases r with
  | error status =>
      exact Triple.pure (stable_allocated hHeld (.error status)) fun _ _ _ h =>
        ⟨h.1.draft, h.1.writer, h.1.rests.pass h.2⟩
  | ok slot =>
      obtain ⟨sid, slotId⟩ := slot
      refine Triple.bind (triple_writeSlot (p := ⟨key, value, sid, slotId⟩) hHeld) fun _ => ?_
      have hLocked : Function.update (Function.update held .writer (some .exclusive)) .index
          (some .exclusive) .writer = some .exclusive := by
        rw [Function.update_of_ne (by simp), hHeld]
      refine Triple.bind (B := fun _ => WriterIs u clients i calls none (.indexed sid)) ?_ fun _ => ?_
      · exact Triple.guard (free_of_ne (by simp)) (hRest _ (by simp)) (stable_writerIs hHeld)
          (fun _ => stable_writerIs hHeld) (triple_putIndex (p := ⟨key, value, sid, slotId⟩)
            hBackground hLocked (Function.update_self _ _ _))
      · exact Triple.bind (triple_putFull hBackground.1 hHeld (hRest _ (by simp)) sid) fun _ =>
          Triple.pure (stable_writerIs hHeld) fun _ _ _ h => h

end

/-! ### Clients -/

theorem triple_get {key : Key} (hNone : ∀ l, held l = none) :
    Triple (simulation u clients) i held (Rests u clients i (.get key :: calls)) (u.get key)
      fun _ => Rests u clients i calls := by
  refine Triple.bind (B := fun _ => Rests u clients i calls) ?_ fun result => ?_
  · refine Triple.guard (free_of_ne (by simp)) (hNone _) stable_rests (fun _ => stable_rests) ?_
    refine triple_onCache stable_rests (fun _ => stable_rests) fun s t result c' hRel hRests hRun => ?_
    obtain ⟨_, -, hEnd⟩ := Execution.bind_eq_ok.mp hRun
    obtain ⟨-, rfl⟩ := Prod.mk.inj (Execution.pure_eq_ok.mp hEnd)
    exact ⟨t, .refl, hRel, .refl clients.length i _ s t, Left.pass hRests (.get key)⟩
  · exact triple_see stable_rests (fun _ => stable_rests) fun _ _ _ h => h

theorem triple_delete {key : Key} (hNone : ∀ l, held l = none) :
    Triple (simulation u clients) i held (Rests u clients i (.delete key :: calls)) (u.delete key)
      fun _ => Rests u clients i calls := by
  refine Triple.guard (free_of_ne (by simp)) (hNone _) stable_rests (fun _ => stable_rests) ?_
  refine triple_onCache stable_rests (fun _ => stable_rests) fun s t _ c' hRel hRests hRun => ?_
  obtain ⟨c, hDelete, hEnd⟩ := Execution.bind_eq_ok.mp hRun
  obtain ⟨-, rfl⟩ := Prod.mk.inj (Execution.pure_eq_ok.mp hEnd)
  exact hRel.delete hRests hDelete

/-- A client that has come to its end has made all its calls. -/
theorem triple_client (hBackground : u.enableBackgroundFlush = true ∧ u.enableBackgroundGc = true)
    (hNone : ∀ l, held l = none) (calls : List Call) :
    Triple (simulation u clients) i held (Rests u clients i calls) (u.client calls)
      fun _ => Rests u clients i [] := by
  induction calls with
  | nil => exact Triple.pure stable_rests fun _ _ _ h => h
  | cons call rest ih =>
      refine Triple.bind (B := fun _ => Rests u clients i rest) ?_ fun _ => ih
      cases call with
      | put key value =>
          exact Triple.bind (triple_put hBackground hNone) fun _ =>
            Triple.pure stable_rests fun _ _ _ h => h
      | get key =>
          exact Triple.bind (triple_get hNone) fun _ => Triple.pure stable_rests fun _ _ _ h => h
      | delete key => exact triple_delete hNone

theorem triple_close : Triple (simulation u clients) i held (fun _ _ => True) Setup.close
    fun _ _ _ => True := by
  refine Triple.act .true (fun _ => .true) fun s t _ s' hRel _ hf => ?_
  obtain ⟨-, rfl⟩ := Prod.mk.inj (Except.ok.inj hf)
  exact ⟨t, .refl, ⟨hRel.inv, hRel.relates, hRel.logged.mono fun _ => rfl⟩,
    ⟨fun _ => rfl, fun _ => ⟨rfl, Int.le_refl _⟩, fun _ => ⟨rfl, rfl, .refl _ _⟩, fun _ => rfl,
      fun _ _ => rfl⟩, trivial⟩

end Shadow

end KVCache
