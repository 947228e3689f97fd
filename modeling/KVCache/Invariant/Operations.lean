import KVCache.Invariant.GcRound
import KVCache.Invariant.Startup
import KVCache.Semantics.System

/-! The invariant over sequences of operations. Between two operations every
slab is at rest, except for the one that a waiting `Put` has filled and the
one that a waiting flush has taken. -/

namespace KVCache

variable {build : Build} {cfg : Config} {c c' : Cache} {g g' : Ghost} {s s' : Sys}
  {events done : List Event}

/-! ### What was written last -/

/-- The value of the latest write of a key, in a history with the latest write
first; `none` when it was a `Delete`, or when there was none. -/
def lastWrite : List Event → Key → Option Value
  | [], _ => none
  | .put k v :: rest, key => if k = key then some v else lastWrite rest key
  | .delete k :: rest, key => if k = key then none else lastWrite rest key

/-- Every object that a lookup can find was the last one written for its key. -/
def Recorded (cfg : Config) (c : Cache) (events : List Event) : Prop :=
  ∀ key k v, c.view cfg key = some (k, v) → lastWrite events k = some v

theorem Recorded.mono (h : Recorded cfg c events)
    (hView : ∀ key object, c'.view cfg key = some object → c.view cfg key = some object) :
    Recorded cfg c' events :=
  fun key k v hk => h key k v (hView key (k, v) hk)

/-- A lookup finds an object in the cell of the key. -/
theorem Inv.cell_of_view {key k : Key} {v : Value} (hInv : Inv cfg c g)
    (hView : c.view cfg key = some (k, v)) : cfg.cell k = cfg.cell key := by
  unfold Cache.view at hView
  obtain ⟨e, hGet, hSlot⟩ := Option.map_eq_some_iff.mp hView
  obtain ⟨hMem, hDigest⟩ := Index.getIndexEntry_some hGet
  have hHome := hInv.index.home _ e hMem
  simp only [hSlot] at hHome
  rw [hHome, hDigest]
  rfl

theorem Recorded.put {key : Key} {value : Value} (h : Recorded cfg c events) (hInv : Inv cfg c g)
    (hView : ∀ key', c'.view cfg key' = viewSet cfg c key (some (key, value)) key') :
    Recorded cfg c' (.put key value :: events) := by
  intro key' k v hk
  rw [hView, viewSet] at hk
  split at hk
  · obtain ⟨rfl, rfl⟩ := Prod.mk.inj (Option.some.inj hk)
    exact if_pos rfl
  · rename_i hCell
    have hne : key ≠ k := fun hEq => hCell (hEq ▸ (hInv.cell_of_view hk).symm)
    exact (if_neg hne).trans (h key' k v hk)

theorem Recorded.delete {key : Key} (h : Recorded cfg c events) (hInv : Inv cfg c g)
    (hView : ∀ key', c'.view cfg key' = viewSet cfg c key none key') :
    Recorded cfg c' (.delete key :: events) := by
  intro key' k v hk
  rw [hView, viewSet] at hk
  split at hk
  · cases hk
  · rename_i hCell
    have hne : key ≠ k := fun hEq => hCell (hEq ▸ (hInv.cell_of_view hk).symm)
    exact (if_neg hne).trans (h key' k v hk)

theorem Silent.recorded {w : Worker} (h : Silent cfg w c g c' g') (hRec : Recorded cfg c events) :
    Recorded cfg c' events :=
  hRec.mono fun key _ hView => (h.view key).symm.trans hView

/-! ### The invariant -/

/-- The invariant between two operations. -/
structure SysInv (cfg : Config) (s : Sys) (g : Ghost) : Prop where
  inv : Inv cfg s.cache g
  pend : g.pend = s.put
  waiting : ∀ p, s.put = some p → s.cache.index.getIndexEntry cfg p.key = none
  flush : ∀ m, s.flush = some m → g.role m = .memFlush
  rest : ∀ x, (g.role x).Resting ∨ (g.role x = .memWriter ∧ ∃ p, s.put = some p ∧ p.sid = x) ∨
    (g.role x = .memFlush ∧ s.flush = some x)

/-- Between operations, disk slabs are at rest. -/
theorem SysInv.disk_resting {x : Nat} (h : SysInv cfg s g)
    (hDisk : cfg.nrMslab ≤ x ∧ x < cfg.nrSlab) : (g.role x).Resting := by
  have hOnDisk := h.inv.onDisk hDisk
  rcases h.rest x with hRest | ⟨hRole, -⟩ | ⟨hRole, -⟩
  · exact hRest
  · rw [hRole] at hOnDisk
    exact hOnDisk.elim
  · rw [hRole] at hOnDisk
    exact hOnDisk.elim

theorem SysInv.idle (h : SysInv cfg s g) : g.GcIdle := by
  intro x hx
  rcases h.rest x with hRest | ⟨hRole, -⟩ | ⟨hRole, -⟩
  · generalize g.role x = r at hRest hx
    cases r <;> first | exact hRest | exact hx
  · rw [hRole] at hx
    exact hx
  · rw [hRole] at hx
    exact hx

/-- No slab is lost, no counter drifts, and use counts stay exact. -/
structure Kept (build : Build) (g g' : Ghost) : Prop where
  loose : g.SameLoose g'
  drift : g'.drift = g.drift
  exact : build = .debug → g'.exact = g.exact

theorem Kept.refl (build : Build) (g : Ghost) : Kept build g g := ⟨.refl g, rfl, fun _ => rfl⟩

theorem Kept.trans {g'' : Ghost} (h : Kept build g g') (h' : Kept build g' g'') :
    Kept build g g'' :=
  ⟨h.loose.trans h'.loose, h'.drift.trans h.drift,
    fun hb => (h'.exact hb).trans (h.exact hb)⟩

theorem kept_become {x : Nat} {r : Role} (hOld : g.role x ≠ .diskLoose) (hr : r ≠ .diskLoose) :
    Kept build g (g.become x r) :=
  ⟨.become hOld hr, rfl, fun _ => rfl⟩

/-- What an operation other than a round of the collector does. -/
structure StepOk (build : Build) (cfg : Config) (s : Sys) (g : Ghost) (s' : Sys)
    (done : List Event) (g' : Ghost) : Prop where
  inv : SysInv cfg s' g'
  kept : Kept build g g'
  recorded : ∀ events, Recorded cfg s.cache events → Recorded cfg s'.cache (done ++ events)

theorem StepOk.refl (h : SysInv cfg s g) : StepOk build cfg s g s [] g :=
  ⟨h, .refl build g, fun _ hRec => hRec⟩

/-! ### Writing -/

namespace SysInv

/-- The index update of a `Put` and the handover of a full slab. -/
theorem finishPut (build : Build) {p : PendingPut} {flush : Option Nat} (hInv : Inv cfg c g)
    (hp : g.pend = some p) (hFlush : ∀ m, flush = some m → g.role m = .memFlush)
    (hRest : ∀ x, x ≠ p.sid → (g.role x).Resting ∨ (g.role x = .memFlush ∧ flush = some x))
    (hReindex : Reindex cfg c g c' { g with pend := none })
    (hView : ∀ key', c'.view cfg key' = viewSet cfg c p.key (some (p.key, p.value)) key') :
    ∃ g', StepOk build cfg ⟨c, some p, flush⟩ g ⟨c'.putFull p.sid, none, flush⟩
      [.put p.key p.value] g' := by
  have hInv' := hReindex.inv hInv
  have hRole : g.role p.sid = .memWriter ∨ ∃ k, g.role p.sid = .memPartial k :=
    (hInv.pend p hp).role.symm
  obtain ⟨r, hr, hFull⟩ := hInv'.putFull rfl hRole
  have hLoose : r ≠ .diskLoose := by rcases hr with rfl | ⟨k, -, rfl⟩ <;> simp
  refine ⟨_, ⟨hFull.inv, rfl, by simp, fun m hm => ?_, fun x => ?_⟩, ?_, fun events hRec => ?_⟩
  · have hne : m ≠ p.sid := by
      rintro rfl
      have := hFlush _ hm
      rcases hRole with hRole | ⟨k, hRole⟩ <;> rw [hRole] at this <;> cases this
    exact (Ghost.become_of_ne _ _ hne).trans (hFlush m hm)
  · by_cases hx : x = p.sid
    · subst x
      rw [Ghost.become_self]
      rcases hr with rfl | ⟨k, -, rfl⟩ <;> exact .inl trivial
    · rw [Ghost.become_of_ne _ _ hx]
      rcases hRest x hx with h | h
      · exact .inl h
      · exact .inr (.inr h)
  · have hKept : Kept build g { g with pend := none } := ⟨.refl g, rfl, fun _ => rfl⟩
    refine hKept.trans (kept_become ?_ hLoose)
    rcases hRole with hRole | ⟨k, hRole⟩ <;> simp [hRole]
  · exact hFull.recorded (hRec.put hInv hView)

theorem putStart {key : Key} {value : Value} (h : SysInv cfg s g)
    (hRun : s.putStart build cfg key value = .ok (s', done)) :
    ∃ g', StepOk build cfg s g s' done g' := by
  unfold Sys.putStart at hRun
  by_cases hBusy : s.put.isSome
  · simp only [if_pos hBusy] at hRun
    cases hRun
  simp only [if_neg hBusy] at hRun
  have hNone : s.put = none := by simpa using hBusy
  have hPend : g.pend = none := h.pend.trans hNone
  obtain ⟨alloc, hAlloc, hRun⟩ := Execution.bind_eq_ok.mp hRun
  cases alloc with
  | tooLarge =>
      obtain ⟨rfl, rfl⟩ := Prod.mk.inj (Execution.pure_eq_ok.mp hRun)
      exact ⟨g, .refl h⟩
  | wait => cases hRun
  | slot c₁ sid slotId =>
      obtain ⟨cid, r, hTaken, hSlot⟩ := h.inv.putSlot hPend hAlloc
      have hr := hTaken.after
      have hLoose : r ≠ .diskLoose := by rcases hr with rfl | rfl <;> simp
      generalize hg₁ : ({ g.become sid r with pend := some ⟨key, value, sid, slotId⟩ } : Ghost) = g₁
        at hSlot
      have hp : g₁.pend = some ⟨key, value, sid, slotId⟩ := by rw [← hg₁]
      have hKept : Kept build g g₁ := by
        have hOld : g.role sid ≠ .diskLoose := by
          intro hOld
          have hSame := hSlot.frame.role sid (by rw [hOld]; simp [Role.owner])
          rw [← hg₁] at hSame
          exact hLoose ((g.become_self _ _).symm.trans (hSame.trans hOld))
        rw [← hg₁]
        exact (kept_become hOld hLoose).trans ⟨.refl _, rfl, fun _ => rfl⟩
      have hRole : ∀ x, x ≠ sid → g₁.role x = g.role x := by
        intro x hx
        rw [← hg₁]
        exact g.become_of_ne _ hx
      have hFlush : ∀ m, s.flush = some m → g₁.role m = .memFlush := fun m hm =>
        (hSlot.frame.role m (by rw [h.flush m hm]; simp [Role.owner])).trans (h.flush m hm)
      have hRest : ∀ x, x ≠ sid → (g₁.role x).Resting ∨ (g₁.role x = .memFlush ∧ s.flush = some x) := by
        intro x hx
        rw [hRole x hx]
        rcases h.rest x with hr | ⟨-, p, hp, -⟩ | hr
        · exact .inl hr
        · rw [hNone] at hp
          cases hp
        · exact .inr hr
      obtain ⟨found, hIndex, hRun⟩ := Execution.bind_eq_ok.mp hRun
      cases found with
      | some c₂ =>
          obtain ⟨rfl, rfl⟩ := Prod.mk.inj (Execution.pure_eq_ok.mp hRun)
          obtain ⟨hReindex, hView⟩ := hSlot.inv.putIndex hp hIndex
          obtain ⟨g', hStep⟩ := finishPut build hSlot.inv hp hFlush hRest hReindex hView
          refine ⟨g', ?_, hKept.trans hStep.kept, fun events hRec => ?_⟩
          · rw [hNone]
            exact hStep.inv
          · exact hStep.recorded events (hSlot.recorded hRec)
      | none =>
          obtain ⟨rfl, rfl⟩ := Prod.mk.inj (Execution.pure_eq_ok.mp hRun)
          refine ⟨g₁, ⟨hSlot.inv, hp, fun p hp' => ?_, hFlush, fun x => ?_⟩, hKept,
            fun events hRec => hSlot.recorded hRec⟩
          · obtain rfl := Option.some.inj hp'
            exact putIndex_none hIndex
          · by_cases hx : x = sid
            · subst x
              have hSelf : g₁.role sid = r := by
                rw [← hg₁]
                exact g.become_self _ _
              rw [hSelf]
              rcases hr with rfl | rfl
              · exact .inr (.inl ⟨rfl, _, rfl, rfl⟩)
              · exact .inl trivial
            · exact (hRest x hx).imp id .inr

theorem putResume (h : SysInv cfg s g) (hRun : s.putResume cfg = .ok (s', done)) :
    ∃ g', StepOk build cfg s g s' done g' := by
  obtain ⟨c, put, flush⟩ := s
  cases put with
  | none => cases hRun
  | some p =>
      simp only [Sys.putResume] at hRun
      split at hRun
      · cases hRun
      · rename_i c₁ hInsert
        obtain ⟨rfl, rfl⟩ := Prod.mk.inj (Except.ok.inj hRun)
        obtain ⟨hReindex, hView⟩ := h.inv.insertEntry h.pend (h.waiting p rfl) hInsert
        refine finishPut build h.inv h.pend h.flush (fun x hx => ?_) hReindex hView
        rcases h.rest x with hr | ⟨-, p', hp', hEq⟩ | hr
        · exact .inl hr
        · obtain rfl := Option.some.inj hp'
          exact absurd hEq.symm hx
        · exact .inr hr

theorem delete {key : Key} (h : SysInv cfg s g) (hRun : s.cache.delete build cfg key = .ok c') :
    ∃ g', StepOk build cfg s g { s with cache := c' } [.delete key] g' := by
  obtain ⟨hReindex, hView⟩ := h.inv.delete hRun
  refine ⟨_, ⟨hReindex.inv h.inv, h.pend, fun p hp => ?_, h.flush, h.rest⟩,
    ⟨.refl g, rfl, fun hb => by simp [hb]⟩, fun events hRec => hRec.delete h.inv hView⟩
  have hNone := hView p.key
  rw [viewSet, Cache.view, Cache.view, h.waiting p hp] at hNone
  simpa using hNone

/-! ### Flushing -/

/-- What the flush does to a slab that it does not hold. -/
theorem lookup_of_frame {w : Worker} (h : SysInv cfg s g) (hFrame : Frame cfg w s.cache g c' g')
    (hw : w ≠ .writer) (p : PendingPut) (hp : s.put = some p) :
    c'.index.getIndexEntry cfg p.key = none :=
  hFrame.lookup hw p.key (h.waiting p hp)

/-- The flush from the moment on when it holds a full memory slab. -/
theorem flushFrom {m : Nat} (h : SysInv cfg { s with flush := some m } g)
    (hRun : s.flushFrom build cfg m = .ok s') :
    ∃ g', StepOk build cfg { s with flush := some m } g s' [] g' := by
  have hm := h.flush m rfl
  unfold Sys.flushFrom at hRun
  obtain ⟨⟨found, c₁⟩, hSearch, hRun⟩ := Execution.bind_eq_ok.mp hRun
  have hFound := h.inv.takeFree hSearch
  cases found with
  | none =>
      obtain rfl := Execution.pure_eq_ok.mp hRun
      exact ⟨g, ⟨hFound.inv, h.pend, h.lookup_of_frame hFound.frame (by simp), h.flush, h.rest⟩,
        .refl build g, fun events hRec => hFound.recorded hRec⟩
  | some slab =>
      obtain ⟨d, channel⟩ := slab
      obtain ⟨c₂, hFinish, hRun⟩ := Execution.bind_eq_ok.mp hRun
      obtain rfl := Execution.pure_eq_ok.mp hRun
      obtain ⟨hd, hChannel, hTake⟩ := hFound
      have hne : m ≠ d := by
        rintro rfl
        rw [hm] at hd
        cases hd
      have hAll := hTake.trans (hTake.inv.finishFlush ((g.become_of_ne _ hne).trans hm)
        (g.become_self _ _) hChannel hFinish)
      refine ⟨_, ⟨hAll.inv, h.pend, h.lookup_of_frame hAll.frame (by simp), by simp, fun x => ?_⟩, ?_,
        fun events hRec => hAll.recorded hRec⟩
      · by_cases hxd : x = d
        · subst x
          rw [Ghost.become_self]
          exact .inl trivial
        · by_cases hxm : x = m
          · subst x
            rw [Ghost.become_of_ne _ _ hxd, Ghost.become_self]
            exact .inl trivial
          · rw [Ghost.become_of_ne _ _ hxd, Ghost.become_of_ne _ _ hxm, Ghost.become_of_ne _ _ hxd]
            rcases h.rest x with hr | hr | ⟨-, hEq⟩
            · exact .inl hr
            · exact .inr (.inl hr)
            · exact absurd (Option.some.inj hEq).symm hxm
      · refine ((kept_become (by simp [hd]) (by simp)).trans (kept_become ?_ (by simp))).trans
          (kept_become ?_ (by simp))
        · rw [g.become_of_ne _ hne, hm]
          simp
        · rw [Ghost.become_of_ne _ _ hne.symm, g.become_self]
          simp

/-- A flush has unlinked its memory slab. -/
theorem takeFull {m : Nat} (h : SysInv cfg s g) (hNone : s.flush = none)
    (hTake : s.cache.takeFull build = .ok (m, c')) :
    g.role m = .memFull ∧ Silent cfg .flush s.cache g c' (g.become m .memFlush) ∧
      SysInv cfg ⟨c', s.put, some m⟩ (g.become m .memFlush) := by
  obtain ⟨hRole, hSilent⟩ := h.inv.takeFull hTake
  refine ⟨hRole, hSilent, hSilent.inv, h.pend, h.lookup_of_frame hSilent.frame (by simp),
    fun m' hm' => ?_, fun x => ?_⟩
  · obtain rfl := Option.some.inj hm'
    exact g.become_self _ _
  · by_cases hx : x = m
    · subst x
      exact .inr (.inr ⟨g.become_self _ _, rfl⟩)
    · rw [g.become_of_ne _ hx]
      rcases h.rest x with hr | hr | ⟨-, hEq⟩
      · exact .inl hr
      · exact .inr (.inl hr)
      · rw [hNone] at hEq
        cases hEq

theorem flushStart (h : SysInv cfg s g) (hRun : s.flushStart build cfg = .ok s') :
    ∃ g', StepOk build cfg s g s' [] g' := by
  unfold Sys.flushStart at hRun
  by_cases hBusy : s.flush.isSome
  · simp only [if_pos hBusy] at hRun
    cases hRun
  simp only [if_neg hBusy] at hRun
  have hNone : s.flush = none := by simpa using hBusy
  obtain ⟨⟨m, c₁⟩, hTake, hRun⟩ := Execution.bind_eq_ok.mp hRun
  obtain ⟨hRole, hSilent, hTaken⟩ := h.takeFull hNone hTake
  obtain ⟨g', hStep⟩ := hTaken.flushFrom (s := { s with cache := c₁ }) hRun
  exact ⟨g', hStep.inv, (kept_become (by simp [hRole]) (by simp)).trans hStep.kept,
    fun events hRec => hStep.recorded events (hSilent.recorded hRec)⟩

theorem flushResume (h : SysInv cfg s g) (hRun : s.flushResume build cfg = .ok s') :
    ∃ g', StepOk build cfg s g s' [] g' := by
  obtain ⟨c, put, flush⟩ := s
  cases flush with
  | none => cases hRun
  | some m => exact h.flushFrom (s := ⟨c, put, some m⟩) hRun

/-! ### Collecting -/

theorem doSlabGc {fuel : Nat} (h : SysInv cfg s g)
    (hRun : s.cache.doSlabGc build cfg fuel = .ok c') :
    ∃ g', SysInv cfg { s with cache := c' } g' ∧ GcRound build cfg fuel s.cache g c' g' := by
  obtain ⟨g', hRound⟩ := h.inv.doSlabGc h.idle hRun
  refine ⟨g', ⟨hRound.inv, ?_, h.lookup_of_frame hRound.frame (by simp), fun m hm => ?_, fun x => ?_⟩,
    hRound⟩
  · rw [hRound.frame.pend (by simp)]
    exact h.pend
  · have hm' := h.flush m hm
    rw [hRound.frame.role m (by rw [hm']; simp [Role.owner])]
    exact hm'
  · rcases hRound.frame.handed x with hSame | hGc | hRest
    · rw [hSame]
      exact h.rest x
    · -- what the collector still owns after a round is at rest
      have hIdle := hRound.idle x
      generalize g'.role x = r at hGc hIdle
      refine .inl ?_
      cases r with
      | diskTaken w => exact absurd (Option.some.inj hGc ▸ trivial) hIdle
      | diskWritten w src => exact absurd (Option.some.inj hGc ▸ trivial) hIdle
      | diskCopy w src => exact absurd (Option.some.inj hGc ▸ trivial) hIdle
      | _ => first | exact trivial | exact absurd trivial hIdle | cases hGc
    · exact .inl hRest.resting

end SysInv

/-! ### Any operation -/

/-- What one operation guarantees about slabs, counters and use counts, under
conditions on the rounds of the collector. -/
structure Transition (build : Build) (cfg : Config) (s : Sys) (g : Ghost) (op : Op) (s' : Sys)
    (done : List Event) (g' : Ghost) : Prop where
  inv : SysInv cfg s' g'
  recorded : ∀ events, Recorded cfg s.cache events → Recorded cfg s'.cache (done ++ events)
  loose : s.OnGc (fun _ => KeepsSlabs) op → g.SameLoose g'
  lost : ¬s.OnGc (fun _ => KeepsSlabs) op → g.LosesOne g'
  drift : s.OnGc (fun _ => CollectsNone build cfg) op → g'.drift = g.drift
  exact : build = .debug → s.OnGc (DropsOwnKeys cfg) op → g'.exact = g.exact

theorem StepOk.transition {op : Op} (h : StepOk build cfg s g s' done g')
    (hOp : s.OnGc (fun _ => KeepsSlabs) op := by trivial) : Transition build cfg s g op s' done g' :=
  ⟨h.inv, h.recorded, fun _ => h.kept.loose, fun hNot => absurd hOp hNot, fun _ => h.kept.drift,
    fun hb _ => h.kept.exact hb⟩

theorem SysInv.step {op : Op} (h : SysInv cfg s g) (hRun : s.step build cfg op = .ok (s', done)) :
    ∃ g', Transition build cfg s g op s' done g' := by
  cases op with
  | put key value =>
      obtain ⟨g', hStep⟩ := h.putStart hRun
      exact ⟨g', hStep.transition⟩
  | putResume =>
      obtain ⟨g', hStep⟩ := h.putResume hRun
      exact ⟨g', hStep.transition⟩
  | delete key =>
      obtain ⟨c', hDelete, hRun⟩ := Execution.bind_eq_ok.mp hRun
      obtain ⟨rfl, rfl⟩ := Prod.mk.inj (Execution.pure_eq_ok.mp hRun)
      obtain ⟨g', hStep⟩ := h.delete hDelete
      exact ⟨g', hStep.transition⟩
  | get key =>
      obtain ⟨_, -, hRun⟩ := Execution.bind_eq_ok.mp hRun
      obtain ⟨rfl, rfl⟩ := Prod.mk.inj (Execution.pure_eq_ok.mp hRun)
      exact ⟨g, (StepOk.refl h).transition⟩
  | flush =>
      obtain ⟨s₁, hFlush, hRun⟩ := Execution.bind_eq_ok.mp hRun
      obtain ⟨rfl, rfl⟩ := Prod.mk.inj (Execution.pure_eq_ok.mp hRun)
      obtain ⟨g', hStep⟩ := h.flushStart hFlush
      exact ⟨g', hStep.transition⟩
  | flushResume =>
      obtain ⟨s₁, hFlush, hRun⟩ := Execution.bind_eq_ok.mp hRun
      obtain ⟨rfl, rfl⟩ := Prod.mk.inj (Execution.pure_eq_ok.mp hRun)
      obtain ⟨g', hStep⟩ := h.flushResume hFlush
      exact ⟨g', hStep.transition⟩
  | gc fuel =>
      obtain ⟨c', hGc, hRun⟩ := Execution.bind_eq_ok.mp hRun
      obtain ⟨rfl, rfl⟩ := Prod.mk.inj (Execution.pure_eq_ok.mp hRun)
      obtain ⟨g', hInv, hRound⟩ := h.doSlabGc hGc
      exact ⟨g', hInv, fun events hRec => hRec.mono hRound.view, hRound.loose, hRound.lost,
        hRound.drift, fun _ => hRound.exact⟩

/-! ### Runs -/

theorem SysInv.create (hCfg : cfg.Sound) (hRun : Cache.create build cfg = .ok c) :
    ∃ g, SysInv cfg (.idle c) g ∧ Fresh cfg c g := by
  obtain ⟨g, hFresh⟩ := create_fresh hCfg hRun
  exact ⟨g, ⟨hFresh.inv, hFresh.pend, by simp [Sys.idle], by simp [Sys.idle],
    fun x => .inl (hFresh.resting x).1.resting⟩, hFresh⟩

/-- What is true of new caches and preserved by operations that meet a condition
holds in every state that such operations reach. -/
theorem run_invariant {Q : Sys → Op → Prop} (R : Ghost → Prop) {ops : List Op}
    (hFresh : ∀ c g, Fresh cfg c g → R g)
    (hStep : ∀ s g op s' done g', Transition build cfg s g op s' done g' → Q s op → R g → R g')
    (hCfg : cfg.Sound) (hRun : Sys.start build cfg ops = .ok (s, events))
    (hAlong : Sys.StartAlong build cfg Q ops) :
    ∃ g, SysInv cfg s g ∧ Recorded cfg s.cache events ∧ R g := by
  obtain ⟨c, hCreate, hRun⟩ := Execution.bind_eq_ok.mp hRun
  rw [Sys.StartAlong, hCreate] at hAlong
  obtain ⟨g₀, hInv₀, hFresh₀⟩ := SysInv.create hCfg hCreate
  have hStart : ∃ g, SysInv cfg (.idle c) g ∧ Recorded cfg (Sys.idle c).cache [] ∧ R g := by
    refine ⟨g₀, hInv₀, fun key k v hView => ?_, hFresh c g₀ hFresh₀⟩
    have hNone := hFresh₀.view key
    rw [show (Sys.idle c).cache = c from rfl, hNone] at hView
    cases hView
  have hEnd := Runs.run_rule (P := fun s events => ∃ g, SysInv cfg s g ∧
    Recorded cfg s.cache events ∧ R g) ?_ hRun hAlong hStart
  · simpa using hEnd
  · rintro s op s' done events ⟨g, hInv, hRec, hR⟩ hQ hOp
    obtain ⟨g', hTrans⟩ := hInv.step hOp
    exact ⟨g', hTrans.inv, hTrans.recorded events hRec, hStep s g op s' done g' hTrans hQ hR⟩

/-- Without conditions. -/
theorem start_invariant {ops : List Op} (hCfg : cfg.Sound)
    (hRun : Sys.start build cfg ops = .ok (s, events)) :
    ∃ g, SysInv cfg s g ∧ Recorded cfg s.cache events := by
  obtain ⟨g, hInv, hRec, -⟩ := run_invariant (fun _ => True) (fun _ _ _ => trivial)
    (fun _ _ _ _ _ _ _ _ _ => trivial) hCfg hRun (Sys.startAlong_true ops)
  exact ⟨g, hInv, hRec⟩

end KVCache
