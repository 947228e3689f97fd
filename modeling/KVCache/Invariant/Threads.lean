import KVCache.Semantics.Threads
import KVCache.Invariant.Operations

/-! What each thread knows at its place in the code. A slab in the hands of a
thread has a role that only this thread can change, so what is known about it
survives the steps of the others. -/

namespace KVCache

variable {build : Build} {cfg : Config} {c c' : Cache} {g g' : Ghost} {w : Worker} {x d : Nat}

/-! ### What the other threads leave alone -/

namespace Role

theorem Collecting.owner {r : Role} (h : r.Collecting) : r.owner = some .gc := by
  cases r with
  | diskTaken w => cases w <;> first | rfl | exact h.elim
  | diskWritten w src => cases w <;> first | rfl | exact h.elim
  | diskCopy w src => cases w <;> first | rfl | exact h.elim
  | _ => first | rfl | exact h.elim

theorem Collecting.not_resting {r : Role} (h : r.Collecting) : ¬r.Resting := by
  cases r <;> first | exact id | exact h.elim

theorem Flushing.owner {r : Role} (h : r.Flushing) : r.owner = some .flush := by
  cases r with
  | diskTaken w => cases w <;> first | rfl | exact h.elim
  | diskWritten w src => cases w <;> first | rfl | exact h.elim
  | diskCopy w src => cases w <;> first | rfl | exact h.elim
  | _ => first | rfl | exact h.elim

theorem Flushing.not_resting {r : Role} (h : r.Flushing) : ¬r.Resting := by
  cases r <;> first | exact id | exact h.elim

theorem Freed.collecting {r : Role} (h : r.Freed) : r.Collecting := by
  cases r <;> trivial

end Role

namespace Frame

variable (h : Frame cfg w c g c' g')

include h

/-- A slab of another thread keeps its role. -/
theorem keep {w' : Worker} {r : Role} (hRole : g.role x = r)
    (hOwner : r.owner = some w' := by rfl) (hw : w ≠ w' := by decide) : g'.role x = r := by
  rw [h.role x, hRole]
  rw [hRole, hOwner]
  exact fun hEq => hw (Option.some.inj hEq).symm

theorem channel_eq : g'.channel cfg x = g.channel cfg x := by
  rw [Ghost.channel, Ghost.channel, h.block]

variable (hw : w ≠ .gc)

include hw

/-- No other thread starts or ends what the collector does. -/
theorem collecting : (g'.role x).Collecting ↔ (g.role x).Collecting := by
  constructor
  · intro hNew
    rcases h.handed x with hSame | hOwner | hRest
    · rwa [hSame] at hNew
    · rw [hNew.owner] at hOwner
      exact absurd (Option.some.inj hOwner).symm hw
    · exact absurd hRest.resting hNew.not_resting
  · intro hOld
    rw [h.keep rfl hOld.owner hw]
    exact hOld

theorem role_of_collecting (hx : (g'.role x).Collecting) : g'.role x = g.role x :=
  h.keep rfl ((h.collecting hw).mp hx).owner hw

theorem gcIdle (hIdle : g.GcIdle) : g'.GcIdle := fun x hx => hIdle x ((h.collecting hw).mp hx)

theorem freeList {freeList : Table SlabList} (hList : FreeList cfg g freeList) :
    FreeList cfg g' freeList := by
  refine hList.congr h.block fun x => ⟨fun hx => ?_, fun hx => ?_⟩
  · rwa [← h.role_of_collecting hw hx.collecting]
  · rwa [h.keep rfl hx.collecting.owner hw]

/-- Candidates stay candidates. -/
theorem batch {k : Nat} {ds : List Nat} (hBatch : Batch c g k ds) : Batch c' g' k ds := by
  refine ⟨hBatch.nodup, fun x hx => h.keep (hBatch.full x hx) rfl hw, fun x hx => ?_⟩
  have hOwner : (g.role x).owner ≠ some w := by
    rw [hBatch.full x hx]
    exact fun hEq => hw (Option.some.inj hEq).symm
  rw [(h.same x hOwner).cid]
  exact hBatch.cid x hx

/-- Counts that were added up can only be too high later. -/
theorem usedSum_le {ds : List Nat} (hOwner : ∀ x ∈ ds, (g.role x).owner = some .gc) :
    c'.usedSum ds ≤ c.usedSum ds := by
  refine List.sum_le_sum fun x hx => h.nrUsed x ?_
  rw [hOwner x hx]
  exact fun hEq => hw (Option.some.inj hEq).symm

theorem same_of_role {r : Role} (hRole : g.role x = r) (hOwner : r.owner = some .gc) :
    (c.slabs x).Same (c'.slabs x) := by
  refine h.same x ?_
  rw [hRole, hOwner]
  exact fun hEq => hw (Option.some.inj hEq).symm

end Frame

/-! ### The writer -/

/-- What the writer knows. -/
def WriterOk (cfg : Config) (c : Cache) (g : Ghost) : WriterAt → Prop
  | .idle => g.pend = none
  | .written p => g.pend = some p
  | .waiting p => g.pend = some p ∧ c.index.getIndexEntry cfg p.key = none
  | .indexed sid => g.pend = none ∧ (g.role sid = .memWriter ∨ ∃ k, g.role sid = .memPartial k)

theorem WriterOk.stable {a : WriterAt} (h : WriterOk cfg c g a) (hFrame : Frame cfg w c g c' g')
    (hw : w ≠ .writer) : WriterOk cfg c' g' a := by
  cases a with
  | idle => exact (hFrame.pend hw).trans h
  | written p => exact (hFrame.pend hw).trans h
  | waiting p => exact ⟨(hFrame.pend hw).trans h.1, hFrame.lookup hw p.key h.2⟩
  | indexed sid =>
      refine ⟨(hFrame.pend hw).trans h.1, ?_⟩
      rcases h.2 with hRole | ⟨k, hRole⟩
      · exact .inl (hFrame.keep hRole rfl hw)
      · exact .inr ⟨k, hFrame.keep hRole rfl hw⟩

/-- The slab in which the writer has taken its last slot. -/
def WriterAt.slab : WriterAt → Option Nat
  | .idle => none
  | .written p | .waiting p => some p.sid
  | .indexed sid => some sid

/-- What the writer holds: a class has at most one partial slab, which is not
empty, and none while the writer holds the last one of the class. -/
structure WriterHolds (cfg : Config) (c : Cache) (g : Ghost) (a : WriterAt) : Prop where
  single : ∀ k x y, g.role x = .memPartial k → g.role y = .memPartial k → x = y
  opened : ∀ k x, g.role x = .memPartial k → 1 ≤ (c.slabs x).nrAlloc
  selected : ∀ k x, g.role x = .memPartial k → cfg.Selects k
  slab : ∀ x, g.role x = .memWriter → a.slab = some x
  closed : ∀ (k : Nat) x y, g.role x = .memWriter → (c.slabs x).cid = k → g.role y ≠ .memPartial k

namespace WriterHolds

variable {a a' : WriterAt}

/-- What only looks at the writer's slabs can be carried over. -/
theorem congr (h : WriterHolds cfg c g a)
    (hPartial : ∀ x k, g'.role x = .memPartial k → g.role x = .memPartial k)
    (hWriter : ∀ x, g'.role x = .memWriter → g.role x = .memWriter)
    (hSame : ∀ x, (g.role x).owner = some .writer → (c.slabs x).Same (c'.slabs x))
    (hSlab : a'.slab = a.slab) : WriterHolds cfg c' g' a' where
  single := fun k x y hx hy => h.single k x y (hPartial x k hx) (hPartial y k hy)
  opened := fun k x hx => by
    have hRole := hPartial x k hx
    rw [(hSame x (by rw [hRole]; rfl)).nrAlloc]
    exact h.opened k x hRole
  selected := fun k x hx => h.selected k x (hPartial x k hx)
  slab := fun x hx => hSlab.trans (h.slab x (hWriter x hx))
  closed := fun k x y hx hCid hy => by
    have hRole := hWriter x hx
    rw [(hSame x (by rw [hRole]; rfl)).cid] at hCid
    exact h.closed k x y hRole hCid (hPartial y k hy)

theorem stable (h : WriterHolds cfg c g a) (hFrame : Frame cfg w c g c' g') (hw : w ≠ .writer) :
    WriterHolds cfg c' g' a := by
  refine h.congr (fun x k hx => ?_) (fun x hx => ?_) (fun x hx => hFrame.same x ?_) rfl
  · rcases hFrame.handed x with hSame | hOwner | hShared
    · exact hSame ▸ hx
    · rw [hx] at hOwner
      exact absurd (Option.some.inj hOwner).symm hw
    · rw [hx] at hShared
      exact hShared.elim
  · rcases hFrame.handed x with hSame | hOwner | hShared
    · exact hSame ▸ hx
    · rw [hx] at hOwner
      exact absurd (Option.some.inj hOwner).symm hw
    · rw [hx] at hShared
      exact hShared.elim
  · rw [hx]
    exact fun hEq => hw (Option.some.inj hEq).symm

theorem reindex (h : WriterHolds cfg c g a) (hReindex : Reindex cfg c g c' g')
    (hSlab : a'.slab = a.slab) : WriterHolds cfg c' g' a' :=
  h.congr (fun _ _ hx => hReindex.role ▸ hx) (fun _ hx => hReindex.role ▸ hx)
    (fun x _ => hReindex.same x) hSlab

/-- The writer takes a slot. -/
theorem putSlot {p : PendingPut} {k : Nat} {r : Role} (h : WriterHolds cfg c g .idle)
    (hTaken : Inv.SlotTaken cfg c g c' p.sid k r) (hAlloc : p.slotId < (c'.slabs p.sid).nrAlloc) :
    WriterHolds cfg c' { g.become p.sid r with pend := some p } (.written p) := by
  have hNone : ∀ x, g.role x ≠ .memWriter := fun x hx => by cases h.slab x hx
  have hSelf : (g.become p.sid r).role p.sid = r := g.become_self _ _
  have hOther : ∀ y, y ≠ p.sid → (g.become p.sid r).role y = g.role y :=
    fun y hy => g.become_of_ne _ hy
  -- no other slab of the class is partial
  have hOnly : ∀ y, y ≠ p.sid → g.role y ≠ .memPartial k := by
    intro y hy hRole
    rcases hTaken.before with hPartial | ⟨-, hEmpty⟩
    · exact hy (h.single k y p.sid hRole hPartial)
    · exact hEmpty y hRole
  have hClass : ∀ k', r = .memPartial k' → k' = k := by
    intro k' hr
    rcases hTaken.after with hWriter | hPartial
    · rw [hWriter] at hr
      cases hr
    · exact Role.memPartial.inj (hr.symm.trans hPartial)
  constructor
  case single =>
    intro k' x y hx hy
    dsimp only at hx hy
    by_cases hxs : x = p.sid <;> by_cases hys : y = p.sid
    · exact hxs.trans hys.symm
    · rw [hxs, hSelf] at hx
      rw [hOther y hys, hClass k' hx] at hy
      exact absurd hy (hOnly y hys)
    · rw [hys, hSelf] at hy
      rw [hOther x hxs, hClass k' hy] at hx
      exact absurd hx (hOnly x hxs)
    · rw [hOther x hxs] at hx
      rw [hOther y hys] at hy
      exact h.single k' x y hx hy
  case opened =>
    intro k' x hx
    by_cases hxs : x = p.sid
    · rw [hxs]
      exact Nat.lt_of_le_of_lt (Nat.zero_le _) hAlloc
    · rw [hTaken.other x hxs]
      exact h.opened k' x ((hOther x hxs).symm.trans hx)
  case selected =>
    intro k' x hx
    by_cases hxs : x = p.sid
    · rw [hxs] at hx
      rw [hClass k' (hSelf.symm.trans hx)]
      exact hTaken.selected
    · exact h.selected k' x ((hOther x hxs).symm.trans hx)
  case slab =>
    intro x hx
    by_cases hxs : x = p.sid
    · exact congrArg some hxs.symm
    · exact absurd ((hOther x hxs).symm.trans hx) (hNone x)
  case closed =>
    intro k' x y hx hCid hy
    dsimp only at hx hy
    by_cases hxs : x = p.sid
    · have hk : k' = k := by
        rw [hxs, hTaken.cid] at hCid
        exact Int.ofNat.inj hCid.symm
      by_cases hys : y = p.sid
      · rw [hxs, hSelf] at hx
        rw [hys, hSelf, hx] at hy
        cases hy
      · rw [hOther y hys, hk] at hy
        exact hOnly y hys hy
    · exact hNone x ((hOther x hxs).symm.trans hx)

/-- The writer hands its slab over, or it is still partial. -/
theorem putFull {sid : Nat} {r : Role} (h : WriterHolds cfg c g (.indexed sid))
    (hr : r = .memFull ∨ ∃ k, g.role sid = .memPartial k ∧ r = .memPartial k)
    (hSlabs : c'.slabs = c.slabs) : WriterHolds cfg c' (g.become sid r) .idle := by
  have hPartial : ∀ x k, (g.become sid r).role x = .memPartial k → g.role x = .memPartial k := by
    intro x k hx
    by_cases hxs : x = sid
    · rw [hxs, g.become_self] at hx
      rcases hr with hFull | ⟨k', hRole, hr⟩
      · rw [hFull] at hx
        cases hx
      · rw [hxs, hRole, ← hr, hx]
    · rwa [g.become_of_ne _ hxs] at hx
  have hNone : ∀ x, (g.become sid r).role x ≠ .memWriter := by
    intro x hx
    by_cases hxs : x = sid
    · rw [hxs, g.become_self] at hx
      rcases hr with hFull | ⟨k, -, hr⟩
      · rw [hFull] at hx
        cases hx
      · rw [hr] at hx
        cases hx
    · rw [g.become_of_ne _ hxs] at hx
      exact hxs (Option.some.inj (h.slab x hx)).symm
  exact
    { single := fun k x y hx hy => h.single k x y (hPartial x k hx) (hPartial y k hy)
      opened := fun k x hx => hSlabs ▸ h.opened k x (hPartial x k hx)
      selected := fun k x hx => h.selected k x (hPartial x k hx)
      slab := fun x hx => absurd hx (hNone x)
      closed := fun _ x _ hx => absurd hx (hNone x) }

end WriterHolds

/-! ### The flush thread -/

/-- The two slabs of a flush, and the channel of the second one. -/
def FlushPair (cfg : Config) (g : Ghost) (m : Nat) (r : Role) (d : Nat) (r' : Role)
    (channel : Nat) : Prop :=
  g.role m = r ∧ g.role d = r' ∧ g.channel cfg d = channel

/-- The slabs of a flush. -/
def FlushAt.slabs : FlushAt → List Nat
  | .idle => []
  | .holding m => [m]
  | .found m d _ | .written m d _ | .copied m d _ | .moved m d _ | .reset m d _ => [m, d]
  | .freed d _ => [d]

/-- The flush thread holds no other slabs than these. -/
def FlushHolds (g : Ghost) (held : List Nat) : Prop := ∀ x, (g.role x).Flushing → x ∈ held

namespace FlushHolds

variable {held held' : List Nat}

theorem become {r : Role} (h : FlushHolds g held) (hNew : r.Flushing → x ∈ held')
    (hOld : ∀ y ∈ held, y ≠ x → y ∈ held') : FlushHolds (g.become x r) held' := by
  intro y hy
  by_cases hyx : y = x
  · rw [hyx, g.become_self] at hy
    rw [hyx]
    exact hNew hy
  · rw [g.become_of_ne _ hyx] at hy
    exact hOld y (h y hy) hyx

theorem stable (h : FlushHolds g held) (hFrame : Frame cfg w c g c' g') (hw : w ≠ .flush) :
    FlushHolds g' held := by
  intro x hx
  refine h x ?_
  rcases hFrame.handed x with hSame | hOwner | hShared
  · exact hSame ▸ hx
  · rw [hx.owner] at hOwner
    exact absurd (Option.some.inj hOwner).symm hw
  · exact absurd hShared.resting hx.not_resting

end FlushHolds

/-- What the flush thread knows. -/
def FlushOk (cfg : Config) (g : Ghost) : FlushAt → Prop
  | .idle => True
  | .holding m => g.role m = .memFlush
  | .found m d channel => FlushPair cfg g m .memFlush d (.diskTaken .flush) channel
  | .written m d channel => FlushPair cfg g m (.memSource d) d (.diskWritten .flush m) channel
  | .copied m d channel => FlushPair cfg g m (.memSource d) d (.diskCopy .flush m) channel
  | .moved m d channel => FlushPair cfg g m .memDone d .diskFilled channel
  | .reset m d channel => FlushPair cfg g m .memReset d .diskFilled channel
  | .freed d channel => g.role d = .diskFilled ∧ g.channel cfg d = channel

theorem FlushPair.stable {m channel : Nat} {r r' : Role} (h : FlushPair cfg g m r d r' channel)
    (hFrame : Frame cfg w c g c' g') (hw : w ≠ .flush) (hr : r.owner = some .flush := by rfl)
    (hr' : r'.owner = some .flush := by rfl) : FlushPair cfg g' m r d r' channel :=
  ⟨hFrame.keep h.1 hr hw, hFrame.keep h.2.1 hr' hw, hFrame.channel_eq.trans h.2.2⟩

theorem FlushOk.stable {a : FlushAt} (h : FlushOk cfg g a) (hFrame : Frame cfg w c g c' g')
    (hw : w ≠ .flush) : FlushOk cfg g' a := by
  cases a with
  | idle => trivial
  | holding m => exact hFrame.keep h rfl hw
  | found m d channel => exact FlushPair.stable h hFrame hw
  | written m d channel => exact FlushPair.stable h hFrame hw
  | copied m d channel => exact FlushPair.stable h hFrame hw
  | moved m d channel => exact FlushPair.stable h hFrame hw
  | reset m d channel => exact FlushPair.stable h hFrame hw
  | freed d channel => exact ⟨hFrame.keep h.1 rfl hw, hFrame.channel_eq.trans h.2⟩

/-- Every step of the flush thread is silent. -/
theorem FlushOk.step {a a' : FlushAt} (h : FlushOk cfg g a) (hInv : Inv cfg c g)
    (hRun : Threads.stepFlush build cfg c a = .ok (c', a')) :
    ∃ g', Silent cfg .flush c g c' g' ∧ FlushOk cfg g' a' ∧
      (FlushHolds g a.slabs → FlushHolds g' a'.slabs) := by
  have hWriter : Worker.flush ≠ .writer := by simp
  cases a with
  | idle =>
      simp only [Threads.stepFlush, Execution.bind_eq_ok, Execution.pure_eq_ok] at hRun
      obtain ⟨⟨m, c₁⟩, hTake, hEnd⟩ := hRun
      obtain ⟨rfl, rfl⟩ := Prod.mk.inj hEnd
      exact ⟨_, (hInv.takeFull hTake).2, g.become_self m _,
        fun hHolds => hHolds.become (by simp [FlushAt.slabs]) (by simp [FlushAt.slabs])⟩
  | holding m =>
      simp only [Threads.stepFlush, Execution.bind_eq_ok] at hRun
      obtain ⟨⟨found, c₁⟩, hTake, hEnd⟩ := hRun
      have hFound := hInv.takeFree hTake
      cases found with
      | none =>
          obtain ⟨rfl, rfl⟩ := Prod.mk.inj (Execution.pure_eq_ok.mp hEnd)
          exact ⟨g, hFound, h, id⟩
      | some found =>
          obtain ⟨d, channel⟩ := found
          obtain ⟨rfl, rfl⟩ := Prod.mk.inj (Execution.pure_eq_ok.mp hEnd)
          obtain ⟨hFree, hChannel, hSilent⟩ := hFound
          have hne := g.ne_of_role h hFree
          exact ⟨_, hSilent, ⟨(g.become_of_ne _ hne).trans h, g.become_self d _, hChannel⟩,
            fun hHolds => hHolds.become (by simp [FlushAt.slabs]) (by simp [FlushAt.slabs])⟩
  | found m d channel =>
      obtain ⟨rfl, rfl⟩ := Prod.mk.inj (Except.ok.inj hRun)
      obtain ⟨hm, hd, hChannel⟩ := h
      have hne := g.ne_of_role hm hd
      refine ⟨_, hInv.writeBlock hWriter hm hd, ⟨?_, Ghost.become_self _ _ _, hChannel⟩,
        fun hHolds => ?_⟩
      · rw [Ghost.become_of_ne _ _ hne, Ghost.become_self]
        rfl
      · have hSource : FlushHolds (g.become m (.memSource d)) [m, d] :=
          hHolds.become (by simp) (by simp [FlushAt.slabs])
        exact hSource.become (by simp [FlushAt.slabs]) (by simp [FlushAt.slabs])
  | written m d channel =>
      obtain ⟨rfl, rfl⟩ := Prod.mk.inj (Except.ok.inj hRun)
      obtain ⟨hm, hd, hChannel⟩ := h
      have hne := g.ne_of_role hm hd
      exact ⟨_, hInv.copyHeader hWriter hd,
        ⟨(g.become_of_ne _ hne).trans hm, g.become_self d _, hChannel⟩,
        fun hHolds => hHolds.become (by simp [FlushAt.slabs]) (by simp [FlushAt.slabs])⟩
  | copied m d channel =>
      simp only [Threads.stepFlush, Execution.bind_eq_ok, Execution.pure_eq_ok] at hRun
      obtain ⟨_, -, _, -, hEnd⟩ := hRun
      obtain ⟨rfl, rfl⟩ := Prod.mk.inj hEnd
      obtain ⟨hm, hd, hChannel⟩ := h
      have hne := g.ne_of_role hm hd
      refine ⟨_, hInv.modifyIndexTo hWriter hm hd, ⟨?_, Ghost.become_self _ _ _, hChannel⟩,
        fun hHolds => ?_⟩
      · rw [Ghost.become_of_ne _ _ hne, Ghost.become_self]
        rfl
      · have hSource : FlushHolds (g.become m .memDone) [m, d] :=
          hHolds.become (by simp) (by simp [FlushAt.slabs])
        exact hSource.become (by simp [FlushAt.slabs]) (by simp [FlushAt.slabs])
  | moved m d channel =>
      obtain ⟨rfl, rfl⟩ := Prod.mk.inj (Except.ok.inj hRun)
      obtain ⟨hm, hd, hChannel⟩ := h
      have hne := g.ne_of_role hd hm
      exact ⟨_, hInv.resetFlushed hm,
        ⟨g.become_self m _, (g.become_of_ne _ hne).trans hd, hChannel⟩,
        fun hHolds => hHolds.become (by simp [FlushAt.slabs]) (by simp [FlushAt.slabs])⟩
  | reset m d channel =>
      obtain ⟨rfl, rfl⟩ := Prod.mk.inj (Except.ok.inj hRun)
      obtain ⟨hm, hd, hChannel⟩ := h
      have hne := g.ne_of_role hd hm
      exact ⟨_, hInv.linkMslabFree hm, ⟨(g.become_of_ne _ hne).trans hd, hChannel⟩,
        fun hHolds => hHolds.become False.elim (by simp [FlushAt.slabs])⟩
  | freed d channel =>
      obtain ⟨rfl, rfl⟩ := Prod.mk.inj (Except.ok.inj hRun)
      obtain ⟨hd, rfl⟩ := h
      exact ⟨_, hInv.linkDslabFull hd, trivial,
        fun hHolds => hHolds.become False.elim (by simp [FlushAt.slabs])⟩

end KVCache
