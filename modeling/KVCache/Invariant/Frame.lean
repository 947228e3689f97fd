import KVCache.Invariant.Coherence

/-! What one thread may rely on while others run, and the rule for steps that
leave the index alone: such a step touches a few slabs that belong to its
thread, and only these have to be looked at. -/

namespace KVCache

variable {cfg : Config} {c c' c'' : Cache} {g g' g'' : Ghost} {w : Worker} {x y : Nat}

/-- What a step of one thread guarantees to the others: slabs that are not its
own keep their role, their slots and their block, their use counts do not grow,
and a slab is handed over only by way of a list. -/
structure Frame (cfg : Config) (w : Worker) (c : Cache) (g : Ghost) (c' : Cache) (g' : Ghost) :
    Prop where
  block : g'.block = g.block
  role : ∀ x, (g.role x).owner ≠ some w → g'.role x = g.role x
  handed : ∀ x, g'.role x = g.role x ∨ (g'.role x).owner = some w ∨ (g'.role x).Shared
  same : ∀ x, (g.role x).owner ≠ some w → (c.slabs x).Same (c'.slabs x)
  nrUsed : ∀ x, (g.role x).owner ≠ some w → (c'.slabs x).nrUsed ≤ (c.slabs x).nrUsed
  stored : ∀ x, (g.role x).owner ≠ some w → (g.role x).Stored → c'.block x = c.block x
  pend : w ≠ .writer → g'.pend = g.pend
  lookup : w ≠ .writer → ∀ key, c.index.getIndexEntry cfg key = none →
    c'.index.getIndexEntry cfg key = none

theorem Frame.refl : Frame cfg w c g c g :=
  ⟨rfl, fun _ _ => rfl, fun _ => .inl rfl, fun _ _ => .refl _, fun _ _ => Int.le_refl _,
    fun _ _ _ => rfl, fun _ => rfl, fun _ _ h => h⟩

theorem Frame.trans (h : Frame cfg w c g c' g') (h' : Frame cfg w c' g' c'' g'') :
    Frame cfg w c g c'' g'' where
  block := h'.block.trans h.block
  role := fun x hx => (h'.role x (by rwa [h.role x hx])).trans (h.role x hx)
  handed := fun x => by
    rcases h'.handed x with hSame | hHanded
    · rw [hSame]
      exact h.handed x
    · exact .inr hHanded
  same := fun x hx => (h.same x hx).trans (h'.same x (by rwa [h.role x hx]))
  nrUsed := fun x hx => (h'.nrUsed x (by rwa [h.role x hx])).trans (h.nrUsed x hx)
  stored := fun x hx hStored =>
    (h'.stored x (by rwa [h.role x hx]) (by rwa [h.role x hx])).trans (h.stored x hx hStored)
  pend := fun hw => (h'.pend hw).trans (h.pend hw)
  lookup := fun hw key hNone => h'.lookup hw key (h.lookup hw key hNone)

theorem Frame.with_exact (h : Frame cfg w c g c' g') (b : Bool) :
    Frame cfg w c g c' { g' with exact := b } :=
  ⟨h.block, h.role, h.handed, h.same, h.nrUsed, h.stored, h.pend, h.lookup⟩

/-- A step that keeps the invariant and that no lookup notices. -/
structure Silent (cfg : Config) (w : Worker) (c : Cache) (g : Ghost) (c' : Cache) (g' : Ghost) :
    Prop where
  inv : Inv cfg c' g'
  frame : Frame cfg w c g c' g'
  view : ∀ key, c'.view cfg key = c.view cfg key
  exact : g'.exact = g.exact

theorem Silent.refl (hInv : Inv cfg c g) : Silent cfg w c g c g :=
  ⟨hInv, .refl, fun _ => rfl, rfl⟩

theorem Silent.trans (h : Silent cfg w c g c' g') (h' : Silent cfg w c' g' c'' g'') :
    Silent cfg w c g c'' g'' :=
  ⟨h'.inv, h.frame.trans h'.frame, fun key => (h'.view key).trans (h.view key),
    h'.exact.trans h.exact⟩

namespace Inv

theorem sid_eq (h : Inv cfg c g) (hx : x < cfg.nrSlab) : (c.slabs x).sid = x := (h.slab x).sid hx

theorem lt_of_role (h : Inv cfg c g) (hRole : g.role x ≠ .outside) : x < cfg.nrSlab := by
  have hRange := (h.slab x).range
  have hMemory := h.config.memory
  cases hr : g.role x <;>
    simp_all only [Role.InRange, Config.nrSlab, Config.gcBuffer, ne_eq, not_true_eq_false] <;> omega

theorem refs_of_dead {r : Role} (h : Inv cfg c g) (hRole : g.role x = r) (hDead : r.Dead) :
    c.index.refs x = 0 :=
  (h.slab x).dead (hRole ▸ hDead)

theorem alive_of_refs (h : Inv cfg c g) (hx : c.index.refs x ≠ 0) : ¬(g.role x).Dead :=
  fun hDead => hx ((h.slab x).dead hDead)

theorem lt_of_refs (h : Inv cfg c g) (hx : c.index.refs x ≠ 0) : x < cfg.nrSlab :=
  h.lt_of_role fun hRole => h.alive_of_refs hx (by rw [hRole]; trivial)

/-- A slab has a block exactly when it is a disk slab. -/
theorem blockId_eq_iff (h : Inv cfg c g) (hx : x < cfg.nrSlab) :
    (c.slabs x).blockId = -1 ↔ x < cfg.nrMslab := by
  rw [(h.slab x).blockId]
  refine ⟨fun hBlock => ?_, h.geometry.memory x⟩
  by_contra hDisk
  have := h.geometry.disk x (by omega) hx
  omega

/-- A disk slab that is referenced has its block in use. -/
theorem stored_of_refs (h : Inv cfg c g) (hDisk : (c.slabs x).blockId ≠ -1)
    (hx : c.index.refs x ≠ 0) : (g.role x).Stored := by
  have hLt := h.lt_of_refs hx
  rw [ne_eq, h.blockId_eq_iff hLt, Nat.not_lt] at hDisk
  have hOnDisk := h.onDisk ⟨hDisk, hLt⟩
  have hAlive := h.alive_of_refs hx
  generalize g.role x = r at hOnDisk hAlive
  cases r <;> trivial

end Inv

/-- The slots that entries point to keep their objects. -/
def KeepsSlots (c c' : Cache) : Prop :=
  ∀ x, c.index.refs x ≠ 0 → (c.slabs x).nrAlloc ≤ (c'.slabs x).nrAlloc ∧
    ∀ i < (c.slabs x).nrAlloc, c'.slotAt x i = c.slotAt x i

theorem Inv.keeps_entry (h : Inv cfg c g) (hKeep : KeepsSlots c c') {e : Nat}
    (he : e ∈ c.index.indexed) :
    c'.slotAt (c.index.entries e).slabId (c.index.entries e).slotId =
      c.slotAt (c.index.entries e).slabId (c.index.entries e).slotId :=
  (hKeep _ (Nat.pos_iff_ne_zero.mp (Index.refs_pos he))).2 _ (h.index.inside e he)

/-- With the index unchanged and all objects in place, no lookup changes. -/
theorem Inv.view_of_keeps (h : Inv cfg c g) (hIndex : c'.index = c.index)
    (hKeep : KeepsSlots c c') (key : Key) : c'.view cfg key = c.view cfg key := by
  simp only [Cache.view, hIndex]
  cases hGet : c.index.getIndexEntry cfg key with
  | none => rfl
  | some e => simp only [Option.map_some, h.keeps_entry hKeep (h.index.indexed_of_get hGet)]

theorem Inv.index_of_keeps (h : Inv cfg c g) (hIndex : c'.index = c.index)
    (hKeep : KeepsSlots c c') :
    c'.index.Ok cfg (fun x i => (c'.slotAt x i).1) (fun x => (c'.slabs x).nrAlloc) := by
  rw [hIndex]
  exact h.index.congr (fun e he => congrArg Prod.fst (h.keeps_entry hKeep he))
    fun e he => (hKeep _ (Nat.pos_iff_ne_zero.mp (Index.refs_pos he))).1

/-- A slab that a step does not touch stays in order. -/
theorem SlabOk.congr (h : SlabOk cfg c g x) (hRole : g'.role x = g.role x)
    (hGeometry : g'.block = g.block) (hSame : (c.slabs x).Same (c'.slabs x))
    (hBlock : (g.role x).Stored → c'.block x = c.block x)
    (hSource : ∀ src, (g.role x).src = some src →
      (c.slabs src).Same (c'.slabs src) ∧ g'.role src = g.role src)
    (hBound : (c'.slabs x).nrUsed ≤ (c.slabs x).nrUsed)
    (hCounts : (c'.index.refs x : Int) + g'.pending x ≤ (c'.slabs x).nrUsed)
    (hExact : g'.exact → ¬(g.role x).Copying →
      (c'.slabs x).nrUsed = (c'.index.refs x : Int) + g'.pending x)
    (hDead : (g.role x).Dead → c'.index.refs x = 0) : SlabOk cfg c' g' x where
  range := hRole ▸ h.range
  sid := fun hx => hSame.sid.trans (h.sid hx)
  blockId := by rw [hSame.blockId, h.blockId, hGeometry]
  shape := hRole ▸ h.shape.congr hSame hBlock fun src hSrc => (hSource src hSrc).1
  source := fun src hSrc => by
    rw [hRole] at hSrc
    rw [(hSource src hSrc).2]
    exact h.source src hSrc
  bounds := by
    rw [hSame.nrAlloc, hSame.nrSlots]
    exact ⟨hBound.trans h.bounds.1, h.bounds.2⟩
  counts := hCounts
  exact := fun hg hCopy => hExact hg (hRole ▸ hCopy)
  dead := fun hr => hDead (hRole ▸ hr)

theorem SlabOk.nrUsed_nonneg (h : SlabOk cfg c g x) : 0 ≤ (c.slabs x).nrUsed := by
  have := h.counts
  omega

/-- A slab with the same header and another role. -/
theorem SlabOk.rerole (h : SlabOk cfg c g x) (hSlab : c'.slabs x = c.slabs x)
    (hIndex : c'.index = c.index) (hBlock : g'.block = g.block)
    (hPending : g'.pending x = g.pending x) (hExact : g'.exact = g.exact)
    (hCopy : ¬(g.role x).Copying) (hRange : (g'.role x).InRange cfg x)
    (hShape : Shape cfg c' x (g'.role x))
    (hSource : ∀ src, (g'.role x).src = some src →
      g'.role src = .memSource x ∨ g'.role src = .bufferSource x)
    (hDead : (g'.role x).Dead → c.index.refs x = 0) : SlabOk cfg c' g' x where
  range := hRange
  sid := by rw [hSlab]; exact h.sid
  blockId := by rw [hSlab, hBlock]; exact h.blockId
  shape := hShape
  source := hSource
  bounds := by rw [hSlab]; exact h.bounds
  counts := by rw [hSlab, hIndex, hPending]; exact h.counts
  exact := by
    rw [hSlab, hIndex, hPending, hExact]
    exact fun hg _ => h.exact hg hCopy
  dead := by rw [hIndex]; exact hDead

theorem PendOk.congr {p : PendingPut} (h : PendOk c g p) (hRole : g'.role p.sid = g.role p.sid)
    (hSlab : (c.slabs p.sid).Same (c'.slabs p.sid))
    (hMemory : (c.slabs p.sid).blockId = -1) : PendOk c' g' p where
  role := by rw [hRole]; exact h.role
  alloc := by rw [hSlab.nrAlloc]; exact h.alloc
  slot := by
    rw [Cache.slotAt_congr hSlab fun hDisk => absurd hMemory hDisk]
    exact h.slot

theorem PendOk.owner {p : PendingPut} (h : PendOk c g p) :
    (g.role p.sid).owner = some .writer := by
  rcases h.role with ⟨k, hRole⟩ | hRole <;> rw [hRole] <;> rfl

/-- The slab of a waiting `Put` is a memory slab. -/
theorem Inv.pend_memory (h : Inv cfg c g) {p : PendingPut} (hp : g.pend = some p) :
    (c.slabs p.sid).blockId = -1 := by
  have hRange := (h.slab p.sid).range
  have hMemory := h.config.memory
  have hLt : p.sid < cfg.nrMslab := by
    rcases (h.pend p hp).role with ⟨k, hRole⟩ | hRole <;> rw [hRole] at hRange <;>
      simp only [Role.InRange, Config.gcBuffer] at hRange <;> omega
  exact (h.blockId_eq_iff (by simp only [Config.nrSlab]; omega)).mpr hLt

/-- A waiting `Put` does not notice the steps of other threads. -/
theorem Inv.pend_of_frame (h : Inv cfg c g) (hFrame : Frame cfg w c g c' g') (hw : w ≠ .writer)
    (p : PendingPut) (hp : g'.pend = some p) : PendOk c' g' p := by
  rw [hFrame.pend hw] at hp
  have hPend := h.pend p hp
  have hOwner : (g.role p.sid).owner ≠ some w := by
    rw [hPend.owner]
    exact fun hEq => hw (Option.some.inj hEq).symm
  exact hPend.congr (hFrame.role _ hOwner) (hFrame.same _ hOwner) (h.pend_memory hp)

/-- A step with the index unchanged, by the slabs that it touches. A slab that
is the source of an image is touched only together with its destination. -/
structure Touch (cfg : Config) (w : Worker) (touched : List Nat) (c : Cache) (g : Ghost)
    (c' : Cache) (g' : Ghost) : Prop where
  index : c'.index = c.index
  block : g'.block = g.block
  exact : g'.exact = g.exact
  pend : w ≠ .writer → g'.pend = g.pend
  role : ∀ x, x ∉ touched → g'.role x = g.role x
  slab : ∀ x, x ∉ touched → c'.slabs x = c.slabs x
  stored : ∀ x, x ∉ touched → (g.role x).Stored → c'.block x = c.block x
  pending : ∀ x, x ∉ touched → g'.pending x = g.pending x
  own : ∀ x ∈ touched, (g.role x).owner = some w
  handed : ∀ x ∈ touched, (g'.role x).owner = some w ∨ (g'.role x).Shared
  source : ∀ x ∈ touched, ∀ dst, g.role x = .memSource dst ∨ g.role x = .bufferSource dst →
    dst ∈ touched

namespace Touch

variable {touched : List Nat}

theorem frame (h : Touch cfg w touched c g c' g') : Frame cfg w c g c' g' := by
  have hNot : ∀ x, (g.role x).owner ≠ some w → x ∉ touched := fun x hx hMem => hx (h.own x hMem)
  constructor
  case block => exact h.block
  case role => exact fun x hx => h.role x (hNot x hx)
  case handed =>
    intro x
    by_cases hMem : x ∈ touched
    · exact .inr (h.handed x hMem)
    · exact .inl (h.role x hMem)
  case same =>
    intro x hx
    rw [h.slab x (hNot x hx)]
  case nrUsed => exact fun x hx => (congrArg Slab.nrUsed (h.slab x (hNot x hx))).le
  case stored => exact fun x hx => h.stored x (hNot x hx)
  case pend => exact h.pend
  case lookup =>
    intro _ key hNone
    rw [h.index]
    exact hNone

theorem keeps (h : Touch cfg w touched c g c' g') (hInv : Inv cfg c g)
    (hTouched : ∀ x ∈ touched, c.index.refs x ≠ 0 →
      (c.slabs x).nrAlloc ≤ (c'.slabs x).nrAlloc ∧
      ∀ i < (c.slabs x).nrAlloc, c'.slotAt x i = c.slotAt x i) : KeepsSlots c c' := by
  intro x hx
  by_cases hMem : x ∈ touched
  · exact hTouched x hMem hx
  · have hSame : (c.slabs x).Same (c'.slabs x) := by rw [h.slab x hMem]
    refine ⟨hSame.nrAlloc.ge, fun i _ => Cache.slotAt_congr hSame (fun hDisk => ?_) i⟩
    exact h.stored x hMem (hInv.stored_of_refs hDisk hx)

theorem slabOk (h : Touch cfg w touched c g c' g') (hInv : Inv cfg c g)
    (hx : x ∉ touched) : SlabOk cfg c' g' x := by
  have hOk := hInv.slab x
  have hSlab := h.slab x hx
  refine hOk.congr (h.role x hx) h.block (by rw [hSlab]) (h.stored x hx) ?_
    (congrArg Slab.nrUsed hSlab).le ?_ ?_ ?_
  · intro src hSrc
    -- a touched source would make `x` touched
    have hFree : src ∉ touched := by
      intro hMem
      rcases hOk.source src hSrc with hRole | hRole
      · exact hx (h.source src hMem x (.inl hRole))
      · exact hx (h.source src hMem x (.inr hRole))
    exact ⟨by rw [h.slab src hFree], h.role src hFree⟩
  · rw [h.index, h.pending x hx, hSlab]
    exact hOk.counts
  · rw [h.index, h.pending x hx, hSlab, h.exact]
    exact hOk.exact
  · rw [h.index]
    exact hOk.dead

/-- The rule: look at the touched slabs and at the lists. -/
theorem silent (h : Touch cfg w touched c g c' g') (hInv : Inv cfg c g)
    (hLists : Lists cfg c' g') (hOk : ∀ x ∈ touched, SlabOk cfg c' g' x)
    (hKeeps : ∀ x ∈ touched, c.index.refs x ≠ 0 →
      (c.slabs x).nrAlloc ≤ (c'.slabs x).nrAlloc ∧
      ∀ i < (c.slabs x).nrAlloc, c'.slotAt x i = c.slotAt x i)
    (hPend : w = .writer → ∀ p, g'.pend = some p → PendOk c' g' p) :
    Silent cfg w c g c' g' := by
  have hKeep := h.keeps hInv hKeeps
  have hFrame := h.frame
  refine ⟨⟨hInv.config, hLists, h.block ▸ hInv.geometry, fun x => ?_,
    hInv.index_of_keeps h.index hKeep, ?_⟩, hFrame, hInv.view_of_keeps h.index hKeep, h.exact⟩
  · by_cases hMem : x ∈ touched
    · exact hOk x hMem
    · exact h.slabOk hInv hMem
  · by_cases hw : w = .writer
    · exact hPend hw
    · exact hInv.pend_of_frame hFrame hw

end Touch

/-! ### Common steps -/

/-- A role that says nothing about other slabs. -/
def Role.Alone : Role → Prop
  | .memSource _ | .bufferSource _ | .diskWritten _ _ | .diskCopy _ _ => False
  | _ => True

theorem Role.Alone.src {r : Role} (h : r.Alone) : r.src = none := by
  cases r <;> first | rfl | exact h.elim

theorem Role.Alone.not_copying {r : Role} (h : r.Alone) : ¬r.Copying := by
  cases r <;> first | exact id | exact h.elim

theorem Inv.pending_of_owner (h : Inv cfg c g) (hx : (g.role x).owner ≠ some .writer) :
    g.pending x = 0 := by
  unfold Ghost.pending
  split
  · rfl
  · rename_i p hp
    have hOwner := (h.pend p hp).owner
    split
    · rename_i hEq
      exact absurd (hEq ▸ hOwner) hx
    · rfl

namespace Inv

variable {r : Role} {d : Nat}

/-- Touching one slab, whose role does not concern other slabs. -/
theorem touch_one (hAlone : (g.role x).Alone) (hIndex : c'.index = c.index)
    (hSlabs : ∀ y ≠ x, c'.slabs y = c.slabs y)
    (hBlocks : ∀ y ≠ x, (g.role y).Stored → c'.block y = c.block y)
    (hOwner : (g.role x).owner = some w) (hHanded : r.owner = some w ∨ r.Shared) :
    Touch cfg w [x] c g c' { g.become x r with drift := d } where
  index := hIndex
  block := rfl
  exact := rfl
  pend := fun _ => rfl
  role := fun y hy => g.become_of_ne r (by simpa using hy)
  slab := fun y hy => hSlabs y (by simpa using hy)
  stored := fun y hy => hBlocks y (by simpa using hy)
  pending := fun _ _ => rfl
  own := fun y hy => by
    obtain rfl : y = x := by simpa using hy
    exact hOwner
  handed := fun y hy => by
    obtain rfl : y = x := by simpa using hy
    rw [show ({ g.become y r with drift := d } : Ghost).role y = r from g.become_self y r]
    exact hHanded
  source := fun y hy dst hRole => by
    obtain rfl : y = x := by simpa using hy
    rcases hRole with hRole | hRole <;> rw [hRole] at hAlone <;> exact hAlone.elim

/-- A slab changes its list, and nothing else happens. -/
theorem relink (hInv : Inv cfg c g) (hSlabs : c'.slabs = c.slabs) (hDisk : c'.disk = c.disk)
    (hIndex : c'.index = c.index) (hLists : Lists cfg c' { g.become x r with drift := d })
    (hOwner : (g.role x).owner = some w) (hAlone : (g.role x).Alone) (hNew : r.Alone)
    (hRange : r.InRange cfg x) (hShape : Shape cfg c x r) (hDead : r.Dead → c.index.refs x = 0)
    (hPend : w = .writer → g.pend = none)
    (hHanded : r.owner = some w ∨ r.Shared := by first | exact .inl rfl | exact .inr trivial) :
    Silent cfg w c g c' { g.become x r with drift := d } := by
  have hBlock : ∀ y, c'.block y = c.block y := fun y => by simp only [Cache.block, hDisk, hSlabs]
  have hOk := hInv.slab x
  refine (touch_one hAlone hIndex (fun y _ => by rw [hSlabs]) (fun y _ _ => hBlock y)
    hOwner hHanded).silent hInv hLists ?_ ?_ (fun hw p hp => ?_)
  · intro y hy
    obtain rfl : y = x := by simpa using hy
    have hSelf : ({ g.become y r with drift := d } : Ghost).role y = r := g.become_self y r
    refine hOk.rerole (by rw [hSlabs]) hIndex rfl rfl rfl hAlone.not_copying (by rwa [hSelf])
      ?_ ?_ (by rwa [hSelf])
    · rw [hSelf]
      refine hShape.congr (by rw [hSlabs]) (fun _ => hBlock y) fun src hSrc => ?_
      rw [hNew.src] at hSrc
      cases hSrc
    · intro src hSrc
      rw [hSelf, hNew.src] at hSrc
      cases hSrc
  · intro y hy _
    refine ⟨(congrArg Slab.nrAlloc (congrFun (congrArg Table.get hSlabs) y)).ge, fun i _ => ?_⟩
    exact Cache.slotAt_congr (by rw [hSlabs]) (fun _ => hBlock y) i
  · rw [show ({ g.become x r with drift := d } : Ghost).pend = g.pend from rfl, hPend hw] at hp
    cases hp

/-- Nothing points into a slab while its header is rewritten. -/
theorem rewrite {f : Slab → Slab} (hInv : Inv cfg c g) (hSlabs : c'.slabs = c.slabs.modify x f)
    (hDisk : c'.disk = c.disk) (hIndex : c'.index = c.index)
    (hLists : Lists cfg c' (g.become x r)) (hOwner : (g.role x).owner = some w)
    (hAlone : (g.role x).Alone) (hNew : r.Alone) (hDead : (g.role x).Dead)
    (hSid : (f (c.slabs x)).sid = (c.slabs x).sid)
    (hBlockId : (f (c.slabs x)).blockId = (c.slabs x).blockId)
    (hUsed : (f (c.slabs x)).nrUsed = 0) (hSlots : (f (c.slabs x)).nrAlloc ≤ (f (c.slabs x)).nrSlots)
    (hRange : r.InRange cfg x) (hShape : Shape cfg c' x r) (hPend : w = .writer → g.pend = none)
    (hHanded : r.owner = some w ∨ r.Shared := by first | exact .inl rfl | exact .inr trivial) :
    Silent cfg w c g c' (g.become x r) := by
  have hOk := hInv.slab x
  have hRefs : c'.index.refs x = 0 := by rw [hIndex]; exact hOk.dead hDead
  have hPending : (g.become x r).pending x = 0 := by
    by_cases hw : w = .writer
    · simp [Ghost.pending, hPend hw]
    · exact hInv.pending_of_owner (by rw [hOwner]; exact fun h => hw (Option.some.inj h))
  have hSelf : c'.slabs x = f (c.slabs x) := by rw [hSlabs, Table.get_modify_self]
  have hOther : ∀ y ≠ x, c'.slabs y = c.slabs y := fun y hy => by
    rw [hSlabs, Table.get_modify_of_ne _ _ hy]
  have hTouch : Touch cfg w [x] c g c' (g.become x r) :=
    touch_one (d := g.drift) hAlone hIndex hOther
      (fun y hy _ => by simp only [Cache.block, hOther y hy, hDisk]) hOwner hHanded
  refine hTouch.silent hInv hLists ?_ ?_ ?_
  · intro y hy
    obtain rfl : y = x := by simpa using hy
    constructor
    case range => rwa [g.become_self]
    case sid => rw [hSelf, hSid]; exact hOk.sid
    case blockId => rw [hSelf, hBlockId]; exact hOk.blockId
    case shape => rwa [g.become_self]
    case source =>
      intro src hSrc
      rw [g.become_self, hNew.src] at hSrc
      cases hSrc
    case bounds =>
      rw [hSelf, hUsed]
      exact ⟨Int.natCast_nonneg _, hSlots⟩
    case counts => simp [hSelf, hUsed, hRefs, hPending]
    case exact => exact fun _ _ => by simp [hSelf, hUsed, hRefs, hPending]
    case dead => exact fun _ => hRefs
  · intro y hy hRefs'
    obtain rfl : y = x := by simpa using hy
    exact absurd (hOk.dead hDead) hRefs'
  · intro hw p hp
    rw [Ghost.become_pend, hPend hw] at hp
    cases hp

/-- `reset` of a slab into which nothing points. -/
theorem reset (hInv : Inv cfg c g) (hOwner : (g.role x).owner = some w) (hWriter : w ≠ .writer)
    (hAlone : (g.role x).Alone) (hNew : r.Alone) (hDead : (g.role x).Dead)
    (hPlace : r.place = g.place x) (hRange : r.InRange cfg x)
    (hShape : ∀ c : Cache, (c.slabs x).Fresh → Shape cfg c x r)
    (hHanded : r.owner = some w ∨ r.Shared := by first | exact .inl rfl | exact .inr trivial) :
    Silent cfg w c g (c.resetSlab x) (g.become x r) :=
  hInv.rewrite rfl rfl rfl (hInv.lists.congr.become hPlace) hOwner hAlone hNew hDead rfl rfl rfl
    (Nat.le_refl 0) hRange (hShape _ (by constructor <;> simp [Cache.resetSlab, Slab.reset]))
    (fun hw => absurd hw hWriter) hHanded

/-- Parts of the state that the invariant does not mention. -/
theorem unrelated (hInv : Inv cfg c g) (hSlabs : c'.slabs = c.slabs) (hDisk : c'.disk = c.disk)
    (hIndex : c'.index = c.index) (hLists : Lists cfg c' g) : Silent cfg w c g c' g := by
  have hBlock : ∀ y, c'.block y = c.block y := fun y => by simp only [Cache.block, hDisk, hSlabs]
  have hTouch : Touch cfg w [] c g c' g :=
    { index := hIndex, block := rfl, exact := rfl, pend := fun _ => rfl, role := fun _ _ => rfl
      slab := fun _ _ => by rw [hSlabs]
      stored := fun y _ _ => hBlock y
      pending := fun _ _ => rfl
      own := fun _ hMem => absurd hMem (by simp)
      handed := fun _ hMem => absurd hMem (by simp)
      source := fun _ hMem => absurd hMem (by simp) }
  refine hTouch.silent hInv hLists (by simp) (by simp) fun _ p hp => ?_
  exact (hInv.pend p hp).congr rfl (by rw [hSlabs]) (hInv.pend_memory hp)

/-- Whether the counts are exact is a matter of the counts only. -/
theorem with_exact {b : Bool} (hInv : Inv cfg c g)
    (hExact : b → ∀ x, ¬(g.role x).Copying →
      (c.slabs x).nrUsed = (c.index.refs x : Int) + g.pending x) :
    Inv cfg c { g with exact := b } where
  config := hInv.config
  lists := hInv.lists.congr_ghost (fun _ => rfl) rfl rfl
  geometry := hInv.geometry
  slab := fun x => (hInv.slab x).congr rfl rfl (.refl _) (fun _ => rfl) (fun _ _ => ⟨.refl _, rfl⟩)
    (Int.le_refl _) (hInv.slab x).counts (fun hb => hExact hb x) (hInv.slab x).dead
  index := hInv.index
  pend := fun p hp => (hInv.pend p hp).congr rfl (.refl _) (hInv.pend_memory hp)

end Inv

end KVCache
