import KVCache.Data.Execution
import KVCache.Invariant.Frame
import KVCache.Semantics.Flush

/-! The parts of a flush keep the invariant and are not seen by lookups. The
collector copies its buffer to disk in the same way, so the three parts in the
middle are stated for both threads. -/

namespace KVCache

namespace Role

/-- The slab that a thread is about to copy to disk. -/
def holding : Worker → Role
  | .gc => .bufferBusy
  | _ => .memFlush

/-- The slab whose image is on its way to `dst`. -/
def sourceOf : Worker → Nat → Role
  | .gc, dst => .bufferSource dst
  | _, dst => .memSource dst

/-- The slab once its entries have moved to disk. -/
def emptied : Worker → Role
  | .gc => .bufferIdle
  | _ => .memDone

/-- The disk slab that received them. -/
def filled : Worker → Role
  | .gc => .diskFull
  | _ => .diskFilled

variable {cfg : Config} {c : Cache} {w : Worker} {x dst : Nat}

theorem alone_holding : (holding w).Alone := by cases w <;> trivial

theorem owner_holding (hw : w ≠ .writer) : (holding w).owner = some w := by
  cases w <;> first | rfl | exact absurd rfl hw

theorem owner_sourceOf (hw : w ≠ .writer) : (sourceOf w dst).owner = some w := by
  cases w <;> first | rfl | exact absurd rfl hw

theorem owner_emptied (hw : w ≠ .writer) : (emptied w).owner = some w := by
  cases w <;> first | rfl | exact absurd rfl hw

theorem handed_filled (hw : w ≠ .writer) : (filled w).owner = some w ∨ (filled w).Shared := by
  cases w <;> first | exact .inl rfl | exact absurd rfl hw

theorem shape_holding (h : Shape cfg c x (holding w)) :
    (∃ k, (c.slabs x).OfClass cfg k) ∧ (c.slabs x).SlotsFit := by
  cases w with
  | gc => exact h
  | writer => exact ⟨h.1, h.2.1⟩
  | flush => exact ⟨h.1, h.2.1⟩

theorem shape_sourceOf (h : Shape cfg c x (holding w)) : Shape cfg c x (sourceOf w dst) := by
  cases w <;> exact h

theorem sourceOf_eq : sourceOf w dst = .memSource dst ∨ sourceOf w dst = .bufferSource dst := by
  cases w <;> simp [sourceOf]

end Role

variable {build : Build} {cfg : Config} {c c' : Cache} {g : Ghost} {w : Worker}
  {x m d src dst channel : Nat}

namespace Inv

/-! ### Taking the two slabs -/

theorem takeFull (hInv : Inv cfg c g) (hRun : c.takeFull build = .ok (m, c')) :
    g.role m = .memFull ∧ Silent cfg .flush c g c' (g.become m .memFlush) := by
  unfold Cache.takeFull at hRun
  cases hList : c.mslabFull.list with
  | nil => simp [hList] at hRun
  | cons first rest =>
      simp only [hList, Execution.bind_eq_ok, Execution.pure_eq_ok, Prod.mk.injEq] at hRun
      obtain ⟨_, -, rfl, rfl⟩ := hRun
      have hPlace : g.place first = .mslabFull :=
        hInv.lists.mem_mslabFull.mp (by rw [hList]; simp)
      have hRole : g.role first = .memFull := Role.eq_atRest hPlace (by simp) (by simp)
      have hRange := (hInv.slab first).range
      have hShape := (hInv.slab first).shape
      rw [hRole] at hRange hShape
      exact ⟨hRole, hInv.relink (d := g.drift) rfl rfl rfl
        (hInv.lists.leave_mslabFull hPlace rfl) (by rw [hRole]; rfl) (by rw [hRole]; trivial)
        trivial hRange hShape (fun h => hInv.refs_of_dead hRole h) (by simp)⟩

theorem takeFree_of_head (hInv : Inv cfg c g) (hMem : d ∈ (c.dslabFree channel).list) :
    g.role d = .diskFree ∧ g.channel cfg d = channel ∧
      Silent cfg .flush c g
        { c with
          dslabFree := c.dslabFree.modify channel (·.del d)
          nrFreeDslab := c.nrFreeDslab - 1 } (g.become d (.diskTaken .flush)) := by
  obtain ⟨hPlace, hChannel⟩ := hInv.lists.mem_dslabFree.mp hMem
  have hRole : g.role d = .diskFree := Role.eq_atRest hPlace (by simp) (by simp)
  have hRange := (hInv.slab d).range
  have hShape := (hInv.slab d).shape
  rw [hRole] at hRange hShape
  refine ⟨hRole, hChannel, ?_⟩
  subst channel
  exact hInv.relink (d := g.drift) rfl rfl rfl
    (hInv.lists.leave_dslabFree hPlace rfl) (by rw [hRole]; rfl) (by rw [hRole]; trivial)
    trivial hRange hShape (fun h => hInv.refs_of_dead hRole h) (by simp)

/-- The search finds a free disk slab, or only moves the cursor. -/
def FreeSearch (cfg : Config) (c : Cache) (g : Ghost) (c' : Cache) : Option (Nat × Nat) → Prop
  | some (d, channel) => g.role d = .diskFree ∧ g.channel cfg d = channel ∧
      Silent cfg .flush c g c' (g.become d (.diskTaken .flush))
  | none => Silent cfg .flush c g c' g

theorem takeFreeFrom {beginning rounds : Nat} {found : Option (Nat × Nat)} (hInv : Inv cfg c g)
    (hRun : Cache.takeFreeFrom build cfg beginning rounds c = .ok (found, c')) :
    FreeSearch cfg c g c' found := by
  induction rounds generalizing c with
  | zero =>
      simp only [Cache.takeFreeFrom, Except.ok.injEq, Prod.mk.injEq] at hRun
      obtain ⟨rfl, rfl⟩ := hRun
      exact .refl hInv
  | succ rounds ih =>
      have hCursor : Silent cfg .flush c g
          { c with nextMslabFlushChannel := cfg.nextChannel c.nextMslabFlushChannel } g :=
        hInv.unrelated rfl rfl rfl hInv.lists.congr
      rw [Cache.takeFreeFrom] at hRun
      simp only at hRun
      split at hRun
      · rename_i first rest hList
        simp only [Execution.bind_eq_ok, Execution.pure_eq_ok, Prod.mk.injEq] at hRun
        obtain ⟨_, -, _, -, rfl, rfl⟩ := hRun
        have hMem : first ∈ (c.dslabFree c.nextMslabFlushChannel).list := by rw [hList]; simp
        obtain ⟨hRole, hChannel, hSilent⟩ := hCursor.inv.takeFree_of_head hMem
        exact ⟨hRole, hChannel, hCursor.trans hSilent⟩
      · split at hRun
        · have hRest := ih hCursor.inv hRun
          cases found with
          | none => exact hCursor.trans hRest
          | some slab => exact ⟨hRest.1, hRest.2.1, hCursor.trans hRest.2.2⟩
        · simp only [Execution.pure_eq_ok, Prod.mk.injEq] at hRun
          obtain ⟨rfl, rfl⟩ := hRun
          exact hCursor

theorem takeFree {found : Option (Nat × Nat)} (hInv : Inv cfg c g)
    (hRun : c.takeFree build cfg = .ok (found, c')) :
    FreeSearch cfg c g c' found :=
  hInv.takeFreeFrom hRun

/-! ### Copying the slab -/

/-- The image of a slab stores its slots. -/
theorem image_backs {s : Slab} {k : Nat} (hClass : s.OfClass cfg k) (hFit : s.SlotsFit)
    (hBound : s.nrAlloc ≤ s.nrSlots) : (s.image cfg).Backs s where
  nrAlloc := rfl
  slotSize := rfl
  slots := fun i hi => Slab.slot_image (hFit i hi) (by
    calc s.slotSize * (i + 1) ≤ s.slotSize * s.nrSlots := Nat.mul_le_mul_left _ (by omega)
      _ ≤ cfg.slabSize - Slab.headerSize := hClass.slots_le)

theorem block_writeBlock_self : (c.writeBlock cfg src dst).block dst = (c.slabs src).image cfg := by
  simp [Cache.writeBlock, Cache.block]

/-- Different disk slabs have different blocks. -/
theorem block_set_of_ne (hInv : Inv cfg c g) (hDst : cfg.nrMslab ≤ dst ∧ dst < cfg.nrSlab)
    (hx : cfg.nrMslab ≤ x ∧ x < cfg.nrSlab) (hne : x ≠ dst) (stored : Slab) :
    { c with disk := c.disk.set (c.slabs dst).blockId.toNat stored }.block x = c.block x := by
  have hBlock : (c.slabs x).blockId.toNat ≠ (c.slabs dst).blockId.toNat := by
    rw [(hInv.slab x).blockId, (hInv.slab dst).blockId]
    have h₁ := (hInv.geometry.disk x hx.1 hx.2).1
    have h₂ := (hInv.geometry.disk dst hDst.1 hDst.2).1
    have h₃ := hInv.geometry.injective x dst hx.1 hx.2 hDst.1 hDst.2
    omega
  exact Table.get_set_of_ne _ _ hBlock

theorem block_writeBlock_of_ne (hInv : Inv cfg c g) (hDst : cfg.nrMslab ≤ dst ∧ dst < cfg.nrSlab)
    (hx : cfg.nrMslab ≤ x ∧ x < cfg.nrSlab) (hne : x ≠ dst) :
    (c.writeBlock cfg src dst).block x = c.block x :=
  hInv.block_set_of_ne hDst hx hne _

/-- The block write. From here on both slabs remember each other. -/
theorem writeBlock (hInv : Inv cfg c g) (hw : w ≠ .writer) (hSrc : g.role src = .holding w)
    (hDst : g.role dst = .diskTaken w) :
    Silent cfg w c g (c.writeBlock cfg src dst)
      ((g.become src (.sourceOf w dst)).become dst (.diskWritten w src)) := by
  have hne : src ≠ dst := by
    rintro rfl
    rw [hSrc] at hDst
    cases w <;> simp [Role.holding] at hDst
  have hSrcOk := hInv.slab src
  have hDstOk := hInv.slab dst
  have hSrcRole : ((g.become src (.sourceOf w dst)).become dst (.diskWritten w src)).role src =
      .sourceOf w dst := by
    rw [Ghost.become_of_ne _ _ hne, Ghost.become_self]
  have hShape : Shape cfg c src (.holding w) := hSrc ▸ hSrcOk.shape
  have hRange : cfg.nrMslab ≤ dst ∧ dst < cfg.nrSlab := by
    have := hDstOk.range
    rwa [hDst] at this
  have hTouch : Touch cfg w [src, dst] c g (c.writeBlock cfg src dst)
      ((g.become src (.sourceOf w dst)).become dst (.diskWritten w src)) :=
    { index := rfl, block := rfl, exact := rfl, pend := fun _ => rfl
      role := fun y hy => by
        simp only [List.mem_cons, List.not_mem_nil, or_false, not_or] at hy
        rw [Ghost.become_of_ne _ _ hy.2, Ghost.become_of_ne _ _ hy.1]
      slab := fun _ _ => rfl
      stored := fun y hy hStored => by
        simp only [List.mem_cons, List.not_mem_nil, or_false, not_or] at hy
        refine block_writeBlock_of_ne hInv hRange ?_ hy.2
        have hRange' := (hInv.slab y).range
        cases hr : g.role y <;> simp_all [Role.Stored, Role.InRange]
      pending := fun _ _ => rfl
      own := by
        simp only [List.mem_cons, List.not_mem_nil, or_false]
        rintro y (rfl | rfl)
        · rw [hSrc]; exact Role.owner_holding hw
        · rw [hDst]; rfl
      handed := by
        simp only [List.mem_cons, List.not_mem_nil, or_false]
        rintro y (rfl | rfl)
        · rw [hSrcRole]; exact .inl (Role.owner_sourceOf hw)
        · rw [Ghost.become_self]; exact .inl rfl
      source := by
        simp only [List.mem_cons, List.not_mem_nil, or_false]
        rintro y (rfl | rfl) dst' hRole
        · rw [hSrc] at hRole
          cases w <;> simp [Role.holding] at hRole
        · rw [hDst] at hRole
          simp at hRole }
  refine hTouch.silent hInv ?_ ?_ ?_ fun h => absurd h hw
  · refine (Lists.become ?_ ?_).become ?_
    · exact hInv.lists.congr
    · rw [Ghost.place, hSrc]; cases w <;> rfl
    · rw [Ghost.place, Ghost.become_of_ne _ _ hne.symm, hDst]; cases w <;> rfl
  · simp only [List.mem_cons, List.not_mem_nil, or_false]
    rintro y (rfl | rfl)
    · refine hSrcOk.rerole rfl rfl rfl rfl rfl ?_ ?_ ?_ ?_ ?_
      · rw [hSrc]; exact Role.alone_holding.not_copying
      · rw [hSrcRole]
        have := hSrcOk.range
        rw [hSrc] at this
        cases w <;> exact this
      · rw [hSrcRole]
        refine (Role.shape_sourceOf hShape).congr (.refl _) (fun h => ?_) fun src hSome => ?_
        · cases w <;> exact h.elim
        · cases w <;> simp [Role.sourceOf, Role.src] at hSome
      · intro src hSome
        rw [hSrcRole] at hSome
        cases w <;> simp [Role.sourceOf, Role.src] at hSome
      · rw [hSrcRole]
        cases w <;> exact fun h => h.elim
    · refine hDstOk.rerole rfl rfl rfl rfl rfl ?_ ?_ ?_ ?_ ?_
      · rw [hDst]; exact id
      · rw [Ghost.become_self]; exact hRange
      · rw [Ghost.become_self]
        have hFresh : (c.slabs y).Fresh := by
          have := hDstOk.shape
          rwa [hDst] at this
        obtain ⟨⟨k, hClass⟩, hFit⟩ := Role.shape_holding hShape
        refine ⟨hFresh, ?_⟩
        rw [block_writeBlock_self]
        exact image_backs hClass hFit hSrcOk.bounds.2
      · intro s hSome
        rw [Ghost.become_self] at hSome
        obtain rfl : src = s := by simpa [Role.src] using hSome
        rw [hSrcRole]
        exact Role.sourceOf_eq
      · exact fun _ => hDstOk.dead (by rw [hDst]; trivial)
  · simp only [List.mem_cons, List.not_mem_nil, or_false]
    rintro y (rfl | rfl) hRefs
    · have hSame : (c.slabs y).Same ((c.writeBlock cfg y dst).slabs y) := .refl _
      refine ⟨Nat.le_refl _, fun i _ => Cache.slotAt_congr hSame (fun hDisk => ?_) i⟩
      exfalso
      apply hDisk
      have hRange := hSrcOk.range
      have hMemory := hInv.config.memory
      rw [hInv.blockId_eq_iff (hInv.lt_of_refs hRefs)]
      rw [hSrc] at hRange
      cases w <;> simp only [Role.holding, Role.InRange, Config.gcBuffer] at hRange <;> omega
    · exact absurd (hDstOk.dead (by rw [hDst]; trivial)) hRefs

/-- The header follows. Its count of used slots is out of date at once. -/
theorem copyHeader (hInv : Inv cfg c g) (hw : w ≠ .writer) (hDst : g.role dst = .diskWritten w src) :
    Silent cfg w c g (c.copyHeader src dst) (g.become dst (.diskCopy w src)) := by
  have hDstOk := hInv.slab dst
  have hSource := hDstOk.source src (by rw [hDst]; rfl)
  have hne : src ≠ dst := by
    rintro rfl
    rw [hDst] at hSource
    simp at hSource
  have hSrcOk := hInv.slab src
  have hRefs : c.index.refs dst = 0 := hDstOk.dead (by rw [hDst]; trivial)
  have hPending : g.pending dst = 0 := hInv.pending_of_owner (by
    rw [hDst]; exact fun h => hw (Option.some.inj h))
  have hSelf : (c.copyHeader src dst).slabs dst =
      { c.slabs dst with
        cid := (c.slabs src).cid, slotSize := (c.slabs src).slotSize
        nrSlots := (c.slabs src).nrSlots, nrAlloc := (c.slabs src).nrAlloc
        nrUsed := (c.slabs src).nrUsed } := Table.get_modify_self _ _ _
  have hOther : ∀ y ≠ dst, (c.copyHeader src dst).slabs y = c.slabs y :=
    fun y hy => Table.get_modify_of_ne _ _ hy
  have hBlock : ∀ y, (c.copyHeader src dst).block y = c.block y := by
    intro y
    have hId : ((c.copyHeader src dst).slabs y).blockId = (c.slabs y).blockId :=
      Table.get_modify_proj _ _ _ _ Slab.blockId rfl
    simp only [Cache.block, hId]
    rfl
  have hTouch : Touch cfg w [dst] c g (c.copyHeader src dst) (g.become dst (.diskCopy w src)) :=
    { index := rfl, block := rfl, exact := rfl, pend := fun _ => rfl
      role := fun y hy => g.become_of_ne _ (by simpa using hy)
      slab := fun y hy => hOther y (by simpa using hy)
      stored := fun y _ _ => hBlock y
      pending := fun _ _ => rfl
      own := by
        intro y hy
        obtain rfl : y = dst := by simpa using hy
        rw [hDst]; rfl
      handed := by
        intro y hy
        obtain rfl : y = dst := by simpa using hy
        rw [g.become_self]; exact .inl rfl
      source := by
        intro y hy dst' hRole
        obtain rfl : y = dst := by simpa using hy
        rw [hDst] at hRole
        simp at hRole }
  refine hTouch.silent hInv (hInv.lists.congr.become ?_) ?_ ?_ fun h => absurd h hw
  · rw [Ghost.place, hDst]; cases w <;> rfl
  · intro y hy
    obtain rfl : y = dst := by simpa using hy
    have hShape := hDstOk.shape
    have hRange := hDstOk.range
    rw [hDst] at hShape hRange
    constructor
    case range => rw [g.become_self]; exact hRange
    case sid => rw [hSelf]; exact hDstOk.sid
    case blockId => rw [hSelf]; exact hDstOk.blockId
    case shape =>
      rw [g.become_self]
      refine ⟨?_, ?_⟩
      · rw [hSelf, hOther src hne]
        exact ⟨rfl, rfl, rfl, rfl⟩
      · rw [hBlock, hOther src hne]
        exact hShape.2
    case source =>
      intro s hSome
      rw [g.become_self] at hSome
      obtain rfl : src = s := by simpa [Role.src] using hSome
      rw [g.become_of_ne _ hne]
      exact hSource
    case bounds => rw [hSelf]; exact hSrcOk.bounds
    case counts =>
      have hPending' : (g.become y (.diskCopy w src)).pending y = 0 := hPending
      have := hSrcOk.counts
      rw [hSelf, hPending', show (c.copyHeader src y).index = c.index from rfl, hRefs]
      simp only
      omega
    case exact =>
      rw [g.become_self]
      exact fun _ hCopy => absurd trivial hCopy
    case dead => exact fun _ => hRefs
  · intro y hy hRefs'
    obtain rfl : y = dst := by simpa using hy
    exact absurd hRefs hRefs'

end Inv

/-! ### Moving the index entries -/

/-- Where the entries point once those of the slots below `i` have moved. -/
def movedPlace (ix : Index) (src dst i : Nat) (e : Nat) : Nat × Nat :=
  if (ix.entries e).slabId = src ∧ (ix.entries e).slotId < i then (dst, (ix.entries e).slotId)
  else ((ix.entries e).slabId, (ix.entries e).slotId)

/-- The state of the loop of `modify_index_to` before slot `i`. -/
structure Moved (c : Cache) (src dst i : Nat) (s : Cache × Nat) : Prop where
  cache : s.1 = { c with index := s.1.index }
  place : c.index.Relocated s.1.index (movedPlace c.index src dst i)
  count : s.2 = s.1.index.refs dst
  le : s.2 ≤ i
  others : ∀ y, y ≠ src → y ≠ dst → s.1.index.refs y = c.index.refs y

/-- A slab and its copy, into which nothing points yet. -/
structure Twin (cfg : Config) (c : Cache) (src dst : Nat) : Prop where
  index : c.index.Ok cfg (fun x i => (c.slotAt x i).1) (fun x => (c.slabs x).nrAlloc)
  ne : src ≠ dst
  sidSrc : (c.slabs src).sid = src
  sidDst : (c.slabs dst).sid = dst
  key : ∀ i, (c.slabs src).slotKey i = (c.slotAt src i).1
  slots : ∀ i < (c.slabs src).nrAlloc, c.slotAt dst i = c.slotAt src i
  alloc : (c.slabs dst).nrAlloc = (c.slabs src).nrAlloc
  refs : c.index.refs dst = 0

namespace Twin

variable {e : Nat}

/-- An entry that moves finds the same object. -/
theorem slot_movedPlace (h : Twin cfg c src dst) (i : Nat) (he : e ∈ c.index.indexed) :
    c.slotAt (movedPlace c.index src dst i e).1 (movedPlace c.index src dst i e).2 =
      c.slotAt (c.index.entries e).slabId (c.index.entries e).slotId := by
  unfold movedPlace
  split
  · rename_i hMove
    rw [h.slots _ (hMove.1 ▸ h.index.inside e he), hMove.1]
  · rfl

theorem inside_movedPlace (h : Twin cfg c src dst) (i : Nat) (he : e ∈ c.index.indexed) :
    (movedPlace c.index src dst i e).2 <
      (c.slabs (movedPlace c.index src dst i e).1).nrAlloc := by
  have hInside := h.index.inside e he
  unfold movedPlace
  split
  · rename_i hMove
    rw [hMove.1] at hInside
    rwa [h.alloc]
  · exact hInside

end Twin

namespace Moved

variable {s : Cache × Nat} {i : Nat}

theorem slabs (h : Moved c src dst i s) : s.1.slabs = c.slabs := by rw [h.cache]

theorem ok (hTwin : Twin cfg c src dst) (h : Moved c src dst i s) :
    s.1.index.Ok cfg (fun x i => (c.slotAt x i).1) (fun x => (c.slabs x).nrAlloc) := by
  refine h.place.ok hTwin.index (fun e he => ?_) fun e he => hTwin.inside_movedPlace i he
  rw [hTwin.slot_movedPlace i he]

theorem start (hTwin : Twin cfg c src dst) : Moved c src dst 0 (c, 0) where
  cache := rfl
  place := (Index.Relocated.refl c.index).congr fun e _ => by simp [movedPlace]
  count := hTwin.refs.symm
  le := Nat.le_refl 0
  others := fun _ _ _ => rfl

/-- No entry points to the slot. -/
theorem skip (h : Moved c src dst i s)
    (hNone : ∀ e ∈ c.index.indexed, (c.index.entries e).slabId = src →
      (c.index.entries e).slotId ≠ i) : Moved c src dst (i + 1) s where
  cache := h.cache
  place := h.place.congr fun e he => by
    have := hNone e he
    simp only [movedPlace]
    by_cases hSrc : (c.index.entries e).slabId = src
    · have hLt : (c.index.entries e).slotId < i + 1 ↔ (c.index.entries e).slotId < i := by
        have := this hSrc
        omega
      simp only [hLt]
    · simp only [hSrc, false_and]
  count := h.count
  le := h.le.trans (Nat.le_succ i)
  others := h.others

/-- The entry that points to the slot follows. -/
theorem follow {e : Nat} (hTwin : Twin cfg c src dst) (h : Moved c src dst i s)
    (he : e ∈ c.index.indexed) (hSlab : (c.index.entries e).slabId = src)
    (hSlot : (c.index.entries e).slotId = i) :
    Moved c src dst (i + 1) ({ s.1 with index := s.1.index.repoint e dst i }, s.2 + 1) := by
  have hOk := h.ok hTwin
  have hIn : e ∈ s.1.index.indexed := by rwa [h.place.indexed]
  have hHere : (s.1.index.entries e).slabId = src := by
    rw [h.place.slabId e he]
    simp [movedPlace, hSlot, hSlab]
  constructor
  case cache =>
    simp only
    rw [h.cache]
  case place =>
    refine (h.place.repoint e dst i).congr fun e' he' => ?_
    by_cases hEq : e' = e
    · subst e'
      simp [movedPlace, hSlab, hSlot]
    · have hOther : (c.index.entries e').slabId = src → (c.index.entries e').slotId ≠ i :=
        fun hSlab' hSlot' => hEq (hTwin.index.entry_injective he' he
          (hSlab'.trans hSlab.symm) (hSlot'.trans hSlot.symm))
      rw [Function.update_of_ne hEq]
      simp only [movedPlace]
      by_cases hSrc : (c.index.entries e').slabId = src
      · have hLt : (c.index.entries e').slotId < i + 1 ↔ (c.index.entries e').slotId < i := by
          have := hOther hSrc
          omega
        simp only [hLt]
      · simp only [hSrc, false_and]
  case count =>
    have hRefs := hOk.refs_repoint (x := dst) (i := i) hIn dst
    rw [hHere] at hRefs
    simp only [hTwin.ne, if_false, if_true, Nat.add_zero] at hRefs
    simp only [hRefs, h.count]
  case le =>
    have := h.le
    simp only
    omega
  case others =>
    intro y hSrc hDst
    have hRefs := hOk.refs_repoint (x := dst) (i := i) hIn y
    rw [hHere, if_neg (Ne.symm hSrc), if_neg (Ne.symm hDst)] at hRefs
    rw [← h.others y hSrc hDst]
    exact hRefs

theorem step (hTwin : Twin cfg c src dst) (h : Moved c src dst i s) :
    Moved c src dst (i + 1) (Cache.modifySlot cfg src dst s i) := by
  obtain ⟨c₁, n⟩ := s
  have hSlabs : c₁.slabs = c.slabs := h.slabs
  have hKey : (c₁.slabs src).slotKey i = (c.slabs src).slotKey i := by rw [hSlabs]
  have hSidSrc : (c₁.slabs src).sid = src := by rw [hSlabs, hTwin.sidSrc]
  have hSidDst : (c₁.slabs dst).sid = dst := by rw [hSlabs, hTwin.sidDst]
  have hLookup := h.place.getIndexEntry cfg ((c.slabs src).slotKey i)
  -- whoever points to the slot is the entry found under its key
  have hFound : ∀ e ∈ c.index.indexed, (c.index.entries e).slabId = src →
      (c.index.entries e).slotId = i →
      c.index.getIndexEntry cfg ((c.slabs src).slotKey i) = some e := by
    intro e he hSlab hSlot
    rw [hTwin.key, ← hSlab, ← hSlot]
    exact hTwin.index.getIndexEntry_key he
  simp only [Cache.modifySlot, hKey, hSidSrc, hSidDst, hLookup]
  cases hGet : c.index.getIndexEntry cfg ((c.slabs src).slotKey i) with
  | none =>
      refine h.skip fun e he hSlab hSlot => ?_
      rw [hFound e he hSlab hSlot] at hGet
      cases hGet
  | some e =>
      have he := hTwin.index.indexed_of_get hGet
      have hSlabId := h.place.slabId e he
      have hSlotId := h.place.slotId e he
      simp only at hSlabId hSlotId ⊢
      rw [hSlabId, hSlotId]
      split
      · rename_i hHere
        have hOld : (c.index.entries e).slabId = src ∧ (c.index.entries e).slotId = i := by
          unfold movedPlace at hHere
          split at hHere
          · exact absurd hHere.1 hTwin.ne.symm
          · exact hHere
        exact h.follow hTwin he hOld.1 hOld.2
      · rename_i hElse
        refine h.skip fun e' he' hSlab hSlot => hElse ?_
        have hEq : e' = e := by
          have := hFound e' he' hSlab hSlot
          rw [hGet] at this
          exact (Option.some.inj this).symm
        subst e'
        simp [movedPlace, hSlab, hSlot]

theorem loop (hTwin : Twin cfg c src dst) (count : Nat) :
    Moved c src dst count ((List.range count).foldl (Cache.modifySlot cfg src dst) (c, 0)) :=
  Execution.foldl_range_rule (Moved c src dst) count (fun _ _ _ h => h.step hTwin) (.start hTwin)

end Moved

/-- What `modify_index_to` does: every entry that pointed into `src` points to
the same slot of `dst`, and the two counts are those of the entries. -/
structure Transferred (c : Cache) (src dst : Nat) (c' : Cache) : Prop where
  cache : c' = { c with index := c'.index, slabs := c'.slabs }
  same : ∀ x, (c.slabs x).Same (c'.slabs x)
  place : c.index.Relocated c'.index (movedPlace c.index src dst (c.slabs src).nrAlloc)
  usedSrc : (c'.slabs src).nrUsed = 0
  usedDst : (c'.slabs dst).nrUsed = c'.index.refs dst
  usedLe : c'.index.refs dst ≤ (c.slabs src).nrAlloc
  usedOther : ∀ y, y ≠ src → y ≠ dst → (c'.slabs y).nrUsed = (c.slabs y).nrUsed
  refsSrc : c'.index.refs src = 0
  refsOther : ∀ y, y ≠ src → y ≠ dst → c'.index.refs y = c.index.refs y

theorem Twin.transferred (hTwin : Twin cfg c src dst) :
    Transferred c src dst (c.modifyIndexTo cfg src dst) := by
  have h := Moved.loop hTwin (c.slabs src).nrAlloc
  revert h
  unfold Cache.modifyIndexTo
  generalize (List.range (c.slabs src).nrAlloc).foldl (Cache.modifySlot cfg src dst) (c, 0) = s
  intro h
  have hSlabs := h.slabs
  constructor
  case cache =>
    simp only
    rw [h.cache]
  case same =>
    intro x
    simp only [hSlabs, Table.get_modify, Slab.Same]
    split <;> split <;> simp_all
  case place => exact h.place
  case usedSrc => simp [Table.get_modify, hTwin.ne]
  case usedDst => simp [h.count]
  case usedLe =>
    have := h.le
    rwa [h.count] at this
  case usedOther =>
    intro y hSrc hDst
    simp [Table.get_modify, hSrc, hDst, hSlabs]
  case refsSrc =>
    simp only
    rw [Index.refs_eq_zero_iff, h.place.indexed]
    intro e he
    rw [h.place.slabId e he]
    unfold movedPlace
    split
    · exact hTwin.ne.symm
    · rename_i hStay
      intro hSrc
      exact hStay ⟨hSrc, hSrc ▸ hTwin.index.inside e he⟩
  case refsOther => exact h.others

namespace Transferred

theorem index (h : Transferred c src dst c') (hTwin : Twin cfg c src dst) :
    c'.index.Ok cfg (fun x i => (c'.slotAt x i).1) (fun x => (c'.slabs x).nrAlloc) := by
  have hSlot : c'.slotAt = c.slotAt :=
    Cache.slotAt_of_same (by rw [h.cache]) h.same
  have hAlloc : (fun x => (c'.slabs x).nrAlloc) = fun x => (c.slabs x).nrAlloc :=
    funext fun x => (h.same x).nrAlloc
  rw [hSlot, hAlloc]
  refine h.place.ok hTwin.index (fun e he => ?_) fun e he => hTwin.inside_movedPlace _ he
  rw [hTwin.slot_movedPlace _ he]

theorem view (h : Transferred c src dst c') (hTwin : Twin cfg c src dst) (key : Key) :
    c'.view cfg key = c.view cfg key := by
  have hSlot : c'.slotAt = c.slotAt :=
    Cache.slotAt_of_same (by rw [h.cache]) h.same
  simp only [Cache.view, h.place.getIndexEntry cfg key, hSlot]
  cases hGet : c.index.getIndexEntry cfg key with
  | none => rfl
  | some e =>
      have he := hTwin.index.indexed_of_get hGet
      simp only [Option.map_some]
      rw [h.place.slabId e he, h.place.slotId e he, hTwin.slot_movedPlace _ he]

end Transferred

namespace Inv

/-- The header and the block of a copy make it a twin of its source. -/
theorem twin (hInv : Inv cfg c g) (hDst : g.role dst = .diskCopy w src) : Twin cfg c src dst := by
  have hDstOk := hInv.slab dst
  have hSource := hDstOk.source src (by rw [hDst]; rfl)
  have hShape := hDstOk.shape
  have hRange := hDstOk.range
  have hSrcRange := (hInv.slab src).range
  have hMemory := hInv.config.memory
  rw [hDst] at hShape hRange
  have hLt : src < cfg.nrMslab := by
    rcases hSource with hRole | hRole <;> rw [hRole] at hSrcRange <;>
      simp only [Role.InRange, Config.gcBuffer] at hSrcRange <;> omega
  have hSrcMem : (c.slabs src).blockId = -1 :=
    (hInv.blockId_eq_iff (by simp only [Config.nrSlab]; omega)).mpr hLt
  have hDstDisk : (c.slabs dst).blockId ≠ -1 := by
    rw [ne_eq, hInv.blockId_eq_iff hRange.2]
    exact Nat.not_lt.mpr hRange.1
  obtain ⟨hHeader, hBacks⟩ := hShape
  constructor
  case index => exact hInv.index
  case ne => exact Nat.ne_of_lt (Nat.lt_of_lt_of_le hLt hRange.1)
  case sidSrc => exact hInv.sid_eq (by simp only [Config.nrSlab]; omega)
  case sidDst => exact hInv.sid_eq hRange.2
  case key =>
    intro i
    rw [Cache.slotAt_of_memory hSrcMem]
    rfl
  case slots =>
    intro i hi
    rw [Cache.slotAt_of_memory hSrcMem, Cache.slotAt_of_disk hDstDisk, ← (hBacks.slots i hi).1]
    -- the copied header reads the block like the header stored in it
    simp only [Cache.readDslab, Slab.slot, Slab.slotKey, Slab.slotValue, Slab.slotOffset,
      hHeader.slotSize, hBacks.slotSize]
  case alloc => exact hHeader.nrAlloc
  case refs => exact hDstOk.dead (by rw [hDst]; trivial)

/-- The source after the move: nothing points into it any more. -/
theorem emptied_ok (hInv : Inv cfg c g) (hw : w ≠ .writer) (hDst : g.role dst = .diskCopy w src)
    (hMove : Transferred c src dst c') {g' : Ghost} (hBlock : g'.block = g.block)
    (hPend : g'.pend = g.pend) (hSrc : g.role src = .sourceOf w dst)
    (hRole : g'.role src = .emptied w) : SlabOk cfg c' g' src := by
  have hOk := hInv.slab src
  have hSame := hMove.same src
  have hPending : g'.pending src = 0 := by
    have : g.pending src = 0 := hInv.pending_of_owner (by
      rw [hSrc, Role.owner_sourceOf hw]; exact fun h => hw (Option.some.inj h))
    simpa only [Ghost.pending, hPend] using this
  have hRange := hOk.range
  have hShape := hOk.shape
  rw [hSrc] at hRange hShape
  constructor
  case range => rw [hRole]; cases w <;> exact hRange
  case sid => rw [hSame.sid]; exact hOk.sid
  case blockId => rw [hSame.blockId, hBlock]; exact hOk.blockId
  case shape =>
    rw [hRole]
    cases w with
    | gc => trivial
    | writer => exact absurd rfl hw
    | flush =>
        exact hShape.congr hSame (fun h => h.elim) fun s hSome => by simp [Role.src, Role.sourceOf] at hSome
  case source =>
    intro s hSome
    rw [hRole] at hSome
    cases w <;> simp [Role.emptied, Role.src] at hSome
  case bounds =>
    rw [hMove.usedSrc, hSame.nrAlloc, hSame.nrSlots]
    exact ⟨Int.natCast_nonneg _, hOk.bounds.2⟩
  case counts => simp [hMove.usedSrc, hMove.refsSrc, hPending]
  case exact => exact fun _ _ => by simp [hMove.usedSrc, hMove.refsSrc, hPending]
  case dead => exact fun _ => hMove.refsSrc

/-- The copy after the move: it holds what its header says. -/
theorem filled_ok (hInv : Inv cfg c g) (hw : w ≠ .writer) (hDst : g.role dst = .diskCopy w src)
    (hMove : Transferred c src dst c') {g' : Ghost} (hBlock : g'.block = g.block)
    (hPend : g'.pend = g.pend) (hSrc : g.role src = .sourceOf w dst)
    (hRole : g'.role dst = .filled w) : SlabOk cfg c' g' dst := by
  have hOk := hInv.slab dst
  have hSame := hMove.same dst
  have hDisk : c'.disk = c.disk := by rw [hMove.cache]
  have hPending : g'.pending dst = 0 := by
    have : g.pending dst = 0 := hInv.pending_of_owner (by
      rw [hDst]; exact fun h => hw (Option.some.inj h))
    simpa only [Ghost.pending, hPend] using this
  have hRange := hOk.range
  have hShape := hOk.shape
  have hSrcShape := (hInv.slab src).shape
  rw [hDst] at hRange hShape
  rw [hSrc] at hSrcShape
  obtain ⟨hHeader, hBacks⟩ := hShape
  have hFilled : Shape cfg c dst (.filled w) := by
    have hClass : ∃ k, (c.slabs dst).OfClass cfg k := by
      obtain ⟨k, hClass⟩ : ∃ k, (c.slabs src).OfClass cfg k := by
        cases w <;> exact hSrcShape.1
      exact ⟨k, hHeader.cid.trans hClass.cid, hClass.isClass,
        hHeader.slotSize.trans hClass.slotSize, hHeader.nrSlots.trans hClass.nrSlots⟩
    have hOwn : (c.block dst).Backs (c.readDslab dst) := by
      refine ⟨hBacks.nrAlloc.trans hHeader.nrAlloc.symm,
        hBacks.slotSize.trans hHeader.slotSize.symm, fun i hi => ⟨?_, ?_⟩⟩
      · simp only [Cache.readDslab, Slab.slot, Slab.slotKey, Slab.slotValue, Slab.slotOffset,
          hHeader.slotSize, hBacks.slotSize]
      · have hi' : i < (c.slabs dst).nrAlloc := hi
        rw [hHeader.nrAlloc] at hi'
        exact (hBacks.slots i hi').2
    cases w <;> exact ⟨hClass, hOwn⟩
  constructor
  case range => rw [hRole]; cases w <;> exact hRange
  case sid => rw [hSame.sid]; exact hOk.sid
  case blockId => rw [hSame.blockId, hBlock]; exact hOk.blockId
  case shape =>
    rw [hRole]
    refine hFilled.congr hSame (fun _ => Cache.block_of_same hDisk hSame) fun s hSome => ?_
    cases w <;> simp [Role.filled, Role.src] at hSome
  case source =>
    intro s hSome
    rw [hRole] at hSome
    cases w <;> simp [Role.filled, Role.src] at hSome
  case bounds =>
    have hLe := hMove.usedLe
    have hAlloc := hHeader.nrAlloc
    rw [hMove.usedDst, hSame.nrAlloc, hSame.nrSlots]
    exact ⟨by omega, hOk.bounds.2⟩
  case counts => simp [hMove.usedDst, hPending]
  case exact => exact fun _ _ => by simp [hMove.usedDst, hPending]
  case dead =>
    rw [hRole]
    cases w <;> exact fun h => h.elim

/-- The entries move, and both slabs are free of each other again. -/
theorem modifyIndexTo (hInv : Inv cfg c g) (hw : w ≠ .writer)
    (hSrc : g.role src = .sourceOf w dst) (hDst : g.role dst = .diskCopy w src) :
    Silent cfg w c g (c.modifyIndexTo cfg src dst)
      ((g.become src (.emptied w)).become dst (.filled w)) := by
  have hTwin := hInv.twin hDst
  have hMove := hTwin.transferred
  generalize c.modifyIndexTo cfg src dst = c' at hMove
  have hDisk : c'.disk = c.disk := by rw [hMove.cache]
  have hFrame : Frame cfg w c g c' ((g.become src (.emptied w)).become dst (.filled w)) := by
    have hNot : ∀ y, (g.role y).owner ≠ some w → y ≠ src ∧ y ≠ dst := by
      intro y hy
      refine ⟨?_, ?_⟩ <;> rintro rfl <;> apply hy
      · rw [hSrc]; exact Role.owner_sourceOf hw
      · rw [hDst]; rfl
    constructor
    case block => rfl
    case role =>
      intro y hy
      rw [Ghost.become_of_ne _ _ (hNot y hy).2, Ghost.become_of_ne _ _ (hNot y hy).1]
    case handed =>
      intro y
      by_cases hyDst : y = dst
      · subst y
        rw [Ghost.become_self]
        exact .inr (Role.handed_filled hw)
      · by_cases hySrc : y = src
        · subst y
          rw [Ghost.become_of_ne _ _ hyDst, Ghost.become_self]
          exact .inr (.inl (Role.owner_emptied hw))
        · exact .inl ((Ghost.become_of_ne _ _ hyDst).trans (Ghost.become_of_ne _ _ hySrc))
    case same => exact fun y _ => hMove.same y
    case nrUsed => exact fun y hy => (hMove.usedOther y (hNot y hy).1 (hNot y hy).2).le
    case stored => exact fun y _ _ => Cache.block_of_same hDisk (hMove.same y)
    case pend => exact fun _ => rfl
    case lookup =>
      intro _ key hNone
      rw [hMove.place.getIndexEntry]
      exact hNone
  refine ⟨⟨hInv.config, ?_, hInv.geometry, ?_, hMove.index hTwin, ?_⟩, hFrame,
    hMove.view hTwin, rfl⟩
  · refine (Lists.become ?_ ?_).become ?_
    · rw [hMove.cache]; exact hInv.lists.congr
    · rw [Ghost.place, hSrc]; cases w <;> rfl
    · rw [Ghost.place, Ghost.become_of_ne _ _ hTwin.ne.symm, hDst]
      cases w <;> rfl
  · intro y
    by_cases hySrc : y = src
    · subst y
      exact hInv.emptied_ok hw hDst hMove rfl rfl hSrc
        (by rw [Ghost.become_of_ne _ _ hTwin.ne, Ghost.become_self])
    by_cases hyDst : y = dst
    · subst y
      exact hInv.filled_ok hw hDst hMove rfl rfl hSrc (Ghost.become_self _ _ _)
    have hOk := hInv.slab y
    have hRole : ((g.become src (.emptied w)).become dst (.filled w)).role y = g.role y := by
      rw [Ghost.become_of_ne _ _ hyDst, Ghost.become_of_ne _ _ hySrc]
    refine hOk.congr hRole rfl (hMove.same y) (fun _ => Cache.block_of_same hDisk (hMove.same y)) ?_
      (hMove.usedOther y hySrc hyDst).le ?_ ?_ ?_
    · intro s hSome
      refine ⟨hMove.same s, ?_⟩
      -- a slab that reads from `src` or `dst` would be `dst`, or read from a disk slab
      have hSource := hOk.source s hSome
      have hsSrc : s ≠ src := by
        rintro rfl
        rw [hSrc] at hSource
        cases w <;> simp [Role.sourceOf] at hSource <;> exact hyDst hSource.symm
      have hsDst : s ≠ dst := by
        rintro rfl
        rw [hDst] at hSource
        simp at hSource
      rw [Ghost.become_of_ne _ _ hsDst, Ghost.become_of_ne _ _ hsSrc]
    · rw [hMove.refsOther y hySrc hyDst, hMove.usedOther y hySrc hyDst]
      exact hOk.counts
    · rw [hMove.refsOther y hySrc hyDst, hMove.usedOther y hySrc hyDst]
      exact hOk.exact
    · rw [hMove.refsOther y hySrc hyDst]
      exact hOk.dead
  · exact hInv.pend_of_frame hFrame hw

/-! ### Giving the slabs back -/

theorem resetFlushed (hInv : Inv cfg c g) (hRole : g.role m = .memDone) :
    Silent cfg .flush c g (c.resetSlab m) (g.become m .memReset) := by
  have hRange := (hInv.slab m).range
  rw [hRole] at hRange
  refine hInv.reset (by rw [hRole]; rfl) (by simp) (by rw [hRole]; trivial) trivial
    (by rw [hRole]; trivial) ?_ hRange fun _ hFresh => hFresh
  rw [Ghost.place, hRole]
  rfl

theorem linkMslabFree (hInv : Inv cfg c g) (hRole : g.role m = .memReset) :
    Silent cfg .flush c g (c.linkMslabFree m) (g.become m .memFree) := by
  have hRange := (hInv.slab m).range
  have hShape := (hInv.slab m).shape
  rw [hRole] at hRange hShape
  have hPlace : g.place m = .nowhere := by rw [Ghost.place, hRole]; rfl
  exact hInv.relink (d := g.drift) rfl rfl rfl (hInv.lists.enter_mslabFree hPlace rfl)
    (by rw [hRole]; rfl) (by rw [hRole]; trivial) trivial hRange hShape
    (fun h => hInv.refs_of_dead hRole h) (by simp)

theorem linkDslabFull (hInv : Inv cfg c g) (hRole : g.role d = .diskFilled) :
    Silent cfg .flush c g (c.linkDslabFull d (g.channel cfg d)) (g.become d .diskFull) := by
  have hRange := (hInv.slab d).range
  have hShape := (hInv.slab d).shape
  rw [hRole] at hRange hShape
  have hPlace : g.place d = .nowhere := by rw [Ghost.place, hRole]; rfl
  exact hInv.relink (d := g.drift) rfl rfl rfl
    (hInv.lists.enter_dslabFull hPlace rfl (by omega))
    (by rw [hRole]; rfl) (by rw [hRole]; trivial) trivial hRange hShape
    (fun h => hInv.refs_of_dead hRole h) (by simp)

/-- The flush as a whole, with both slabs in hand. -/
theorem finishFlush (hInv : Inv cfg c g) (hm : g.role m = .memFlush)
    (hd : g.role d = .diskTaken .flush) (hChannel : g.channel cfg d = channel)
    (hRun : c.finishFlush build cfg m d channel = .ok c') :
    Silent cfg .flush c g c' ((g.become m .memFree).become d .diskFull) := by
  have hne : m ≠ d := by
    rintro rfl
    simp [hm] at hd
  unfold Cache.finishFlush at hRun
  simp only [Execution.bind_eq_ok, Execution.pure_eq_ok] at hRun
  obtain ⟨_, -, _, -, rfl⟩ := hRun
  have h₁ := hInv.writeBlock (w := .flush) (by simp) hm hd
  have h₂ := h₁.inv.copyHeader (by simp) (Ghost.become_self _ _ _)
  have h₃ := h₂.inv.modifyIndexTo (by simp)
    (by rw [Ghost.become_of_ne _ _ hne, Ghost.become_of_ne _ _ hne, Ghost.become_self])
    (Ghost.become_self _ _ _)
  have h₄ := h₃.inv.resetFlushed (m := m)
    (by rw [Ghost.become_of_ne _ _ hne, Ghost.become_self]; rfl)
  have h₅ := h₄.inv.linkMslabFree (m := m) (Ghost.become_self _ _ _)
  have h₆ := h₅.inv.linkDslabFull (d := d)
    (by rw [Ghost.become_of_ne _ _ hne.symm, Ghost.become_of_ne _ _ hne.symm, Ghost.become_self]
        rfl)
  have hAll := ((((h₁.trans h₂).trans h₃).trans h₄).trans h₅).trans h₆
  subst channel
  have hGhost : (((((((g.become m (.sourceOf .flush d)).become d (.diskWritten .flush m)).become d
      (.diskCopy .flush m)).become m (.emptied .flush)).become d (.filled .flush)).become m
      .memReset).become m .memFree).become d .diskFull = (g.become m .memFree).become d .diskFull := by
    simp only [Ghost.become, Ghost.mk.injEq, and_true]
    funext y
    by_cases hym : y = m <;> by_cases hyd : y = d <;> simp [Function.update_apply, hym, hyd]
  rw [hGhost] at hAll
  exact hAll

end Inv

end KVCache
