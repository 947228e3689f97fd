import KVCache.Invariant.Changes
import KVCache.Invariant.Writer

/-! Quick GC drops full disk slabs: it unlinks them, deletes the index entries
of all keys found in them, and hands them back. The deletion goes by key, so a
key whose entry points elsewhere is lost, too. -/

namespace KVCache

variable {build : Build} {cfg : Config} {c c' c'' : Cache} {g : Ghost} {d channel : Nat}

namespace Inv

/-! ### Selection -/

/-- A full disk slab at the head of its list is unlinked. -/
theorem unlinkFull (hInv : Inv cfg c g) (hMem : d ∈ (c.dslabFull channel).list)
    (hRole : g.role d = .diskFull) :
    Silent cfg .gc c g
      { c with
        dslabFull := c.dslabFull.modify channel (·.del d)
        nrFullDslab := c.nrFullDslab - 1 } (g.become d .diskDropped) := by
  obtain ⟨hPlace, hChannel⟩ := hInv.lists.mem_dslabFull.mp hMem
  have hRange := (hInv.slab d).range
  have hShape := (hInv.slab d).shape
  rw [hRole] at hRange hShape
  subst channel
  exact hInv.relink (d := g.drift) rfl rfl rfl (hInv.lists.leave_dslabFull hPlace rfl)
    (by rw [hRole]; rfl) (by rw [hRole]; trivial) trivial hRange hShape
    (fun h => hInv.refs_of_dead hRole h) (by simp)

/-- The selection takes as many full disk slabs as it was asked for. -/
theorem selectDrop {fuel : Nat} {n : Int} {start toDrop : List Nat} (hInv : Inv cfg c g)
    (hFull : ∀ x, g.place x = .dslabFull → g.role x = .diskFull)
    (hRun : Cache.selectDrop cfg fuel n c start = .ok (toDrop, c')) :
    ∃ new, toDrop = new ++ start ∧ new.Nodup ∧ new.length = n.toNat ∧
      (∀ x ∈ new, g.role x = .diskFull) ∧
      Silent cfg .gc c g c' (g.becomeAll new .diskDropped) := by
  induction fuel generalizing n c g start with
  | zero =>
      unfold Cache.selectDrop at hRun
      split at hRun
      · rename_i hDone
        obtain ⟨rfl, rfl⟩ := Prod.mk.inj (Except.ok.inj hRun)
        exact ⟨[], rfl, List.nodup_nil, by simp; omega, by simp, by simpa using .refl hInv⟩
      · simp at hRun
  | succ fuel ih =>
      unfold Cache.selectDrop at hRun
      split at hRun
      · rename_i hDone
        obtain ⟨rfl, rfl⟩ := Prod.mk.inj (Except.ok.inj hRun)
        exact ⟨[], rfl, List.nodup_nil, by simp; omega, by simp, by simpa using .refl hInv⟩
      · rename_i hMore
        simp only at hRun
        have hCursor : Silent cfg .gc c g
            { c with nextOpsPoolRemoveChannel := (c.nextOpsPoolRemoveChannel + 1) % cfg.nrChannels }
            g := hInv.unrelated rfl rfl rfl hInv.lists.congr
        split at hRun
        · obtain ⟨new, hNew, hNodup, hLength, hRoles, hSilent⟩ := ih hCursor.inv hFull hRun
          exact ⟨new, hNew, hNodup, hLength, hRoles, hCursor.trans hSilent⟩
        · rename_i first _ hList
          have hMem : first ∈ (c.dslabFull
              (cfg.nextChannel c.nextOpsPoolRemoveChannel % cfg.nrChannels)).list := by
            rw [hList]; simp
          have hRole := hFull first (hInv.lists.mem_dslabFull.mp hMem).1
          have hUnlink := hCursor.inv.unlinkFull hMem hRole
          have hFull' : ∀ x, (g.become first .diskDropped).place x = .dslabFull →
              (g.become first .diskDropped).role x = .diskFull := by
            intro x hx
            by_cases hEq : x = first
            · subst x
              simp [Role.place] at hx
            · rw [g.become_of_ne _ hEq]
              exact hFull x (by rwa [g.place_become_of_ne _ hEq] at hx)
          obtain ⟨new, rfl, hNodup, hLength, hRoles, hSilent⟩ := ih hUnlink.inv hFull' hRun
          have hFirst : first ∉ new := by
            intro hIn
            have := hRoles first hIn
            simp at this
          refine ⟨new ++ [first], by simp, ?_, ?_, ?_, ?_⟩
          · simp only [List.nodup_append, hNodup, List.mem_singleton, true_and]
            exact ⟨by simp, fun x hx y hy hEq => hFirst (by rwa [← hy, ← hEq])⟩
          · rw [List.length_append, hLength]
            simp only [List.length_singleton]
            omega
          · intro x hx
            rcases List.mem_append.mp hx with hOld | hNew
            · have hne : x ≠ first := fun hEq => hFirst (hEq ▸ hOld)
              have := hRoles x hOld
              rwa [g.become_of_ne _ hne] at this
            · obtain rfl := List.mem_singleton.mp hNew
              exact hRole
          · rw [g.becomeAll_concat]
            exact (hCursor.trans hUnlink).trans hSilent

end Inv

/-! ### Eviction -/

/-- The key has the cell of a key that is stored in the slab. -/
def StoredIn (cfg : Config) (c : Cache) (d : Nat) (key : Key) : Prop :=
  ∃ i < (c.slabs d).nrAlloc, cfg.cell key = cfg.cell (c.slotAt d i).1

/-- What the eviction of some slabs does: all keys stored in them are gone from
the index, and the counts of these slabs are cleared. -/
structure Dropped (cfg : Config) (c : Cache) (ds : List Nat) (c' : Cache) : Prop where
  cache : c' = { c with index := c'.index, slabs := c'.slabs }
  same : ∀ x, (c.slabs x).Same (c'.slabs x)
  nrUsed : ∀ x, (c'.slabs x).nrUsed = if x ∈ ds then 0 else (c.slabs x).nrUsed
  pruned : c.index.Pruned cfg c'.index fun key => ∃ d ∈ ds, StoredIn cfg c d key

namespace Dropped

variable {ds : List Nat}

theorem slotAt (h : Dropped cfg c ds c') : c'.slotAt = c.slotAt :=
  Cache.slotAt_of_same (by rw [h.cache]) h.same

theorem refl (c : Cache) : Dropped cfg c [] c :=
  ⟨rfl, fun _ => .refl _, by simp, (Index.Pruned.refl c.index).congr (by simp)⟩

theorem cons (h : Dropped cfg c [d] c') (h' : Dropped cfg c' ds c'') :
    Dropped cfg c (d :: ds) c'' where
  cache := by rw [h'.cache, h.cache]
  same := fun x => (h.same x).trans (h'.same x)
  nrUsed := fun x => by
    rw [h'.nrUsed, h.nrUsed]
    by_cases hx : x ∈ ds <;> simp [hx]
  pruned := by
    refine (h.pruned.trans h'.pruned).congr fun key => ?_
    simp only [StoredIn, h.slotAt, (h.same _).nrAlloc]
    simp

/-- A lookup finds what it found before, or nothing. -/
theorem view (h : Dropped cfg c ds c') {key : Key} {object : Key × Value}
    (hView : c'.view cfg key = some object) : c.view cfg key = some object := by
  simp only [Cache.view, h.slotAt, h.pruned.entries] at hView ⊢
  cases hGet : c'.index.getIndexEntry cfg key with
  | none => simp [hGet] at hView
  | some e => rwa [(h.pruned.some_of_some hGet).2, ← hGet]

end Dropped

namespace Inv

/-- Eviction reads the slots through the header stored in the block, which is
as good as the header in memory. -/
theorem evictDslab (hInv : Inv cfg c g) (hRole : g.role d = .diskDropped) :
    c.index.Pruned cfg (c.evictDslab cfg d).index (StoredIn cfg c d) ∧
      (c.evictDslab cfg d).index.Ok cfg (fun x i => (c.slotAt x i).1)
        (fun x => (c.slabs x).nrAlloc) := by
  have hOk := hInv.slab d
  have hRange := hOk.range
  have hShape := hOk.shape
  rw [hRole] at hRange hShape
  obtain ⟨-, hBacks⟩ := hShape
  have hDisk : (c.slabs d).blockId ≠ -1 := by
    rw [ne_eq, hInv.blockId_eq_iff hRange.2]
    exact Nat.not_lt.mpr hRange.1
  have hAlloc : (c.block d).nrAlloc = (c.slabs d).nrAlloc := hBacks.nrAlloc
  obtain ⟨hPruned, hIndex⟩ := hInv.index.pruned_loop (c.block d).slotKey (c.block d).nrAlloc
  refine ⟨hPruned.congr fun key => ?_, hIndex⟩
  rw [StoredIn, hAlloc]
  refine exists_congr fun i => and_congr_right fun hi => ?_
  rw [← Cache.block_slot hBacks hDisk hi]
  rfl

theorem dropDslab_dropped (hInv : Inv cfg c g) (hRole : g.role d = .diskDropped)
    (hRun : c.dropDslab build cfg d = .ok c') :
    Dropped cfg c [d] c' ∧
      c'.index.Ok cfg (fun x i => (c.slotAt x i).1) (fun x => (c.slabs x).nrAlloc) := by
  obtain ⟨hPruned, hIndex⟩ := hInv.evictDslab hRole
  unfold Cache.dropDslab at hRun
  simp only [Execution.bind_eq_ok, Execution.pure_eq_ok] at hRun
  obtain ⟨_, -, rfl⟩ := hRun
  have hSlabs : (c.evictDslab cfg d).slabs = c.slabs := rfl
  refine ⟨⟨rfl, fun x => ?_, fun x => ?_, hPruned.congr (by simp)⟩, hIndex⟩
  · simp only [hSlabs, Table.get_modify, Slab.Same]
    split <;> simp_all
  · simp only [hSlabs, Table.get_modify, List.mem_singleton]
    split <;> rfl

theorem frame_of_dropped (hRole : g.role d = .diskDropped) (h : Dropped cfg c [d] c') :
    Frame cfg .gc c g c' { g.become d .diskClean with exact := false } := by
  have hne : ∀ x, (g.role x).owner ≠ some .gc → x ≠ d := by
    rintro x hx rfl
    exact hx (by rw [hRole]; rfl)
  constructor
  case block => rfl
  case role => exact fun x hx => g.become_of_ne _ (hne x hx)
  case handed =>
    intro x
    by_cases hx : x = d
    · subst hx
      rw [show ({ g.become x .diskClean with exact := false } : Ghost).role x = .diskClean from
        g.become_self _ _]
      exact .inr (.inl rfl)
    · exact .inl (g.become_of_ne _ hx)
  case same => exact fun x _ => h.same x
  case nrUsed =>
    intro x hx
    rw [h.nrUsed x, if_neg (by simpa using hne x hx)]
  case stored =>
    intro x _ _
    refine Cache.block_of_same ?_ (h.same x)
    rw [h.cache]
  case pend => exact fun _ => rfl
  case lookup =>
    intro _ key hNone
    by_cases hGone : ∃ d' ∈ [d], StoredIn cfg c d' key
    · exact h.pruned.lost key hGone
    · exact (h.pruned.kept key hGone).trans hNone

/-- The evicted slab itself: nothing points into it any more. -/
theorem slabOk_of_dropped (hInv : Inv cfg c g) (hRole : g.role d = .diskDropped)
    (h : Dropped cfg c [d] c')
    (hIndex : c'.index.Ok cfg (fun x i => (c.slotAt x i).1) (fun x => (c.slabs x).nrAlloc)) :
    SlabOk cfg c' { g.become d .diskClean with exact := false } d := by
  have hOk := hInv.slab d
  have hRange := hOk.range
  rw [hRole] at hRange
  have hPending : g.pending d = 0 := hInv.pending_of_owner (by rw [hRole]; simp [Role.owner])
  have hSelf : ({ g.become d .diskClean with exact := false } : Ghost).role d = .diskClean :=
    g.become_self _ _
  have hUsed : (c'.slabs d).nrUsed = 0 := by rw [h.nrUsed d, if_pos (by simp)]
  have hSame := h.same d
  have hZero : c'.index.refs d = 0 := by
    refine h.pruned.refs_eq_zero hIndex fun e he hSlab => ?_
    subst hSlab
    exact ⟨_, List.mem_singleton_self _, _, hInv.index.inside e he, rfl⟩
  constructor
  case range => rw [hSelf]; exact hRange
  case sid => rw [hSame.sid]; exact hOk.sid
  case blockId => rw [hSame.blockId]; exact hOk.blockId
  case shape => rw [hSelf]; trivial
  case source =>
    intro src hSrc
    rw [hSelf] at hSrc
    simp [Role.src] at hSrc
  case bounds =>
    rw [hUsed, hSame.nrAlloc, hSame.nrSlots]
    exact ⟨Int.natCast_nonneg _, hOk.bounds.2⟩
  case counts =>
    change (c'.index.refs d : Int) + g.pending d ≤ (c'.slabs d).nrUsed
    omega
  case exact => exact fun hg => by simp at hg
  case dead => exact fun _ => hZero

/-- A dropped slab is evicted. Counts of other slabs may be left too high. -/
theorem dropDslab (hInv : Inv cfg c g) (hRole : g.role d = .diskDropped)
    (hRun : c.dropDslab build cfg d = .ok c') :
    Inv cfg c' { g.become d .diskClean with exact := false } ∧
      Frame cfg .gc c g c' { g.become d .diskClean with exact := false } ∧
      Dropped cfg c [d] c' := by
  obtain ⟨hDropped, hIndex⟩ := hInv.dropDslab_dropped hRole hRun
  have hFrame := frame_of_dropped hRole hDropped
  have hDisk : c'.disk = c.disk := by rw [hDropped.cache]
  refine ⟨?_, hFrame, hDropped⟩
  constructor
  case config => exact hInv.config
  case lists =>
    rw [hDropped.cache]
    exact (hInv.lists.congr.become (by rw [Ghost.place, hRole]; rfl)).congr_ghost
      (fun _ => rfl) rfl rfl
  case geometry => exact hInv.geometry
  case slab =>
    intro x
    by_cases hx : x = d
    · subst x
      exact hInv.slabOk_of_dropped hRole hDropped hIndex
    · have hUsed := hDropped.nrUsed x
      rw [if_neg (by simpa using hx)] at hUsed
      have hRefs := hDropped.pruned.refs_le hIndex x
      refine (hInv.slab x).congr (g.become_of_ne _ hx) rfl (hDropped.same x)
        (fun _ => Cache.block_of_same hDisk (hDropped.same x)) (fun src hSrc => ?_) hUsed.le ?_ ?_ ?_
      · refine ⟨hDropped.same src, g.become_of_ne _ ?_⟩
        rintro rfl
        rcases (hInv.slab x).source src hSrc with hSource | hSource <;> rw [hRole] at hSource <;>
          cases hSource
      · have hCounts := (hInv.slab x).counts
        change (c'.index.refs x : Int) + g.pending x ≤ (c'.slabs x).nrUsed
        omega
      · exact fun hg => by simp at hg
      · intro hDead
        have hZero := (hInv.slab x).dead hDead
        omega
  case index =>
    have hAlloc : (fun x => (c'.slabs x).nrAlloc) = fun x => (c.slabs x).nrAlloc :=
      funext fun x => (hDropped.same x).nrAlloc
    rw [hDropped.slotAt, hAlloc]
    exact hIndex
  case pend => exact hInv.pend_of_frame hFrame (by simp)

/-- The eviction of all selected slabs. -/
theorem dropDslabs {ds : List Nat} (hInv : Inv cfg c g) (hRoles : ∀ d ∈ ds, g.role d = .diskDropped)
    (hNodup : ds.Nodup) (hRun : ds.foldlM (Cache.dropDslab build cfg) c = .ok c') :
    Inv cfg c' { g.becomeAll ds .diskClean with exact := false } ∧
      Frame cfg .gc c g c' { g.becomeAll ds .diskClean with exact := false } ∧
      Dropped cfg c ds c' := by
  induction ds generalizing c g with
  | nil =>
      obtain rfl : c = c' := by simpa using hRun
      rw [g.becomeAll_nil]
      exact ⟨hInv.with_exact (by simp), Frame.refl.with_exact false, .refl c⟩
  | cons d ds ih =>
      rw [List.foldlM_cons, Execution.bind_eq_ok] at hRun
      obtain ⟨c₁, hFirst, hRest⟩ := hRun
      obtain ⟨hNot, hNodup⟩ := List.nodup_cons.mp hNodup
      obtain ⟨hInv₁, hFrame₁, hDropped₁⟩ := hInv.dropDslab (hRoles d (by simp)) hFirst
      obtain ⟨hInv₂, hFrame₂, hDropped₂⟩ :=
        ih hInv₁ (g.become_tail _ hNot hRoles) hNodup hRest
      rw [g.becomeAll_cons]
      exact ⟨hInv₂, hFrame₁.trans hFrame₂, hDropped₁.cons hDropped₂⟩

/-- When no key of the dropped slabs has its entry elsewhere, the use counts
stay exact. -/
theorem exact_of_dropped {ds : List Nat} {g' : Ghost} (hInv : Inv cfg c g) (hg : g.exact)
    (hInv' : Inv cfg c' g') (hPend : g'.pend = g.pend) (h : Dropped cfg c ds c')
    (hClean : ∀ d ∈ ds, g'.role d = .diskClean)
    (hCopy : ∀ x, x ∉ ds → ¬(g'.role x).Copying → ¬(g.role x).Copying)
    (hOwn : ∀ d ∈ ds, ∀ i < (c.slabs d).nrAlloc, ∀ e,
      c.index.getIndexEntry cfg (c.slotAt d i).1 = some e → (c.index.entries e).slabId ∈ ds)
    (x : Nat) (hx : ¬(g'.role x).Copying) :
    (c'.slabs x).nrUsed = (c'.index.refs x : Int) + g'.pending x := by
  have hPending : g'.pending x = g.pending x := by simp only [Ghost.pending, hPend]
  by_cases hMem : x ∈ ds
  · have hZero := (hInv'.slab x).dead (by rw [hClean x hMem]; trivial)
    have hNone : g'.pending x = 0 :=
      hInv'.pending_of_owner (by rw [hClean x hMem]; simp [Role.owner])
    rw [h.nrUsed x, if_pos hMem, hZero, hNone]
    rfl
  · have hIndex : c'.index.Ok cfg (fun x i => (c.slotAt x i).1) (fun x => (c'.slabs x).nrAlloc) := by
      have := hInv'.index
      rwa [h.slotAt] at this
    have hIndex₀ : c.index.Ok cfg (fun x i => (c.slotAt x i).1) (fun x => (c'.slabs x).nrAlloc) :=
      hInv.index.congr (fun _ _ => rfl) fun e _ => (h.same _).nrAlloc.ge
    have hRefs : c'.index.refs x = c.index.refs x := by
      refine h.pruned.refs_eq hIndex₀ hIndex fun e he hSlab => ?_
      rintro ⟨d, hd, i, hi, hCell⟩
      have hGet := hInv.index.getIndexEntry_key he
      rw [Index.getIndexEntry_congr c.index hCell] at hGet
      exact hMem (hSlab ▸ hOwn d hd i hi e hGet)
    rw [h.nrUsed x, if_neg hMem, hRefs, hPending]
    exact (hInv.slab x).exact hg (hCopy x hMem hx)

/-! ### Handing the slabs back -/

theorem resetClean (hInv : Inv cfg c g) (hRole : g.role d = .diskClean) :
    Silent cfg .gc c g (c.resetSlab d) (g.become d .diskLoose) := by
  have hRange := (hInv.slab d).range
  rw [hRole] at hRange
  refine hInv.reset (by rw [hRole]; rfl) (by simp) (by rw [hRole]; trivial) trivial
    (by rw [hRole]; trivial) ?_ hRange fun _ hFresh => hFresh
  rw [Ghost.place, hRole]
  rfl

theorem linkOpsPool (hInv : Inv cfg c g) (hRole : g.role d = .diskLoose)
    (hChannel : g.channel cfg d = channel) :
    Silent cfg .gc c g
      { c with
        opsPool := c.opsPool.modify channel (·.add d)
        opsPoolSize := c.opsPoolSize + 1 } (g.become d .opsFree) := by
  have hRange := (hInv.slab d).range
  have hShape := (hInv.slab d).shape
  rw [hRole] at hRange hShape
  have hPlace : g.place d = .nowhere := by rw [Ghost.place, hRole]; rfl
  subst channel
  exact hInv.relink (d := g.drift) rfl rfl rfl (hInv.lists.enter_opsPool hPlace rfl)
    (by rw [hRole]; rfl) (by rw [hRole]; trivial) trivial hRange hShape
    (fun h => hInv.refs_of_dead hRole h) (by simp)

theorem linkFree (hInv : Inv cfg c g) (hRole : g.role d = .diskLoose)
    (hChannel : g.channel cfg d = channel) :
    Silent cfg .gc c g
      { c with
        dslabFree := c.dslabFree.modify channel (·.add d)
        nrFreeDslab := c.nrFreeDslab + 1 } (g.become d .diskFree) := by
  have hRange := (hInv.slab d).range
  have hShape := (hInv.slab d).shape
  rw [hRole] at hRange hShape
  have hPlace : g.place d = .nowhere := by rw [Ghost.place, hRole]; rfl
  subst channel
  exact hInv.relink (d := g.drift) rfl rfl rfl (hInv.lists.enter_dslabFree hPlace rfl)
    (by rw [hRole]; rfl) (by rw [hRole]; trivial) trivial hRange hShape
    (fun h => hInv.refs_of_dead hRole h) (by simp)

theorem linkDslabFree (hInv : Inv cfg c g) (hRole : g.role d = .diskClean)
    (hChannel : g.channel cfg d = channel)
    (hRun : Cache.linkDslabFree build cfg channel c d = .ok c') :
    Silent cfg .gc c g c' (g.become d .diskFree) := by
  unfold Cache.linkDslabFree at hRun
  simp only [Execution.bind_eq_ok, Execution.pure_eq_ok] at hRun
  obtain ⟨_, -, rfl⟩ := hRun
  have hReset := hInv.resetClean hRole
  have hLink := hReset.inv.linkFree (g.become_self _ _) hChannel
  have hAll := hReset.trans hLink
  rw [g.become_become] at hAll
  exact hAll

theorem channel_eq (hInv : Inv cfg c g) (x : Nat) :
    cfg.channelId (c.slabs x).blockId = g.channel cfg x := by
  rw [(hInv.slab x).blockId]
  rfl

/-- The second loop frees all slabs that the first one left. -/
theorem backToDslabFree {ds : List Nat} (hInv : Inv cfg c g)
    (hRoles : ∀ d ∈ ds, g.role d = .diskClean) (hNodup : ds.Nodup)
    (hRun : ds.foldlM (Cache.backToDslabFree build cfg) c = .ok c') :
    Silent cfg .gc c g c' (g.becomeAll ds .diskFree) := by
  induction ds generalizing c g with
  | nil =>
      obtain rfl : c = c' := by simpa using hRun
      rw [g.becomeAll_nil]
      exact .refl hInv
  | cons d ds ih =>
      rw [List.foldlM_cons, Execution.bind_eq_ok] at hRun
      obtain ⟨c₁, hFirst, hRest⟩ := hRun
      obtain ⟨hNot, hNodup⟩ := List.nodup_cons.mp hNodup
      have hLink := hInv.linkDslabFree (hRoles d (by simp)) (hInv.channel_eq d).symm hFirst
      rw [g.becomeAll_cons]
      exact hLink.trans (ih hLink.inv (g.become_tail _ hNot hRoles) hNodup hRest)

/-- What the first loop makes of the dropped slabs: those that are left, those
that became over-provisioned, and at most one that is on no list any more. -/
structure HandedBack (g : Ghost) (ds rest : List Nat) (room : Int) (g' : Ghost) : Prop where
  drift : g'.drift = g.drift
  other : ∀ x, x ∉ ds → g'.role x = g.role x
  left : ∀ d ∈ rest, d ∈ ds ∧ g'.role d = .diskClean
  nodup : rest.Nodup
  back : ∀ d ∈ ds, d ∉ rest → g'.role d = .opsFree ∨ g'.role d = .diskLoose
  all : (ds.length : Int) ≤ room → rest = [] ∧ ∀ d ∈ ds, g'.role d = .opsFree
  lost : room < ds.length → ds ≠ [] → ∃ d ∈ ds, d ∉ rest ∧ g'.role d = .diskLoose ∧
    ∀ x ∈ ds, x ∉ rest → x ≠ d → g'.role x = .opsFree

theorem backToOpsPool {ds rest : List Nat} {o i : Int} (hInv : Inv cfg c g)
    (hRoles : ∀ d ∈ ds, g.role d = .diskClean) (hNodup : ds.Nodup)
    (hRun : Cache.backToOpsPool cfg o i ds c = (rest, c')) :
    ∃ g', Silent cfg .gc c g c' g' ∧ HandedBack g ds rest (o - i) g' := by
  induction ds generalizing c g i with
  | nil =>
      obtain ⟨rfl, rfl⟩ := Prod.mk.inj hRun
      exact ⟨g, .refl hInv, rfl, fun _ _ => rfl, by simp, List.nodup_nil, by simp, by simp, by simp⟩
  | cons d ds ih =>
      obtain ⟨hNot, hNodup⟩ := List.nodup_cons.mp hNodup
      have hReset := hInv.resetClean (hRoles d (by simp))
      unfold Cache.backToOpsPool at hRun
      simp only at hRun
      split at hRun
      · rename_i hEnough
        obtain ⟨rfl, rfl⟩ := Prod.mk.inj hRun
        refine ⟨_, hReset, rfl, fun x hx => g.become_of_ne _ fun h => hx (by simp [h]),
          fun d' hd' => ⟨by simp [hd'], g.become_tail _ hNot hRoles d' hd'⟩, hNodup,
          fun d' hd' hRest => ?_, fun hLe => ?_,
          fun _ _ => ⟨d, by simp, hNot, g.become_self _ _, fun x hx hRest hne => ?_⟩⟩
        · rcases List.mem_cons.mp hd' with rfl | hIn
          · exact .inr (g.become_self _ _)
          · exact absurd hIn hRest
        · simp only [List.length_cons] at hLe
          omega
        · exact absurd ((List.mem_cons.mp hx).resolve_left hne) hRest
      · have hChannel := (hReset.inv.channel_eq d).symm
        have hLink := hReset.inv.linkOpsPool (g.become_self _ _) hChannel
        rw [g.become_become] at hLink
        obtain ⟨g', hSilent, hBack⟩ :=
          ih hLink.inv (g.become_tail _ hNot hRoles) hNodup hRun
        have hd : g'.role d = .opsFree := (hBack.other d hNot).trans (g.become_self _ _)
        refine ⟨g', (hReset.trans hLink).trans hSilent, hBack.drift, fun x hx => ?_,
          fun d' hd' => ⟨?_, (hBack.left d' hd').2⟩, hBack.nodup, fun d' hd' hRest => ?_,
          fun hLe => ?_, fun hLt _ => ?_⟩
        · rw [hBack.other x fun h => hx (by simp [h])]
          exact g.become_of_ne _ fun h => hx (by simp [h])
        · exact List.mem_cons_of_mem d (hBack.left d' hd').1
        · rcases List.mem_cons.mp hd' with rfl | hIn
          · exact .inl hd
          · exact hBack.back d' hIn hRest
        · simp only [List.length_cons] at hLe
          obtain ⟨hNil, hAll⟩ := hBack.all (by omega)
          refine ⟨hNil, fun d' hd' => ?_⟩
          rcases List.mem_cons.mp hd' with rfl | hIn
          · exact hd
          · exact hAll d' hIn
        · simp only [List.length_cons] at hLt
          obtain ⟨d', hd', hRest, hLoose, hOther⟩ :=
            hBack.lost (by omega) (List.ne_nil_of_length_pos (by omega))
          refine ⟨d', List.mem_cons_of_mem d hd', hRest, hLoose, fun x hx hNotRest hne => ?_⟩
          rcases List.mem_cons.mp hx with rfl | hIn
          · exact hd
          · exact hOther x hIn hNotRest hne

end Inv

/-! ### A whole round -/

/-- The selection changes lists and counters only. -/
theorem selectDrop_same {fuel : Nat} {n : Int} {start toDrop : List Nat}
    (hRun : Cache.selectDrop cfg fuel n c start = .ok (toDrop, c')) :
    c'.slabs = c.slabs ∧ c'.disk = c.disk ∧ c'.index = c.index := by
  obtain ⟨_, _, _, rfl⟩ := selectDrop_changes hRun
  exact ⟨rfl, rfl, rfl⟩

theorem backToOpsPool_index {ds : List Nat} {o i : Int} :
    (Cache.backToOpsPool cfg o i ds c).2.index = c.index := by
  obtain ⟨_, _, _, hChanges⟩ := backToOpsPool_changes cfg o i ds c
  rw [hChanges]

theorem backToDslabFree_index {ds : List Nat}
    (hRun : ds.foldlM (Cache.backToDslabFree build cfg) c = .ok c') : c'.index = c.index := by
  obtain ⟨_, _, _, rfl⟩ := backToDslabFree_frees hRun
  rfl

/-- Every key stored in the given slabs has its entry in one of them, if any. -/
def OwnKeys (cfg : Config) (c : Cache) (ds : List Nat) : Prop :=
  ∀ d ∈ ds, ∀ i < (c.slabs d).nrAlloc, ∀ e,
    c.index.getIndexEntry cfg (c.slotAt d i).1 = some e → (c.index.entries e).slabId ∈ ds

/-- What a quick GC does that was asked for `f` free slabs and `o` slabs for the
pool, with the slabs it drops. -/
structure QuickRound (cfg : Config) (f o : Int) (toDrop : List Nat) (c : Cache) (g : Ghost)
    (c' : Cache) (g' : Ghost) : Prop where
  inv : Inv cfg c' g'
  frame : Frame cfg .gc c g c' g'
  idle : g'.GcIdle
  drift : g'.drift = g.drift
  pruned : c.index.Pruned cfg c'.index fun key => ∃ d ∈ toDrop, StoredIn cfg c d key
  view : ∀ key object, c'.view cfg key = some object → c.view cfg key = some object
  kept : f ≤ 0 ∨ f + o ≤ 0 → g.SameLoose g'
  lost : 0 < f → 0 < f + o → g.LosesOne g'
  exact : OwnKeys cfg c toDrop → g'.exact = g.exact

theorem slotAt_of_same_slabs (hSlabs : c'.slabs = c.slabs) (hDisk : c'.disk = c.disk) :
    c'.slotAt = c.slotAt :=
  Cache.slotAt_of_same hDisk fun x => by rw [hSlabs]

/-- The eviction of the selected slabs, with the counts exact if they can be. -/
theorem Inv.evicted {toDrop : List Nat} (hInv : Inv cfg c g) (hNodup : toDrop.Nodup)
    (hRoles : ∀ d ∈ toDrop, g.role d = .diskDropped) {b : Bool}
    (hExact : b → g.exact ∧ OwnKeys cfg c toDrop)
    (hRun : toDrop.foldlM (Cache.dropDslab build cfg) c = .ok c') :
    Inv cfg c' { g.becomeAll toDrop .diskClean with exact := b } ∧
      Frame cfg .gc c g c' { g.becomeAll toDrop .diskClean with exact := b } ∧
      Dropped cfg c toDrop c' := by
  obtain ⟨hInv', hFrame, hDropped⟩ := hInv.dropDslabs hRoles hNodup hRun
  refine ⟨hInv'.with_exact fun hb => ?_, hFrame.with_exact b, hDropped⟩
  obtain ⟨hg, hOwn⟩ := hExact hb
  refine hInv.exact_of_dropped hg hInv' rfl hDropped (fun d hd => g.becomeAll_of_mem _ hd) ?_ hOwn
  intro x hx hCopy
  rwa [show ({ g.becomeAll toDrop .diskClean with exact := false } : Ghost).role x = g.role x from
    g.becomeAll_of_not_mem _ hx] at hCopy

/-- `do_quick_gc`. -/
theorem Inv.doQuickGc {fuel : Nat} {f o : Int} (hInv : Inv cfg c g) (hIdle : g.GcIdle)
    (hRun : Cache.doQuickGc build cfg fuel f o c = .ok c') :
    ∃ toDrop c₁ g', Cache.selectDrop cfg fuel (f + o) c [] = .ok (toDrop, c₁) ∧
      QuickRound cfg f o toDrop c g c' g' := by
  classical
  unfold Cache.doQuickGc at hRun
  simp only [Execution.bind_eq_ok, Execution.pure_eq_ok] at hRun
  obtain ⟨_, -, _, -, ⟨toDrop, c₁⟩, hSelect, c₂, hDrop, c₄, hFree, _, -, rfl⟩ := hRun
  obtain ⟨new, hNew, hNodup, hLength, hRoles, hSilent₁⟩ :=
    hInv.selectDrop (fun x => hIdle.full) hSelect
  obtain rfl : toDrop = new := by simpa using hNew
  obtain ⟨hSlabs, hDisk, hIndex⟩ := selectDrop_same hSelect
  have hSlot := slotAt_of_same_slabs hSlabs hDisk
  have hOwn : OwnKeys cfg c₁ toDrop ↔ OwnKeys cfg c toDrop := by
    simp only [OwnKeys, hSlabs, hIndex, hSlot]
  obtain ⟨hInv₂, hFrame₂, hDropped⟩ := hSilent₁.inv.evicted hNodup
    (fun d hd => g.becomeAll_of_mem _ hd) (b := g.exact && decide (OwnKeys cfg c toDrop))
    (fun hb => by
      simp only [Bool.and_eq_true, decide_eq_true_eq] at hb
      exact ⟨hb.1, hOwn.mpr hb.2⟩) hDrop
  have hClean : ∀ d ∈ toDrop, ({ (g.becomeAll toDrop .diskDropped).becomeAll toDrop .diskClean with
      exact := g.exact && decide (OwnKeys cfg c toDrop) } : Ghost).role d = .diskClean :=
    fun d hd => Ghost.becomeAll_of_mem _ _ hd
  obtain ⟨g₃, hSilent₃, hBack⟩ := hInv₂.backToOpsPool hClean hNodup rfl
  have hSilent₄ := hSilent₃.inv.backToDslabFree (fun d hd => (hBack.left d hd).2) hBack.nodup hFree
  have hOutside : ∀ x, x ∉ toDrop → g₃.role x = g.role x := by
    intro x hx
    rw [hBack.other x hx]
    exact (Ghost.becomeAll_of_not_mem _ _ hx).trans (g.becomeAll_of_not_mem _ hx)
  generalize (Cache.backToOpsPool cfg o 0 toDrop c₂).1 = rest at hFree hBack hSilent₄
  have hFinal : ∀ x, (g₃.becomeAll rest .diskFree).role x = .diskFree ∨
      (x ∉ rest ∧ (g₃.becomeAll rest .diskFree).role x = g₃.role x) := by
    intro x
    by_cases hx : x ∈ rest
    · exact .inl (g₃.becomeAll_of_mem _ hx)
    · exact .inr ⟨hx, g₃.becomeAll_of_not_mem _ hx⟩
  have hStays : ∀ x, x ∉ toDrop → (g₃.becomeAll rest .diskFree).role x = g.role x := by
    intro x hx
    rw [g₃.becomeAll_of_not_mem _ fun hRest => hx (hBack.left x hRest).1]
    exact hOutside x hx
  refine ⟨toDrop, c₁, g₃.becomeAll rest .diskFree, hSelect, ?_⟩
  constructor
  case inv => exact hSilent₄.inv
  case frame => exact ((hSilent₁.frame.trans hFrame₂).trans hSilent₃.frame).trans hSilent₄.frame
  case idle =>
    intro x
    rcases hFinal x with hx | ⟨hRest, hx⟩
    · rw [hx]; exact id
    · rw [hx]
      by_cases hMem : x ∈ toDrop
      · rcases hBack.back x hMem hRest with hr | hr <;> rw [hr] <;> exact id
      · rw [hOutside x hMem]
        exact hIdle x
  case drift => exact hBack.drift
  case pruned =>
    have hIndex₄ : c₄.index = c₂.index :=
      (backToDslabFree_index hFree).trans backToOpsPool_index
    rw [hIndex₄, ← hIndex]
    refine hDropped.pruned.congr fun key => ?_
    simp only [StoredIn, hSlabs, hSlot]
  case view =>
    intro key object hView
    rw [hSilent₄.view, hSilent₃.view] at hView
    rw [← hSilent₁.view]
    exact hDropped.view hView
  case kept =>
    intro hAmounts x
    by_cases hMem : x ∈ toDrop
    · have hPos := List.length_pos_of_mem hMem
      obtain ⟨hNil, hAll⟩ := hBack.all (by omega)
      refine iff_of_false ?_ (by simp [hRoles x hMem])
      rw [hNil, Ghost.becomeAll_nil, hAll x hMem]
      simp
    · rw [hStays x hMem]
  case lost =>
    intro hFree hSome
    obtain ⟨d, hd, hRest, hLoose, hOther⟩ :=
      hBack.lost (by omega) (List.ne_nil_of_length_pos (by omega))
    refine ⟨d, by simp [hRoles d hd], fun x => ?_⟩
    by_cases hMem : x ∈ toDrop
    · simp only [hRoles x hMem, reduceCtorEq, false_or]
      rcases hFinal x with hx | ⟨hNot, hx⟩
      · rw [hx]
        refine iff_of_false (by simp) ?_
        rintro rfl
        rw [g₃.becomeAll_of_not_mem _ hRest, hLoose] at hx
        cases hx
      · rw [hx]
        by_cases hEq : x = d
        · subst x
          exact iff_of_true hLoose rfl
        · rw [hOther x hMem hNot hEq]
          exact iff_of_false (by simp) hEq
    · rw [hStays x hMem]
      refine ⟨.inl, fun h => h.resolve_right ?_⟩
      rintro rfl
      exact hMem hd
  case exact =>
    intro hOwn
    have hExact : (g₃.becomeAll rest .diskFree).exact = g₃.exact := rfl
    rw [hExact, hSilent₃.exact]
    simp [hOwn]

end KVCache
