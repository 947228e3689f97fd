import KVCache.Invariant.Interleaving
import KVCache.Invariant.Pool
import KVCache.Properties.Admission

/-! Slots stay inside of their slab, if the table of classes allows it. The
constructor takes any table; a class that leaves no room for one slot behind the
header of a slab opens slabs without a slot, which are never full. Nothing else
can go wrong, unless there is no memory for slabs at all. -/

namespace KVCache

variable {build : Build} {cfg : Config} {c c' : Cache} {t t' : Threads}

/-- The slots that `slot_alloc` hands out in a build without assertions are in
the data area of a memory slab, and partial slabs have slots. -/
structure SlotsInside (cfg : Config) (t : Threads) : Prop where
  slot : t.writer = .idle → ∀ size c' sid i,
    t.cache.slotAlloc .release cfg size = .ok (.slot c' sid i) →
      sid < cfg.nrMslab ∧ Slab.headerSize + (c'.slabs sid).slotSize * (i + 1) ≤ cfg.slabSize ∧
        1 ≤ (c'.slabs sid).nrSlots
  partialSlots : ∀ k, ∀ x ∈ t.cache.slabPartial k, 1 ≤ (t.cache.slabs x).nrSlots

/-- Options that the constructor accepts, with a table of positive sizes in
ascending order, on an SSD that delivers every block once. -/
structure Config.Accepted (cfg : Config) : Prop where
  channels : 1 ≤ cfg.nrChannels
  blocks : 1 ≤ cfg.blocksPerChannel
  order : cfg.blockOrder.Perm (List.range cfg.nrBlocks)
  slabSize : cfg.slabSize < 2 ^ 31
  ascending : cfg.Ascending
  positive : ∀ z ∈ cfg.slabClassSize, 0 < z
  created : ∃ c, Cache.create .release cfg = .ok c

/-- Every class has room behind the header of a slab; with a single memory slab,
which is the buffer of the collector, no slot is ever handed out. -/
def Config.HoldsClasses (cfg : Config) : Prop :=
  cfg.nrMslab = 1 ∨ ∀ z ∈ cfg.slabClassSize, 1 ≤ cfg.nrMslab ∧ Slab.headerSize + z ≤ cfg.slabSize

/-! ### Taking a slot -/

/-- What `slot_alloc` does to the slab in which it takes a slot. -/
theorem allocPartial_slot {k sid i : Nat} (hRun : c.allocPartial build k sid = .ok (c', i)) :
    i = (c.slabs sid).nrAlloc ∧ (c'.slabs sid).slotSize = (c.slabs sid).slotSize ∧
      (c'.slabs sid).nrSlots = (c.slabs sid).nrSlots := by
  unfold Cache.allocPartial Slab.slotAlloc at hRun
  simp only [Execution.bind_eq_ok, Execution.pure_eq_ok] at hRun
  obtain ⟨_, -, _, -, ⟨slab, slot⟩, ⟨_, -, hAlloc⟩, hRun⟩ := hRun
  obtain ⟨rfl, rfl⟩ := Prod.mk.inj hAlloc
  split at hRun <;> obtain ⟨rfl, rfl⟩ := Prod.mk.inj (Execution.pure_eq_ok.mp hRun)
  all_goals exact ⟨rfl, by simp, by simp⟩

/-- A slot comes from the partial slab of its class, or from a free slab. -/
theorem slotAlloc_slot {size sid i : Nat}
    (hRun : c.slotAlloc build cfg size = .ok (.slot c' sid i)) :
    ∃ k, getSlabClass cfg size = some k ∧
      ((sid ∈ c.slabPartial k ∧ c.allocPartial build k sid = .ok (c', i)) ∨
        (sid ∈ c.mslabFree.list ∧
          (c.openSlab cfg k sid).allocPartial build k sid = .ok (c', i))) := by
  unfold Cache.slotAlloc at hRun
  split at hRun
  · cases hRun
  · rename_i k hClass
    refine ⟨k, hClass, ?_⟩
    split at hRun
    · rename_i x rest _ hPartial
      obtain ⟨⟨c₁, j⟩, hAlloc, hEnd⟩ := Execution.bind_eq_ok.mp hRun
      obtain ⟨rfl, rfl, rfl⟩ := SlotAlloc.slot.inj (Execution.pure_eq_ok.mp hEnd)
      exact .inl ⟨by rw [hPartial]; exact List.mem_cons_self, hAlloc⟩
    · rename_i x rest _ hFree
      obtain ⟨⟨c₁, j⟩, hAlloc, hEnd⟩ := Execution.bind_eq_ok.mp hRun
      obtain ⟨rfl, rfl, rfl⟩ := SlotAlloc.slot.inj (Execution.pure_eq_ok.mp hEnd)
      exact .inr ⟨by rw [hFree]; exact List.mem_cons_self, hAlloc⟩
    · cases hRun

/-! ### With room for every class -/

theorem partialSlots_of_inv {g : Ghost} (hInv : Inv cfg c g) {k x : Nat} (hx : x ∈ c.slabPartial k) :
    x < cfg.gcBuffer ∧ (c.slabs x).OfClass cfg k ∧ (c.slabs x).nrAlloc < (c.slabs x).nrSlots := by
  have hRole : g.role x = .memPartial k :=
    Role.eq_atRest (hInv.lists.mem_slabPartial.mp hx) (by simp) (by simp)
  have hRange := (hInv.slab x).range
  have hShape := (hInv.slab x).shape
  rw [hRole] at hRange hShape
  exact ⟨hRange, hShape.1, hShape.2.2⟩

theorem slotsInside_of_inv {g : Ghost} (hInv : Inv cfg t.cache g)
    (hRoom : ∀ z ∈ cfg.slabClassSize, Slab.headerSize + z ≤ cfg.slabSize)
    (hPos : ∀ z ∈ cfg.slabClassSize, 0 < z) : SlotsInside cfg t where
  slot := fun _ size c' sid i hRun => by
    have hMemory := hInv.config.memory
    obtain ⟨k, hClass, ⟨hPartial, hAlloc⟩ | ⟨hFree, hAlloc⟩⟩ := slotAlloc_slot hRun
    · obtain ⟨hRange, hOfClass, hLess⟩ := partialSlots_of_inv hInv hPartial
      obtain ⟨rfl, hSlot, hSlots⟩ := allocPartial_slot hAlloc
      have hHeader := hRoom _ (cfg.classSize_mem hOfClass.isClass)
      have hIn := Nat.le_trans (Nat.mul_le_mul_left _ hLess) hOfClass.slots_le
      rw [hSlot, hSlots]
      simp only [Config.gcBuffer] at hRange
      refine ⟨by omega, ?_, by omega⟩
      rw [Nat.succ_eq_add_one] at hIn
      omega
    · have hRole : g.role sid = .memFree :=
        Role.eq_atRest (hInv.lists.mem_mslabFree.mp hFree) (by simp) (by simp)
      have hRange := (hInv.slab sid).range
      have hShape := (hInv.slab sid).shape
      rw [hRole] at hRange hShape
      have hMem := cfg.classSize_mem (getSlabClass_some hClass).1
      have hHeader := hRoom _ hMem
      have hSlots : 1 ≤ cfg.slabSlots (cfg.classSize k) :=
        Nat.div_pos (by omega) (hPos _ hMem)
      obtain ⟨rfl, hSlot, hCount⟩ := allocPartial_slot hAlloc
      have hOpen : (t.cache.openSlab cfg k sid).slabs sid =
          { t.cache.slabs sid with
            cid := k, slotSize := cfg.classSize k
            nrSlots := cfg.slabSlots (cfg.classSize k) } := Table.get_modify_self _ _ _
      rw [hSlot, hCount, hOpen]
      have hEmpty : (t.cache.slabs sid).nrAlloc = 0 := hShape.nrAlloc
      simp only [Config.gcBuffer, Role.InRange] at hRange
      simp only [hEmpty, Nat.zero_add, Nat.mul_one]
      exact ⟨by omega, hHeader, hSlots⟩
  partialSlots := fun k x hx => by
    have hLess := (partialSlots_of_inv hInv hx).2.2
    omega

/-! ### Construction -/

/-- The parts of the state that the loop over the blocks leaves alone. -/
structure Cache.Untouched (cfg : Config) (c : Cache) : Prop where
  mslabFree : c.mslabFree = Cache.initMslabFree cfg
  mslabFull : c.mslabFull = default
  slabPartial : c.slabPartial = (Cache.initEmpty cfg).slabPartial
  index : c.index = (Cache.initEmpty cfg).index
  nrFullDslab : c.nrFullDslab = 0

theorem initBlock_untouched {n n' b : Nat} (h : c.Untouched cfg)
    (hRun : Cache.initBlock build cfg (c, n) b = .ok (c', n')) : c'.Untouched cfg := by
  simp only [Cache.initBlock, Execution.bind_eq_ok] at hRun
  obtain ⟨_, -, hRun⟩ := hRun
  split at hRun
  · obtain ⟨rfl, -⟩ := Prod.mk.inj (Execution.pure_eq_ok.mp hRun)
    exact ⟨h.mslabFree, h.mslabFull, h.slabPartial, h.index, h.nrFullDslab⟩
  · simp only [Execution.bind_eq_ok] at hRun
    obtain ⟨_, -, hRun⟩ := hRun
    obtain ⟨rfl, -⟩ := Prod.mk.inj (Execution.pure_eq_ok.mp hRun)
    exact ⟨h.mslabFree, h.mslabFull, h.slabPartial, h.index, h.nrFullDslab⟩

theorem create_untouched (hRun : Cache.create build cfg = .ok c) : c.Untouched cfg := by
  obtain ⟨c₁, n, rfl, hLoop⟩ := create_loop hRun
  have hEnd := Execution.foldlM_rule (fun _ (state : Cache × Nat) => state.1.Untouched cfg)
    (fun b _ state state' h hStep => initBlock_untouched h hStep) hLoop ⟨rfl, rfl, rfl, rfl, rfl⟩
  exact ⟨hEnd.mslabFree, hEnd.mslabFull, hEnd.slabPartial, hEnd.index, hEnd.nrFullDslab⟩

/-- With one memory slab none is free. -/
theorem initMslabFree_one (hOne : cfg.nrMslab = 1) : (Cache.initMslabFree cfg).list = [] := by
  have hLoop := Execution.foldl_range_rule (fun _ (l : SlabList) => l.list = []) cfg.nrSlab
    (f := fun l (i : Nat) => if sizeLt i ((cfg.nrMslab : Int) - 1) then l.add i else l)
    (b := default) (fun i l _ hl => ?_) rfl
  · exact hLoop
  · have hNot : sizeLt i ((cfg.nrMslab : Int) - 1) = false := by
      rw [hOne]
      simp [sizeLt]
    rw [hNot]
    exact hl

/-- Otherwise the first slab is, and without memory this is a disk slab: the
bound of the loop is negative, and the comparison takes it for a large one. -/
theorem initMslabFree_ne_nil (hOther : cfg.nrMslab ≠ 1) (hSlabs : 0 < cfg.nrSlab) :
    (Cache.initMslabFree cfg).list ≠ [] := by
  have hLoop := Execution.foldl_range_rule (fun i (l : SlabList) => 0 < i → 0 ∈ l.list) cfg.nrSlab
    (f := fun l (i : Nat) => if sizeLt i ((cfg.nrMslab : Int) - 1) then l.add i else l)
    (b := default) (fun i l _ hl _ => ?_) (fun h => absurd h (Nat.lt_irrefl 0))
  · exact List.ne_nil_of_mem (hLoop hSlabs)
  · rcases Nat.eq_zero_or_pos i with rfl | hPos
    · have hFirst : sizeLt (0 : Nat) ((cfg.nrMslab : Int) - 1) = true := by
        rw [sizeLt, Bool.or_eq_true, decide_eq_true_iff, decide_eq_true_iff]
        omega
      rw [if_pos hFirst]
      exact List.mem_cons_self
    · split
      · exact List.mem_cons_of_mem _ (hl hPos)
      · exact hl hPos

/-! ### Without room for a slot -/

/-- A new cache that never hands out a slot: there is no class or no free slab. -/
theorem slotAlloc_barren (h : c.Untouched cfg)
    (hNone : cfg.nrMslab = 1 ∨ cfg.slabClassSize = []) (build : Build) (size : Nat) :
    c.slotAlloc build cfg size = .ok .tooLarge ∨ c.slotAlloc build cfg size = .ok .wait := by
  have hPartial : ∀ k, c.slabPartial k = [] := fun k => by
    rw [h.slabPartial]
    exact Table.get_replicate_default _ _
  unfold Cache.slotAlloc
  rcases hNone with hOne | hEmpty
  · have hFree : c.mslabFree.list = [] := by
      rw [h.mslabFree]
      exact initMslabFree_one hOne
    split
    · exact .inl rfl
    · rw [hPartial, hFree]
      exact .inr rfl
  · have hClass : getSlabClass cfg size = none := by
      simp [getSlabClass, Config.nrSlabClass, hEmpty]
    rw [hClass]
    exact .inl rfl

/-- Such a cache never changes. -/
theorem step_barren {act : Act} {done : List Event} (h : c.Untouched cfg)
    (hNone : cfg.nrMslab = 1 ∨ cfg.slabClassSize = [])
    (hStep : (Threads.rest c).step build cfg act = .ok (t', done)) : t' = .rest c := by
  cases act with
  | put key value =>
      simp only [Threads.step, Threads.rest, Threads.beginPut, Cache.putSlot] at hStep
      rcases slotAlloc_barren h hNone build (slotSize key value) with hAlloc | hAlloc
      · rw [hAlloc] at hStep
        obtain ⟨rfl, -⟩ := Prod.mk.inj (Except.ok.inj hStep)
        rfl
      · rw [hAlloc] at hStep
        cases hStep
  | writer => cases hStep
  | delete key =>
      have hEntry : c.index.getIndexEntry cfg key = none := by
        rw [h.index, Index.getIndexEntry, initEmpty_table, List.find?_nil]
      simp only [Threads.step, Threads.rest, Cache.delete, hEntry] at hStep
      obtain ⟨rfl, -⟩ := Prod.mk.inj (Except.ok.inj hStep)
      rfl
  | flush =>
      have hFull : c.mslabFull.list = [] := by
        rw [h.mslabFull]
        rfl
      simp only [Threads.step, Threads.rest, Threads.stepFlush, Cache.takeFull, hFull] at hStep
      cases hStep
  | gc pick fuel =>
      have hFull : c.nrFullDslab ≤ 0 := Int.le_of_eq h.nrFullDslab
      have hBlocked : Threads.stepGc build cfg pick fuel c .idle = .error .blocked := if_pos hFull
      simp only [Threads.step, Threads.rest, hBlocked] at hStep
      cases hStep

theorem reachable_barren (hNone : cfg.nrMslab = 1 ∨ cfg.slabClassSize = [])
    (h : Threads.Reachable build cfg t) : ∃ c, c.Untouched cfg ∧ t = .rest c := by
  refine h.induct (P := fun t => ∃ c, c.Untouched cfg ∧ t = .rest c) (fun c hCreate => ?_)
    fun t act t' done hBarren hStep => ?_
  · exact ⟨c, create_untouched hCreate, rfl⟩
  · obtain ⟨c, hUntouched, rfl⟩ := hBarren
    exact ⟨c, hUntouched, step_barren hUntouched hNone hStep⟩

theorem slotsInside_barren (h : c.Untouched cfg)
    (hNone : cfg.nrMslab = 1 ∨ cfg.slabClassSize = []) : SlotsInside cfg (.rest c) where
  slot := fun _ size c' sid i hRun => by
    change c.slotAlloc .release cfg size = _ at hRun
    rcases slotAlloc_barren h hNone .release size with hAlloc | hAlloc <;>
      rw [hAlloc] at hRun <;> cases hRun
  partialSlots := fun k x hx => by
    change x ∈ c.slabPartial k at hx
    rw [h.slabPartial, show (Cache.initEmpty cfg).slabPartial k = [] from
      Table.get_replicate_default _ _] at hx
    cases hx

/-- A size of the table has a class of just this size. -/
theorem getSlabClass_of_mem (h : cfg.Ascending) {z : Nat} (hz : z ∈ cfg.slabClassSize) :
    ∃ k, getSlabClass cfg z = some k ∧ cfg.classSize k = z := by
  obtain ⟨j, hj, hSize⟩ := List.mem_iff_getElem.mp hz
  have hj' : j < cfg.nrSlabClass := hj
  have hClass : cfg.classSize j = z := by
    rw [Config.classSize, List.getD_eq_getElem _ _ hj, hSize]
  have hFound : getSlabClass cfg z ≠ none := fun hNone => by
    have hLess := (getSlabClass_eq_none_iff h).mp hNone j hj'
    omega
  obtain ⟨k, hk⟩ := Option.ne_none_iff_exists'.mp hFound
  obtain ⟨hIn, hHolds, hFirst⟩ := (getSlabClass_eq_some_iff h).mp hk
  have hLe : k ≤ j := by
    by_contra hMore
    have hLess := hFirst j (by omega)
    omega
  have hOrder := h.classSize_le hLe hj'
  exact ⟨k, hk, by omega⟩

/-- The first slot of a class in a new cache. -/
theorem slotAlloc_first (h : c.Untouched cfg) {k size : Nat}
    (hClass : getSlabClass cfg size = some k) (hFree : c.mslabFree.list ≠ []) :
    ∃ c' sid i, c.slotAlloc .release cfg size = .ok (.slot c' sid i) ∧
      (c'.slabs sid).slotSize = cfg.classSize k := by
  have hPartial : c.slabPartial k = [] := by
    rw [h.slabPartial]
    exact Table.get_replicate_default _ _
  obtain ⟨sid, rest, hFirst⟩ := List.exists_cons_of_ne_nil hFree
  obtain ⟨c', i, hAlloc⟩ : ∃ c' i,
      (c.openSlab cfg k sid).allocPartial .release k sid = .ok (c', i) := by
    simp only [Cache.allocPartial, Slab.slotAlloc, assertThat, pure, Except.pure, bind, Except.bind]
    split <;> exact ⟨_, _, rfl⟩
  refine ⟨c', sid, i, ?_, ?_⟩
  · simp only [Cache.slotAlloc, hClass, hPartial, hFirst, hAlloc]
    rfl
  · rw [(allocPartial_slot hAlloc).2.1, Cache.openSlab, Table.get_modify_self]

/-- Slots stay inside of their slab in all reachable states exactly if every
class has room behind the header of a slab. -/
theorem slotsInside_iff (hAccepted : cfg.Accepted) :
    (∀ t, Threads.Reachable .release cfg t → SlotsInside cfg t) ↔ cfg.HoldsClasses := by
  constructor
  · intro hAll
    by_cases hOne : cfg.nrMslab = 1
    · exact .inl hOne
    · refine .inr fun z hz => ?_
      obtain ⟨c, hCreate⟩ := hAccepted.created
      have hSlabs : 0 < cfg.nrSlab :=
        Nat.lt_of_lt_of_le (Nat.mul_pos hAccepted.channels hAccepted.blocks) (Nat.le_add_left _ _)
      have hUntouched := create_untouched hCreate
      obtain ⟨k, hClass, hSize⟩ := getSlabClass_of_mem hAccepted.ascending hz
      obtain ⟨c', sid, i, hAlloc, hSlot⟩ := slotAlloc_first hUntouched hClass (by
        rw [hUntouched.mslabFree]
        exact initMslabFree_ne_nil hOne hSlabs)
      have hReach : Threads.Reachable .release cfg (.rest c) :=
        ⟨[], [], Execution.bind_eq_ok.mpr ⟨c, hCreate, rfl⟩⟩
      obtain ⟨hMemory, hInside, -⟩ := (hAll _ hReach).slot rfl z c' sid i hAlloc
      rw [hSlot, hSize, Nat.mul_add, Nat.mul_one] at hInside
      omega
  · intro hHolds t hReach
    by_cases hNone : cfg.nrMslab = 1 ∨ cfg.slabClassSize = []
    · obtain ⟨c, hUntouched, rfl⟩ := reachable_barren hNone hReach
      exact slotsInside_barren hUntouched hNone
    · rw [not_or] at hNone
      have hRoom := hHolds.resolve_left hNone.1
      obtain ⟨z, hz⟩ := List.exists_mem_of_ne_nil _ hNone.2
      have hSound : cfg.Sound := ⟨hAccepted.order, hAccepted.slabSize, (hRoom z hz).1,
        fun z hz => by
          have hFits := (hRoom z hz).2
          omega⟩
      obtain ⟨g, hInv⟩ := hReach.inv hSound
      exact slotsInside_of_inv hInv.inv (fun z hz => (hRoom z hz).2) hAccepted.positive

theorem Config.small_accepted : Config.small.Accepted where
  channels := by decide
  blocks := by decide
  order := by decide
  slabSize := by decide
  ascending := by decide
  positive := by decide
  created := by
    obtain ⟨c, hCreate, -⟩ := Execution.ok_of_check (x := Cache.create .release .small)
      (fun _ => true) (by decide +kernel)
    exact ⟨c, hCreate⟩

/-- A class of 16 bytes fits into the 16 bytes behind the header. -/
theorem slotsInside_small :
    Config.small.HoldsClasses ∧
      ∀ t, Threads.Reachable .release .small t → SlotsInside .small t := by
  have hHolds : Config.small.HoldsClasses := .inr (by decide)
  exact ⟨hHolds, (slotsInside_iff Config.small_accepted).mpr hHolds⟩

/-- The slab of the slot that is handed out was opened for no slot. -/
def SlotAlloc.opensNone : Except Stop SlotAlloc → Bool
  | .ok (.slot c sid _) => (c.slabs sid).nrSlots = 0
  | _ => false

/-- A class of the size of a slab: the slab is opened for no slot, and the slot
that is handed out ends behind the slab. -/
theorem slot_outside_slab :
    ¬∀ cfg : Config, cfg.Accepted → ∀ t, Threads.Reachable .release cfg t → SlotsInside cfg t := by
  intro hAll
  let cfg : Config := { Config.small with slabClassSize := [60] }
  obtain ⟨c, hCreate, hCheck⟩ := Execution.ok_of_check (x := Cache.create .release cfg)
    (fun c => SlotAlloc.opensNone (c.slotAlloc .release cfg 60)) (by decide +kernel)
  have hAccepted : cfg.Accepted :=
    ⟨by decide, by decide, by decide, by decide, by decide, by decide, c, hCreate⟩
  have hReach : Threads.Reachable .release cfg (.rest c) :=
    ⟨[], [], Execution.bind_eq_ok.mpr ⟨c, hCreate, rfl⟩⟩
  unfold SlotAlloc.opensNone at hCheck
  split at hCheck
  · rename_i c' sid i hAlloc
    have hSlots := ((hAll cfg hAccepted _ hReach).slot rfl 60 c' sid i hAlloc).2.2
    have hNone := of_decide_eq_true hCheck
    omega
  · cases hCheck

end KVCache
