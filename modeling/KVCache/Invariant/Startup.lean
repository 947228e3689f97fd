import KVCache.Data.Execution
import KVCache.Invariant.Coherence
import KVCache.Semantics.Startup

/-! A new cache satisfies the invariant. Slabs get their blocks one after the
other; a disk slab without a block is on no list. -/

namespace KVCache

variable {build : Build} {cfg : Config} {c c' : Cache} {g : Ghost} {x : Nat}

/-- The block that `slab_init` gives to a slab. -/
def Config.initialBlock (cfg : Config) (x : Nat) : Int :=
  if cfg.nrMslab ≤ x ∧ x < cfg.nrSlab then (cfg.blockOrder.getD (x - cfg.nrMslab) 0 : Nat) else -1

/-- What `slab_init` relies on: every block is delivered once, and there is a
slab for the collector. -/
structure Config.Stocked (cfg : Config) : Prop where
  order : cfg.blockOrder.Perm (List.range cfg.nrBlocks)
  memory : 1 ≤ cfg.nrMslab

theorem Config.Sound.stocked (h : cfg.Sound) : cfg.Stocked := ⟨h.order, h.memory⟩

section

variable (hCfg : cfg.Stocked)

include hCfg

theorem length_blockOrder : cfg.blockOrder.length = cfg.nrDslab := by
  rw [hCfg.order.length_eq, List.length_range]
  rfl

theorem blockOrder_lt {i : Nat} (hi : i < cfg.nrDslab) :
    cfg.blockOrder.getD i 0 < cfg.nrBlocks := by
  have hi' : i < cfg.blockOrder.length := by rwa [length_blockOrder hCfg]
  rw [List.getD_eq_getElem _ _ hi']
  exact List.mem_range.mp (hCfg.order.mem_iff.mp (List.getElem_mem hi'))

theorem geometry_initialBlock : Geometry cfg cfg.initialBlock where
  memory := fun x hx => if_neg (by omega)
  disk := fun x hLe hLt => by
    rw [Config.initialBlock, if_pos ⟨hLe, hLt⟩]
    have := blockOrder_lt hCfg (i := x - cfg.nrMslab) (by simp only [Config.nrSlab] at hLt; omega)
    omega
  injective := fun x y hx hx' hy hy' hEq => by
    rw [Config.initialBlock, if_pos ⟨hx, hx'⟩, Config.initialBlock, if_pos ⟨hy, hy'⟩] at hEq
    simp only [Config.nrSlab] at hx' hy'
    have hLength := length_blockOrder hCfg
    have hxi : x - cfg.nrMslab < cfg.blockOrder.length := by omega
    have hyi : y - cfg.nrMslab < cfg.blockOrder.length := by omega
    have hNodup : cfg.blockOrder.Nodup := hCfg.order.nodup_iff.mpr List.nodup_range
    rw [List.getD_eq_getElem _ _ hxi, List.getD_eq_getElem _ _ hyi, Int.natCast_inj] at hEq
    have := (hNodup.getElem_inj_iff).mp hEq
    omega

end

/-! ### Before the first block -/

/-- The slabs before any block is assigned. -/
def Config.emptyRole (cfg : Config) (x : Nat) : Role :=
  if x < cfg.gcBuffer then .memFree
  else if x = cfg.gcBuffer then .bufferIdle
  else if x < cfg.nrSlab then .diskLoose
  else .outside

def Config.emptyGhost (cfg : Config) : Ghost :=
  ⟨cfg.emptyRole, cfg.initialBlock, none, 0, true⟩

theorem emptyRole_place : (cfg.emptyRole x).place = if x < cfg.gcBuffer then .mslabFree else .nowhere := by
  unfold Config.emptyRole
  split
  · rfl
  · split
    · rfl
    · split <;> rfl

theorem initMslabFree_holds (hCfg : cfg.Stocked) :
    (Cache.initMslabFree cfg).Holds fun x => x < cfg.gcBuffer := by
  have hMemory := hCfg.memory
  have hLoop := Execution.foldl_range_rule
    (fun i (l : SlabList) => l.Holds fun x => x < i ∧ x < cfg.gcBuffer) cfg.nrSlab
    (f := fun l (i : Nat) => if sizeLt i ((cfg.nrMslab : Int) - 1) then l.add i else l)
    (b := default) (fun i l _ hl => ?_) (SlabList.default_holds (by simp))
  · refine hLoop.keep (x := 0) (fun x _ => ?_) ?_ <;>
      simp only [Config.gcBuffer, Config.nrSlab] <;> omega
  · simp only [sizeLt, Bool.or_eq_true, decide_eq_true_eq]
    split
    · rename_i hLess
      have hi : i < cfg.gcBuffer := by simp only [Config.gcBuffer]; omega
      exact hl.gain (fun y hy => by omega) (by omega) ⟨Nat.lt_succ_self i, hi⟩
    · rename_i hLess
      have hi : ¬i < cfg.gcBuffer := by simp only [Config.gcBuffer]; omega
      exact hl.keep (x := i) (fun y hy => by omega) (by omega)

theorem initEmpty_table (b : Nat) : (Cache.initEmpty cfg).index.table b = [] :=
  Table.get_replicate_default _ _

theorem initEmpty_lists (hCfg : cfg.Stocked) :
    Lists cfg (Cache.initEmpty cfg) cfg.emptyGhost where
  holds := by
    have hNot : ∀ p, p ≠ .nowhere → p ≠ .mslabFree → ∀ x, cfg.emptyGhost.place x ≠ p := by
      intro p hp hFree x
      rw [Ghost.place]
      change (cfg.emptyRole x).place ≠ p
      rw [emptyRole_place]
      split
      · exact Ne.symm hFree
      · exact Ne.symm hp
    intro p ch hp
    cases p with
    | nowhere => exact absurd rfl hp
    | mslabFree =>
        have hPlace : ∀ x, cfg.emptyGhost.place x = .mslabFree ↔ x < cfg.gcBuffer := by
          intro x
          rw [Ghost.place]
          change (cfg.emptyRole x).place = _ ↔ _
          rw [emptyRole_place]
          split <;> simp_all
        refine (initMslabFree_holds hCfg).keep (x := 0) (fun y _ => ?_) ?_ <;>
          simp [Place.perChannel, hPlace]
    | mslabFull => exact SlabList.default_holds fun x h => hNot _ hp (by simp) x h.1
    | slabPartial cid =>
        have hNil : (Cache.initEmpty cfg).slabPartial cid = [] := Table.get_replicate_default _ _
        rw [Cache.listAt, hNil]
        exact SlabList.default_holds fun x h => hNot _ hp (by simp) x h.1
    | dslabFree =>
        simp only [Cache.listAt, Cache.initEmpty, Table.get_replicate_default]
        exact SlabList.default_holds fun x h => hNot _ hp (by simp) x h.1
    | dslabFull =>
        simp only [Cache.listAt, Cache.initEmpty, Table.get_replicate_default]
        exact SlabList.default_holds fun x h => hNot _ hp (by simp) x h.1
    | opsPool =>
        simp only [Cache.listAt, Cache.initEmpty, Table.get_replicate_default]
        exact SlabList.default_holds fun x h => hNot _ hp (by simp) x h.1
  nrFreeDslab := by rw [show (Cache.initEmpty cfg).dslabFree.flatMap SlabList.list = [] from
    Table.flatMap_replicate_default _ rfl]; rfl
  opsPoolSize := by rw [show (Cache.initEmpty cfg).opsPool.flatMap SlabList.list = [] from
    Table.flatMap_replicate_default _ rfl]; rfl
  nrFullDslab := by rw [show (Cache.initEmpty cfg).dslabFull.flatMap SlabList.list = [] from
    Table.flatMap_replicate_default _ rfl]; rfl

/-! ### Assigning the blocks -/

/-- The state of `slab_init` before slab `n` gets its block. -/
structure Starting (cfg : Config) (n : Nat) (c : Cache) (g : Ghost) : Prop where
  lists : Lists cfg c g
  ghost : g = { cfg.emptyGhost with role := g.role }
  index : c.index = (Cache.initEmpty cfg).index
  slab : ∀ x, c.slabs x = { (default : Slab) with
    sid := if x < cfg.nrSlab then x else 0
    blockId := if x < n then cfg.initialBlock x else -1 }
  done : ∀ x, cfg.nrMslab ≤ x → x < n → g.role x = .diskFree ∨ g.role x = .opsFree
  rest : ∀ x, x < cfg.nrMslab ∨ n ≤ x → g.role x = cfg.emptyRole x

namespace Starting

variable {n : Nat}

theorem first (hCfg : cfg.Stocked) :
    Starting cfg cfg.nrMslab (Cache.initEmpty cfg) cfg.emptyGhost where
  lists := initEmpty_lists hCfg
  ghost := rfl
  index := rfl
  slab := fun x => by
    have hBlock : (if x < cfg.nrMslab then cfg.initialBlock x else -1) = -1 := by
      split
      · rename_i hx
        exact if_neg (by omega)
      · rfl
    rw [hBlock]
    simp only [Cache.initEmpty, Table.get, List.getD_eq_getElem?_getD, List.getElem?_map]
    by_cases hx : x < cfg.nrSlab
    · rw [List.getElem?_range hx]
      simp [hx, default]
    · rw [List.getElem?_eq_none (by simpa using hx)]
      simp [hx, default]
  done := fun x hLe hLt => absurd hLt (Nat.not_lt.mpr hLe)
  rest := fun _ _ => rfl

/-- A slab enters one of the two lists of its channel. -/
theorem enter {r : Role} (h : Starting cfg n c g) (hn : cfg.nrMslab ≤ n)
    (hr : r = .diskFree ∨ r = .opsFree) (hLists : Lists cfg c' (g.become n r))
    (hIndex : c'.index = c.index)
    (hSlabs : c'.slabs = c.slabs.modify n fun s => { s with blockId := cfg.initialBlock n }) :
    Starting cfg (n + 1) c' (g.become n r) where
  lists := hLists
  ghost := by
    rw [h.ghost]
    rfl
  index := hIndex.trans h.index
  slab := fun x => by
    by_cases hx : x = n
    · subst x
      rw [hSlabs, Table.get_modify_self, h.slab]
      simp
    · have hIff : x < n + 1 ↔ x < n := by omega
      rw [hSlabs, Table.get_modify_of_ne _ _ hx, h.slab x]
      simp [hIff]
  done := fun x hLe hLt => by
    by_cases hx : x = n
    · subst x
      rw [g.become_self]
      exact hr
    · rw [g.become_of_ne _ hx]
      exact h.done x hLe (by omega)
  rest := fun x hx => by
    rw [g.become_of_ne _ (by omega)]
    exact h.rest x (by omega)

/-- One call of the function passed to `iterate_all_blocks`. -/
theorem step {blockId n' : Nat} (h : Starting cfg n c g) (hn : cfg.gcBuffer < n)
    (hMemory : cfg.nrMslab ≤ n) (hLt : n < cfg.nrSlab) (hBlock : cfg.initialBlock n = blockId)
    (hRun : Cache.initBlock build cfg (c, n) blockId = .ok (c', n')) :
    n' = n + 1 ∧ ∃ g', Starting cfg (n + 1) c' g' := by
  have hRole : g.role n = .diskLoose := by
    rw [h.rest n (.inr (Nat.le_refl n)), Config.emptyRole, if_neg (by omega), if_neg (by omega),
      if_pos hLt]
  have hPlace : g.place n = .nowhere := by rw [Ghost.place, hRole]; rfl
  have hChannel : g.channel cfg n = cfg.channelId blockId := by
    rw [Ghost.channel, h.ghost]
    change cfg.channelId (cfg.initialBlock n) = _
    rw [hBlock]
  have hLists : Lists cfg
      { c with slabs := c.slabs.modify n fun s => { s with blockId := blockId } } g := h.lists.congr
  unfold Cache.initBlock at hRun
  simp only [Execution.bind_eq_ok] at hRun
  obtain ⟨_, -, hRun⟩ := hRun
  split at hRun
  · obtain ⟨rfl, rfl⟩ := Prod.mk.inj (Execution.pure_eq_ok.mp hRun)
    refine ⟨rfl, g.become n .opsFree, h.enter hMemory (.inr rfl) ?_ rfl (by rw [hBlock])⟩
    rw [← hChannel]
    exact hLists.enter_opsPool hPlace rfl
  · obtain ⟨_, -, hRun⟩ := Execution.bind_eq_ok.mp hRun
    obtain ⟨rfl, rfl⟩ := Prod.mk.inj (Execution.pure_eq_ok.mp hRun)
    refine ⟨rfl, g.become n .diskFree, h.enter hMemory (.inl rfl) ?_ rfl (by rw [hBlock])⟩
    rw [← hChannel]
    exact hLists.enter_dslabFree hPlace rfl

/-- The loop over all blocks. -/
theorem loop {n' : Nat} (hCfg : cfg.Stocked)
    (hRun : cfg.blockOrder.foldlM (Cache.initBlock build cfg) (Cache.initEmpty cfg, cfg.nrMslab) =
      .ok (c, n')) : ∃ g, Starting cfg cfg.nrSlab c g := by
  have hMemory := hCfg.memory
  have hLength := length_blockOrder hCfg
  have hLoop := Execution.foldlM_rule (fun rest (state : Cache × Nat) =>
    ∃ g, Starting cfg state.2 state.1 g ∧ cfg.nrMslab ≤ state.2 ∧ state.2 ≤ cfg.nrSlab ∧
      rest = cfg.blockOrder.drop (state.2 - cfg.nrMslab)) ?_ hRun
    ⟨cfg.emptyGhost, first hCfg, Nat.le_refl _, Nat.le_add_right _ _, by simp⟩
  · obtain ⟨g, hStart, hLe, hLe', hNil⟩ := hLoop
    have hDone := List.drop_eq_nil_iff.mp hNil.symm
    have hEq : n' = cfg.nrSlab := by
      simp only [Config.nrSlab] at *
      omega
    exact ⟨g, hEq ▸ hStart⟩
  · rintro blockId rest ⟨c₁, n⟩ ⟨c₂, n₂⟩ ⟨g, hStart, hLe, hLe', hDrop⟩ hStep
    simp only at hStart hLe hLe' hDrop ⊢
    have hLess : n - cfg.nrMslab < cfg.blockOrder.length := by
      by_contra hNot
      rw [List.drop_eq_nil_iff.mpr (Nat.le_of_not_lt hNot)] at hDrop
      cases hDrop
    rw [List.drop_eq_getElem_cons hLess] at hDrop
    obtain ⟨rfl, rfl⟩ := List.cons.inj hDrop
    have hLt : n < cfg.nrSlab := by
      simp only [Config.nrSlab]
      omega
    have hBlock : cfg.initialBlock n = cfg.blockOrder[n - cfg.nrMslab] := by
      rw [Config.initialBlock, if_pos ⟨hLe, hLt⟩, List.getD_eq_getElem _ _ hLess]
    obtain ⟨rfl, g', hStart'⟩ :=
      hStart.step (by simp only [Config.gcBuffer]; omega) hLe hLt hBlock hStep
    exact ⟨g', hStart', by omega, hLt, by rw [show n + 1 - cfg.nrMslab = n - cfg.nrMslab + 1 by omega]⟩

/-- With every block assigned, the invariant holds. -/
theorem inv (hCfg : cfg.Sound) (h : Starting cfg cfg.nrSlab c g) : Inv cfg c g where
  config := hCfg
  lists := h.lists
  geometry := by
    rw [h.ghost]
    exact geometry_initialBlock hCfg.stocked
  slab := fun x => by
    have hMemory := hCfg.memory
    have hSlab := h.slab x
    have hRefs : c.index.refs x = 0 := by
      rw [h.index]
      simp [Index.refs, Index.indexed, Cache.initEmpty, Table.flatMap]
    have hPending : g.pending x = 0 := by rw [h.ghost]; rfl
    have hFresh : (c.slabs x).Fresh := by rw [hSlab]; exact ⟨rfl, rfl⟩
    have hRole : (g.role x).InRange cfg x ∧ Shape cfg c x (g.role x) ∧ (g.role x).src = none := by
      by_cases hDisk : cfg.nrMslab ≤ x ∧ x < cfg.nrSlab
      · rcases h.done x hDisk.1 hDisk.2 with hr | hr <;> rw [hr] <;> exact ⟨hDisk, hFresh, rfl⟩
      · rw [h.rest x (by omega), Config.emptyRole]
        split
        · exact ⟨‹_›, hFresh, rfl⟩
        · split
          · exact ⟨‹_›, trivial, rfl⟩
          · simp only [Config.gcBuffer] at *
            rw [if_neg (by omega)]
            exact ⟨by simp only [Role.InRange]; omega, hFresh, rfl⟩
    constructor
    case range => exact hRole.1
    case sid => exact fun hx => by rw [hSlab]; exact if_pos hx
    case blockId =>
      rw [hSlab, h.ghost]
      change (if x < cfg.nrSlab then cfg.initialBlock x else -1) = cfg.initialBlock x
      split
      · rfl
      · exact (if_neg (by omega)).symm
    case shape => exact hRole.2.1
    case source =>
      intro src hSrc
      rw [hRole.2.2] at hSrc
      cases hSrc
    case bounds => rw [hSlab]; exact ⟨Int.le_refl _, Nat.le_refl _⟩
    case counts => rw [hRefs, hPending, hSlab]; exact Int.le_refl _
    case exact => exact fun _ _ => by rw [hRefs, hPending, hSlab]; rfl
    case dead => exact fun _ => hRefs
  index := by
    rw [h.index]
    constructor
    case once =>
      intro e
      simp [Index.indexed, Cache.initEmpty, Table.flatMap, List.count_range]
    case nrFree => simp [Cache.initEmpty]
    case unique =>
      intro b e he
      simp [initEmpty_table] at he
    case home =>
      intro b e he
      simp [initEmpty_table] at he
    case inside =>
      intro e he
      simp [Index.indexed, Cache.initEmpty, Table.flatMap] at he
  pend := fun p hp => by
    rw [h.ghost] at hp
    cases hp

end Starting

/-- A new cache: every slab is at rest, and nothing is lost or miscounted. -/
structure Fresh (cfg : Config) (c : Cache) (g : Ghost) : Prop where
  inv : Inv cfg c g
  pend : g.pend = none
  drift : g.drift = 0
  exact : g.exact = true
  resting : ∀ x, (g.role x).Shared ∧ g.role x ≠ .diskLoose
  view : ∀ key, c.view cfg key = none

/-- The constructor. -/
theorem create_fresh (hCfg : cfg.Sound) (hRun : Cache.create build cfg = .ok c) :
    ∃ g, Fresh cfg c g := by
  unfold Cache.create at hRun
  obtain ⟨c₁, hInit, hRun⟩ := Execution.bind_eq_ok.mp hRun
  have hEq : c₁ = c := by
    by_cases hFew : cfg.nrIndexEntry < Cache.minNrIndexEntry cfg
    · simp only [if_pos hFew] at hRun
      cases hRun
    · simp only [if_neg hFew] at hRun
      exact Except.ok.inj hRun
  subst c₁
  unfold Cache.slabInit at hInit
  simp only [Execution.bind_eq_ok, Execution.pure_eq_ok] at hInit
  obtain ⟨⟨c₂, n⟩, hLoop, _, -, rfl⟩ := hInit
  obtain ⟨g, hStart⟩ := Starting.loop hCfg.stocked hLoop
  have hStart' : Starting cfg cfg.nrSlab { c₂ with maxOpsPoolSize := c₂.opsPoolSize } g :=
    ⟨hStart.lists.congr, hStart.ghost, hStart.index, hStart.slab, hStart.done, hStart.rest⟩
  refine ⟨g, hStart'.inv hCfg, by rw [hStart.ghost]; rfl, by rw [hStart.ghost]; rfl,
    by rw [hStart.ghost]; rfl, fun x => ?_, fun key => ?_⟩
  · by_cases hDisk : cfg.nrMslab ≤ x ∧ x < cfg.nrSlab
    · rcases hStart.done x hDisk.1 hDisk.2 with hr | hr <;> rw [hr] <;> exact ⟨trivial, by simp⟩
    · rw [hStart.rest x (by omega), Config.emptyRole]
      have hMemory := hCfg.memory
      split
      · exact ⟨trivial, by simp⟩
      · split
        · exact ⟨trivial, by simp⟩
        · simp only [Config.gcBuffer] at *
          rw [if_neg (by omega)]
          exact ⟨trivial, by simp⟩
  · have hNone : c₂.index.getIndexEntry cfg key = none := by
      rw [hStart.index]
      simp [Index.getIndexEntry, initEmpty_table]
    simp [Cache.view, hNone]

end KVCache
