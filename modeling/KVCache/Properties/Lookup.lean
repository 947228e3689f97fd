import KVCache.Invariant.Operations

/-! What lookups return, and what the index points to, in every state that
operations reach. Keys with the same bucket and digest share an entry; a lookup
of one of them does not return an object of the other. -/

namespace KVCache

variable {build : Build} {cfg : Config} {c : Cache} {s : Sys}

/-! ### Lookups -/

/-- A lookup that succeeds has found an object of its own key. -/
theorem view_of_getSlice {key : Key} {value : Value}
    (h : c.getSlice build cfg key = .ok (.ok, some value)) :
    c.view cfg key = some (key, value) := by
  unfold Cache.getSlice at h
  unfold Cache.view
  cases hGet : c.index.getIndexEntry cfg key with
  | none => simp [hGet, Status.ok, Status.notFound] at h
  | some e =>
      simp only [hGet] at h
      rw [Option.map_some]
      generalize c.slotAt (c.index.entries e).slabId (c.index.entries e).slotId = object at h ⊢
      obtain ⟨k, v⟩ := object
      have hFound : (if key ≠ k then pure (Status.notFound, none) else pure (Status.ok, some v) :
          Except Stop (Status × Option Value)) = .ok (.ok, some value) := by
        by_cases hMemory : (c.slabs (c.index.entries e).slabId).imMemory
        · simp only [if_pos hMemory] at h
          obtain ⟨_, -, h⟩ := Execution.bind_eq_ok.mp h
          exact h
        · simp only [if_neg hMemory] at h
          exact h
      split at hFound
      · simp [Status.ok, Status.notFound] at hFound
      · rename_i hKey
        simp only [ne_eq, Decidable.not_not] at hKey
        simp only [Execution.pure_eq_ok, Prod.mk.injEq, Option.some.injEq, true_and] at hFound
        rw [hKey, hFound]

theorem getSlice_of_getBuffer {key : Key} {value : Value} {len : Nat}
    (h : c.getBuffer build cfg key len = .ok (.ok, some value)) :
    c.getSlice build cfg key = .ok (.ok, some value) := by
  obtain ⟨⟨status, found⟩, hSlice, h⟩ := Execution.bind_eq_ok.mp h
  cases found with
  | none => simp at h
  | some v =>
      by_cases hLong : v.length > len
      · simp [hLong, Status.ok, Status.bufferTooSmall] at h
      · simp only [if_neg hLong, Execution.pure_eq_ok] at h
        rw [hSlice, h]

/-- An SSD with one channel of four blocks, and slabs with room for one object.
All keys share a bucket, and keys with the same first byte share a digest. -/
def Config.small : Config where
  nrChannels := 1
  blocksPerChannel := 4
  slabSize := 60
  blockOrder := [0, 1, 2, 3]
  slabMemBudget := 180
  indexMemBudget := 288
  indexTableSize := 1
  opsRate := 1 / 4
  freeBlockWaterMarkLow := 1 / 4
  freeBlockWaterMarkHigh := 1 / 2
  freeBlockSlabWaterMarkLowMin := 1 / 4
  freeBlockSlabWaterMarkHighMax := 3 / 4
  slabClassSize := [16]
  hasher := fun _ => 0
  makeDigest := fun key => BitVec.ofNat _ (key.getD 0 0).toNat

theorem Config.small_wellFormed : Config.small.WellFormed where
  channels := by decide
  blocks := by decide
  order := by decide
  slabSize := by decide
  memory := by decide
  ops := by decide +kernel
  classes := by decide

/-- The index is valid: every entry is unused or in one bucket, digests tell the
entries of a bucket apart, and an entry points to a slot in use that holds a
key of its bucket and digest and that no other entry points to. -/
structure IndexValid (cfg : Config) (c : Cache) : Prop where
  once : ∀ e < cfg.nrIndexEntry,
    (c.index.freeIndexEntry.count e = 1 ∧ ∀ b, e ∉ c.index.table b) ∨
      (e ∉ c.index.freeIndexEntry ∧
        ∃ b, (c.index.table b).count e = 1 ∧ ∀ b', b' ≠ b → e ∉ c.index.table b')
  nrFree : c.index.nrFreeIndexEntry = c.index.freeIndexEntry.length
  digest : ∀ b, ∀ e ∈ c.index.table b, ∀ e' ∈ c.index.table b,
    (c.index.entries e).digest = (c.index.entries e').digest → e = e'
  slot : ∀ b, ∀ e ∈ c.index.table b,
    (c.index.entries e).slotId < (c.slabs (c.index.entries e).slabId).nrAlloc
  place : ∀ b, ∀ e ∈ c.index.table b,
    (c.index.entries e).slabId ∉ c.mslabFree.list ∧
      (∀ channel, (c.index.entries e).slabId ∉ (c.dslabFree channel).list ∧
        (c.index.entries e).slabId ∉ (c.opsPool channel).list) ∧
      (c.index.entries e).slabId ≠ cfg.gcBuffer
  key : ∀ b, ∀ e ∈ c.index.table b,
    cfg.bucketOf (c.slotAt (c.index.entries e).slabId (c.index.entries e).slotId).1 = b ∧
      cfg.makeDigest (c.slotAt (c.index.entries e).slabId (c.index.entries e).slotId).1 =
        (c.index.entries e).digest
  distinct : ∀ b b', ∀ e ∈ c.index.table b, ∀ e' ∈ c.index.table b',
    (c.index.entries e).slabId = (c.index.entries e').slabId →
      (c.index.entries e).slotId = (c.index.entries e').slotId → e = e'

namespace Index.Ok

variable {ix : Index} {keyAt : Nat → Nat → Key} {alloc : Nat → Nat}

theorem bucket_unique (h : ix.Ok cfg keyAt alloc) {b b' e : Nat} (he : e ∈ ix.table b)
    (he' : e ∈ ix.table b') : b = b' :=
  congrArg Prod.fst ((h.home b e he).symm.trans (h.home b' e he'))

theorem mem_indexed {b e : Nat} (he : e ∈ ix.table b) : e ∈ ix.indexed :=
  (Table.mem_flatMap rfl).mpr ⟨b, he⟩

/-- An entry is unused, or in one bucket. -/
theorem once_or (h : ix.Ok cfg keyAt alloc) {e : Nat} (he : e < cfg.nrIndexEntry) :
    (ix.freeIndexEntry.count e = 1 ∧ ∀ b, e ∉ ix.table b) ∨
      (e ∉ ix.freeIndexEntry ∧
        ∃ b, (ix.table b).count e = 1 ∧ ∀ b', b' ≠ b → e ∉ ix.table b') := by
  have hOnce := h.once e
  rw [if_pos he] at hOnce
  by_cases hIn : e ∈ ix.indexed
  · have hPos := List.count_pos_iff.mpr hIn
    obtain ⟨b, hb⟩ := (Table.mem_flatMap rfl).mp hIn
    have hb' : e ∈ ix.table b := hb
    have hLe : (ix.table b).count e ≤ ix.indexed.count e :=
      (Table.sublist_flatMap (f := id) rfl b).count_le e
    have hOne := List.count_pos_iff.mpr hb'
    refine .inr ⟨List.count_eq_zero.mp (by omega), b, by omega, fun b' hne hMem => ?_⟩
    exact hne (h.bucket_unique hMem hb')
  · have hZero := List.count_eq_zero.mpr hIn
    exact .inl ⟨by omega, fun b hMem => hIn (mem_indexed hMem)⟩

end Index.Ok

/-- The slab of an entry is not free, not over-provisioned and not the buffer. -/
theorem SysInv.entry_place {g : Ghost} (h : SysInv cfg s g) {b e : Nat}
    (he : e ∈ s.cache.index.table b) :
    (s.cache.index.entries e).slabId ∉ s.cache.mslabFree.list ∧
      (∀ channel, (s.cache.index.entries e).slabId ∉ (s.cache.dslabFree channel).list ∧
        (s.cache.index.entries e).slabId ∉ (s.cache.opsPool channel).list) ∧
      (s.cache.index.entries e).slabId ≠ cfg.gcBuffer := by
  have hAlive := h.inv.alive_of_refs
    (Nat.pos_iff_ne_zero.mp (Index.refs_pos (Index.Ok.mem_indexed he)))
  have hAt : ∀ p, p ≠ .nowhere → p ≠ .dslabFull → (Role.atRest p).Dead →
      g.place (s.cache.index.entries e).slabId ≠ p := by
    intro p hp hFull hDead hPlace
    rw [Role.eq_atRest hPlace hp hFull] at hAlive
    exact hAlive hDead
  refine ⟨fun hMem => ?_, fun channel => ⟨fun hMem => ?_, fun hMem => ?_⟩, fun hEq => ?_⟩
  · exact hAt .mslabFree (by simp) (by simp) trivial (h.inv.lists.mem_mslabFree.mp hMem)
  · exact hAt .dslabFree (by simp) (by simp) trivial (h.inv.lists.mem_dslabFree.mp hMem).1
  · exact hAt .opsPool (by simp) (by simp) trivial (h.inv.lists.mem_opsPool.mp hMem).1
  · rw [hEq, h.idle.settled.buffer h.inv] at hAlive
    exact hAlive trivial

end KVCache
