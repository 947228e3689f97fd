import KVCache.Data.Execution
import KVCache.Semantics.State

/-! The hash index. An entry is found through the bucket and the digest of a
key, so two keys with the same cell share an entry. The invariant says that
every entry is in use once or unused once, that a bucket holds each digest at
most once, and that the key stored where an entry points has the cell of the
entry. -/

namespace KVCache

/-- Bucket and digest of a key: what the index can tell of it. -/
def Config.cell (cfg : Config) (key : Key) : Nat × Digest := (cfg.bucketOf key, cfg.makeDigest key)

namespace Index

theorem mem_indexed {ix : Index} {e : Nat} : e ∈ ix.indexed ↔ ∃ b, e ∈ ix.table b :=
  Table.mem_flatMap rfl

theorem indexed_of_mem {ix : Index} {b e : Nat} (h : e ∈ ix.table b) : e ∈ ix.indexed :=
  mem_indexed.mpr ⟨b, h⟩

/-- The index agrees with the slots: `keyAt` is the key stored in a slot and
`alloc` the number of slots handed out of a slab. -/
structure Ok (cfg : Config) (ix : Index) (keyAt : Nat → Nat → Key) (alloc : Nat → Nat) : Prop where
  once : ∀ e, ix.indexed.count e + ix.freeIndexEntry.count e =
    if e < cfg.nrIndexEntry then 1 else 0
  nrFree : ix.nrFreeIndexEntry = ix.freeIndexEntry.length
  unique : ∀ b, ∀ e ∈ ix.table b, ∀ e' ∈ ix.table b,
    (ix.entries e).digest = (ix.entries e').digest → e = e'
  home : ∀ b, ∀ e ∈ ix.table b,
    cfg.cell (keyAt (ix.entries e).slabId (ix.entries e).slotId) = (b, (ix.entries e).digest)
  inside : ∀ e ∈ ix.indexed, (ix.entries e).slotId < alloc (ix.entries e).slabId

variable {cfg : Config} {ix : Index} {keyAt : Nat → Nat → Key} {alloc : Nat → Nat}

theorem Ok.nodup (hOk : Ok cfg ix keyAt alloc) : ix.indexed.Nodup := by
  rw [List.nodup_iff_count]
  intro e
  have := hOk.once e
  split at this <;> omega

/-- Lookup only depends on the cell of the key. -/
theorem getIndexEntry_congr (ix : Index) {key key' : Key} (h : cfg.cell key = cfg.cell key') :
    ix.getIndexEntry cfg key = ix.getIndexEntry cfg key' := by
  simp only [Config.cell, Prod.mk.injEq] at h
  simp only [getIndexEntry, h]

theorem getIndexEntry_some {key : Key} {e : Nat} (h : ix.getIndexEntry cfg key = some e) :
    e ∈ ix.table (cfg.bucketOf key) ∧ (ix.entries e).digest = cfg.makeDigest key :=
  ⟨List.mem_of_find?_eq_some h, by simpa using List.find?_some h⟩

/-- Digests are unique in a bucket, so the first match is the only one. -/
theorem Ok.getIndexEntry_iff (hOk : Ok cfg ix keyAt alloc) {key : Key} {e : Nat} :
    ix.getIndexEntry cfg key = some e ↔
      e ∈ ix.table (cfg.bucketOf key) ∧ (ix.entries e).digest = cfg.makeDigest key := by
  refine ⟨getIndexEntry_some, fun ⟨hMem, hDigest⟩ => ?_⟩
  cases hFind : ix.getIndexEntry cfg key with
  | none =>
      have := List.find?_eq_none.mp hFind e hMem
      simp [hDigest] at this
  | some e' =>
      obtain ⟨hMem', hDigest'⟩ := getIndexEntry_some hFind
      rw [hOk.unique _ e' hMem' e hMem (hDigest'.trans hDigest.symm)]

theorem Ok.indexed_of_get (_ : Ok cfg ix keyAt alloc) {key : Key} {e : Nat}
    (h : ix.getIndexEntry cfg key = some e) : e ∈ ix.indexed :=
  indexed_of_mem (getIndexEntry_some h).1

/-- The key stored where an entry points finds that entry. -/
theorem Ok.getIndexEntry_key (hOk : Ok cfg ix keyAt alloc) {e : Nat} (he : e ∈ ix.indexed) :
    ix.getIndexEntry cfg (keyAt (ix.entries e).slabId (ix.entries e).slotId) = some e := by
  obtain ⟨b, hb⟩ := mem_indexed.mp he
  have hHome := hOk.home b e hb
  simp only [Config.cell, Prod.mk.injEq] at hHome
  exact hOk.getIndexEntry_iff.mpr ⟨hHome.1 ▸ hb, hHome.2.symm⟩

/-- An entry found under a key points to a slot with a key of the same cell. -/
theorem Ok.cell_of_get (hOk : Ok cfg ix keyAt alloc) {key : Key} {e : Nat}
    (h : ix.getIndexEntry cfg key = some e) :
    cfg.cell (keyAt (ix.entries e).slabId (ix.entries e).slotId) = cfg.cell key := by
  obtain ⟨hMem, hDigest⟩ := getIndexEntry_some h
  rw [hOk.home _ e hMem, hDigest]
  rfl

/-- Two entries that point to the same slot are the same entry. -/
theorem Ok.entry_injective (hOk : Ok cfg ix keyAt alloc) {e e' : Nat} (he : e ∈ ix.indexed)
    (he' : e' ∈ ix.indexed) (hSlab : (ix.entries e).slabId = (ix.entries e').slabId)
    (hSlot : (ix.entries e).slotId = (ix.entries e').slotId) : e = e' := by
  have h := hOk.getIndexEntry_key he
  rw [hSlab, hSlot, hOk.getIndexEntry_key he'] at h
  exact (Option.some.inj h).symm

/-- The slots may change as long as those in use keep their keys. -/
theorem Ok.congr {keyAt' : Nat → Nat → Key} {alloc' : Nat → Nat} (hOk : Ok cfg ix keyAt alloc)
    (hKey : ∀ e ∈ ix.indexed, keyAt' (ix.entries e).slabId (ix.entries e).slotId =
      keyAt (ix.entries e).slabId (ix.entries e).slotId)
    (hAlloc : ∀ e ∈ ix.indexed, alloc (ix.entries e).slabId ≤ alloc' (ix.entries e).slabId) :
    Ok cfg ix keyAt' alloc' where
  once := hOk.once
  nrFree := hOk.nrFree
  unique := hOk.unique
  home := fun b e he => by rw [hKey e (indexed_of_mem he)]; exact hOk.home b e he
  inside := fun e he => Nat.lt_of_lt_of_le (hOk.inside e he) (hAlloc e he)

/-! ### Letting an entry point elsewhere -/

theorem repoint_digest (e e' x i : Nat) :
    ((ix.repoint e x i).entries e').digest = (ix.entries e').digest :=
  Table.get_modify_proj _ _ _ _ IndexEntry.digest rfl

@[simp] theorem repoint_table (e x i : Nat) : (ix.repoint e x i).table = ix.table := rfl

@[simp] theorem repoint_indexed (e x i : Nat) : (ix.repoint e x i).indexed = ix.indexed := rfl

theorem repoint_self (e x i : Nat) :
    (ix.repoint e x i).entries e = ⟨(ix.entries e).digest, x, i⟩ := by
  simp [repoint]

theorem repoint_of_ne {e e' : Nat} (x i : Nat) (h : e' ≠ e) :
    (ix.repoint e x i).entries e' = ix.entries e' :=
  Table.get_modify_of_ne _ _ h

@[simp] theorem getIndexEntry_repoint (e x i : Nat) (key : Key) :
    (ix.repoint e x i).getIndexEntry cfg key = ix.getIndexEntry cfg key := by
  simp only [getIndexEntry, repoint_table, repoint_digest]

theorem Ok.repoint (hOk : Ok cfg ix keyAt alloc) {e x i : Nat} {key : Key}
    (hGet : ix.getIndexEntry cfg key = some e) (hCell : cfg.cell (keyAt x i) = cfg.cell key)
    (hInside : i < alloc x) : Ok cfg (ix.repoint e x i) keyAt alloc where
  once := hOk.once
  nrFree := hOk.nrFree
  unique := fun b e₁ h₁ e₂ h₂ hDigest =>
    hOk.unique b e₁ h₁ e₂ h₂ (by simpa only [repoint_digest] using hDigest)
  home := by
    intro b e' he'
    by_cases h : e' = e
    · subst e'
      have hOld := hOk.home b e he'
      rw [hOk.cell_of_get hGet] at hOld
      rw [repoint_self, hCell, hOld]
    · rw [repoint_of_ne x i h]
      exact hOk.home b e' he'
  inside := by
    intro e' he'
    by_cases h : e' = e
    · subst e'
      rw [repoint_self]
      exact hInside
    · rw [repoint_of_ne x i h]
      exact hOk.inside e' he'

/-- Counting over distinct elements when a predicate changes at one of them. -/
theorem countP_of_eq_except {l : List Nat} {p q : Nat → Bool} {e : Nat} (hNodup : l.Nodup)
    (he : e ∈ l) (h : ∀ e' ∈ l, e' ≠ e → q e' = p e') :
    l.countP q + (if p e then 1 else 0) = l.countP p + (if q e then 1 else 0) := by
  have hPerm := List.perm_cons_erase he
  have hRest : (l.erase e).countP q = (l.erase e).countP p := by
    apply List.countP_congr
    intro e' he'
    have hMem := hNodup.mem_erase_iff.mp he'
    rw [h e' hMem.2 hMem.1]
  rw [hPerm.countP_eq, hPerm.countP_eq, List.countP_cons, List.countP_cons, hRest]
  omega

theorem Ok.refs_repoint (hOk : Ok cfg ix keyAt alloc) {e x i : Nat} (he : e ∈ ix.indexed)
    (y : Nat) :
    (ix.repoint e x i).refs y + (if (ix.entries e).slabId = y then 1 else 0) =
      ix.refs y + (if x = y then 1 else 0) := by
  have h := countP_of_eq_except (p := fun e => (ix.entries e).slabId == y)
    (q := fun e' => ((ix.repoint e x i).entries e').slabId == y) hOk.nodup he
    (fun e' _ hne => by rw [repoint_of_ne x i hne])
  simpa only [refs, repoint_indexed, repoint_self, beq_iff_eq] using h

/-! ### Taking an unused entry -/

/-- The index after an unused entry was given to a key. -/
def insert (cfg : Config) (ix : Index) (key : Key) (e x i : Nat) (rest : List Nat) : Index :=
  { entries := ix.entries.set e ⟨cfg.makeDigest key, x, i⟩
    table := ix.table.modify (cfg.bucketOf key) (e :: ·)
    freeIndexEntry := rest
    nrFreeIndexEntry := ix.nrFreeIndexEntry - 1 }

theorem Ok.not_indexed_of_free (hOk : Ok cfg ix keyAt alloc) {e : Nat}
    (he : e ∈ ix.freeIndexEntry) : e ∉ ix.indexed := by
  intro hIndexed
  have hCount := hOk.once e
  have h₁ := List.count_pos_iff.mpr he
  have h₂ := List.count_pos_iff.mpr hIndexed
  split at hCount <;> omega

theorem mem_insert_table {key : Key} {e x i b e' : Nat} {rest : List Nat} :
    e' ∈ (ix.insert cfg key e x i rest).table b ↔
      (b = cfg.bucketOf key ∧ e' = e) ∨ e' ∈ ix.table b := by
  by_cases hb : b = cfg.bucketOf key
  · subst b
    simp [insert]
  · simp [insert, Table.get_modify_of_ne _ _ hb, hb]

theorem insert_entries_self {key : Key} {e x i : Nat} {rest : List Nat} :
    (ix.insert cfg key e x i rest).entries e = ⟨cfg.makeDigest key, x, i⟩ := by
  simp [insert]

theorem insert_entries_of_ne {key : Key} {e e' x i : Nat} {rest : List Nat} (h : e' ≠ e) :
    (ix.insert cfg key e x i rest).entries e' = ix.entries e' :=
  Table.get_set_of_ne _ _ h

theorem countP_insert (cfg : Config) (ix : Index) (key : Key) (e x i : Nat) (rest : List Nat) (p : Nat → Bool) :
    (ix.insert cfg key e x i rest).indexed.countP p =
      ix.indexed.countP p + (if p e then 1 else 0) := by
  have h := ix.table.countP_flatMap_set id rfl p (cfg.bucketOf key)
    (e :: ix.table (cfg.bucketOf key))
  simp only [id_eq, List.countP_cons] at h
  simp only [indexed, insert, Table.modify]
  omega

section

variable {key : Key} {e x i : Nat} {rest : List Nat}

theorem Ok.insert (hOk : Ok cfg ix keyAt alloc) (hFree : ix.freeIndexEntry = e :: rest)
    (hNone : ix.getIndexEntry cfg key = none) (hKey : keyAt x i = key) (hInside : i < alloc x) :
    Ok cfg (ix.insert cfg key e x i rest) keyAt alloc := by
  have hNew : e ∉ ix.indexed := hOk.not_indexed_of_free (by rw [hFree]; simp)
  have hOther : ∀ b, ∀ e' ∈ ix.table b, e' ≠ e := by
    rintro b e' he' rfl
    exact hNew (indexed_of_mem he')
  have hFresh : ∀ e' ∈ ix.table (cfg.bucketOf key), (ix.entries e').digest ≠ cfg.makeDigest key :=
    fun e' he' => by simpa using List.find?_eq_none.mp hNone e' he'
  constructor
  case once =>
    intro e'
    have h := hOk.once e'
    rw [hFree, List.count_cons] at h
    have hCount := countP_insert cfg ix key e x i rest (· == e')
    simp only [List.count] at h ⊢
    rw [hCount]
    simp only [Index.insert]
    omega
  case nrFree =>
    have h := hOk.nrFree
    rw [hFree] at h
    simp only [Index.insert, h, List.length_cons]
    omega
  case unique =>
    intro b e₁ h₁ e₂ h₂ hDigest
    rcases mem_insert_table.mp h₁ with ⟨hb, rfl⟩ | hOld₁ <;>
      rcases mem_insert_table.mp h₂ with ⟨hb', rfl⟩ | hOld₂
    · rfl
    · rw [insert_entries_self, insert_entries_of_ne (hOther _ _ hOld₂)] at hDigest
      exact absurd hDigest.symm (hFresh _ (hb ▸ hOld₂))
    · rw [insert_entries_self, insert_entries_of_ne (hOther _ _ hOld₁)] at hDigest
      exact absurd hDigest (hFresh _ (hb' ▸ hOld₁))
    · rw [insert_entries_of_ne (hOther _ _ hOld₁),
        insert_entries_of_ne (hOther _ _ hOld₂)] at hDigest
      exact hOk.unique b e₁ hOld₁ e₂ hOld₂ hDigest
  case home =>
    intro b e' he'
    rcases mem_insert_table.mp he' with ⟨rfl, rfl⟩ | he'
    · rw [insert_entries_self, hKey]
      rfl
    · rw [insert_entries_of_ne (hOther _ _ he')]
      exact hOk.home b e' he'
  case inside =>
    intro e' he'
    obtain ⟨b, hb⟩ := mem_indexed.mp he'
    rcases mem_insert_table.mp hb with ⟨_, rfl⟩ | hb
    · rw [insert_entries_self]
      exact hInside
    · rw [insert_entries_of_ne (hOther _ _ hb)]
      exact hOk.inside e' (indexed_of_mem hb)

theorem Ok.getIndexEntry_insert (hOk : Ok cfg ix keyAt alloc)
    (hFree : ix.freeIndexEntry = e :: rest) (hNone : ix.getIndexEntry cfg key = none)
    (hKey : keyAt x i = key) (hInside : i < alloc x) (key' : Key) :
    (ix.insert cfg key e x i rest).getIndexEntry cfg key' =
      if cfg.cell key' = cfg.cell key then some e else ix.getIndexEntry cfg key' := by
  have hNew : e ∉ ix.indexed := hOk.not_indexed_of_free (by rw [hFree]; simp)
  have hOk' := hOk.insert hFree hNone hKey hInside
  split
  · rename_i hCell
    simp only [Config.cell, Prod.mk.injEq] at hCell
    rw [hOk'.getIndexEntry_iff, mem_insert_table, insert_entries_self]
    exact ⟨.inl ⟨hCell.1, rfl⟩, hCell.2.symm⟩
  · rename_i hCell
    apply Option.ext
    intro e'
    rw [hOk'.getIndexEntry_iff, hOk.getIndexEntry_iff, mem_insert_table]
    constructor
    · rintro ⟨⟨hb, rfl⟩ | hMem, hDigest⟩
      · rw [insert_entries_self] at hDigest
        exact absurd (by simp only [Config.cell, hb, ← hDigest]) hCell
      · have hne : e' ≠ e := fun h => hNew (h ▸ indexed_of_mem hMem)
        rw [insert_entries_of_ne hne] at hDigest
        exact ⟨hMem, hDigest⟩
    · rintro ⟨hMem, hDigest⟩
      have hne : e' ≠ e := fun h => hNew (h ▸ indexed_of_mem hMem)
      rw [insert_entries_of_ne hne]
      exact ⟨.inr hMem, hDigest⟩

theorem Ok.refs_insert (hOk : Ok cfg ix keyAt alloc) (hFree : ix.freeIndexEntry = e :: rest)
    (y : Nat) :
    (ix.insert cfg key e x i rest).refs y = ix.refs y + (if x = y then 1 else 0) := by
  have hNew : e ∉ ix.indexed := hOk.not_indexed_of_free (by rw [hFree]; simp)
  rw [refs, countP_insert, insert_entries_self]
  have hRest : ix.indexed.countP (fun e' => ((ix.insert cfg key e x i rest).entries e').slabId == y)
      = ix.refs y := by
    apply List.countP_congr
    intro e' he'
    have hne : e' ≠ e := fun h => hNew (h ▸ he')
    rw [insert_entries_of_ne hne]
  simp only [hRest, beq_iff_eq]

end

/-! ### Removing an entry -/

/-- The index after the entry found under a key was unlinked and freed. -/
def remove (cfg : Config) (ix : Index) (key : Key) (e : Nat) : Index :=
  (ix.unlink cfg key e).indexEntryFree e

section

variable {key : Key} {e : Nat}

@[simp] theorem remove_entries : (ix.remove cfg key e).entries = ix.entries := rfl

theorem mem_remove_table_of_mem {b e' : Nat} (h : e' ∈ (ix.remove cfg key e).table b) :
    e' ∈ ix.table b := by
  by_cases hb : b = cfg.bucketOf key
  · subst b
    exact List.mem_of_mem_erase (by simpa [remove, indexEntryFree, unlink] using h)
  · simpa [remove, indexEntryFree, unlink, Table.get_modify_of_ne _ _ hb] using h

theorem countP_remove (hGet : ix.getIndexEntry cfg key = some e) (p : Nat → Bool) :
    (ix.remove cfg key e).indexed.countP p + (if p e then 1 else 0) = ix.indexed.countP p := by
  have hMem := (getIndexEntry_some hGet).1
  have h := ix.table.countP_flatMap_set id rfl p (cfg.bucketOf key)
    ((ix.table (cfg.bucketOf key)).erase e)
  rw [id_eq, id_eq, (List.perm_cons_erase hMem).countP_eq, List.countP_cons] at h
  simp only [indexed, remove, indexEntryFree, unlink, Table.modify]
  omega

theorem Ok.mem_remove_indexed (hOk : Ok cfg ix keyAt alloc)
    (hGet : ix.getIndexEntry cfg key = some e) {e' : Nat} :
    e' ∈ (ix.remove cfg key e).indexed ↔ e' ∈ ix.indexed ∧ e' ≠ e := by
  have hCount := countP_remove hGet (· == e')
  have hOnce := (List.nodup_iff_count.mp hOk.nodup) e'
  have hIn : 0 < ix.indexed.count e := List.count_pos_iff.mpr (hOk.indexed_of_get hGet)
  rw [← List.count_pos_iff, ← List.count_pos_iff]
  simp only [List.count, beq_iff_eq] at hCount hOnce hIn ⊢
  by_cases h : e = e'
  · subst h
    simp only [if_true] at hCount
    simp only [ne_eq, not_true_eq_false, and_false, iff_false]
    omega
  · simp only [h, if_false] at hCount
    simp only [ne_eq, Ne.symm h, not_false_eq_true, and_true]
    omega

theorem Ok.remove (hOk : Ok cfg ix keyAt alloc) (hGet : ix.getIndexEntry cfg key = some e) :
    Ok cfg (ix.remove cfg key e) keyAt alloc where
  once := by
    intro e'
    have h := hOk.once e'
    have hCount := countP_remove hGet (· == e')
    simp only [Index.remove, indexEntryFree, unlink, List.count_cons] at hCount ⊢
    simp only [List.count] at h ⊢
    omega
  nrFree := by simp [Index.remove, indexEntryFree, unlink, hOk.nrFree]
  unique := fun b e₁ h₁ e₂ h₂ =>
    hOk.unique b e₁ (mem_remove_table_of_mem h₁) e₂ (mem_remove_table_of_mem h₂)
  home := fun b e' he' => hOk.home b e' (mem_remove_table_of_mem he')
  inside := fun e' he' => hOk.inside e' ((hOk.mem_remove_indexed hGet).mp he').1

theorem Ok.getIndexEntry_remove (hOk : Ok cfg ix keyAt alloc)
    (hGet : ix.getIndexEntry cfg key = some e) (key' : Key) :
    (ix.remove cfg key e).getIndexEntry cfg key' =
      if cfg.cell key' = cfg.cell key then none else ix.getIndexEntry cfg key' := by
  have hOk' := hOk.remove hGet
  split
  · rename_i hCell
    rw [Option.eq_none_iff_forall_not_mem]
    intro e' he'
    obtain ⟨hMem, hDigest⟩ := getIndexEntry_some he'
    have hGet' : ix.getIndexEntry cfg key' = some e' :=
      hOk.getIndexEntry_iff.mpr ⟨mem_remove_table_of_mem hMem, hDigest⟩
    rw [getIndexEntry_congr ix hCell, hGet] at hGet'
    exact ((hOk.mem_remove_indexed hGet).mp (indexed_of_mem hMem)).2 (Option.some.inj hGet').symm
  · rename_i hCell
    apply Option.ext
    intro e'
    rw [hOk'.getIndexEntry_iff, hOk.getIndexEntry_iff, remove_entries]
    refine ⟨fun ⟨hMem, hDigest⟩ => ⟨mem_remove_table_of_mem hMem, hDigest⟩, ?_⟩
    rintro ⟨hMem, hDigest⟩
    refine ⟨?_, hDigest⟩
    have hne : e' ≠ e := by
      rintro rfl
      have h := hOk.cell_of_get (hOk.getIndexEntry_iff.mpr ⟨hMem, hDigest⟩)
      rw [hOk.cell_of_get hGet] at h
      exact hCell h.symm
    by_cases hb : cfg.bucketOf key' = cfg.bucketOf key
    · rw [hb] at hMem ⊢
      simp [Index.remove, indexEntryFree, unlink, List.mem_erase_of_ne hne, hMem]
    · simpa [Index.remove, indexEntryFree, unlink, Table.get_modify_of_ne _ _ hb] using hMem

theorem refs_remove (hGet : ix.getIndexEntry cfg key = some e) (y : Nat) :
    (ix.remove cfg key e).refs y + (if (ix.entries e).slabId = y then 1 else 0) = ix.refs y := by
  simpa only [refs, remove_entries, beq_iff_eq] using
    countP_remove hGet (fun e' => (ix.entries e').slabId == y)

end

/-! ### Letting many entries point elsewhere -/

/-- The same entries under the same digests, each pointing to `place e`. -/
structure Relocated (ix ix' : Index) (place : Nat → Nat × Nat) : Prop where
  table : ix'.table = ix.table
  free : ix'.freeIndexEntry = ix.freeIndexEntry
  nrFree : ix'.nrFreeIndexEntry = ix.nrFreeIndexEntry
  digest : ∀ e, (ix'.entries e).digest = (ix.entries e).digest
  slabId : ∀ e ∈ ix.indexed, (ix'.entries e).slabId = (place e).1
  slotId : ∀ e ∈ ix.indexed, (ix'.entries e).slotId = (place e).2

namespace Relocated

variable {ix' : Index} {place place' : Nat → Nat × Nat}

theorem refl (ix : Index) : Relocated ix ix fun e => ((ix.entries e).slabId, (ix.entries e).slotId) :=
  ⟨rfl, rfl, rfl, fun _ => rfl, fun _ _ => rfl, fun _ _ => rfl⟩

theorem indexed (h : Relocated ix ix' place) : ix'.indexed = ix.indexed := by
  simp only [Index.indexed, h.table]

theorem getIndexEntry (h : Relocated ix ix' place) (cfg : Config) (key : Key) :
    ix'.getIndexEntry cfg key = ix.getIndexEntry cfg key := by
  simp only [Index.getIndexEntry, h.table, h.digest]

theorem congr (h : Relocated ix ix' place) (hPlace : ∀ e ∈ ix.indexed, place' e = place e) :
    Relocated ix ix' place' :=
  ⟨h.table, h.free, h.nrFree, h.digest, fun e he => by rw [hPlace e he]; exact h.slabId e he,
    fun e he => by rw [hPlace e he]; exact h.slotId e he⟩

/-- One more entry is moved. -/
theorem repoint (h : Relocated ix ix' place) (e x i : Nat) :
    Relocated ix (ix'.repoint e x i) (Function.update place e (x, i)) where
  table := h.table
  free := h.free
  nrFree := h.nrFree
  digest := fun e' => (repoint_digest e e' x i).trans (h.digest e')
  slabId := fun e' he' => by
    by_cases hEq : e' = e
    · subst e'
      simp [repoint_self]
    · rw [repoint_of_ne x i hEq, Function.update_of_ne hEq]
      exact h.slabId e' he'
  slotId := fun e' he' => by
    by_cases hEq : e' = e
    · subst e'
      simp [repoint_self]
    · rw [repoint_of_ne x i hEq, Function.update_of_ne hEq]
      exact h.slotId e' he'

/-- Entries may move to slots with a key of the same cell. -/
theorem ok {keyAt' : Nat → Nat → Key} {alloc' : Nat → Nat} (h : Relocated ix ix' place)
    (hOk : Ok cfg ix keyAt alloc)
    (hCell : ∀ e ∈ ix.indexed, cfg.cell (keyAt' (place e).1 (place e).2) =
      cfg.cell (keyAt (ix.entries e).slabId (ix.entries e).slotId))
    (hInside : ∀ e ∈ ix.indexed, (place e).2 < alloc' (place e).1) : Ok cfg ix' keyAt' alloc' where
  once := by
    rw [h.indexed, h.free]
    exact hOk.once
  nrFree := by
    rw [h.nrFree, h.free]
    exact hOk.nrFree
  unique := by
    rw [h.table]
    simp only [h.digest]
    exact hOk.unique
  home := by
    rw [h.table]
    intro b e he
    have hIn := indexed_of_mem he
    rw [h.slabId e hIn, h.slotId e hIn, hCell e hIn, h.digest e]
    exact hOk.home b e he
  inside := by
    rw [h.indexed]
    intro e he
    rw [h.slabId e he, h.slotId e he]
    exact hInside e he

end Relocated

theorem refs_pos {e : Nat} (he : e ∈ ix.indexed) : 0 < ix.refs (ix.entries e).slabId :=
  List.countP_pos_iff.mpr ⟨e, he, by simp⟩

theorem refs_eq_zero_iff {x : Nat} :
    ix.refs x = 0 ↔ ∀ e ∈ ix.indexed, (ix.entries e).slabId ≠ x := by
  simp [refs, List.countP_eq_zero]

/-! ### Removing many entries -/

/-- Some keys are gone, and the others find what they found before. -/
structure Pruned (cfg : Config) (ix ix' : Index) (gone : Key → Prop) : Prop where
  entries : ix'.entries = ix.entries
  lost : ∀ key, gone key → ix'.getIndexEntry cfg key = none
  kept : ∀ key, ¬gone key → ix'.getIndexEntry cfg key = ix.getIndexEntry cfg key

namespace Pruned

variable {ix' ix'' : Index} {gone gone' : Key → Prop}

theorem refl (ix : Index) : Pruned cfg ix ix fun _ => False :=
  ⟨rfl, fun _ h => h.elim, fun _ _ => rfl⟩

theorem trans (h : Pruned cfg ix ix' gone) (h' : Pruned cfg ix' ix'' gone') :
    Pruned cfg ix ix'' fun key => gone key ∨ gone' key where
  entries := h'.entries.trans h.entries
  lost := by
    rintro key (hGone | hGone)
    · by_cases hAlso : gone' key
      · exact h'.lost key hAlso
      · rw [h'.kept key hAlso, h.lost key hGone]
    · exact h'.lost key hGone
  kept := by
    intro key hKeep
    rw [h'.kept key fun hg => hKeep (.inr hg), h.kept key fun hg => hKeep (.inl hg)]

theorem congr (h : Pruned cfg ix ix' gone) (hGone : ∀ key, gone' key ↔ gone key) :
    Pruned cfg ix ix' gone' :=
  ⟨h.entries, fun key hg => h.lost key ((hGone key).mp hg),
    fun key hg => h.kept key fun hg' => hg ((hGone key).mpr hg')⟩

/-- A key that finds an entry finds the one it found before. -/
theorem some_of_some (h : Pruned cfg ix ix' gone) {key : Key} {e : Nat}
    (hGet : ix'.getIndexEntry cfg key = some e) :
    ¬gone key ∧ ix.getIndexEntry cfg key = some e := by
  have hKeep : ¬gone key := by
    intro hg
    rw [h.lost key hg] at hGet
    cases hGet
  exact ⟨hKeep, by rw [← h.kept key hKeep]; exact hGet⟩

theorem indexed_subset (h : Pruned cfg ix ix' gone) (hOk' : Ok cfg ix' keyAt alloc) {e : Nat}
    (he : e ∈ ix'.indexed) : e ∈ ix.indexed := by
  obtain ⟨-, hGet⟩ := h.some_of_some (hOk'.getIndexEntry_key he)
  exact indexed_of_mem (getIndexEntry_some hGet).1

theorem refs_le (h : Pruned cfg ix ix' gone) (hOk' : Ok cfg ix' keyAt alloc) (y : Nat) :
    ix'.refs y ≤ ix.refs y := by
  simp only [refs, h.entries]
  exact (List.subperm_of_subset hOk'.nodup fun e he => h.indexed_subset hOk' he).countP_le _

/-- A slab keeps its entries when their keys are kept. -/
theorem refs_eq (h : Pruned cfg ix ix' gone) (hOk : Ok cfg ix keyAt alloc)
    (hOk' : Ok cfg ix' keyAt alloc) {y : Nat}
    (hKeep : ∀ e ∈ ix.indexed, (ix.entries e).slabId = y →
      ¬gone (keyAt (ix.entries e).slabId (ix.entries e).slotId)) : ix'.refs y = ix.refs y := by
  refine Nat.le_antisymm (h.refs_le hOk' y) ?_
  simp only [refs, h.entries, List.countP_eq_length_filter]
  refine (List.subperm_of_subset (hOk.nodup.filter _) fun e he => ?_).length_le
  simp only [List.mem_filter, beq_iff_eq] at he ⊢
  refine ⟨?_, he.2⟩
  have hGet := h.kept _ (hKeep e he.1 he.2)
  rw [hOk.getIndexEntry_key he.1] at hGet
  exact indexed_of_mem (getIndexEntry_some hGet).1

/-- A slab loses its entries when their keys are gone. -/
theorem refs_eq_zero (h : Pruned cfg ix ix' gone) (hOk' : Ok cfg ix' keyAt alloc) {y : Nat}
    (hGone : ∀ e ∈ ix.indexed, (ix.entries e).slabId = y →
      gone (keyAt (ix.entries e).slabId (ix.entries e).slotId)) : ix'.refs y = 0 := by
  rw [refs_eq_zero_iff, h.entries]
  intro e he hSlab
  obtain ⟨hKeep, -⟩ := h.some_of_some (hOk'.getIndexEntry_key he)
  rw [h.entries] at hKeep
  exact hKeep (hGone e (h.indexed_subset hOk' he) hSlab)

end Pruned

theorem Ok.pruned_delIndexEntry (hOk : Ok cfg ix keyAt alloc) (key : Key) :
    Pruned cfg ix (ix.delIndexEntry cfg key) (fun key' => cfg.cell key' = cfg.cell key) ∧
      Ok cfg (ix.delIndexEntry cfg key) keyAt alloc := by
  unfold delIndexEntry
  cases hGet : ix.getIndexEntry cfg key with
  | none =>
      refine ⟨⟨rfl, fun key' hCell => ?_, fun _ _ => rfl⟩, hOk⟩
      rw [getIndexEntry_congr ix hCell, hGet]
  | some e =>
      refine ⟨⟨rfl, fun key' hCell => ?_, fun key' hCell => ?_⟩, hOk.remove hGet⟩
      · exact (hOk.getIndexEntry_remove hGet key').trans (if_pos hCell)
      · exact (hOk.getIndexEntry_remove hGet key').trans (if_neg hCell)

/-- Deleting the keys of a sequence of slots. -/
theorem Ok.pruned_loop (hOk : Ok cfg ix keyAt alloc) (keys : Nat → Key) (count : Nat) :
    Pruned cfg ix ((List.range count).foldl (fun ix i => ix.delIndexEntry cfg (keys i)) ix)
        (fun key => ∃ i < count, cfg.cell key = cfg.cell (keys i)) ∧
      Ok cfg ((List.range count).foldl (fun ix i => ix.delIndexEntry cfg (keys i)) ix)
        keyAt alloc := by
  refine Execution.foldl_range_rule (fun i ix' =>
    Pruned cfg ix ix' (fun key => ∃ j < i, cfg.cell key = cfg.cell (keys j)) ∧
      Ok cfg ix' keyAt alloc) count ?_ ⟨(Pruned.refl ix).congr (by simp), hOk⟩
  rintro i ix' - ⟨hPruned, hOk'⟩
  obtain ⟨hNext, hOk''⟩ := hOk'.pruned_delIndexEntry (keys i)
  refine ⟨(hPruned.trans hNext).congr fun key => ?_, hOk''⟩
  simp only [Nat.lt_succ_iff_lt_or_eq, or_and_right, exists_or, exists_eq_left]

end Index

end KVCache
