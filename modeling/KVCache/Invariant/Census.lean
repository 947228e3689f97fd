import KVCache.Invariant.Coherence

/-! Counting slabs by where they are. The lists of all channels together hold
the disk slabs of a place, so the counters kept beside them count slabs; and
no slab is at two places. -/

namespace KVCache

variable {cfg : Config} {c : Cache} {g : Ghost}

/-- All slabs that have a block. -/
def Config.diskSlabs (cfg : Config) : Finset Nat := Finset.Ico cfg.nrMslab cfg.nrSlab

@[simp] theorem card_diskSlabs : cfg.diskSlabs.card = cfg.nrBlocks := by
  simp [Config.diskSlabs, Config.nrSlab, Config.nrDslab]

/-- How many disk slabs are at a place. -/
def Ghost.disksAt (cfg : Config) (g : Ghost) (p : Place) : Nat :=
  (cfg.diskSlabs.filter fun x => g.place x = p).card

theorem disksAt_le (p : Place) : g.disksAt cfg p ≤ cfg.nrBlocks :=
  (Finset.card_filter_le _ _).trans card_diskSlabs.le

/-- Every disk slab is on a list of its channel, or on none. -/
theorem Inv.disk_place {x : Nat} (hInv : Inv cfg c g) (hx : x ∈ cfg.diskSlabs) :
    g.place x = .dslabFree ∨ g.place x = .dslabFull ∨ g.place x = .opsPool ∨
      g.place x = .nowhere := by
  have hOnDisk := hInv.onDisk (Finset.mem_Ico.mp hx)
  rw [Ghost.place]
  generalize g.role x = r at hOnDisk
  cases r with
  | diskTaken w | diskWritten w src | diskCopy w src => cases w <;> simp [Role.place]
  | diskFree | opsFree | diskFilled | diskFull | diskDropped | diskClean | diskLoose =>
      simp [Role.place]
  | _ => exact hOnDisk.elim

theorem Inv.disk_of_place {x : Nat} {p : Place} (hInv : Inv cfg c g) (hp : p.perChannel)
    (hx : g.place x = p) : x ∈ cfg.diskSlabs := by
  have hRange := (hInv.slab x).range
  simp only [Ghost.place] at hx
  refine Finset.mem_Ico.mpr ?_
  cases hRole : g.role x with
  | diskTaken w | diskWritten w src | diskCopy w src => rw [hRole] at hRange; exact hRange
  | diskFree | opsFree | diskFull => rw [hRole] at hRange; exact hRange
  | _ =>
      rw [hRole] at hx
      subst hx
      simp [Role.place, Place.perChannel] at hp

theorem Inv.perChannel_iff {x : Nat} (hInv : Inv cfg c g) :
    (g.place x).perChannel ↔ x ∈ cfg.diskSlabs ∧ g.place x ≠ .nowhere := by
  constructor
  · intro hPlace
    refine ⟨hInv.disk_of_place hPlace rfl, fun hNowhere => ?_⟩
    rw [hNowhere] at hPlace
    cases hPlace
  · rintro ⟨hx, hNowhere⟩
    rcases hInv.disk_place hx with h | h | h | h
    · rw [h]
      rfl
    · rw [h]
      rfl
    · rw [h]
      rfl
    · exact absurd h hNowhere

/-- At rest, a disk slab that is on no list is lost. -/
theorem Inv.nowhere_iff_loose {x : Nat} (hInv : Inv cfg c g) (hx : x ∈ cfg.diskSlabs)
    (hRest : (g.role x).Resting) : g.place x = .nowhere ↔ g.role x = .diskLoose := by
  have hOnDisk := hInv.onDisk (Finset.mem_Ico.mp hx)
  rw [Ghost.place]
  generalize g.role x = r at hOnDisk hRest
  cases r with
  | diskLoose => exact iff_of_true rfl rfl
  | diskFree | opsFree | diskFull => simp [Role.place]
  | diskTaken | diskWritten | diskCopy | diskFilled | diskDropped | diskClean => exact hRest.elim
  | _ => exact hOnDisk.elim

/-- The channel of a disk slab is one of the channels. -/
theorem Geometry.channel_lt {x : Nat} (h : Geometry cfg g.block)
    (hDisk : cfg.nrMslab ≤ x ∧ x < cfg.nrSlab) : g.channel cfg x < cfg.nrChannels := by
  obtain ⟨hPos, hLt⟩ := h.disk x hDisk.1 hDisk.2
  refine Nat.div_lt_of_lt_mul ?_
  rw [Nat.mul_comm]
  change (g.block x).toNat < cfg.nrBlocks
  omega

theorem Inv.channel_lt {x : Nat} (hInv : Inv cfg c g) (hDisk : cfg.nrMslab ≤ x ∧ x < cfg.nrSlab) :
    g.channel cfg x < cfg.nrChannels :=
  hInv.geometry.channel_lt hDisk

/-- There are no lists beyond those of the channels. -/
theorem Inv.sum_lists {p : Place} {t : Table SlabList} (hInv : Inv cfg c g) (hp : p.perChannel)
    (ht : ∀ channel, t channel = c.listAt p channel) :
    ((List.range cfg.nrChannels).map fun channel => (t channel).list.length).sum =
      (t.flatMap SlabList.list).length := by
  refine (Table.length_flatMap_eq_sum rfl _ fun channel hLe => ?_).symm
  refine List.eq_nil_iff_forall_not_mem.mpr fun x hMem => ?_
  have hNowhere : p ≠ .nowhere := by
    rintro rfl
    cases hp
  rw [ht, (hInv.lists.holds p channel hNowhere).mem] at hMem
  have hLt := hInv.channel_lt (Finset.mem_Ico.mp (hInv.disk_of_place hp hMem.1))
  rw [hMem.2 hp] at hLt
  omega

/-- The lists of a table hold the disk slabs of a place. -/
theorem Inv.length_flatMap {p : Place} {t : Table SlabList} (hInv : Inv cfg c g)
    (hp : p.perChannel) (ht : ∀ channel, t channel = c.listAt p channel) :
    (t.flatMap SlabList.list).length = g.disksAt cfg p := by
  have hNowhere : p ≠ .nowhere := by
    rintro rfl
    cases hp
  have hHolds := fun channel => hInv.lists.holds p channel hNowhere
  have hNodup : (t.flatMap SlabList.list).Nodup := by
    refine Table.nodup_flatMap (fun i => ?_) fun i j x hi hj => ?_
    · rw [ht]
      exact (hHolds i).nodup
    · rw [ht, (hHolds _).mem] at hi hj
      exact (hi.2 hp).symm.trans (hj.2 hp)
  have hMem : ∀ x, x ∈ t.flatMap SlabList.list ↔ g.place x = p := by
    intro x
    rw [Table.mem_flatMap rfl]
    constructor
    · rintro ⟨channel, hx⟩
      rw [ht, (hHolds channel).mem] at hx
      exact hx.1
    · intro hx
      refine ⟨g.channel cfg x, ?_⟩
      rw [ht, (hHolds _).mem]
      exact ⟨hx, fun _ => rfl⟩
  rw [← List.toFinset_card_of_nodup hNodup, Ghost.disksAt]
  congr 1
  ext x
  simp only [List.mem_toFinset, hMem, Finset.mem_filter]
  exact ⟨fun hx => ⟨hInv.disk_of_place hp hx, hx⟩, And.right⟩

theorem Inv.nrFreeDslab_eq (hInv : Inv cfg c g) : c.nrFreeDslab = g.disksAt cfg .dslabFree := by
  rw [hInv.lists.nrFreeDslab, hInv.length_flatMap (p := .dslabFree) rfl fun _ => rfl]

theorem Inv.opsPoolSize_eq (hInv : Inv cfg c g) : c.opsPoolSize = g.disksAt cfg .opsPool := by
  rw [hInv.lists.opsPoolSize, hInv.length_flatMap (p := .opsPool) rfl fun _ => rfl]

theorem Inv.nrFullDslab_eq (hInv : Inv cfg c g) :
    c.nrFullDslab + g.drift = g.disksAt cfg .dslabFull := by
  rw [hInv.lists.nrFullDslab, hInv.length_flatMap (p := .dslabFull) rfl fun _ => rfl]

/-- The counter of free disk slabs stays in its range. -/
theorem Inv.nrFreeDslab_range (hInv : Inv cfg c g) :
    0 ≤ c.nrFreeDslab ∧ c.nrFreeDslab ≤ cfg.nrBlocks := by
  rw [hInv.nrFreeDslab_eq]
  have hLe : g.disksAt cfg .dslabFree ≤ cfg.nrBlocks := disksAt_le _
  omega

theorem Inv.opsPoolSize_nonneg (hInv : Inv cfg c g) : 0 ≤ c.opsPoolSize := by
  rw [hInv.opsPoolSize_eq]
  exact Int.natCast_nonneg _

/-- `check_ops_pool` always succeeds. -/
theorem Lists.checkOpsPool (h : Lists cfg c g) : c.checkOpsPool = true := by
  have hSize : ∀ l ∈ c.opsPool.cells, l.size = l.list.length := by
    intro l hl
    obtain ⟨i, hi, rfl⟩ := List.mem_iff_getElem.mp hl
    have hGet : c.opsPool i = c.opsPool.cells[i] := by
      simp [Table.get, List.getD_eq_getElem?_getD, List.getElem?_eq_getElem hi]
    rw [← hGet]
    exact (h.holds .opsPool i (by simp)).size
  have hSum : (c.opsPool.cells.map SlabList.size).sum = c.opsPoolSize := by
    rw [h.opsPoolSize, Table.flatMap, List.length_flatMap, List.map_congr_left hSize]
    induction c.opsPool.cells with
    | nil => rfl
    | cons l rest ih => simp [ih]
  simp only [Cache.checkOpsPool, hSum, Bool.and_eq_true, List.all_eq_true, beq_self_eq_true,
    and_true, beq_iff_eq]
  exact fun l hl => (hSize l hl).symm

end KVCache
