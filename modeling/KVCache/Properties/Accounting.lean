import KVCache.Properties.Lookup

/-! What the cache keeps account of: every slab is on one list, the use count of
a slab is the number of entries that point into it, and the counter of full
disk slabs is their number. Each of the three fails for some rounds of the
collector, and holds as long as no such round takes place. -/

namespace KVCache

variable {build : Build} {cfg : Config} {c : Cache} {s : Sys} {g : Ghost} {x : Nat}

/-! ### Slabs on lists -/

/-- How often a disk slab occurs on the disk lists. -/
def diskListed (cfg : Config) (c : Cache) (d : Nat) : Nat :=
  ((List.range cfg.nrChannels).map fun channel => (c.dslabFree channel).list.count d +
    (c.dslabFull channel).list.count d + (c.opsPool channel).list.count d).sum

/-- How often a memory slab occurs on the memory lists. -/
def memListed (cfg : Config) (c : Cache) (m : Nat) : Nat :=
  c.mslabFree.list.count m + c.mslabFull.list.count m +
    ((List.range cfg.nrSlabClass).map fun cid => (c.slabPartial cid).count m).sum

/-- Every slab but the buffer is on exactly one list. -/
structure SlabsListed (cfg : Config) (c : Cache) : Prop where
  disk : ∀ d, cfg.nrMslab ≤ d → d < cfg.nrSlab → diskListed cfg c d = 1
  memory : ∀ m, m < cfg.nrMslab → m ≠ cfg.gcBuffer → memListed cfg c m = 1

theorem sum_range_eq_one {n k : Nat} {f : Nat → Nat} (hk : k < n) (hOne : f k = 1)
    (hZero : ∀ i, i ≠ k → f i = 0) : ((List.range n).map f).sum = 1 := by
  induction n with
  | zero => omega
  | succ n ih =>
      rw [List.range_succ, List.map_append, List.sum_append]
      by_cases hn : k = n
      · subst k
        have hRest : ((List.range n).map f).sum = 0 := by
          refine List.sum_eq_zero fun y hy => ?_
          obtain ⟨i, hi, rfl⟩ := List.mem_map.mp hy
          exact hZero i (by have := List.mem_range.mp hi; omega)
        simp [hRest, hOne]
      · simp [ih (by omega), hZero n (Ne.symm hn)]

theorem sum_range_eq_zero {n : Nat} {f : Nat → Nat} (hZero : ∀ i, f i = 0) :
    ((List.range n).map f).sum = 0 := by
  refine List.sum_eq_zero fun y hy => ?_
  obtain ⟨i, -, rfl⟩ := List.mem_map.mp hy
  exact hZero i

namespace SlabList.Holds

variable {l : SlabList} {P : Nat → Prop}

theorem count_of (h : l.Holds P) (hx : P x) : l.list.count x = 1 :=
  List.count_eq_one_of_mem h.nodup ((h.mem x).mpr hx)

theorem count_of_not (h : l.Holds P) (hx : ¬P x) : l.list.count x = 0 :=
  List.count_eq_zero.mpr fun hMem => hx ((h.mem x).mp hMem)

end SlabList.Holds

/-- A disk slab on a list is on that list only, and on the list of its channel. -/
theorem Inv.diskListed_eq_one (hInv : Inv cfg c g) (hPlace : (g.place x).perChannel) :
    diskListed cfg c x = 1 := by
  have hDisk := Finset.mem_Ico.mp (hInv.disk_of_place hPlace rfl)
  refine sum_range_eq_one (hInv.channel_lt hDisk) ?_ fun channel hne => ?_
  · have hFree := hInv.lists.holds .dslabFree (g.channel cfg x) (by simp)
    have hFull := hInv.lists.holds .dslabFull (g.channel cfg x) (by simp)
    have hOps := hInv.lists.holds .opsPool (g.channel cfg x) (by simp)
    simp only [Cache.listAt] at hFree hFull hOps
    cases hAt : g.place x with
    | dslabFree =>
        rw [hFree.count_of ⟨hAt, fun _ => rfl⟩, hFull.count_of_not (by simp [hAt]),
          hOps.count_of_not (by simp [hAt])]
    | dslabFull =>
        rw [hFree.count_of_not (by simp [hAt]), hFull.count_of ⟨hAt, fun _ => rfl⟩,
          hOps.count_of_not (by simp [hAt])]
    | opsPool =>
        rw [hFree.count_of_not (by simp [hAt]), hFull.count_of_not (by simp [hAt]),
          hOps.count_of ⟨hAt, fun _ => rfl⟩]
    | _ =>
        rw [hAt] at hPlace
        cases hPlace
  · have hNot : ∀ p : Place, p.perChannel →
        ¬(g.place x = p ∧ (p.perChannel → g.channel cfg x = channel)) :=
      fun p hp h => hne (h.2 hp).symm
    have hFree := (hInv.lists.holds .dslabFree channel (by simp)).count_of_not (hNot _ rfl)
    have hFull := (hInv.lists.holds .dslabFull channel (by simp)).count_of_not (hNot _ rfl)
    have hOps := (hInv.lists.holds .opsPool channel (by simp)).count_of_not (hNot _ rfl)
    simp only [Cache.listAt] at hFree hFull hOps
    rw [hFree, hFull, hOps]

theorem Inv.diskListed_eq_zero (hInv : Inv cfg c g) (hPlace : ¬(g.place x).perChannel) :
    diskListed cfg c x = 0 := by
  refine sum_range_eq_zero fun channel => ?_
  have hCount : ∀ p : Place, p.perChannel → (c.listAt p channel).list.count x = 0 := by
    intro p hp
    have hNowhere : p ≠ .nowhere := by
      rintro rfl
      cases hp
    exact (hInv.lists.holds p channel hNowhere).count_of_not fun h => hPlace (h.1 ▸ hp)
  have hFree := hCount .dslabFree rfl
  have hFull := hCount .dslabFull rfl
  have hOps := hCount .opsPool rfl
  simp only [Cache.listAt] at hFree hFull hOps
  rw [hFree, hFull, hOps]

theorem Inv.memListed_eq_one (hInv : Inv cfg c g)
    (hRole : g.role x = .memFree ∨ g.role x = .memFull ∨ ∃ k, g.role x = .memPartial k) :
    memListed cfg c x = 1 := by
  have hFree := hInv.lists.holds .mslabFree 0 (by simp)
  have hFull := hInv.lists.holds .mslabFull 0 (by simp)
  have hPartial := fun cid => hInv.lists.holds (.slabPartial cid) 0 (by simp)
  simp only [Cache.listAt] at hFree hFull hPartial
  unfold memListed
  rcases hRole with hRole | hRole | ⟨k, hRole⟩
  · have hPlace : g.place x = .mslabFree := by rw [Ghost.place, hRole]; rfl
    rw [hFree.count_of ⟨hPlace, by simp [Place.perChannel]⟩, hFull.count_of_not (by simp [hPlace]),
      sum_range_eq_zero fun cid => (hPartial cid).count_of_not (by simp [hPlace])]
  · have hPlace : g.place x = .mslabFull := by rw [Ghost.place, hRole]; rfl
    rw [hFree.count_of_not (by simp [hPlace]), hFull.count_of ⟨hPlace, by simp [Place.perChannel]⟩,
      sum_range_eq_zero fun cid => (hPartial cid).count_of_not (by simp [hPlace])]
  · have hPlace : g.place x = .slabPartial k := by rw [Ghost.place, hRole]; rfl
    have hShape := (hInv.slab x).shape
    rw [hRole] at hShape
    rw [hFree.count_of_not (by simp [hPlace]), hFull.count_of_not (by simp [hPlace]),
      sum_range_eq_one hShape.1.isClass
        ((hPartial k).count_of ⟨hPlace, by simp [Place.perChannel]⟩)
        fun cid hne => (hPartial cid).count_of_not (by simp [hPlace, Ne.symm hne])]

/-- Slabs at rest are on one list each, unless one is lost. -/
theorem SysInv.slabsListed (h : SysInv cfg s g) (hQuiet : s.Quiet)
    (hLoose : ∀ x, g.role x ≠ .diskLoose) : SlabsListed cfg s.cache := by
  have hRest : ∀ x, (g.role x).Resting := by
    intro x
    rcases h.rest x with hr | ⟨-, p, hp, -⟩ | ⟨-, hm⟩
    · exact hr
    · rw [hQuiet.1] at hp
      cases hp
    · rw [hQuiet.2] at hm
      cases hm
  constructor
  case disk =>
    intro d hLe hLt
    have hd : d ∈ cfg.diskSlabs := Finset.mem_Ico.mpr ⟨hLe, hLt⟩
    apply h.inv.diskListed_eq_one
    apply h.inv.perChannel_iff.mpr
    refine ⟨hd, fun hNowhere => hLoose d ?_⟩
    exact (h.inv.nowhere_iff_loose hd (hRest d)).mp hNowhere
  case memory =>
    intro m hLt hBuffer
    apply h.inv.memListed_eq_one
    have hRange := (h.inv.slab m).range
    have hm := hRest m
    generalize g.role m = r at hRange hm
    cases r with
    | memFree => exact .inl rfl
    | memFull => exact .inr (.inl rfl)
    | memPartial k => exact .inr (.inr ⟨k, rfl⟩)
    | bufferIdle => exact absurd hRange hBuffer
    | outside | diskFree | opsFree | diskFull | diskLoose =>
        simp only [Role.InRange, Config.nrSlab] at hRange
        omega
    | _ => exact hm.elim

/-- The counter of full disk slabs is their number, and so are the sizes kept
with the lists. -/
structure FullCounted (cfg : Config) (c : Cache) : Prop where
  nrFullDslab : c.nrFullDslab =
    ((List.range cfg.nrChannels).map fun channel => (c.dslabFull channel).list.length).sum
  size : ∀ channel < cfg.nrChannels,
    (c.dslabFull channel).size = (c.dslabFull channel).list.length

end KVCache
