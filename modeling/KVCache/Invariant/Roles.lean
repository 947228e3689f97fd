import KVCache.Semantics.Writer

/-! The life of a slab. At any moment a slab is on one list or in the hands of
one thread, and which one decides what its header and its references can be.
Memory slabs go from free over partial and full to the flush and back; disk
slabs are filled by a flush or by the collector, dropped, and become free or
over-provisioned again. -/

namespace KVCache

/-- The three threads. The lists of a slab class belong to the writer, the pool
of over-provisioned slabs and the buffer to the collector. -/
inductive Worker where
  | writer
  | flush
  | gc
  deriving DecidableEq

/-- Where a slab is in its life. The collector links a disk slab into a full
list before it fills it, the flush afterwards. -/
inductive Role where
  | outside
  | memFree
  | memPartial (cid : Nat)
  /-- filled by the writer and not yet on the full list -/
  | memWriter
  | memFull
  /-- taken by the flush -/
  | memFlush
  /-- taken by the flush, and its image is on its way to `dst` -/
  | memSource (dst : Nat)
  /-- taken by the flush, and the index points elsewhere -/
  | memDone
  /-- reset by the flush and not yet on the free list -/
  | memReset
  | bufferIdle
  | bufferBusy
  | bufferSource (dst : Nat)
  | diskFree
  | opsFree
  /-- chosen to be filled -/
  | diskTaken (w : Worker)
  /-- the block holds the image of `src` -/
  | diskWritten (w : Worker) (src : Nat)
  /-- the header is that of `src`, too -/
  | diskCopy (w : Worker) (src : Nat)
  /-- filled by the flush and not yet on a full list -/
  | diskFilled
  | diskFull
  /-- unlinked by the collector, and still in use -/
  | diskDropped
  /-- unlinked by the collector, and the index points elsewhere -/
  | diskClean
  /-- reset, and on no list -/
  | diskLoose
  deriving DecidableEq

/-- The lists a slab can be on. -/
inductive Place where
  | nowhere
  | mslabFree
  | mslabFull
  | slabPartial (cid : Nat)
  | dslabFree
  | dslabFull
  | opsPool
  deriving DecidableEq

/-- The disk lists exist once per channel. -/
def Place.perChannel : Place → Bool
  | .dslabFree | .dslabFull | .opsPool => true
  | _ => false

namespace Role

def place : Role → Place
  | .memFree => .mslabFree
  | .memFull => .mslabFull
  | .memPartial cid => .slabPartial cid
  | .diskFree => .dslabFree
  | .opsFree => .opsPool
  | .diskFull | .diskTaken .gc | .diskWritten .gc _ | .diskCopy .gc _ => .dslabFull
  | _ => .nowhere

/-- The role of a slab at rest in a list. -/
def atRest : Place → Role
  | .nowhere => .diskLoose
  | .mslabFree => .memFree
  | .mslabFull => .memFull
  | .slabPartial cid => .memPartial cid
  | .dslabFree => .diskFree
  | .dslabFull => .diskFull
  | .opsPool => .opsFree

/-- A slab on a list is at rest, unless the collector is filling it. -/
theorem eq_atRest {r : Role} {p : Place} (h : r.place = p) (hp : p ≠ .nowhere)
    (hFull : p ≠ .dslabFull) : r = atRest p := by
  subst p
  cases r with
  | diskTaken w => cases w <;> simp [place] at hp hFull
  | diskWritten w src => cases w <;> simp [place] at hp hFull
  | diskCopy w src => cases w <;> simp [place] at hp hFull
  | _ => first | rfl | exact absurd rfl hp

/-- The thread that may move a slab on. -/
def owner : Role → Option Worker
  | .outside => none
  | .memFree | .memPartial _ | .memWriter => some .writer
  | .memFull | .memFlush | .memSource _ | .memDone | .memReset | .diskFree | .diskFilled =>
      some .flush
  | .diskTaken w | .diskWritten w _ | .diskCopy w _ => some w
  | _ => some .gc

/-- In the hands of the collector in the middle of a round. -/
def Collecting : Role → Prop
  | .bufferBusy | .bufferSource _ | .diskTaken .gc | .diskWritten .gc _ | .diskCopy .gc _
  | .diskDropped | .diskClean => True
  | _ => False

/-- In the hands of the flush thread. -/
def Flushing : Role → Prop
  | .memFlush | .memSource _ | .memDone | .memReset | .diskTaken .flush | .diskWritten .flush _
  | .diskCopy .flush _ | .diskFilled => True
  | _ => False

/-- No index entry points into the slab. -/
def Dead : Role → Prop
  | .memPartial _ | .memWriter | .memFull | .memFlush | .memSource _ | .bufferBusy
  | .bufferSource _ | .diskFilled | .diskFull | .diskDropped => False
  | _ => True

/-- Which slabs can be where. -/
def InRange (cfg : Config) (x : Nat) : Role → Prop
  | .outside => cfg.nrSlab ≤ x
  | .memFree | .memPartial _ | .memWriter | .memFull | .memFlush | .memSource _ | .memDone
  | .memReset => x < cfg.gcBuffer
  | .bufferIdle | .bufferBusy | .bufferSource _ => x = cfg.gcBuffer
  | _ => cfg.nrMslab ≤ x ∧ x < cfg.nrSlab

/-- A role of slabs that have a block. -/
def OnDisk : Role → Prop
  | .diskFree | .opsFree | .diskTaken _ | .diskWritten _ _ | .diskCopy _ _ | .diskFilled | .diskFull
  | .diskDropped | .diskClean | .diskLoose => True
  | _ => False

/-- At rest between operations. -/
def Resting : Role → Prop
  | .outside | .memFree | .memPartial _ | .memFull | .bufferIdle | .diskFree | .opsFree
  | .diskFull | .diskLoose => True
  | _ => False

/-- At rest where another thread may take it. A partial slab stays with the
writer. -/
def Shared : Role → Prop
  | .memPartial _ => False
  | r => r.Resting

theorem Shared.resting {r : Role} (h : r.Shared) : r.Resting := by
  cases r <;> first | exact h | exact h.elim

end Role

/-- What the proof tracks beside the state. The block of a slab never changes.
`drift` is by how much the counter of full disk slabs lags behind, and `exact`
tells whether the use counts are exact. -/
structure Ghost where
  role : Nat → Role
  block : Nat → Int
  pend : Option PendingPut
  drift : Nat
  exact : Bool

namespace Ghost

def become (g : Ghost) (x : Nat) (r : Role) : Ghost :=
  { g with role := Function.update g.role x r }

@[simp] theorem become_self (g : Ghost) (x : Nat) (r : Role) : (g.become x r).role x = r := by
  simp [become]

theorem become_of_ne (g : Ghost) {x y : Nat} (r : Role) (h : y ≠ x) :
    (g.become x r).role y = g.role y := by
  simp [become, h]

theorem become_become (g : Ghost) (x : Nat) (r r' : Role) :
    (g.become x r).become x r' = g.become x r' := by
  simp [become]

/-- Slabs with different roles are different. -/
theorem ne_of_role (g : Ghost) {x y : Nat} {r r' : Role} (hx : g.role x = r) (hy : g.role y = r')
    (hne : r ≠ r' := by simp) : x ≠ y := by
  rintro rfl
  exact hne (hx.symm.trans hy)

/-- The slabs still to be visited keep their role when the first one changes. -/
theorem become_tail (g : Ghost) {x : Nat} {xs : List Nat} {r : Role} (r' : Role) (hNot : x ∉ xs)
    (h : ∀ y ∈ x :: xs, g.role y = r) (y : Nat) (hy : y ∈ xs) : (g.become x r').role y = r := by
  have hne : y ≠ x := fun hEq => hNot (hEq ▸ hy)
  rw [g.become_of_ne r' hne]
  exact h y (List.mem_cons_of_mem x hy)

/-- Several slabs change their role together. -/
def becomeAll (g : Ghost) (xs : List Nat) (r : Role) : Ghost :=
  { g with role := fun y => if y ∈ xs then r else g.role y }

@[simp] theorem becomeAll_nil (g : Ghost) (r : Role) : g.becomeAll [] r = g := by
  simp [becomeAll]

theorem becomeAll_cons (g : Ghost) (x : Nat) (xs : List Nat) (r : Role) :
    g.becomeAll (x :: xs) r = (g.become x r).becomeAll xs r := by
  simp only [becomeAll, become, mk.injEq, and_true]
  funext y
  by_cases hy : y = x <;> simp [hy]

theorem becomeAll_concat (g : Ghost) (xs : List Nat) (x : Nat) (r : Role) :
    g.becomeAll (xs ++ [x]) r = (g.become x r).becomeAll xs r := by
  rw [← becomeAll_cons]
  simp [becomeAll, or_comm]

theorem becomeAll_of_mem (g : Ghost) {xs : List Nat} {y : Nat} (r : Role) (h : y ∈ xs) :
    (g.becomeAll xs r).role y = r := if_pos h

theorem becomeAll_of_not_mem (g : Ghost) {xs : List Nat} {y : Nat} (r : Role) (h : y ∉ xs) :
    (g.becomeAll xs r).role y = g.role y := if_neg h

def place (g : Ghost) (x : Nat) : Place := (g.role x).place

@[simp] theorem place_become_self (g : Ghost) (x : Nat) (r : Role) :
    (g.become x r).place x = r.place := by
  simp [place]

theorem place_become_of_ne (g : Ghost) {x y : Nat} (r : Role) (h : y ≠ x) :
    (g.become x r).place y = g.place y := by
  simp [place, g.become_of_ne r h]

@[simp] theorem become_block (g : Ghost) (x : Nat) (r : Role) : (g.become x r).block = g.block := rfl

@[simp] theorem become_pend (g : Ghost) (x : Nat) (r : Role) : (g.become x r).pend = g.pend := rfl

@[simp] theorem become_drift (g : Ghost) (x : Nat) (r : Role) : (g.become x r).drift = g.drift := rfl

@[simp] theorem become_exact (g : Ghost) (x : Nat) (r : Role) : (g.become x r).exact = g.exact := rfl

@[simp] theorem channel_become (cfg : Config) (g : Ghost) (x y : Nat) (r : Role) :
    cfg.channelId ((g.become x r).block y) = cfg.channelId (g.block y) := rfl

def channel (cfg : Config) (g : Ghost) (x : Nat) : Nat := cfg.channelId (g.block x)

/-- The collector is between two rounds. -/
def GcIdle (g : Ghost) : Prop := ∀ x, ¬(g.role x).Collecting

theorem GcIdle.full {g : Ghost} (h : g.GcIdle) {x : Nat} (hPlace : g.place x = .dslabFull) :
    g.role x = .diskFull := by
  have hIdle := h x
  unfold place at hPlace
  cases hr : g.role x with
  | diskFull => rfl
  | diskTaken w =>
      rw [hr] at hPlace hIdle
      cases w <;> first | exact absurd trivial hIdle | cases hPlace
  | diskWritten w src =>
      rw [hr] at hPlace hIdle
      cases w <;> first | exact absurd trivial hIdle | cases hPlace
  | diskCopy w src =>
      rw [hr] at hPlace hIdle
      cases w <;> first | exact absurd trivial hIdle | cases hPlace
  | _ =>
      rw [hr] at hPlace
      cases hPlace

/-- No slab is lost, and none is found again. -/
def SameLoose (g g' : Ghost) : Prop := ∀ x, g'.role x = .diskLoose ↔ g.role x = .diskLoose

/-- One slab is lost. -/
def LosesOne (g g' : Ghost) : Prop :=
  ∃ d, g.role d ≠ .diskLoose ∧ ∀ x, g'.role x = .diskLoose ↔ g.role x = .diskLoose ∨ x = d

namespace SameLoose

theorem refl (g : Ghost) : g.SameLoose g := fun _ => .rfl

theorem trans {g g' g'' : Ghost} (h : g.SameLoose g') (h' : g'.SameLoose g'') : g.SameLoose g'' :=
  fun x => (h' x).trans (h x)

theorem becomeAll {g : Ghost} {ds : List Nat} {r : Role} (hOld : ∀ d ∈ ds, g.role d ≠ .diskLoose)
    (hNew : r ≠ .diskLoose) : g.SameLoose (g.becomeAll ds r) := by
  intro x
  by_cases hMem : x ∈ ds
  · rw [g.becomeAll_of_mem _ hMem]
    exact iff_of_false hNew (hOld x hMem)
  · rw [g.becomeAll_of_not_mem _ hMem]

theorem become {g : Ghost} {x : Nat} {r : Role} (hOld : g.role x ≠ .diskLoose)
    (hNew : r ≠ .diskLoose) : g.SameLoose (g.become x r) := by
  have h : g.SameLoose (g.becomeAll [x] r) := becomeAll (by simpa using hOld) hNew
  rwa [g.becomeAll_cons, becomeAll_nil] at h

end SameLoose

/-- Slots taken by the writer for which there is no index entry yet. -/
def pending (g : Ghost) (x : Nat) : Nat :=
  match g.pend with
  | none => 0
  | some p => if p.sid = x then 1 else 0

end Ghost

/-! ### Lists -/

namespace SlabList

/-- A list holds exactly the slabs with a property, each once, and has its
recorded size. -/
structure Holds (l : SlabList) (P : Nat → Prop) : Prop where
  nodup : l.list.Nodup
  mem : ∀ x, x ∈ l.list ↔ P x
  size : l.size = l.list.length

section

variable {l : SlabList} {P P' : Nat → Prop} {x : Nat}

theorem Holds.keep (h : l.Holds P) (hRest : ∀ y ≠ x, (P' y ↔ P y)) (hx : P' x ↔ P x) :
    l.Holds P' := by
  refine ⟨h.nodup, fun y => ?_, h.size⟩
  rw [h.mem]
  by_cases hy : y = x
  · subst y
    exact hx.symm
  · exact (hRest y hy).symm

theorem Holds.gain (h : l.Holds P) (hRest : ∀ y ≠ x, (P' y ↔ P y)) (hOld : ¬P x) (hNew : P' x) :
    (l.add x).Holds P' := by
  refine ⟨List.nodup_cons.mpr ⟨fun hMem => hOld ((h.mem x).mp hMem), h.nodup⟩, fun y => ?_,
    by simp [SlabList.add, h.size]⟩
  rw [SlabList.add, List.mem_cons, h.mem]
  by_cases hy : y = x
  · subst y
    simp [hNew]
  · simp [hy, hRest y hy]

theorem Holds.lose (h : l.Holds P) (hRest : ∀ y ≠ x, (P' y ↔ P y)) (hOld : P x) (hNew : ¬P' x) :
    (l.del x).Holds P' := by
  have hMem := (h.mem x).mpr hOld
  refine ⟨h.nodup.erase x, fun y => ?_, ?_⟩
  · rw [SlabList.del, h.nodup.mem_erase_iff, h.mem]
    by_cases hy : y = x
    · subst y
      simp [hNew]
    · simp [hy, hRest y hy]
  · have hPos := List.length_pos_of_mem hMem
    simp only [SlabList.del, h.size, List.length_erase_of_mem hMem]
    omega

theorem default_holds (h : ∀ x, ¬P x) : (default : SlabList).Holds P :=
  ⟨List.nodup_nil, fun x => by simp [default, h x], rfl⟩

end

end SlabList

/-- The list at a place; the disk lists exist once per channel. -/
def Cache.listAt (c : Cache) : Place → Nat → SlabList
  | .nowhere, _ => default
  | .mslabFree, _ => c.mslabFree
  | .mslabFull, _ => c.mslabFull
  | .slabPartial cid, _ => ⟨c.slabPartial cid, (c.slabPartial cid).length⟩
  | .dslabFree, channel => c.dslabFree channel
  | .dslabFull, channel => c.dslabFull channel
  | .opsPool, channel => c.opsPool channel

/-- Every list holds the slabs whose place it is, and the counters kept beside
the lists agree with them, up to the drift. -/
structure Lists (cfg : Config) (c : Cache) (g : Ghost) : Prop where
  holds : ∀ p ch, p ≠ .nowhere → (c.listAt p ch).Holds fun x =>
    g.place x = p ∧ (p.perChannel → g.channel cfg x = ch)
  nrFreeDslab : c.nrFreeDslab = (c.dslabFree.flatMap SlabList.list).length
  opsPoolSize : c.opsPoolSize = (c.opsPool.flatMap SlabList.list).length
  nrFullDslab : c.nrFullDslab + g.drift = (c.dslabFull.flatMap SlabList.list).length

namespace Lists

variable {cfg : Config} {c c' : Cache} {g : Ghost} {x : Nat} {r : Role}

theorem mem_mslabFree (h : Lists cfg c g) : x ∈ c.mslabFree.list ↔ g.place x = .mslabFree := by
  simpa [Place.perChannel, Cache.listAt] using (h.holds .mslabFree 0 (by simp)).mem x

theorem mem_mslabFull (h : Lists cfg c g) : x ∈ c.mslabFull.list ↔ g.place x = .mslabFull := by
  simpa [Place.perChannel, Cache.listAt] using (h.holds .mslabFull 0 (by simp)).mem x

theorem mem_slabPartial (h : Lists cfg c g) {cid : Nat} :
    x ∈ c.slabPartial cid ↔ g.place x = .slabPartial cid := by
  simpa [Place.perChannel, Cache.listAt] using (h.holds (.slabPartial cid) 0 (by simp)).mem x

theorem mem_dslabFree (h : Lists cfg c g) {ch : Nat} :
    x ∈ (c.dslabFree ch).list ↔ g.place x = .dslabFree ∧ g.channel cfg x = ch := by
  simpa [Place.perChannel, Cache.listAt] using (h.holds .dslabFree ch (by simp)).mem x

theorem mem_dslabFull (h : Lists cfg c g) {ch : Nat} :
    x ∈ (c.dslabFull ch).list ↔ g.place x = .dslabFull ∧ g.channel cfg x = ch := by
  simpa [Place.perChannel, Cache.listAt] using (h.holds .dslabFull ch (by simp)).mem x

theorem mem_opsPool (h : Lists cfg c g) {ch : Nat} :
    x ∈ (c.opsPool ch).list ↔ g.place x = .opsPool ∧ g.channel cfg x = ch := by
  simpa [Place.perChannel, Cache.listAt] using (h.holds .opsPool ch (by simp)).mem x

/-- Lists do not depend on the other parts of the state. -/
theorem congr (h : Lists cfg c g)
    (h₁ : c'.mslabFree = c.mslabFree := by rfl) (h₂ : c'.mslabFull = c.mslabFull := by rfl)
    (h₃ : c'.slabPartial = c.slabPartial := by rfl) (h₄ : c'.dslabFree = c.dslabFree := by rfl)
    (h₅ : c'.dslabFull = c.dslabFull := by rfl) (h₆ : c'.opsPool = c.opsPool := by rfl)
    (h₇ : c'.nrFreeDslab = c.nrFreeDslab := by rfl) (h₈ : c'.opsPoolSize = c.opsPoolSize := by rfl)
    (h₉ : c'.nrFullDslab = c.nrFullDslab := by rfl) : Lists cfg c' g where
  holds := by
    intro p ch hp
    have hSame : c'.listAt p ch = c.listAt p ch := by
      cases p <;> simp only [Cache.listAt, h₁, h₂, h₃, h₄, h₅, h₆]
    rw [hSame]
    exact h.holds p ch hp
  nrFreeDslab := by rw [h₇, h₄]; exact h.nrFreeDslab
  opsPoolSize := by rw [h₈, h₆]; exact h.opsPoolSize
  nrFullDslab := by rw [h₉, h₅]; exact h.nrFullDslab

/-- Only the places of the slabs and the drift matter of the ghost state. -/
theorem congr_ghost {g' : Ghost} (h : Lists cfg c g) (hPlace : ∀ y, g'.place y = g.place y)
    (hBlock : g'.block = g.block) (hDrift : g'.drift = g.drift) : Lists cfg c g' where
  holds := by
    intro p ch hp
    refine (h.holds p ch hp).keep (x := 0) (fun y _ => ?_) ?_ <;>
      simp only [hPlace, Ghost.channel, hBlock]
  nrFreeDslab := h.nrFreeDslab
  opsPoolSize := h.opsPoolSize
  nrFullDslab := hDrift ▸ h.nrFullDslab

/-- A change of role at the same place. -/
theorem become (h : Lists cfg c g) (hPlace : r.place = g.place x) : Lists cfg c (g.become x r) := by
  refine h.congr_ghost (fun y => ?_) rfl rfl
  by_cases hy : y = x
  · subst y
    simpa using hPlace
  · exact g.place_become_of_ne r hy

/-- A slab on no list enters the list at a place. -/
theorem enter_holds {p : Place} (h : Lists cfg c g) (hx : g.place x = .nowhere) (hr : r.place = p)
    (hp : p ≠ .nowhere)
    (hList : ∀ p' ch, c'.listAt p' ch =
      if p' = p ∧ (p.perChannel → ch = g.channel cfg x) then (c.listAt p' ch).add x
      else c.listAt p' ch) :
    ∀ p' ch, p' ≠ .nowhere → (c'.listAt p' ch).Holds fun y =>
      (g.become x r).place y = p' ∧ (p'.perChannel → (g.become x r).channel cfg y = ch) := by
  intro p' ch hp'
  have hRest : ∀ y ≠ x, ((g.become x r).place y = p' ∧
      (p'.perChannel → (g.become x r).channel cfg y = ch) ↔
      g.place y = p' ∧ (p'.perChannel → g.channel cfg y = ch)) := by
    intro y hy
    rw [g.place_become_of_ne r hy]
    rfl
  rw [hList]
  split
  · rename_i hHere
    obtain ⟨rfl, hCh⟩ := hHere
    refine (h.holds p' ch hp').gain hRest (by simp [hx, hp.symm]) ?_
    exact ⟨by simp [hr], fun hPer => (hCh hPer).symm⟩
  · rename_i hElse
    refine (h.holds p' ch hp').keep hRest ?_
    simp only [Ghost.place_become_self, hr, hx, hp'.symm, false_and, iff_false]
    rintro ⟨rfl, hCh⟩
    exact hElse ⟨rfl, fun hPer => (hCh hPer).symm⟩

/-- A slab leaves its list. -/
theorem leave_holds {p : Place} (h : Lists cfg c g) (hx : g.place x = p) (hr : r.place = .nowhere)
    (hp : p ≠ .nowhere)
    (hList : ∀ p' ch, c'.listAt p' ch =
      if p' = p ∧ (p.perChannel → ch = g.channel cfg x) then (c.listAt p' ch).del x
      else c.listAt p' ch) :
    ∀ p' ch, p' ≠ .nowhere → (c'.listAt p' ch).Holds fun y =>
      (g.become x r).place y = p' ∧ (p'.perChannel → (g.become x r).channel cfg y = ch) := by
  intro p' ch hp'
  have hRest : ∀ y ≠ x, ((g.become x r).place y = p' ∧
      (p'.perChannel → (g.become x r).channel cfg y = ch) ↔
      g.place y = p' ∧ (p'.perChannel → g.channel cfg y = ch)) := by
    intro y hy
    rw [g.place_become_of_ne r hy]
    rfl
  rw [hList]
  split
  · rename_i hHere
    obtain ⟨rfl, hCh⟩ := hHere
    refine (h.holds p' ch hp').lose hRest ⟨hx, fun hPer => (hCh hPer).symm⟩ ?_
    simp [hr, hp'.symm]
  · rename_i hElse
    refine (h.holds p' ch hp').keep hRest ?_
    simp only [Ghost.place_become_self, hr, hp'.symm, false_and, false_iff, hx]
    rintro ⟨rfl, hCh⟩
    exact hElse ⟨rfl, fun hPer => (hCh hPer).symm⟩

/-! One lemma for each way a list changes. -/

theorem enter_mslabFree (h : Lists cfg c g) (hx : g.place x = .nowhere) (hr : r.place = .mslabFree) :
    Lists cfg { c with mslabFree := c.mslabFree.add x } (g.become x r) where
  holds := h.enter_holds hx hr (by simp) fun p ch => by
    cases p <;> simp [Cache.listAt, Place.perChannel]
  nrFreeDslab := h.nrFreeDslab
  opsPoolSize := h.opsPoolSize
  nrFullDslab := h.nrFullDslab

theorem leave_mslabFree (h : Lists cfg c g) (hx : g.place x = .mslabFree) (hr : r.place = .nowhere) :
    Lists cfg { c with mslabFree := c.mslabFree.del x } (g.become x r) where
  holds := h.leave_holds hx hr (by simp) fun p ch => by
    cases p <;> simp [Cache.listAt, Place.perChannel]
  nrFreeDslab := h.nrFreeDslab
  opsPoolSize := h.opsPoolSize
  nrFullDslab := h.nrFullDslab

theorem enter_mslabFull (h : Lists cfg c g) (hx : g.place x = .nowhere) (hr : r.place = .mslabFull) :
    Lists cfg { c with mslabFull := c.mslabFull.add x } (g.become x r) where
  holds := h.enter_holds hx hr (by simp) fun p ch => by
    cases p <;> simp [Cache.listAt, Place.perChannel]
  nrFreeDslab := h.nrFreeDslab
  opsPoolSize := h.opsPoolSize
  nrFullDslab := h.nrFullDslab

theorem leave_mslabFull (h : Lists cfg c g) (hx : g.place x = .mslabFull) (hr : r.place = .nowhere) :
    Lists cfg { c with mslabFull := c.mslabFull.del x } (g.become x r) where
  holds := h.leave_holds hx hr (by simp) fun p ch => by
    cases p <;> simp [Cache.listAt, Place.perChannel]
  nrFreeDslab := h.nrFreeDslab
  opsPoolSize := h.opsPoolSize
  nrFullDslab := h.nrFullDslab

theorem enter_slabPartial {cid : Nat} (h : Lists cfg c g) (hx : g.place x = .nowhere)
    (hr : r.place = .slabPartial cid) :
    Lists cfg { c with slabPartial := c.slabPartial.modify cid (x :: ·) } (g.become x r) where
  holds := h.enter_holds hx hr (by simp) fun p ch => by
    cases p with
    | slabPartial k =>
        by_cases hk : k = cid
        · subst k
          simp [Cache.listAt, Place.perChannel, SlabList.add]
        · simp [Cache.listAt, Table.get_modify_of_ne _ _ hk, hk]
    | _ => simp [Cache.listAt]
  nrFreeDslab := h.nrFreeDslab
  opsPoolSize := h.opsPoolSize
  nrFullDslab := h.nrFullDslab

theorem leave_slabPartial {cid : Nat} (h : Lists cfg c g) (hx : g.place x = .slabPartial cid)
    (hr : r.place = .nowhere) :
    Lists cfg { c with slabPartial := c.slabPartial.modify cid (·.erase x) } (g.become x r) where
  holds := h.leave_holds hx hr (by simp) fun p ch => by
    cases p with
    | slabPartial k =>
        by_cases hk : k = cid
        · subst k
          have hMem := h.mem_slabPartial.mpr hx
          have hPos := List.length_pos_of_mem hMem
          simp only [Cache.listAt, Place.perChannel, SlabList.del, Table.get_modify_self,
            List.length_erase_of_mem hMem]
          simp
          omega
        · simp [Cache.listAt, Table.get_modify_of_ne _ _ hk, hk]
    | _ => simp [Cache.listAt]
  nrFreeDslab := h.nrFreeDslab
  opsPoolSize := h.opsPoolSize
  nrFullDslab := h.nrFullDslab

section

variable {t : Table SlabList} {n d : Int}

/-- Linking a slab into one list of a table adds one to the total length. -/
theorem length_add (t : Table SlabList) (ch x : Nat) :
    ((t.modify ch (·.add x)).flatMap SlabList.list).length =
      (t.flatMap SlabList.list).length + 1 := by
  have h := t.length_flatMap_set SlabList.list rfl ch ((t ch).add x)
  simp only [SlabList.add, List.length_cons] at h
  simp only [Table.modify, SlabList.add]
  omega

/-- Unlinking one takes one away, whatever happens to the recorded size. -/
theorem length_erase {ch x : Nat} {f : SlabList → SlabList} (hMem : x ∈ (t ch).list)
    (hf : ∀ l, (f l).list = l.list.erase x) :
    ((t.modify ch f).flatMap SlabList.list).length + 1 = (t.flatMap SlabList.list).length := by
  have h := t.length_flatMap_set SlabList.list rfl ch (f (t ch))
  have hPos := List.length_pos_of_mem hMem
  rw [hf, List.length_erase_of_mem hMem] at h
  simp only [Table.modify]
  omega

theorem length_del {ch x : Nat} (hMem : x ∈ (t ch).list) :
    ((t.modify ch (·.del x)).flatMap SlabList.list).length + 1 =
      (t.flatMap SlabList.list).length :=
  length_erase hMem fun _ => rfl

end

theorem enter_dslabFree (h : Lists cfg c g) (hx : g.place x = .nowhere)
    (hr : r.place = .dslabFree) :
    Lists cfg { c with
      dslabFree := c.dslabFree.modify (g.channel cfg x) (·.add x)
      nrFreeDslab := c.nrFreeDslab + 1 } (g.become x r) where
  holds := h.enter_holds hx hr (by simp) fun p ch => by
    cases p <;> simp [Cache.listAt, Place.perChannel, Table.get_modify]
    split <;> simp_all
  nrFreeDslab := by simp [length_add, h.nrFreeDslab]
  opsPoolSize := h.opsPoolSize
  nrFullDslab := h.nrFullDslab

theorem leave_dslabFree (h : Lists cfg c g) (hx : g.place x = .dslabFree)
    (hr : r.place = .nowhere) :
    Lists cfg { c with
      dslabFree := c.dslabFree.modify (g.channel cfg x) (·.del x)
      nrFreeDslab := c.nrFreeDslab - 1 } (g.become x r) where
  holds := h.leave_holds hx hr (by simp) fun p ch => by
    cases p <;> simp [Cache.listAt, Place.perChannel, Table.get_modify]
    split <;> simp_all
  nrFreeDslab := by
    have := length_del (h.mem_dslabFree.mpr ⟨hx, rfl⟩)
    simp only [h.nrFreeDslab]
    omega
  opsPoolSize := h.opsPoolSize
  nrFullDslab := h.nrFullDslab

theorem enter_opsPool (h : Lists cfg c g) (hx : g.place x = .nowhere) (hr : r.place = .opsPool) :
    Lists cfg { c with
      opsPool := c.opsPool.modify (g.channel cfg x) (·.add x)
      opsPoolSize := c.opsPoolSize + 1 } (g.become x r) where
  holds := h.enter_holds hx hr (by simp) fun p ch => by
    cases p <;> simp [Cache.listAt, Place.perChannel, Table.get_modify]
    split <;> simp_all
  nrFreeDslab := h.nrFreeDslab
  opsPoolSize := by simp [length_add, h.opsPoolSize]
  nrFullDslab := h.nrFullDslab

theorem leave_opsPool (h : Lists cfg c g) (hx : g.place x = .opsPool) (hr : r.place = .nowhere) :
    Lists cfg { c with
      opsPool := c.opsPool.modify (g.channel cfg x) (·.del x)
      opsPoolSize := c.opsPoolSize - 1 } (g.become x r) where
  holds := h.leave_holds hx hr (by simp) fun p ch => by
    cases p <;> simp [Cache.listAt, Place.perChannel, Table.get_modify]
    split <;> simp_all
  nrFreeDslab := h.nrFreeDslab
  opsPoolSize := by
    have := length_del (h.mem_opsPool.mpr ⟨hx, rfl⟩)
    simp only [h.opsPoolSize]
    omega
  nrFullDslab := h.nrFullDslab

/-- The counter of full disk slabs may or may not follow; the drift tells. -/
theorem enter_dslabFull (h : Lists cfg c g) (hx : g.place x = .nowhere)
    (hr : r.place = .dslabFull) {n : Int} {d : Nat} (hn : n + d = c.nrFullDslab + g.drift + 1) :
    Lists cfg { c with
      dslabFull := c.dslabFull.modify (g.channel cfg x) (·.add x)
      nrFullDslab := n } { g.become x r with drift := d } where
  holds := h.enter_holds hx hr (by simp) fun p ch => by
    cases p <;> simp [Cache.listAt, Place.perChannel, Table.get_modify]
    split <;> simp_all
  nrFreeDslab := h.nrFreeDslab
  opsPoolSize := h.opsPoolSize
  nrFullDslab := by
    have := h.nrFullDslab
    simp only [length_add]
    omega

theorem leave_dslabFull (h : Lists cfg c g) (hx : g.place x = .dslabFull)
    (hr : r.place = .nowhere) :
    Lists cfg { c with
      dslabFull := c.dslabFull.modify (g.channel cfg x) (·.del x)
      nrFullDslab := c.nrFullDslab - 1 } (g.become x r) where
  holds := h.leave_holds hx hr (by simp) fun p ch => by
    cases p <;> simp [Cache.listAt, Place.perChannel, Table.get_modify]
    split <;> simp_all
  nrFreeDslab := h.nrFreeDslab
  opsPoolSize := h.opsPoolSize
  nrFullDslab := by
    have := length_del (h.mem_dslabFull.mpr ⟨hx, rfl⟩)
    have := h.nrFullDslab
    simp only [Ghost.become_drift]
    omega

end Lists

end KVCache
