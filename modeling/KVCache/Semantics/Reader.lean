import KVCache.Semantics.Threads

/-! `Get` in its two parts. The lookup under the index lock ends with a view of
the bytes of the value. For a disk slab they are in a buffer of the caller, for
a memory slab in the slab itself, and they are copied after the lock has been
released. What matters in between are the bytes that other threads write. -/

namespace KVCache

/-- The view that `get_slice` returns. -/
inductive Slice where
  | memory (sid offset length : Nat)
  | buffer (bytes : Value)
  deriving DecidableEq, Repr

/-- The copy of the bytes under a view. -/
def Slice.read (c : Cache) : Slice → Value
  | .memory sid offset length => (c.slabs sid).data.getRange offset length
  | .buffer bytes => bytes

namespace Cache

/-- `get_slice`, up to the release of the index lock. -/
def lookupSlice (build : Build) (cfg : Config) (c : Cache) (key : Key) :
    Except Stop (Status × Option Slice) :=
  match c.index.getIndexEntry cfg key with
  | none => .ok (.notFound, none)
  | some e => do
      let entry := c.index.entries e
      let slab := c.slabs entry.slabId
      if slab.imMemory then
        assertThat build .getSliceSlotId (entry.slotId < slab.nrAlloc)
        if key ≠ slab.slotKey entry.slotId then return (.notFound, none)
        let slot := slab.slotOffset entry.slotId
        return (.ok, some (.memory entry.slabId (Slot.valueOffset slab.data slot)
          (Slot.valueLen slab.data slot)))
      else
        let dslab := c.readDslab entry.slabId
        if key ≠ dslab.slotKey entry.slotId then return (.notFound, none)
        return (.ok, some (.buffer (dslab.slotValue entry.slotId)))

/-- The rest of `Get`. -/
def copySlice (c : Cache) (result : Status × Option Slice) : Status × Option Value :=
  (result.1, result.2.map (Slice.read c))

/-- A `Get` during which no other thread runs. -/
theorem get_eq_copySlice (build : Build) (cfg : Config) (c : Cache) (key : Key) :
    c.get build cfg key = (c.lookupSlice build cfg key).map c.copySlice := by
  simp only [get, getSlice, lookupSlice, slotAt, source]
  cases c.index.getIndexEntry cfg key with
  | none => rfl
  | some e =>
      by_cases hMemory : (c.slabs (c.index.entries e).slabId).imMemory = true
      · simp only [if_pos hMemory]
        cases assertThat build .getSliceSlotId _ with
        | error stop => rfl
        | ok _ =>
            by_cases hKey : key =
              (c.slabs (c.index.entries e).slabId).slotKey (c.index.entries e).slotId <;>
              simp [hKey, Slab.slot, bind, Except.bind, pure, Except.pure, Except.map, copySlice,
                Slice.read, Slab.slotValue, Slot.value]
      · simp only [if_neg hMemory]
        by_cases hKey : key =
          (c.readDslab (c.index.entries e).slabId).slotKey (c.index.entries e).slotId <;>
          simp [hKey, Slab.slot, pure, Except.pure, Except.map, copySlice, Slice.read]

end Cache

/-! ### What a step writes -/

/-- Bytes of the data area of a slab. -/
structure Region where
  sid : Nat
  offset : Nat
  length : Nat
  deriving DecidableEq, Repr

/-- A write to the region leaves the bytes under the view alone. -/
def Region.Misses (r : Region) : Slice → Prop
  | .memory sid offset length =>
      r.sid ≠ sid ∨ r.offset + r.length ≤ offset ∨ offset + length ≤ r.offset
  | .buffer _ => True

instance (r : Region) : (slice : Slice) → Decidable (r.Misses slice)
  | .memory _ _ _ => inferInstanceAs (Decidable (_ ∨ _))
  | .buffer _ => isTrue trivial

namespace Cache

/-- Where `Put` writes its slot. -/
def putWrites (build : Build) (cfg : Config) (c : Cache) (key : Key) (value : Value) :
    List Region :=
  match c.slotAlloc build cfg (slotSize key value) with
  | .ok (.slot c sid slotId) => [⟨sid, (c.slabs sid).slotOffset slotId, slotSize key value⟩]
  | _ => []

/-- Where `gc_dslabs` writes one slot of a dropped slab. -/
def slotWrites (cfg : Config) (d : Nat) (fake : Slab) (c : Cache) (slotId : Nat) : List Region :=
  match c.index.getIndexEntry cfg (fake.slotKey slotId) with
  | none => []
  | some e =>
      let entry := c.index.entries e
      let buffer := c.slabs cfg.gcBuffer
      if entry.slabId = (c.slabs d).sid ∧ entry.slotId = slotId then
        [⟨cfg.gcBuffer, buffer.slotOffset buffer.nrAlloc,
          slotSize (fake.slotKey slotId) (fake.slotValue slotId)⟩]
      else []

/-- Where it writes the slots of a dropped slab. -/
def moveWrites (build : Build) (cfg : Config) (d : Nat) (fake : Slab) :
    List Nat → Cache → List Region
  | [], _ => []
  | slotId :: rest, c =>
      slotWrites cfg d fake c slotId ++
        match moveSlot build cfg d fake c slotId with
        | .ok c => moveWrites build cfg d fake rest c
        | .error _ => []

end Cache

/-- The bytes of slabs that a step writes. -/
def Threads.writes (build : Build) (cfg : Config) (t : Threads) : Act → List Region
  | .put key value =>
      match t.writer with
      | .idle => t.cache.putWrites build cfg key value
      | _ => []
  | .gc _ _ =>
      match t.gc with
      | .move _ _ _ _ d fake _ => t.cache.moveWrites build cfg d fake (List.range fake.nrAlloc)
      | _ => []
  | _ => []

/-- A step writes no byte under a view. -/
def Threads.Spares (build : Build) (cfg : Config) (slice : Slice) (t : Threads) (act : Act) : Prop :=
  ∀ r ∈ t.writes build cfg act, r.Misses slice

instance (build : Build) (cfg : Config) (slice : Slice) (t : Threads) (act : Act) :
    Decidable (t.Spares build cfg slice act) :=
  inferInstanceAs (Decidable (∀ r ∈ t.writes build cfg act, r.Misses slice))

end KVCache
