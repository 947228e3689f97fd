import KVCache.Semantics.State

/-! `Put` and `Delete`. A `Put` first takes a slot and writes it, then makes the
index point to it, and at last hands a slab that became full to the flush.
Each of the three parts is a step of its own for the other threads. -/

namespace KVCache

/-- `std::lower_bound` on `count` positions from `first` on: halve the range
until it is empty. Every round halves it, so `count` rounds suffice. -/
def lowerBound (less : Nat → Bool) : Nat → Nat → Nat → Nat
  | 0, first, _ => first
  | rounds + 1, first, count =>
      if count = 0 then first
      else
        let half := count / 2
        if less (first + half) then lowerBound less rounds (first + half + 1) (count - half - 1)
        else lowerBound less rounds first half

/-- The class for objects of a size; `none` when the object is too large. -/
def getSlabClass (cfg : Config) (size : Nat) : Option Nat :=
  let it := lowerBound (fun cid => cfg.classSize cid < size) cfg.nrSlabClass 0 cfg.nrSlabClass
  if it < cfg.nrSlabClass ∧ size ≤ cfg.classSize it then some it else none

/-- `MaxKVSize`: what is left of a slot of the last class. -/
def Config.maxKvSize (cfg : Config) : Nat := cfg.classSize (cfg.nrSlabClass - 1) - Slot.headerSize

/-- `slot_size` of a key and a value. -/
def slotSize (key : Key) (value : Value) : Nat := Slot.headerSize + key.length + value.length

inductive SlotAlloc where
  | tooLarge
  /-- no slab is left; the caller waits for a flush and retries -/
  | wait
  | slot (c : Cache) (sid slotId : Nat)
  deriving DecidableEq, Repr

/-- A `Put` that has written its slot and has not updated the index yet. -/
structure PendingPut where
  key : Key
  value : Value
  sid : Nat
  slotId : Nat
  deriving DecidableEq, Repr

namespace Cache

/-- Take the next slot of a slab that is on the partial list of its class. -/
def allocPartial (build : Build) (c : Cache) (cid sid : Nat) : Except Stop (Cache × Nat) := do
  let slab := c.slabs sid
  assertThat build .slotAllocPartialCid (-1 ≤ slab.cid)
  assertThat build .slotAllocPartialFull (!slab.isFull)
  let (slab, slotId) ← slab.slotAlloc build
  let c := { c with slabs := c.slabs.set sid slab }
  if slab.isFull then
    return ({ c with slabPartial := c.slabPartial.modify cid (·.erase sid) }, slotId)
  else return (c, slotId)

/-- Make a free memory slab the partial slab of a class. -/
def openSlab (cfg : Config) (c : Cache) (cid sid : Nat) : Cache :=
  { c with
    mslabFree := c.mslabFree.del sid
    slabs := c.slabs.modify sid fun s =>
      { s with cid := cid, slotSize := cfg.classSize cid, nrSlots := cfg.slabSlots (cfg.classSize cid) }
    slabPartial := c.slabPartial.modify cid (sid :: ·) }

/-- `slot_alloc`. The retry after a slab was opened finds that slab. -/
def slotAlloc (build : Build) (cfg : Config) (c : Cache) (size : Nat) : Except Stop SlotAlloc :=
  match getSlabClass cfg size with
  | none => .ok .tooLarge
  | some cid =>
      match c.slabPartial cid, c.mslabFree.list with
      | sid :: _, _ => do
          let (c, slotId) ← c.allocPartial build cid sid
          return .slot c sid slotId
      | [], sid :: _ => do
          let (c, slotId) ← (c.openSlab cfg cid sid).allocPartial build cid sid
          return .slot c sid slotId
      | [], [] => .ok .wait

def writeSlot (c : Cache) (sid slotId : Nat) (key : Key) (value : Value) : Cache :=
  { c with slabs := c.slabs.modify sid (·.writeSlot slotId key value) }

/-- First part of `Put`: a slot for the object, with the object in it. -/
def putSlot (build : Build) (cfg : Config) (c : Cache) (key : Key) (value : Value) :
    Except Stop SlotAlloc := do
  match ← c.slotAlloc build cfg (slotSize key value) with
  | .slot c sid slotId => return .slot (c.writeSlot sid slotId key value) sid slotId
  | other => return other

/-- Let an existing entry point to the new slot. -/
def overwriteEntry (build : Build) (c : Cache) (e sid slotId : Nat) : Except Stop Cache := do
  let old := (c.index.entries e).slabId
  let oldNrUsed := (c.slabs old).nrUsed
  let c := { c with slabs := c.slabs.modify old fun s => { s with nrUsed := s.nrUsed - 1 } }
  assertThat build .putOldNrUsed (0 < oldNrUsed)
  return { c with index := c.index.repoint e (c.slabs sid).sid slotId }

/-- Take an unused entry for the key, if there is one. -/
def insertEntry (cfg : Config) (c : Cache) (key : Key) (sid slotId : Nat) : Option Cache :=
  match c.index.indexEntryAlloc with
  | none => none
  | some (e, ix) =>
      let entry : IndexEntry := ⟨cfg.makeDigest key, (c.slabs sid).sid, slotId⟩
      some { c with index := { ix with entries := ix.entries.set e entry }.putIndexEntry cfg key e }

/-- Second part of `Put`: the index update. `none` when the key has no entry
and no entry is left; `Put` then waits with the index lock released. -/
def putIndex (build : Build) (cfg : Config) (c : Cache) (key : Key) (sid slotId : Nat) :
    Except Stop (Option Cache) :=
  match c.index.getIndexEntry cfg key with
  | some e => do return some (← c.overwriteEntry build e sid slotId)
  | none => .ok (c.insertEntry cfg key sid slotId)

/-- Last part of `Put`: a full slab becomes visible to the flush. -/
def putFull (c : Cache) (sid : Nat) : Cache :=
  if (c.slabs sid).isFull then { c with mslabFull := c.mslabFull.add sid } else c

/-- `Delete`. The use count is decremented inside of an assertion, hence only
in a debug build. -/
def delete (build : Build) (cfg : Config) (c : Cache) (key : Key) : Except Stop Cache :=
  match c.index.getIndexEntry cfg key with
  | none => .ok c
  | some e =>
      let c := { c with index := (c.index.unlink cfg key e).indexEntryFree e }
      let sid := (c.index.entries e).slabId
      match build with
      | .release => .ok c
      | .debug => do
          assertThat build .deleteNrUsed (0 < (c.slabs sid).nrUsed)
          return { c with slabs := c.slabs.modify sid fun s => { s with nrUsed := s.nrUsed - 1 } }

end Cache

end KVCache
