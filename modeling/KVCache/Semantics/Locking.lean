import KVCache.Data.Locks
import KVCache.Semantics.Reader

/-! The operations with the mutexes they take. A critical section is one action
on the cache. When a background option is off, the flush or the collector runs
in the calling thread, at the place of the call and with the locks held there;
when it is on, a thread of its own runs it again and again. Loops that wait for
other threads are bounded from outside. -/

namespace KVCache

inductive Mutex where
  | writer
  | index
  | mslabFree
  | mslabFull
  | dslabFree
  | dslabFull
  deriving DecidableEq, Repr

/-- What the threads share. -/
structure Shared where
  cache : Cache
  shutdown : Bool

/-- The actions that matter for the locks. -/
inductive Site where
  | other
  /-- `Put` looks for an index entry of the key, or for an unused one -/
  | entry (key : Key)

instance : Inhabited Site := ⟨.other⟩

/-- What the code of the operations depends on. -/
structure Setup where
  build : Build
  cfg : Config
  enableBackgroundFlush : Bool
  enableBackgroundGc : Bool
  /-- what the heap of `normal_gc` keeps after the scan of a channel -/
  heap : Cache → Nat → List Nat → List Nat
  fuel : Nat

abbrev Routine (α : Type) := Locks.Prog Mutex Shared Site Stop α

namespace Routine

variable {α : Type}

/-- An action on the cache. -/
def onCache (f : Cache → Except Stop (α × Cache)) : Routine α :=
  .call fun s => do
    let (a, c) ← f s.cache
    return (a, { s with cache := c })

def update (f : Cache → Cache) : Routine Unit := onCache fun c => .ok ((), f c)

def see (f : Shared → α) : Routine α := .call fun s => .ok (f s, s)

/-- A loop that does not end within its bound. -/
def stuck : Routine α := .call fun _ => .error .outOfFuel

def lock (l : Mutex) (body : Routine α) : Routine α := .withLock l .exclusive body

/-- A body that needs a lock or none. -/
def guarded : Option Mutex → Routine α → Routine α
  | some l, body => lock l body
  | none, body => body

def lockShared (l : Mutex) (body : Routine α) : Routine α := .withLock l .shared body

end Routine

/-- The mutex under which the collector makes its next step. -/
def GcAt.mutex (cfg : Config) : GcAt → Option Mutex
  | .idle | .quickSelect _ _ | .relink _ _ _ _ => some .dslabFull
  | .scan channel _ => if channel < cfg.nrChannels then some .dslabFull else none
  | .awake | .quickTune | .quickFree _ | .tune _ | .reclaim _ => some .dslabFree
  | .quickEvict _ _ (_ :: _) | .move _ _ _ _ _ _ _ | .modify _ _ _ => some .index
  | _ => none

namespace Setup

open Routine

variable (u : Setup)

/-! ### The collector -/

/-- A step of the collector without its lock. -/
def gcAction (a : GcAt) (c : Cache) : Except Stop (GcAt × Cache) := do
  let pick := match a with
    | .scan channel pq => u.heap c channel pq
    | _ => []
  let (c, a) ← Threads.stepGc u.build u.cfg pick u.fuel c a
  return (a, c)

/-- The collector from a place in its round to the end of the round. -/
def gcRound : Nat → GcAt → Routine Bool
  | 0, _ => stuck
  | fuel + 1, a => do
      let next ← guarded (a.mutex u.cfg) (onCache (u.gcAction a))
      if next = .idle then return true else gcRound fuel next

def doSlabGc : Routine Bool := do
  let shutdown ← lock .dslabFull do
    .waitFor .dslabFull fun s => 0 < s.cache.nrFullDslab || s.shutdown
    see Shared.shutdown
  if shutdown then return false else u.gcRound u.fuel .awake

def slabGc : Routine Unit := do
  if u.enableBackgroundGc then return ()
  else
    let _ ← u.doSlabGc
    return ()

def waitSlabGcUntilShutdown : Routine Bool :=
  if u.enableBackgroundGc then
    lock .dslabFree do
      .waitFor .dslabFree fun s => 0 < s.cache.nrFreeDslab || s.shutdown
      see fun s => !s.shutdown
  else return true

/-! ### The flush -/

/-- The loop that looks for a free disk slab. -/
def findDslab : Nat → Routine (Option (Nat × Nat))
  | 0 => stuck
  | fuel + 1 => do
      match ← lock .dslabFree (onCache fun c => c.takeFree u.build u.cfg) with
      | some found => return some found
      | none =>
          u.slabGc
          if ← u.waitSlabGcUntilShutdown then findDslab fuel else return none

/-- What follows once a full memory slab and a free disk slab are in hand. -/
def finishSlabFlush (m d channel : Nat) : Routine Unit := do
  update (·.flushMslabToDslab u.cfg m d)
  onCache fun c => do
    assertThat u.build .flushCidEq ((c.slabs d).cid = (c.slabs m).cid)
    assertThat u.build .flushCid ((c.slabs d).cid ≠ -1)
    return ((), c)
  lock .index (update (·.modifyIndexTo u.cfg m d))
  update (·.resetSlab m)
  lock .mslabFree (update (·.linkMslabFree m))
  lock .dslabFull (update (·.linkDslabFull d channel))

def doSlabFlush : Routine Bool := do
  let full ← lock .mslabFull do
    .waitFor .mslabFull fun s => s.cache.mslabFull.list ≠ [] || s.shutdown
    if ← see Shared.shutdown then return none
    else onCache fun c => do
      let (m, c) ← c.takeFull u.build
      return (some m, c)
  match full with
  | none => return false
  | some m =>
      match ← u.findDslab u.fuel with
      | none => return false
      | some (d, channel) =>
          u.finishSlabFlush m d channel
          return true

def slabFlush : Routine Unit := do
  if u.enableBackgroundFlush then return ()
  else
    let _ ← u.doSlabFlush
    return ()

def waitSlabFlushUntilShutdown : Routine Bool :=
  if u.enableBackgroundFlush then
    lock .mslabFree do
      .waitFor .mslabFree fun s => s.cache.mslabFree.list ≠ [] || s.shutdown
      see fun s => !s.shutdown
  else return true

/-! ### Client operations -/

/-- Take a slot of the partial slab of a class, if there is one. -/
def slotOfPartial (cid : Nat) (c : Cache) : Except Stop (Option (Nat × Nat) × Cache) :=
  match c.slabPartial cid with
  | [] => .ok (none, c)
  | sid :: _ => do
      let (c, slotId) ← c.allocPartial u.build cid sid
      return (some (sid, slotId), c)

/-- Unlink the first free memory slab. -/
def takeFreeMslab (c : Cache) : Option Nat × Cache :=
  match c.mslabFree.list with
  | [] => (none, c)
  | sid :: _ => (some sid, { c with mslabFree := c.mslabFree.del sid })

/-- Make an unlinked memory slab the partial slab of a class. -/
def openTaken (cid sid : Nat) (c : Cache) : Cache :=
  { c with
    slabs := c.slabs.modify sid fun s =>
      { s with
        cid := cid, slotSize := u.cfg.classSize cid
        nrSlots := u.cfg.slabSlots (u.cfg.classSize cid) }
    slabPartial := c.slabPartial.modify cid (sid :: ·) }

def slotAlloc (size : Nat) : Nat → Routine (Except Status (Nat × Nat))
  | 0 => stuck
  | fuel + 1 =>
      match getSlabClass u.cfg size with
      | none => return .error .objectTooLarge
      | some cid => do
          match ← onCache (u.slotOfPartial cid) with
          | some slot => return .ok slot
          | none =>
              match ← lock .mslabFree (onCache fun c => .ok (takeFreeMslab c)) with
              | some sid =>
                  update (u.openTaken cid sid)
                  slotAlloc size fuel
              | none =>
                  u.slabFlush
                  if ← u.waitSlabFlushUntilShutdown then slotAlloc size fuel
                  else return .error .shutdown

/-- The loop in which `Put` waits for an unused index entry. -/
def awaitEntry (key : Key) (sid slotId : Nat) : Nat → Routine Unit
  | 0 => stuck
  | fuel + 1 => do
      u.slabFlush
      u.slabGc
      .waitFor .index fun s => 0 < s.cache.index.nrFreeIndexEntry
      let found ← onCache fun c =>
        match c.insertEntry u.cfg key sid slotId with
        | some c => .ok (true, c)
        | none => .ok (false, c)
      if found then return () else awaitEntry key sid slotId fuel

/-- The index update of `Put`; the result says whether an entry was at hand. -/
def indexAction (key : Key) (sid slotId : Nat) (s : Shared) : Except Stop (Bool × Shared) := do
  match ← s.cache.putIndex u.build u.cfg key sid slotId with
  | some c => return (true, { s with cache := c })
  | none => return (false, s)

def putIndex (key : Key) (sid slotId : Nat) : Routine Unit := do
  let found ← .act (.entry key) (u.indexAction key sid slotId) .ret
  if found then return () else u.awaitEntry key sid slotId u.fuel

/-- The last part of `Put`. The flush is called under the lock of the full list,
but only when it runs in the background. -/
def putFull (sid : Nat) : Routine Unit := do
  if ← see fun s => (s.cache.slabs sid).isFull then
    lock .mslabFull do
      update fun c => { c with mslabFull := c.mslabFull.add sid }
      if u.enableBackgroundFlush then u.slabFlush else return ()
  else return ()

def put (key : Key) (value : Value) : Routine Status :=
  lock .writer do
    match ← u.slotAlloc (slotSize key value) u.fuel with
    | .error status => return status
    | .ok (sid, slotId) =>
        update (·.writeSlot sid slotId key value)
        lock .index (u.putIndex key sid slotId)
        u.putFull sid
        return .ok

def get (key : Key) : Routine (Status × Option Value) := do
  let result ← lockShared .index (onCache fun c => do
    return (← c.lookupSlice u.build u.cfg key, c))
  see fun s => s.cache.copySlice result

def delete (key : Key) : Routine Unit :=
  lock .index (onCache fun c => do return ((), ← c.delete u.build u.cfg key))

/-! ### Threads -/

end Setup

/-- A call of a client. -/
inductive Call where
  | put (key : Key) (value : Value)
  | get (key : Key)
  | delete (key : Key)
  deriving DecidableEq, Repr

namespace Setup

open Routine

variable (u : Setup)

def perform : Call → Routine Unit
  | .put key value => do
      let _ ← u.put key value
      return ()
  | .get key => do
      let _ ← u.get key
      return ()
  | .delete key => u.delete key

/-- A client that makes one call after the other. -/
def client : List Call → Routine Unit
  | [] => return ()
  | call :: rest => do
      u.perform call
      client rest

/-- The loop of a background thread. -/
def worker (body : Routine Bool) : Nat → Routine Unit
  | 0 => stuck
  | fuel + 1 => do
      if ← body then worker body fuel else return ()

/-- The destructor. -/
def close : Routine Unit := .call fun s => .ok ((), { s with shutdown := true })

def threads (clients : List (List Call)) : List (Routine Unit) :=
  clients.map u.client ++
    (if u.enableBackgroundFlush then [worker u.doSlabFlush u.fuel] else []) ++
    (if u.enableBackgroundGc then [worker u.doSlabGc u.fuel] else []) ++ [close]

/-- All threads at their start, on a cache. -/
def pool (clients : List (List Call)) (c : Cache) : Locks.Pool Mutex Shared Site Stop :=
  ⟨⟨c, false⟩, (u.threads clients).map fun routine => ⟨fun _ => none, routine⟩⟩

/-- `Put` finds an entry of its key or an unused one, unless both the flush and
the collector have threads of their own. -/
def EntryAtHand : Site → Shared → Prop
  | .other, _ => True
  | .entry key, s =>
      (u.enableBackgroundFlush ∧ u.enableBackgroundGc) ∨
        s.cache.index.getIndexEntry u.cfg key ≠ none ∨ s.cache.index.freeIndexEntry ≠ []

instance : (site : Site) → (s : Shared) → Decidable (u.EntryAtHand site s)
  | .other, _ => isTrue trivial
  | .entry _, _ => inferInstanceAs (Decidable (_ ∨ _))

end Setup

end KVCache
