import KVCache.Data.Monitors
import KVCache.Semantics.Locking

/-! The operations with their condition variables, when the flush and the
collector have threads of their own. A thread that waits sleeps, and goes on only
after another thread has notified it. The routines that do not notify anybody are
those with the mutexes alone. -/

namespace KVCache

inductive Signal where
  | flush
  | flushFinished
  | gc
  | gcFinished
  deriving DecidableEq, Repr

/-- The condition variable of the waits with a mutex. -/
def Mutex.signal : Mutex → Signal
  | .mslabFull => .flush
  | .mslabFree => .flushFinished
  | .dslabFull => .gc
  | .dslabFree | .index | .writer => .gcFinished

abbrev Job (α : Type) := Monitors.Prog Mutex Signal Shared Site Stop α

namespace Job

variable {α : Type}

/-- A routine in which nobody is notified. -/
def ofRoutine (routine : Routine α) : Job α := .lift Mutex.signal routine

def lock (l : Mutex) (body : Job α) : Job α := .withLock l .exclusive body

def notifyOne (v : Signal) : Job Unit := .notify v false (.ret ())

def notifyAll (v : Signal) : Job Unit := .notify v true (.ret ())

end Job

namespace Signals

open Job

variable (u : Setup)

def doSlabGc : Job Bool := do
  if ← ofRoutine u.doSlabGc then
    notifyAll .gcFinished
    return true
  else return false

def doSlabFlush : Job Bool := do
  if ← ofRoutine u.doSlabFlush then
    notifyOne .flushFinished
    notifyOne .gc
    return true
  else return false

def slabFlush : Job Unit := notifyOne .flush

def slotAlloc (size : Nat) : Nat → Job (Except Status (Nat × Nat))
  | 0 => ofRoutine .stuck
  | fuel + 1 =>
      match getSlabClass u.cfg size with
      | none => return .error .objectTooLarge
      | some cid => do
          match ← ofRoutine (.onCache (u.slotOfPartial cid)) with
          | some slot => return .ok slot
          | none =>
              match ← ofRoutine (.lock .mslabFree (.onCache fun c => .ok (Setup.takeFreeMslab c))) with
              | some sid =>
                  ofRoutine (.update (u.openTaken cid sid))
                  slotAlloc size fuel
              | none =>
                  slabFlush
                  if ← ofRoutine u.waitSlabFlushUntilShutdown then slotAlloc size fuel
                  else return .error .shutdown

/-- The loop in which `Put` waits for an unused index entry. -/
def awaitEntry (key : Key) (sid slotId : Nat) : Nat → Job Unit
  | 0 => ofRoutine .stuck
  | fuel + 1 => do
      slabFlush
      ofRoutine u.slabGc
      ofRoutine (.waitFor .index fun s => 0 < s.cache.index.nrFreeIndexEntry)
      let found ← ofRoutine (.onCache fun c =>
        match c.insertEntry u.cfg key sid slotId with
        | some c => .ok (true, c)
        | none => .ok (false, c))
      if found then return () else awaitEntry key sid slotId fuel

def putIndex (key : Key) (sid slotId : Nat) : Job Unit := do
  let found ← .act (.entry key) (u.indexAction key sid slotId) .ret
  if found then return () else awaitEntry u key sid slotId u.fuel

/-- The last part of `Put`: the flush is notified under the lock of the full
list. -/
def putFull (sid : Nat) : Job Unit := do
  if ← ofRoutine (.see fun s => (s.cache.slabs sid).isFull) then
    lock .mslabFull do
      ofRoutine (.update fun c => { c with mslabFull := c.mslabFull.add sid })
      slabFlush
  else return ()

def put (key : Key) (value : Value) : Job Status :=
  lock .writer do
    match ← slotAlloc u (slotSize key value) u.fuel with
    | .error status => return status
    | .ok (sid, slotId) =>
        ofRoutine (.update (·.writeSlot sid slotId key value))
        lock .index (putIndex u key sid slotId)
        putFull sid
        return .ok

def perform : Call → Job Unit
  | .put key value => do
      let _ ← put u key value
      return ()
  | .get key => do
      let _ ← ofRoutine (u.get key)
      return ()
  | .delete key => ofRoutine (u.delete key)

/-- A client that makes one call after the other. -/
def client : List Call → Job Unit
  | [] => return ()
  | call :: rest => do
      perform u call
      client rest

/-- The loop of a background thread. -/
def worker (body : Job Bool) : Nat → Job Unit
  | 0 => ofRoutine .stuck
  | fuel + 1 => do
      if ← body then worker body fuel else return ()

/-- The destructor, up to the joins. -/
def close : Job Unit := do
  ofRoutine Setup.close
  notifyAll .gc
  notifyAll .flush
  notifyAll .gcFinished
  notifyAll .flushFinished

/-- The threads of a cache in use. -/
def threads (clients : List (List Call)) : List (Job Unit) :=
  clients.map (client u) ++
    [worker (doSlabFlush u) u.fuel, worker (doSlabGc u) u.fuel]

/-- Threads at their start, on a cache. -/
def pool (jobs : List (Job Unit)) (c : Cache) : Monitors.Pool Mutex Signal Shared Site Stop :=
  ⟨⟨c, false⟩, jobs.map fun job => ⟨fun _ => none, .running, job⟩⟩

end Signals

end KVCache
