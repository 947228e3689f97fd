import KVCache.Data.Runs
import KVCache.Semantics.Startup
import KVCache.Semantics.Writer
import KVCache.Semantics.Collector

/-! Sequences of whole operations. Every operation is one step, up to the two
places where the code waits for another thread: a `Put` for an unused index
entry, and a flush for a free disk slab. Such an operation is kept in the
state with what it already holds, other operations follow, and a later step
resumes it. The four settings of the background options only decide which
thread runs a step. -/

namespace KVCache

structure Sys where
  cache : Cache
  put : Option PendingPut
  /-- the full memory slab held by a flush that waits for a disk slab -/
  flush : Option Nat
  deriving DecidableEq, Repr

inductive Op where
  | put (key : Key) (value : Value)
  | putResume
  | delete (key : Key)
  | get (key : Key)
  | flush
  | flushResume
  | gc (fuel : Nat)
  deriving DecidableEq, Repr

/-- What a completed operation did to the mapping of keys. -/
inductive Event where
  | put (key : Key) (value : Value)
  | delete (key : Key)
  deriving DecidableEq, Repr

namespace Sys

/-- No operation is in progress. -/
def idle (c : Cache) : Sys := ⟨c, none, none⟩

def Quiet (s : Sys) : Prop := s.put = none ∧ s.flush = none

/-- `Put` up to its end, or up to its wait for an index entry. -/
def putStart (build : Build) (cfg : Config) (s : Sys) (key : Key) (value : Value) :
    Except Stop (Sys × List Event) := do
  if s.put.isSome then throw .blocked
  match ← s.cache.putSlot build cfg key value with
  | .tooLarge => return (s, [])
  | .wait => throw .blocked
  | .slot c sid slotId =>
      match ← c.putIndex build cfg key sid slotId with
      | some c => return ({ s with cache := c.putFull sid }, [.put key value])
      | none => return ({ s with cache := c, put := some ⟨key, value, sid, slotId⟩ }, [])

/-- A waiting `Put` takes an entry that has become free. -/
def putResume (cfg : Config) (s : Sys) : Except Stop (Sys × List Event) :=
  match s.put with
  | none => .error .blocked
  | some p =>
      match s.cache.insertEntry cfg p.key p.sid p.slotId with
      | none => .error .blocked
      | some c => .ok ({ s with cache := c.putFull p.sid, put := none }, [.put p.key p.value])

/-- The search for a free disk slab, and the rest of the flush if there is one. -/
def flushFrom (build : Build) (cfg : Config) (s : Sys) (m : Nat) : Except Stop Sys := do
  match ← s.cache.takeFree build cfg with
  | (some (d, channel), c) =>
      return { s with cache := ← c.finishFlush build cfg m d channel, flush := none }
  | (none, c) => return { s with cache := c, flush := some m }

def flushStart (build : Build) (cfg : Config) (s : Sys) : Except Stop Sys := do
  if s.flush.isSome then throw .blocked
  let (m, c) ← s.cache.takeFull build
  { s with cache := c }.flushFrom build cfg m

def flushResume (build : Build) (cfg : Config) (s : Sys) : Except Stop Sys :=
  match s.flush with
  | none => .error .blocked
  | some m => s.flushFrom build cfg m

def step (build : Build) (cfg : Config) (s : Sys) : Op → Except Stop (Sys × List Event)
  | .put key value => s.putStart build cfg key value
  | .putResume => s.putResume cfg
  | .delete key => do
      return ({ s with cache := ← s.cache.delete build cfg key }, [.delete key])
  | .get key => do
      let _ ← s.cache.get build cfg key
      return (s, [])
  | .flush => do return (← s.flushStart build cfg, [])
  | .flushResume => do return (← s.flushResume build cfg, [])
  | .gc fuel => do return ({ s with cache := ← s.cache.doSlabGc build cfg fuel }, [])

/-- Run a sequence of operations, with the completed writes, latest first. -/
def run (build : Build) (cfg : Config) (s : Sys) (ops : List Op) : Except Stop (Sys × List Event) :=
  Runs.run (step build cfg) s ops

/-- Construction, followed by a sequence of operations. -/
def start (build : Build) (cfg : Config) (ops : List Op) : Except Stop (Sys × List Event) := do
  run build cfg (idle (← Cache.create build cfg)) ops

/-- States that a sequence of operations reaches from construction. -/
def Reachable (build : Build) (cfg : Config) (s : Sys) : Prop :=
  ∃ ops events, start build cfg ops = .ok (s, events)

/-- Every operation of a run meets a condition on the state it starts in. -/
def Along (build : Build) (cfg : Config) (Q : Sys → Op → Prop) (s : Sys) (ops : List Op) : Prop :=
  Runs.Along (step build cfg) Q s ops

/-- The same for a run from construction. -/
def StartAlong (build : Build) (cfg : Config) (Q : Sys → Op → Prop) (ops : List Op) : Prop :=
  match Cache.create build cfg with
  | .ok c => Along build cfg Q (idle c) ops
  | .error _ => True

/-- A condition on the rounds of the collector, with the state before the round. -/
def OnGc (P : Nat → Cache → Prop) (s : Sys) : Op → Prop
  | .gc fuel => P fuel s.cache
  | _ => True

variable {build : Build} {cfg : Config} {Q : Sys → Op → Prop}

instance OnGc.decidable {P : Nat → Cache → Prop} [∀ fuel c, Decidable (P fuel c)] (s : Sys) :
    (op : Op) → Decidable (OnGc P s op)
  | .gc fuel => inferInstanceAs (Decidable (P fuel s.cache))
  | .put _ _ | .putResume | .delete _ | .get _ | .flush | .flushResume => isTrue trivial

instance Along.decidable [∀ s op, Decidable (Q s op)] (s : Sys) (ops : List Op) :
    Decidable (Along build cfg Q s ops) :=
  inferInstanceAs (Decidable (Runs.Along (step build cfg) Q s ops))

instance StartAlong.decidable [∀ s op, Decidable (Q s op)] (ops : List Op) :
    Decidable (StartAlong build cfg Q ops) :=
  match h : Cache.create build cfg with
  | .ok c => decidable_of_iff (Along build cfg Q (idle c) ops) (by rw [StartAlong, h])
  | .error _ => isTrue (by rw [StartAlong, h]; trivial)

theorem startAlong_true (ops : List Op) : StartAlong build cfg (fun _ _ => True) ops := by
  unfold StartAlong
  split
  · exact Runs.along_true _ ops
  · trivial

end Sys

end KVCache
