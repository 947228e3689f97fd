import KVCache.Data.Cycles
import KVCache.Semantics.Collector

/-! The loops of `do_slab_flush` and `gc_dslabs` over the channels, one
iteration at a time. Nothing here bounds how often they go around: the cursor
has already moved on when it is compared with the beginning. -/

namespace KVCache.Cache

/-- What the flush does with the first free slab of a channel. -/
def takeFreeAt (build : Build) (cfg : Config) (c : Cache) (channel d : Nat) :
    Except Stop (Option (Nat × Nat) × Cache) := do
  assertThat build .flushDslabFree ((c.slabs d).cid = -1)
  let c := { c with
    nextMslabFlushChannel := cfg.nextChannel channel
    dslabFree := c.dslabFree.modify channel (·.del d)
    nrFreeDslab := c.nrFreeDslab - 1 }
  assertThat build .flushNrFree (0 ≤ c.nrFreeDslab)
  return (some (d, channel), c)

/-- An iteration of the loop of `do_slab_flush`: it goes on, or ends. -/
def freeRound (build : Build) (cfg : Config) (beginning : Nat) (c : Cache) :
    Cache ⊕ Except Stop (Option (Nat × Nat) × Cache) :=
  let channel := c.nextMslabFlushChannel
  let c := { c with nextMslabFlushChannel := cfg.nextChannel channel }
  match (c.dslabFree channel).list with
  | d :: _ => .inr (c.takeFreeAt build cfg channel d)
  | [] => if c.nextMslabFlushChannel ≠ beginning then .inl c else .inr (.ok (none, c))

/-- What the collector does with the first over-provisioned slab of a channel. -/
def takeOpsAt (cfg : Config) (c : Cache) (channel d : Nat) : Option Nat × Cache :=
  (some d, { c with
    nextOpsPoolRemoveChannel := cfg.nextChannel channel
    opsPool := c.opsPool.modify channel (·.del d)
    opsPoolSize := c.opsPoolSize - 1 })

/-- An iteration of the loop of `gc_dslabs`. -/
def opsRound (cfg : Config) (begin : Nat) (c : Cache) : Cache ⊕ (Option Nat × Cache) :=
  let channel := c.nextOpsPoolRemoveChannel
  let c := { c with nextOpsPoolRemoveChannel := cfg.nextChannel channel }
  match (c.opsPool channel).list with
  | d :: _ => .inr (c.takeOpsAt cfg channel d)
  | [] => if begin ≠ c.nextOpsPoolRemoveChannel then .inl c else .inr (none, c)

end KVCache.Cache
