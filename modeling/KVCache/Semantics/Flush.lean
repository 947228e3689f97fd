import KVCache.Semantics.State

/-! `do_slab_flush`: one full memory slab is copied to a free disk slab, the
index entries that point into it follow, and both slabs change lists. The
parts are separate because other threads run between them. -/

namespace KVCache.Cache

/-- Unlink the first full memory slab. -/
def takeFull (build : Build) (c : Cache) : Except Stop (Nat × Cache) :=
  match c.mslabFull.list with
  | [] => .error .blocked
  | m :: _ => do
      assertThat build .flushMslabCid ((c.slabs m).cid ≠ -1)
      return (m, { c with mslabFull := c.mslabFull.del m })

/-- The search over the channels for a free disk slab, at most `rounds` of
them: the cursor moves on before a channel is looked at. -/
def takeFreeFrom (build : Build) (cfg : Config) (beginning : Nat) :
    Nat → Cache → Except Stop (Option (Nat × Nat) × Cache)
  | 0, c => .ok (none, c)
  | rounds + 1, c => do
      let channel := c.nextMslabFlushChannel
      let c := { c with nextMslabFlushChannel := cfg.nextChannel channel }
      match (c.dslabFree channel).list with
      | d :: _ =>
          assertThat build .flushDslabFree ((c.slabs d).cid = -1)
          let c := { c with
            dslabFree := c.dslabFree.modify channel (·.del d)
            nrFreeDslab := c.nrFreeDslab - 1 }
          assertThat build .flushNrFree (0 ≤ c.nrFreeDslab)
          return (some (d, channel), c)
      | [] =>
          if c.nextMslabFlushChannel ≠ beginning then takeFreeFrom build cfg beginning rounds c
          else return (none, c)

def takeFree (build : Build) (cfg : Config) (c : Cache) :
    Except Stop (Option (Nat × Nat) × Cache) :=
  takeFreeFrom build cfg c.nextMslabFlushChannel cfg.nrChannels c

/-- The write of `flush_mslab_to_dslab`: the block keeps an image of the slab. -/
def writeBlock (cfg : Config) (c : Cache) (src dst : Nat) : Cache :=
  { c with disk := c.disk.set (c.slabs dst).blockId.toNat ((c.slabs src).image cfg) }

/-- The header fields that `flush_mslab_to_dslab` copies. -/
def copyHeader (c : Cache) (src dst : Nat) : Cache :=
  let s := c.slabs src
  { c with
    slabs := c.slabs.modify dst fun d =>
      { d with
        cid := s.cid, slotSize := s.slotSize, nrSlots := s.nrSlots
        nrAlloc := s.nrAlloc, nrUsed := s.nrUsed } }

def flushMslabToDslab (cfg : Config) (c : Cache) (src dst : Nat) : Cache :=
  (c.writeBlock cfg src dst).copyHeader src dst

/-- One slot of `modify_index_to`, with the count of entries moved. -/
def modifySlot (cfg : Config) (src dst : Nat) (state : Cache × Nat) (slotId : Nat) : Cache × Nat :=
  let (c, nrUsed) := state
  match c.index.getIndexEntry cfg ((c.slabs src).slotKey slotId) with
  | none => (c, nrUsed)
  | some e =>
      let entry := c.index.entries e
      if entry.slabId = (c.slabs src).sid ∧ entry.slotId = slotId then
        ({ c with index := c.index.repoint e (c.slabs dst).sid slotId }, nrUsed + 1)
      else (c, nrUsed)

/-- `modify_index_to`: entries that point into `src` now point into `dst`. -/
def modifyIndexTo (cfg : Config) (c : Cache) (src dst : Nat) : Cache :=
  let (c, nrUsed) :=
    (List.range (c.slabs src).nrAlloc).foldl (modifySlot cfg src dst) (c, 0)
  let c := { c with slabs := c.slabs.modify src fun s => { s with nrUsed := 0 } }
  { c with slabs := c.slabs.modify dst fun s => { s with nrUsed := nrUsed } }

def linkMslabFree (c : Cache) (m : Nat) : Cache := { c with mslabFree := c.mslabFree.add m }

def linkDslabFull (c : Cache) (d channel : Nat) : Cache :=
  { c with
    dslabFull := c.dslabFull.modify channel (·.add d)
    nrFullDslab := c.nrFullDslab + 1 }

/-- What follows once a full memory slab and a free disk slab are in hand. -/
def finishFlush (build : Build) (cfg : Config) (c : Cache) (m d channel : Nat) :
    Except Stop Cache := do
  let c := c.flushMslabToDslab cfg m d
  assertThat build .flushCidEq ((c.slabs d).cid = (c.slabs m).cid)
  assertThat build .flushCid ((c.slabs d).cid ≠ -1)
  let c := c.modifyIndexTo cfg m d
  let c := c.resetSlab m
  let c := c.linkMslabFree m
  return c.linkDslabFull d channel

end KVCache.Cache
