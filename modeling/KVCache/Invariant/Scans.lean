import KVCache.Data.Execution
import KVCache.Semantics.Scans

/-! What the loops over the channels find. Both are searches of a cycle for a
channel whose list is not empty. Nothing is assumed about the lists. -/

namespace KVCache

open Cycle

variable {build : Build} {cfg : Config} {c c' : Cache}

/-! ### The flush -/

/-- What the loop returns when it ends at a channel. -/
def Cache.freeFound (build : Build) (cfg : Config) (c : Cache) (channel : Nat) :
    Except Stop (Option (Nat × Nat) × Cache) :=
  match (c.dslabFree channel).list with
  | d :: _ => c.takeFreeAt build cfg channel d
  | [] => .ok (none, c)

theorem freeRound_searches (build : Build) (hCursor : c.nextMslabFlushChannel < cfg.nrChannels) :
    Searches cfg.nrChannels c.nextMslabFlushChannel (fun channel => (c.dslabFree channel).list ≠ [])
      (Cache.freeRound build cfg c.nextMslabFlushChannel)
      (fun channel => { c with nextMslabFlushChannel := channel })
      (c.freeFound build cfg) (.ok (none, c)) where
  start_lt := hCursor
  hit := by
    intro i _ hSome
    obtain ⟨d, rest, hList⟩ := List.exists_cons_of_ne_nil hSome
    simp only [Cache.freeRound, Cache.freeFound, hList]
    rfl
  miss := by
    intro i _ hNone hNext
    have hList : (c.dslabFree i).list = [] := not_not.mp hNone
    simp only [Cache.freeRound, hList]
    exact if_pos hNext
  back := by
    intro i _ hNone hNext
    have hList : (c.dslabFree i).list = [] := not_not.mp hNone
    have hSame : cfg.nextChannel i = c.nextMslabFlushChannel := hNext
    simp only [Cache.freeRound, hList, hSame, ne_eq, not_true_eq_false, if_false]

/-- A loop that ended is the search that is bounded by its iterations. -/
theorem takeFreeFrom_of_doWhile {beginning fuel : Nat}
    {r : Except Stop (Option (Nat × Nat) × Cache)}
    (hRun : doWhile (Cache.freeRound build cfg beginning) fuel c = some r) :
    Cache.takeFreeFrom build cfg beginning fuel c = r := by
  induction fuel generalizing c with
  | zero => cases hRun
  | succ fuel ih =>
      simp only [doWhile, Cache.freeRound] at hRun
      simp only [Cache.takeFreeFrom]
      cases hList : (c.dslabFree c.nextMslabFlushChannel).list with
      | cons d rest =>
          rw [hList] at hRun
          exact Option.some.inj hRun
      | nil =>
          simp only [hList] at hRun ⊢
          split
          · rename_i hNext
            rw [if_pos hNext] at hRun
            exact ih hRun
          · rename_i hNext
            rw [if_neg hNext] at hRun
            exact Option.some.inj hRun

/-- The loop of `do_slab_flush` ends within one turn. It ends at the first
channel with a free slab, or after a turn over empty channels in the state it
began in. -/
theorem takeFree_cases (build : Build) (hCursor : c.nextMslabFlushChannel < cfg.nrChannels) :
    (∀ fuel ≥ cfg.nrChannels,
      doWhile (Cache.freeRound build cfg c.nextMslabFlushChannel) fuel c =
        some (c.takeFree build cfg)) ∧
      ((∃ k, First cfg.nrChannels c.nextMslabFlushChannel
          (fun channel => (c.dslabFree channel).list ≠ []) k ∧
          c.takeFree build cfg =
            c.freeFound build cfg ((c.nextMslabFlushChannel + k) % cfg.nrChannels)) ∨
        (∀ channel < cfg.nrChannels, (c.dslabFree channel).list = []) ∧
          c.takeFree build cfg = .ok (none, c)) := by
  obtain ⟨r, hEnds, hCases⟩ := (freeRound_searches build hCursor).ends
  have hTake : c.takeFree build cfg = r := takeFreeFrom_of_doWhile (hEnds _ (Nat.le_refl _))
  rw [hTake]
  refine ⟨hEnds, ?_⟩
  rcases hCases with hFound | ⟨hNone, hMissing⟩
  · exact .inl hFound
  · exact .inr ⟨fun channel hLt => not_not.mp (hNone channel hLt), hMissing⟩

/-- The cache after the flush took a slab from the free list of a channel. The
cursor is just behind this channel. -/
def Cache.withoutFree (cfg : Config) (c : Cache) (channel d : Nat) : Cache :=
  { c with
    nextMslabFlushChannel := (channel + 1) % cfg.nrChannels
    dslabFree := c.dslabFree.modify channel (·.del d)
    nrFreeDslab := c.nrFreeDslab - 1 }

theorem takeFreeAt_ok {channel d d' channel' : Nat}
    (hRun : c.takeFreeAt build cfg channel d = .ok (some (d', channel'), c')) :
    d' = d ∧ channel' = channel ∧ c' = c.withoutFree cfg channel d := by
  simp only [Cache.takeFreeAt, Execution.bind_eq_ok, Execution.pure_eq_ok] at hRun
  obtain ⟨_, -, _, -, hEnd⟩ := hRun
  obtain ⟨hFound, rfl⟩ := Prod.mk.inj hEnd
  obtain ⟨rfl, rfl⟩ := Prod.mk.inj (Option.some.inj hFound)
  exact ⟨rfl, rfl, rfl⟩

/-- What the assertions of the loop ask for. -/
theorem takeFreeAt_eq {channel d : Nat}
    (hHolds : build = .debug → (c.slabs d).cid = -1 ∧ 0 < c.nrFreeDslab) :
    c.takeFreeAt build cfg channel d = .ok (some (d, channel), c.withoutFree cfg channel d) := by
  cases build with
  | release => rfl
  | debug =>
      obtain ⟨hCid, hCount⟩ := hHolds rfl
      have hLeft : 0 ≤ c.nrFreeDslab - 1 := by omega
      simp only [Cache.takeFreeAt, Execution.bind_eq_ok]
      exact ⟨(), assertThat_ok (decide_eq_true hCid), (), assertThat_ok (decide_eq_true hLeft), rfl⟩

theorem takeFreeAt_ne_none {channel d : Nat} :
    c.takeFreeAt build cfg channel d ≠ .ok (none, c') := by
  intro hRun
  simp only [Cache.takeFreeAt, Execution.bind_eq_ok, Execution.pure_eq_ok] at hRun
  obtain ⟨_, -, _, -, hEnd⟩ := hRun
  cases (Prod.mk.inj hEnd).1

/-! ### The collector -/

/-- What the loop returns when it ends at a channel. -/
def Cache.opsFound (cfg : Config) (c : Cache) (channel : Nat) : Option Nat × Cache :=
  match (c.opsPool channel).list with
  | d :: _ => c.takeOpsAt cfg channel d
  | [] => (none, c)

theorem opsRound_searches (hCursor : c.nextOpsPoolRemoveChannel < cfg.nrChannels) :
    Searches cfg.nrChannels c.nextOpsPoolRemoveChannel
      (fun channel => (c.opsPool channel).list ≠ [])
      (Cache.opsRound cfg c.nextOpsPoolRemoveChannel)
      (fun channel => { c with nextOpsPoolRemoveChannel := channel })
      (c.opsFound cfg) (none, c) where
  start_lt := hCursor
  hit := by
    intro i _ hSome
    obtain ⟨d, rest, hList⟩ := List.exists_cons_of_ne_nil hSome
    simp only [Cache.opsRound, Cache.opsFound, hList]
    rfl
  miss := by
    intro i _ hNone hNext
    have hList : (c.opsPool i).list = [] := not_not.mp hNone
    simp only [Cache.opsRound, hList]
    exact if_pos (Ne.symm hNext)
  back := by
    intro i _ hNone hNext
    have hList : (c.opsPool i).list = [] := not_not.mp hNone
    have hSame : cfg.nextChannel i = c.nextOpsPoolRemoveChannel := hNext
    simp only [Cache.opsRound, hList, hSame, ne_eq, not_true_eq_false, if_false]

theorem takeOpsFrom_of_doWhile {begin fuel : Nat} {r : Option Nat × Cache}
    (hRun : doWhile (Cache.opsRound cfg begin) fuel c = some r) :
    Cache.takeOpsFrom cfg begin fuel c = r := by
  induction fuel generalizing c with
  | zero => cases hRun
  | succ fuel ih =>
      simp only [doWhile, Cache.opsRound] at hRun
      simp only [Cache.takeOpsFrom]
      cases hList : (c.opsPool c.nextOpsPoolRemoveChannel).list with
      | cons d rest =>
          rw [hList] at hRun
          exact Option.some.inj hRun
      | nil =>
          simp only [hList] at hRun ⊢
          split
          · rename_i hNext
            rw [if_pos hNext] at hRun
            exact ih hRun
          · rename_i hNext
            rw [if_neg hNext] at hRun
            exact Option.some.inj hRun

/-- The same for the loop of `gc_dslabs`. -/
theorem takeOps_cases (hCursor : c.nextOpsPoolRemoveChannel < cfg.nrChannels) :
    (∀ fuel ≥ cfg.nrChannels,
      doWhile (Cache.opsRound cfg c.nextOpsPoolRemoveChannel) fuel c = some (c.takeOps cfg)) ∧
      ((∃ k, First cfg.nrChannels c.nextOpsPoolRemoveChannel
          (fun channel => (c.opsPool channel).list ≠ []) k ∧
          c.takeOps cfg = c.opsFound cfg ((c.nextOpsPoolRemoveChannel + k) % cfg.nrChannels)) ∨
        (∀ channel < cfg.nrChannels, (c.opsPool channel).list = []) ∧
          c.takeOps cfg = (none, c)) := by
  obtain ⟨r, hEnds, hCases⟩ := (opsRound_searches hCursor).ends
  have hTake : c.takeOps cfg = r := takeOpsFrom_of_doWhile (hEnds _ (Nat.le_refl _))
  rw [hTake]
  refine ⟨hEnds, ?_⟩
  rcases hCases with hFound | ⟨hNone, hMissing⟩
  · exact .inl hFound
  · exact .inr ⟨fun channel hLt => not_not.mp (hNone channel hLt), hMissing⟩

end KVCache
