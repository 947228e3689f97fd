import KVCache.Invariant.Assertions
import KVCache.Invariant.Outside
import KVCache.Properties.Lookup

/-! The channels take turns. The flush and the collector search the channels for
a slab, each from a cursor of its own. Between two searches of the flush nothing
moves its cursor, and so no channel gets ahead of another. -/

namespace KVCache

open Cycle

variable {build : Build} {cfg : Config} {c c' : Cache} {t t' : Threads} {act : Act}
  {done : List Event}

/-! ### One search -/

/-- The search of the flush ends within one turn over the channels. It takes the
first slab of the first channel that has one, or finds all of them empty. -/
structure FreeScan (build : Build) (cfg : Config) (c : Cache) : Prop where
  ends : ∀ fuel ≥ cfg.nrChannels,
    doWhile (Cache.freeRound build cfg c.nextMslabFlushChannel) fuel c =
      some (c.takeFree build cfg)
  first : ∀ k, First cfg.nrChannels c.nextMslabFlushChannel
      (fun channel => (c.dslabFree channel).list ≠ []) k →
    ∃ d rest, (c.dslabFree ((c.nextMslabFlushChannel + k) % cfg.nrChannels)).list = d :: rest ∧
      ((build = .debug → (c.slabs d).cid = -1 ∧ 0 < c.nrFreeDslab) →
        c.takeFree build cfg =
          .ok (some (d, (c.nextMslabFlushChannel + k) % cfg.nrChannels),
            c.withoutFree cfg ((c.nextMslabFlushChannel + k) % cfg.nrChannels) d))
  found : ∀ d channel c', c.takeFree build cfg = .ok (some (d, channel), c') →
    ∃ k, First cfg.nrChannels c.nextMslabFlushChannel
        (fun channel => (c.dslabFree channel).list ≠ []) k ∧
      channel = (c.nextMslabFlushChannel + k) % cfg.nrChannels ∧
      c' = c.withoutFree cfg channel d
  missing : ∀ c', c.takeFree build cfg = .ok (none, c') ↔
    c' = c ∧ ∀ channel < cfg.nrChannels, (c.dslabFree channel).list = []

/-- The search of the collector in the pool of over-provisioned slabs. -/
structure OpsScan (cfg : Config) (c : Cache) : Prop where
  ends : ∀ fuel ≥ cfg.nrChannels,
    doWhile (Cache.opsRound cfg c.nextOpsPoolRemoveChannel) fuel c = some (c.takeOps cfg)
  first : ∀ k, First cfg.nrChannels c.nextOpsPoolRemoveChannel
      (fun channel => (c.opsPool channel).list ≠ []) k →
    ∃ d rest, (c.opsPool ((c.nextOpsPoolRemoveChannel + k) % cfg.nrChannels)).list = d :: rest ∧
      c.takeOps cfg = c.takeOpsAt cfg ((c.nextOpsPoolRemoveChannel + k) % cfg.nrChannels) d
  missing : ∀ c', c.takeOps cfg = (none, c') ↔
    c' = c ∧ ∀ channel < cfg.nrChannels, (c.opsPool channel).list = []

theorem freeScan (build : Build) (hCursor : c.nextMslabFlushChannel < cfg.nrChannels) :
    FreeScan build cfg c := by
  obtain ⟨hEnds, hCases⟩ := takeFree_cases build hCursor
  constructor
  case ends => exact hEnds
  case first =>
    intro k hFirst
    obtain ⟨d, rest, hList⟩ := List.exists_cons_of_ne_nil hFirst.2.1
    refine ⟨d, rest, hList, fun hHolds => ?_⟩
    rcases hCases with ⟨k', hFirst', hTake⟩ | ⟨hEmpty, -⟩
    · obtain rfl := hFirst.unique hFirst'
      simp only [Cache.freeFound, hList] at hTake
      exact hTake.trans (takeFreeAt_eq hHolds)
    · exact absurd (hEmpty _ hFirst.lt) hFirst.2.1
  case found =>
    intro d channel c' hRun
    rcases hCases with ⟨k, hFirst, hTake⟩ | ⟨-, hNone⟩
    · obtain ⟨d', rest, hList⟩ := List.exists_cons_of_ne_nil hFirst.2.1
      simp only [Cache.freeFound, hList] at hTake
      obtain ⟨rfl, rfl, rfl⟩ := takeFreeAt_ok (hTake.symm.trans hRun)
      exact ⟨k, hFirst, rfl, rfl⟩
    · rw [hNone] at hRun
      cases hRun
  case missing =>
    intro c'
    rcases hCases with ⟨k, hFirst, hTake⟩ | ⟨hEmpty, hNone⟩
    · obtain ⟨d, rest, hList⟩ := List.exists_cons_of_ne_nil hFirst.2.1
      simp only [Cache.freeFound, hList] at hTake
      constructor
      · intro hRun
        exact absurd (hTake.symm.trans hRun) takeFreeAt_ne_none
      · rintro ⟨-, hEmpty⟩
        exact absurd (hEmpty _ hFirst.lt) hFirst.2.1
    · rw [hNone]
      constructor
      · intro hRun
        obtain ⟨-, rfl⟩ := Prod.mk.inj (Except.ok.inj hRun)
        exact ⟨rfl, hEmpty⟩
      · rintro ⟨rfl, -⟩
        rfl

theorem opsScan (hCursor : c.nextOpsPoolRemoveChannel < cfg.nrChannels) : OpsScan cfg c := by
  obtain ⟨hEnds, hCases⟩ := takeOps_cases hCursor
  constructor
  case ends => exact hEnds
  case first =>
    intro k hFirst
    obtain ⟨d, rest, hList⟩ := List.exists_cons_of_ne_nil hFirst.2.1
    refine ⟨d, rest, hList, ?_⟩
    rcases hCases with ⟨k', hFirst', hTake⟩ | ⟨hEmpty, -⟩
    · obtain rfl := hFirst.unique hFirst'
      simpa only [Cache.opsFound, hList] using hTake
    · exact absurd (hEmpty _ hFirst.lt) hFirst.2.1
  case missing =>
    intro c'
    rcases hCases with ⟨k, hFirst, hTake⟩ | ⟨hEmpty, hNone⟩
    · obtain ⟨d, rest, hList⟩ := List.exists_cons_of_ne_nil hFirst.2.1
      simp only [Cache.opsFound, hList] at hTake
      rw [hTake]
      constructor
      · intro hRun
        cases (Prod.mk.inj hRun).1
      · rintro ⟨-, hEmpty⟩
        exact absurd (hEmpty _ hFirst.lt) hFirst.2.1
    · rw [hNone]
      constructor
      · intro hRun
        obtain ⟨-, rfl⟩ := Prod.mk.inj hRun
        exact ⟨rfl, hEmpty⟩
      · rintro ⟨rfl, -⟩
        rfl

/-! ### The turn of the flush -/

/-- The channel of the slab that the flush has found. -/
def FlushAt.channel : FlushAt → Option Nat
  | .idle | .holding _ => none
  | .found _ _ channel | .written _ _ channel | .copied _ _ channel | .moved _ _ channel
  | .reset _ _ channel | .freed _ channel => some channel

/-- The next step of the flush searches for a slab. -/
def FlushAt.searches : FlushAt → Bool
  | .holding _ => true
  | _ => false

/-- The channel to whose full list the next step of the flush adds its slab. -/
def FlushAt.completes : FlushAt → Option Nat
  | .freed _ channel => some channel
  | _ => none

/-- A step that ends the flush of a slab to a channel. -/
def Threads.FlushesTo (channel : Nat) (t : Threads) (act : Act) : Prop :=
  act = .flush ∧ t.flush.completes = some channel

instance (channel : Nat) (t : Threads) (act : Act) : Decidable (t.FlushesTo channel act) :=
  inferInstanceAs (Decidable (_ ∧ _))

/-- How many slabs a schedule flushes to a channel. -/
def Threads.flushedTo (build : Build) (cfg : Config) (t : Threads) (acts : List Act)
    (channel : Nat) : Nat :=
  Runs.count (Threads.step build cfg) (Threads.FlushesTo channel) t acts

/-- When a channel is searched, its free list is not empty. -/
def Threads.ScansStocked (t : Threads) (act : Act) : Prop :=
  act = .flush → t.flush.searches = true →
    (t.cache.dslabFree t.cache.nextMslabFlushChannel).list ≠ []

instance (t : Threads) (act : Act) : Decidable (t.ScansStocked act) :=
  inferInstanceAs (Decidable (_ → _))

/-- The cursor is a channel, and behind the channel of the slab found last. -/
def Threads.Aligned (cfg : Config) (t : Threads) : Prop :=
  t.cache.nextMslabFlushChannel < cfg.nrChannels ∧
    ∀ channel, t.flush.channel = some channel →
      channel < cfg.nrChannels ∧ t.cache.nextMslabFlushChannel = cfg.nextChannel channel

/-- The channel whose turn it is to get the next slab. -/
def Threads.turn (t : Threads) : Nat := t.flush.channel.getD t.cache.nextMslabFlushChannel

/-- What a step of the flush does to its place and to the cursor. -/
theorem stepFlush_turn {a a' : FlushAt} (hRun : Threads.stepFlush build cfg c a = .ok (c', a')) :
    (a.searches = true ∧ a.channel = none ∧ a.completes = none ∧
        ((∃ d channel, c.takeFree build cfg = .ok (some (d, channel), c') ∧
            a'.channel = some channel) ∨
          c.takeFree build cfg = .ok (none, c') ∧ a'.channel = none)) ∨
      a.searches = false ∧ c'.nextMslabFlushChannel = c.nextMslabFlushChannel ∧
        (a.completes = none ∧ a'.channel = a.channel ∨
          ∃ channel, a.completes = some channel ∧ a.channel = some channel ∧ a'.channel = none) := by
  cases a with
  | idle =>
      obtain ⟨⟨m, c₁⟩, hTake, hEnd⟩ := Execution.bind_eq_ok.mp hRun
      obtain ⟨rfl, rfl⟩ := Prod.mk.inj (Execution.pure_eq_ok.mp hEnd)
      rw [takeFull_changes hTake]
      exact .inr ⟨rfl, rfl, .inl ⟨rfl, rfl⟩⟩
  | holding m =>
      obtain ⟨⟨found, c₁⟩, hTake, hEnd⟩ := Execution.bind_eq_ok.mp hRun
      refine .inl ⟨rfl, rfl, rfl, ?_⟩
      cases found with
      | none =>
          obtain ⟨rfl, rfl⟩ := Prod.mk.inj (Execution.pure_eq_ok.mp hEnd)
          exact .inr ⟨hTake, rfl⟩
      | some slab =>
          obtain ⟨rfl, rfl⟩ := Prod.mk.inj (Execution.pure_eq_ok.mp hEnd)
          exact .inl ⟨slab.1, slab.2, hTake, rfl⟩
  | copied m d channel =>
      simp only [Threads.stepFlush, Execution.bind_eq_ok, Execution.pure_eq_ok] at hRun
      obtain ⟨_, -, _, -, hEnd⟩ := hRun
      obtain ⟨rfl, rfl⟩ := Prod.mk.inj hEnd
      exact .inr ⟨rfl, congrArg Prod.snd (steering_modifyIndexTo m d), .inl ⟨rfl, rfl⟩⟩
  | freed d channel =>
      obtain ⟨rfl, rfl⟩ := Prod.mk.inj (Except.ok.inj hRun)
      exact .inr ⟨rfl, rfl, .inr ⟨channel, rfl, rfl, rfl⟩⟩
  | _ =>
      obtain ⟨rfl, rfl⟩ := Prod.mk.inj (Except.ok.inj hRun)
      exact .inr ⟨rfl, rfl, .inl ⟨rfl, rfl⟩⟩

/-- The other threads leave both alone. -/
theorem Threads.step_turn (hRun : t.step build cfg act = .ok (t', done)) :
    (act ≠ .flush ∧ t'.cache.nextMslabFlushChannel = t.cache.nextMslabFlushChannel ∧
        t'.flush = t.flush) ∨
      act = .flush ∧ Threads.stepFlush build cfg t.cache t.flush = .ok (t'.cache, t'.flush) := by
  rcases Threads.step_inv hRun with ⟨hAct, hSame, -, hFlush⟩ | ⟨hAct, -, hFlush⟩ |
    ⟨pick, fuel, rfl, hFlush, hGc⟩
  · exact .inl ⟨hAct, congrArg Prod.snd hSame, hFlush⟩
  · exact .inr ⟨hAct, hFlush⟩
  · have hOutside := (stepGc_inv hGc).outside
    exact .inl ⟨nofun, congrArg Outside.nextMslabFlushChannel hOutside, hFlush⟩

namespace Threads.Aligned

theorem step (h : t.Aligned cfg) (hRun : t.step build cfg act = .ok (t', done)) :
    t'.Aligned cfg := by
  obtain ⟨hCursor, hChannel⟩ := h
  rcases Threads.step_turn hRun with ⟨-, hSame, hFlush⟩ | ⟨-, hFlush⟩
  · unfold Threads.Aligned
    rw [hSame, hFlush]
    exact ⟨hCursor, hChannel⟩
  · rcases stepFlush_turn hFlush with ⟨-, -, -, ⟨d, channel, hTake, hFound⟩ | ⟨hTake, hNone⟩⟩ |
      ⟨-, hSame, hPlace⟩
    · obtain ⟨k, hFirst, rfl, hCache⟩ := (freeScan build hCursor).found d channel _ hTake
      have hNext : t'.cache.nextMslabFlushChannel = cfg.nextChannel _ :=
        congrArg Cache.nextMslabFlushChannel hCache
      refine ⟨?_, fun channel' hSome => ?_⟩
      · rw [hNext]
        exact Nat.mod_lt _ (Nat.zero_lt_of_lt hCursor)
      · obtain rfl := Option.some.inj (hFound.symm.trans hSome)
        exact ⟨hFirst.lt, hNext⟩
    · obtain ⟨hSame, -⟩ := ((freeScan build hCursor).missing _).mp hTake
      refine ⟨?_, fun channel hSome => ?_⟩
      · rw [hSame]
        exact hCursor
      · cases hNone.symm.trans hSome
    · refine ⟨?_, fun channel hSome => ?_⟩
      · rw [hSame]
        exact hCursor
      · rcases hPlace with ⟨-, hStays⟩ | ⟨_, -, -, hNone⟩
        · rw [hSame]
          exact hChannel channel (hStays.symm.trans hSome)
        · cases hNone.symm.trans hSome

/-- As long as no search skips a channel, the turn stays where it is until a
flush ends, which is one to the channel whose turn it was. -/
theorem turn_step (h : t.Aligned cfg) (hStocked : t.ScansStocked act)
    (hRun : t.step build cfg act = .ok (t', done)) :
    (t'.turn = t.turn ∧ ∀ channel, ¬t.FlushesTo channel act) ∨
      (t'.turn = cfg.nextChannel t.turn ∧ ∀ channel, t.FlushesTo channel act ↔ t.turn = channel) := by
  obtain ⟨hCursor, hChannel⟩ := h
  rcases Threads.step_turn hRun with ⟨hAct, hSame, hFlush⟩ | ⟨rfl, hFlush⟩
  · refine .inl ⟨?_, fun channel hTo => hAct hTo.1⟩
    simp only [Threads.turn, hSame, hFlush]
  · rcases stepFlush_turn hFlush with ⟨hSearch, hNone, hOpen, hFound⟩ | ⟨-, hSame, hPlace⟩
    · -- the search ends at the channel it begins with
      have hFirst : First cfg.nrChannels t.cache.nextMslabFlushChannel
          (fun channel => (t.cache.dslabFree channel).list ≠ []) 0 := by
        refine ⟨Nat.zero_lt_of_lt hCursor, ?_, nofun⟩
        rw [Nat.add_zero, Nat.mod_eq_of_lt hCursor]
        exact hStocked rfl hSearch
      refine .inl ⟨?_, fun channel hTo => ?_⟩
      · rcases hFound with ⟨d, channel, hTake, hSome⟩ | ⟨hTake, -⟩
        · obtain ⟨k, hFirst', rfl, -⟩ := (freeScan build hCursor).found d channel _ hTake
          obtain rfl := hFirst.unique hFirst'
          simp only [Threads.turn, hSome, hNone, Option.getD_some, Option.getD_none, Nat.add_zero,
            Nat.mod_eq_of_lt hCursor]
        · obtain ⟨-, hEmpty⟩ := ((freeScan build hCursor).missing _).mp hTake
          exact absurd (hEmpty _ hCursor) (hStocked rfl hSearch)
      · cases hOpen.symm.trans hTo.2
    · rcases hPlace with ⟨hOpen, hStays⟩ | ⟨channel, hEnds, hHere, hNone⟩
      · refine .inl ⟨?_, fun channel hTo => ?_⟩
        · simp only [Threads.turn, hStays, hSame]
        · cases hOpen.symm.trans hTo.2
      · have hTurn : t.turn = channel := by simp only [Threads.turn, hHere, Option.getD_some]
        refine .inr ⟨?_, fun channel' => ?_⟩
        · rw [hTurn, ← (hChannel channel hHere).2, ← hSame]
          simp only [Threads.turn, hNone, Option.getD_none]
        · simp only [Threads.FlushesTo, hEnds, true_and, Option.some.injEq, hTurn]

theorem turn_lt (h : t.Aligned cfg) : t.turn < cfg.nrChannels := by
  unfold Threads.turn
  cases hPlace : t.flush.channel with
  | none => exact h.1
  | some channel => exact (h.2 channel hPlace).1

/-- The channels are flushed to in turn. -/
theorem flushedTo_eq {acts : List Act} (h : t.Aligned cfg)
    (hRun : t.run build cfg acts = .ok (t', done))
    (hAlong : Runs.Along (Threads.step build cfg) Threads.ScansStocked t acts) :
    ∃ rounds, t.flushedTo build cfg acts = visits cfg.nrChannels t.turn rounds := by
  have hEnd := Runs.run_counts (R := Threads.FlushesTo)
    (P := fun t' n => t'.Aligned cfg ∧ ∃ rounds, n = visits cfg.nrChannels t.turn rounds ∧
      t'.turn = (t.turn + rounds) % cfg.nrChannels)
    (fun t₁ act t₂ done n hHere hStocked hStep => ?_) hRun hAlong
    ⟨h, 0, rfl, (Nat.mod_eq_of_lt h.turn_lt).symm⟩
  · obtain ⟨-, rounds, hVisits, -⟩ := hEnd
    refine ⟨rounds, ?_⟩
    rw [← hVisits]
    funext channel
    simp [Threads.flushedTo, visits]
  · obtain ⟨hAligned, rounds, rfl, hTurn⟩ := hHere
    refine ⟨hAligned.step hStep, ?_⟩
    rcases hAligned.turn_step hStocked hStep with ⟨hStays, hNone⟩ | ⟨hNext, hOne⟩
    · refine ⟨rounds, ?_, hStays.trans hTurn⟩
      funext channel
      rw [if_neg (hNone channel), Nat.add_zero]
    · refine ⟨rounds + 1, ?_, ?_⟩
      · funext channel
        simp only [visits_succ, hOne, hTurn]
      · rw [hNext, hTurn]
        exact succ_add_mod t.turn rounds cfg.nrChannels

/-- No channel gets ahead of another by more than one slab. -/
theorem balanced {acts : List Act} {i j : Nat} (h : t.Aligned cfg)
    (hRun : t.run build cfg acts = .ok (t', done))
    (hAlong : Runs.Along (Threads.step build cfg) Threads.ScansStocked t acts)
    (hi : i < cfg.nrChannels) (hj : j < cfg.nrChannels) :
    t.flushedTo build cfg acts i ≤ t.flushedTo build cfg acts j + 1 := by
  obtain ⟨rounds, hVisits⟩ := h.flushedTo_eq hRun hAlong
  rw [hVisits]
  exact visits_le_succ h.turn_lt hi hj rounds

end Threads.Aligned

/-- Every reachable state is aligned. -/
theorem Threads.Reachable.aligned (hChannels : 1 ≤ cfg.nrChannels)
    (h : Threads.Reachable build cfg t) : t.Aligned cfg := by
  apply h.induct (P := fun t => t.Aligned cfg)
  · intro c hCreate
    refine ⟨?_, nofun⟩
    show c.nextMslabFlushChannel < cfg.nrChannels
    rw [(create_cursors hCreate).2]
    exact hChannels
  · intro t act t' done hAligned hStep
    exact hAligned.step hStep

/-! ### The channels take turns -/

/-- In a reachable state the search of the flush fails no assertion, and a pool
that is not empty gives the collector its slab. -/
theorem Threads.Reachable.scans (hCfg : cfg.Sound) (hChannels : 1 ≤ cfg.nrChannels)
    (h : Threads.Reachable build cfg t) :
    (∃ r, t.cache.takeFree build cfg = .ok r) ∧
      (0 < t.cache.opsPoolSize → ∃ d c', t.cache.takeOps cfg = (some d, c')) := by
  obtain ⟨g, hInv⟩ := h.inv hCfg
  refine ⟨?_, fun hPos => hInv.inv.takeOps_some (h.cursor hChannels) hPos⟩
  exact hInv.inv.avoids_takeFreeFrom.total

/-- The step of the collector that takes a slab then passes its assertion. -/
theorem stepGc_take {pick toDrop : List Nat} {fuel cid d : Nat} {n : NormalGc}
    (hPlace : t.gc = .take n cid toDrop) (hTake : t.cache.takeOps cfg = (some d, c')) :
    t.step build cfg (.gc pick fuel) =
      .ok ({ t with cache := c', gc := .relink n cid d toDrop }, []) := by
  simp only [Threads.step, hPlace, Threads.stepGc, Threads.stepCollect, hTake, bind, Except.bind,
    pure, Except.pure]

/-- Both searches go once around the channels and miss none, whatever the lists
hold. So the assertion of the collector on its slab holds as long as its pool is
not empty. While all searches of the flush meet a channel with a free slab, no
channel gets more than one slab ahead of another. -/
theorem channel_scans_complete (build : Build) (hChannels : 1 ≤ cfg.nrChannels) :
    (∀ c : Cache, c.nextMslabFlushChannel < cfg.nrChannels → FreeScan build cfg c) ∧
      (∀ c : Cache, c.nextOpsPoolRemoveChannel < cfg.nrChannels → OpsScan cfg c) ∧
      (cfg.Sound → ∀ t, Threads.Reachable build cfg t →
        (∃ r, t.cache.takeFree build cfg = .ok r) ∧
          (0 < t.cache.opsPoolSize →
            (∃ d c', t.cache.takeOps cfg = (some d, c')) ∧
              ∀ n cid toDrop pick fuel, t.gc = .take n cid toDrop →
                ∃ t', t.step build cfg (.gc pick fuel) = .ok (t', []))) ∧
      (∀ t, Threads.Reachable build cfg t → t.Aligned cfg) ∧
      ∀ t t' acts done, t.Aligned cfg → t.run build cfg acts = .ok (t', done) →
        Runs.Along (Threads.step build cfg) Threads.ScansStocked t acts →
        ∀ i < cfg.nrChannels, ∀ j < cfg.nrChannels,
          t.flushedTo build cfg acts i ≤ t.flushedTo build cfg acts j + 1 := by
  refine ⟨fun c => freeScan build, fun c => opsScan, fun hCfg t hReach => ?_,
    fun t hReach => hReach.aligned hChannels, ?_⟩
  · obtain ⟨hFree, hOps⟩ := hReach.scans hCfg hChannels
    refine ⟨hFree, fun hPos => ⟨hOps hPos, ?_⟩⟩
    intro n cid toDrop pick fuel hPlace
    obtain ⟨d, c', hTake⟩ := hOps hPos
    exact ⟨_, stepGc_take hPlace hTake⟩
  · intro t t' acts done hAligned hRun hAlong i hi j hj
    exact hAligned.balanced hRun hAlong hi hj

/-- The small SSD with a second channel. -/
def Config.twoChannels : Config :=
  { Config.small with nrChannels := 2, blockOrder := [0, 1, 2, 3, 4, 5, 6, 7] }

/-- Three objects, with a flush after each. -/
def threeFlushes : List Act :=
  ([1, 2, 3] : List UInt8).flatMap fun k =>
    [.put [k] [7], .writer, .writer] ++ List.replicate 8 .flush

/-- Two of the slabs go to the first channel and one to the second. -/
theorem channel_scans_two :
    1 ≤ Config.twoChannels.nrChannels ∧
      ∃ t t' done, Threads.Reachable .debug .twoChannels t ∧
        t.run .debug .twoChannels threeFlushes = .ok (t', done) ∧
        Runs.Along (Threads.step .debug .twoChannels) Threads.ScansStocked t threeFlushes ∧
        t.flushedTo .debug .twoChannels threeFlushes 0 = 2 ∧
        t.flushedTo .debug .twoChannels threeFlushes 1 = 1 ∧
        FreeScan .debug .twoChannels t.cache ∧
        t.flushedTo .debug .twoChannels threeFlushes 0 ≤
          t.flushedTo .debug .twoChannels threeFlushes 1 + 1 := by
  obtain ⟨⟨t, events⟩, hStart, hState⟩ := Execution.ok_of_check
    (x := Threads.start .debug .twoChannels [])
    (fun r => (r.1.run .debug .twoChannels threeFlushes).toBool ∧
      Runs.Along (Threads.step .debug .twoChannels) Threads.ScansStocked r.1 threeFlushes ∧
      r.1.flushedTo .debug .twoChannels threeFlushes 0 = 2 ∧
      r.1.flushedTo .debug .twoChannels threeFlushes 1 = 1)
    (by decide +kernel)
  obtain ⟨hEnds, hAlong, hFirst, hSecond⟩ := of_decide_eq_true hState
  have hReach : Threads.Reachable .debug .twoChannels t := ⟨[], events, hStart⟩
  obtain ⟨hFree, -, -, hAligned, hBalanced⟩ :=
    @channel_scans_complete .twoChannels .debug (by decide)
  have hStarts := hAligned t hReach
  cases hRun : t.run .debug .twoChannels threeFlushes with
  | error stop => simp [hRun, Except.toBool] at hEnds
  | ok r =>
      refine ⟨by decide, t, r.1, r.2, hReach, hRun, hAlong, hFirst, hSecond,
        hFree t.cache hStarts.1, ?_⟩
      exact hBalanced t r.1 threeFlushes r.2 hStarts hRun hAlong 0 (by decide) 1 (by decide)

end KVCache
