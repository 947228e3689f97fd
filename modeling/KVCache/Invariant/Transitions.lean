import KVCache.Invariant.MemorySide

/-! What a step of the flush thread can do, said once, as for the collector. -/

namespace KVCache

variable {build : Build} {cfg : Config} {c c' : Cache} {a a' : FlushAt}

/-- The transitions of the flush thread that do not stop. Assertions are left
out. -/
inductive FlushStep (build : Build) (cfg : Config) (c : Cache) : FlushAt → Cache → FlushAt → Prop
  | take {m : Nat} {rest : List Nat} (h : c.mslabFull.list = m :: rest) :
      FlushStep build cfg c .idle { c with mslabFull := c.mslabFull.del m } (.holding m)
  | find {m d channel : Nat} {c' : Cache}
      (h : c.takeFree build cfg = .ok (some (d, channel), c')) :
      FlushStep build cfg c (.holding m) c' (.found m d channel)
  | miss {m : Nat} {c' : Cache} (h : c.takeFree build cfg = .ok (none, c')) :
      FlushStep build cfg c (.holding m) c' (.holding m)
  | write {m d channel : Nat} :
      FlushStep build cfg c (.found m d channel) (c.writeBlock cfg m d) (.written m d channel)
  | copy {m d channel : Nat} :
      FlushStep build cfg c (.written m d channel) (c.copyHeader m d) (.copied m d channel)
  | move {m d channel : Nat} :
      FlushStep build cfg c (.copied m d channel) (c.modifyIndexTo cfg m d) (.moved m d channel)
  | reset {m d channel : Nat} :
      FlushStep build cfg c (.moved m d channel) (c.resetSlab m) (.reset m d channel)
  | free {m d channel : Nat} :
      FlushStep build cfg c (.reset m d channel) (c.linkMslabFree m) (.freed d channel)
  | link {d channel : Nat} :
      FlushStep build cfg c (.freed d channel) (c.linkDslabFull d channel) .idle

/-- A step of the flush thread is one of its transitions. -/
theorem stepFlush_inv (hRun : Threads.stepFlush build cfg c a = .ok (c', a')) :
    FlushStep build cfg c a c' a' := by
  cases a with
  | idle =>
      simp only [Threads.stepFlush, Cache.takeFull] at hRun
      cases hList : c.mslabFull.list with
      | nil =>
          rw [hList] at hRun
          cases hRun
      | cons m rest =>
          rw [hList] at hRun
          simp only [Execution.bind_eq_ok, Execution.pure_eq_ok] at hRun
          obtain ⟨⟨m', c₁⟩, ⟨_, -, hTake⟩, hEnd⟩ := hRun
          obtain ⟨rfl, rfl⟩ := Prod.mk.inj hTake
          obtain ⟨rfl, rfl⟩ := Prod.mk.inj hEnd
          exact .take hList
  | holding m =>
      simp only [Threads.stepFlush, Execution.bind_eq_ok] at hRun
      obtain ⟨⟨found, c₁⟩, hTake, hEnd⟩ := hRun
      cases found with
      | none =>
          obtain ⟨rfl, rfl⟩ := Prod.mk.inj (Execution.pure_eq_ok.mp hEnd)
          exact .miss hTake
      | some found =>
          obtain ⟨rfl, rfl⟩ := Prod.mk.inj (Execution.pure_eq_ok.mp hEnd)
          exact .find hTake
  | found m d channel =>
      obtain ⟨rfl, rfl⟩ := Prod.mk.inj (Except.ok.inj hRun)
      exact .write
  | written m d channel =>
      obtain ⟨rfl, rfl⟩ := Prod.mk.inj (Except.ok.inj hRun)
      exact .copy
  | copied m d channel =>
      simp only [Threads.stepFlush, Execution.bind_eq_ok, Execution.pure_eq_ok] at hRun
      obtain ⟨_, -, _, -, hEnd⟩ := hRun
      obtain ⟨rfl, rfl⟩ := Prod.mk.inj hEnd
      exact .move
  | moved m d channel =>
      obtain ⟨rfl, rfl⟩ := Prod.mk.inj (Except.ok.inj hRun)
      exact .reset
  | reset m d channel =>
      obtain ⟨rfl, rfl⟩ := Prod.mk.inj (Except.ok.inj hRun)
      exact .free
  | freed d channel =>
      obtain ⟨rfl, rfl⟩ := Prod.mk.inj (Except.ok.inj hRun)
      exact .link

end KVCache
