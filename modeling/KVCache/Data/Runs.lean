import KVCache.Data.Execution

/-! Runs of a machine whose steps can fail and leave a record. What one step
preserves, a run preserves; a condition may be asked of every step, on the
state in which the step is taken. -/

namespace Runs

universe u v

variable {σ : Type u} {α ω : Type} {ε : Type v}

/-- Take one step for each action, with the records of the steps, latest first. -/
def run (step : σ → α → Except ε (σ × List ω)) : σ → List α → Except ε (σ × List ω)
  | s, [] => .ok (s, [])
  | s, a :: rest => do
      let (s, done) ← step s a
      let (s, later) ← run step s rest
      return (s, later ++ done)

/-- Every step of a run meets a condition on the state it starts in. -/
def Along (step : σ → α → Except ε (σ × List ω)) (Q : σ → α → Prop) : σ → List α → Prop
  | _, [] => True
  | s, a :: rest => Q s a ∧
      match step s a with
      | .ok (s', _) => Along step Q s' rest
      | .error _ => True

/-- How many steps of a run meet a condition on the state they start in. -/
def count (step : σ → α → Except ε (σ × List ω)) (Q : σ → α → Prop) [∀ s a, Decidable (Q s a)] :
    σ → List α → Nat
  | _, [] => 0
  | s, a :: rest => (if Q s a then 1 else 0) +
      match step s a with
      | .ok (s', _) => count step Q s' rest
      | .error _ => 0

variable {step : σ → α → Except ε (σ × List ω)} {Q : σ → α → Prop}

instance Along.decidable [∀ s a, Decidable (Q s a)] :
    (s : σ) → (actions : List α) → Decidable (Along step Q s actions)
  | _, [] => isTrue trivial
  | s, a :: rest =>
      have : Decidable (match step s a with
          | .ok (s', _) => Along step Q s' rest
          | .error _ => True) :=
        match step s a with
        | .ok (s', _) => Along.decidable s' rest
        | .error _ => isTrue trivial
      inferInstanceAs (Decidable (_ ∧ _))

theorem run_cons {s s' : σ} {a : α} {rest : List α} {done : List ω} :
    run step s (a :: rest) = .ok (s', done) ↔ ∃ s₁ first later,
      step s a = .ok (s₁, first) ∧ run step s₁ rest = .ok (s', later) ∧ later ++ first = done := by
  simp only [run, Execution.bind_eq_ok, Execution.pure_eq_ok, Prod.mk.injEq, Prod.exists]
  constructor
  · rintro ⟨s₁, first, hStep, s₃, later, hRun, rfl, rfl⟩
    exact ⟨s₁, first, later, hStep, hRun, rfl⟩
  · rintro ⟨s₁, first, later, hStep, hRun, rfl⟩
    exact ⟨s₁, first, hStep, s', later, hRun, rfl, rfl⟩

theorem run_single {s s' : σ} {a : α} {done : List ω} :
    run step s [a] = .ok (s', done) ↔ step s a = .ok (s', done) := by
  rw [run_cons]
  constructor
  · rintro ⟨s₁, first, later, hStep, hNil, rfl⟩
    obtain ⟨rfl, rfl⟩ := Prod.mk.inj (Except.ok.inj hNil)
    exact hStep
  · exact fun hStep => ⟨s', done, [], hStep, rfl, rfl⟩

/-- A run can be continued by a step. -/
theorem run_snoc {s s₁ s' : σ} {actions : List α} {a : α} {before done : List ω}
    (hRun : run step s actions = .ok (s₁, before)) (hStep : step s₁ a = .ok (s', done)) :
    run step s (actions ++ [a]) = .ok (s', done ++ before) := by
  induction actions generalizing s before with
  | nil =>
      obtain ⟨rfl, rfl⟩ := Prod.mk.inj (Except.ok.inj hRun)
      simpa using run_single.mpr hStep
  | cons b rest ih =>
      obtain ⟨s₂, first, later, hFirst, hRest, rfl⟩ := run_cons.mp hRun
      exact run_cons.mpr ⟨s₂, first, done ++ later, hFirst, ih hRest, List.append_assoc _ _ _⟩

/-- A run can be continued by another one. -/
theorem run_append {s s₁ s' : σ} {actions more : List α} {before done : List ω}
    (hRun : run step s actions = .ok (s₁, before)) (hMore : run step s₁ more = .ok (s', done)) :
    run step s (actions ++ more) = .ok (s', done ++ before) := by
  induction actions generalizing s before with
  | nil =>
      obtain ⟨rfl, rfl⟩ := Prod.mk.inj (Except.ok.inj hRun)
      simpa using hMore
  | cons a rest ih =>
      obtain ⟨s₂, first, later, hFirst, hRest, rfl⟩ := run_cons.mp hRun
      exact run_cons.mpr ⟨s₂, first, done ++ later, hFirst, ih hRest, List.append_assoc _ _ _⟩

/-- A run that succeeds does so up to every point. -/
theorem run_take {s : σ} {actions : List α} {r : σ × List ω} (hRun : run step s actions = .ok r)
    (n : Nat) : ∃ r', run step s (actions.take n) = .ok r' := by
  induction actions generalizing s r n with
  | nil => exact ⟨r, by simpa using hRun⟩
  | cons a rest ih =>
      cases n with
      | zero => exact ⟨(s, []), rfl⟩
      | succ n =>
          obtain ⟨s₁, first, later, hStep, hRest, -⟩ := run_cons.mp hRun
          obtain ⟨⟨s₂, middle⟩, hMiddle⟩ := ih hRest n
          exact ⟨(s₂, middle ++ first), run_cons.mpr ⟨s₁, first, middle, hStep, hMiddle, rfl⟩⟩

theorem along_true (s : σ) (actions : List α) : Along step (fun _ _ => True) s actions := by
  induction actions generalizing s with
  | nil => trivial
  | cons a rest ih =>
      refine ⟨trivial, ?_⟩
      split
      · exact ih _
      · trivial

theorem along_cons {s s' : σ} {a : α} {rest : List α} {done : List ω}
    (hStep : step s a = .ok (s', done)) :
    Along step Q s (a :: rest) ↔ Q s a ∧ Along step Q s' rest := by
  simp only [Along, hStep]

/-- The rule for runs, with the history of the records. -/
theorem run_rule {P : σ → List ω → Prop}
    (hStep : ∀ s a s' done events, P s events → Q s a → step s a = .ok (s', done) →
      P s' (done ++ events))
    {s s' : σ} {actions : List α} {events done : List ω}
    (hRun : run step s actions = .ok (s', done)) (hAlong : Along step Q s actions)
    (hStart : P s events) : P s' (done ++ events) := by
  induction actions generalizing s events done with
  | nil =>
      obtain ⟨rfl, rfl⟩ := Prod.mk.inj (Except.ok.inj hRun)
      exact hStart
  | cons a rest ih =>
      obtain ⟨s₁, first, later, hFirst, hRest, rfl⟩ := run_cons.mp hRun
      obtain ⟨hQ, hLater⟩ := (along_cons hFirst).mp hAlong
      rw [List.append_assoc]
      exact ih hRest hLater (hStep s a s₁ first events hStart hQ hFirst)

/-- The rule for properties of the state alone. -/
theorem run_invariant {P : σ → Prop}
    (hStep : ∀ s a s' done, P s → Q s a → step s a = .ok (s', done) → P s')
    {s s' : σ} {actions : List α} {done : List ω} (hRun : run step s actions = .ok (s', done))
    (hAlong : Along step Q s actions) (hStart : P s) : P s' :=
  @run_rule σ α ω ε step Q (fun s _ => P s)
    (fun s a s' done _ h hQ hFirst => hStep s a s' done h hQ hFirst) s s' actions [] done hRun
    hAlong hStart

/-- The rule for properties that also depend on how many steps met each of
several conditions. -/
theorem run_counts {ι : Type} {R : ι → σ → α → Prop} [∀ i s a, Decidable (R i s a)]
    {P : σ → (ι → Nat) → Prop}
    (hStep : ∀ s a s' done n, P s n → Q s a → step s a = .ok (s', done) →
      P s' fun i => n i + if R i s a then 1 else 0)
    {s s' : σ} {actions : List α} {done : List ω} {n : ι → Nat}
    (hRun : run step s actions = .ok (s', done)) (hAlong : Along step Q s actions)
    (hStart : P s n) : P s' fun i => n i + count step (R i) s actions := by
  induction actions generalizing s done n with
  | nil =>
      obtain ⟨rfl, rfl⟩ := Prod.mk.inj (Except.ok.inj hRun)
      exact hStart
  | cons a rest ih =>
      obtain ⟨s₁, first, later, hFirst, hRest, rfl⟩ := run_cons.mp hRun
      obtain ⟨hQ, hAfter⟩ := (along_cons hFirst).mp hAlong
      have hLater := ih hRest hAfter (hStep s a s₁ first n hStart hQ hFirst)
      simpa only [count, hFirst, Nat.add_assoc] using hLater

/-- The rule with one condition to be counted. -/
theorem run_count [∀ s a, Decidable (Q s a)] {P : σ → Nat → Prop}
    (hStep : ∀ s a s' done n, P s n → step s a = .ok (s', done) →
      P s' (n + if Q s a then 1 else 0))
    {s s' : σ} {actions : List α} {done : List ω} {n : Nat}
    (hRun : run step s actions = .ok (s', done)) (hStart : P s n) :
    P s' (n + count step Q s actions) :=
  run_counts (R := fun (_ : Unit) => Q) (P := fun s n => P s (n ()))
    (fun s a s' done n h _ hFirst => hStep s a s' done (n ()) h hFirst) hRun
    (along_true s actions) (n := fun _ => n) hStart

/-- What no step in a state that the run can reach does, no run does. -/
theorem avoids_run {S : ε → Prop} {s : σ} {actions : List α}
    (hStep : ∀ (done : List α) (s' : σ) (events : List ω) (a : α),
      run step s done = .ok (s', events) → Execution.Avoids S (step s' a)) :
    Execution.Avoids S (run step s actions) := by
  induction actions generalizing s with
  | nil => exact .ok _
  | cons a rest ih =>
      refine (hStep [] s [] a rfl).bind fun ⟨s₁, first⟩ hFirst => ?_
      refine (ih fun done s' events b hRun => ?_).bind fun _ _ => .ok _
      exact hStep _ s' _ b (run_cons.mpr ⟨s₁, first, events, hFirst, hRun, rfl⟩)

end Runs
