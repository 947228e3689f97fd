import Mathlib

/-! Loops that go around a cycle of positions. A `do … while` loop is its body,
which goes on in a new state or ends with a result; it may never end, so a run
of it is bounded from outside. How often the positions are visited depends on
the number of visits only up to one. -/

namespace Cycle

/-! ### Loops with the test at the end -/

section

variable {σ ρ : Type*}

/-- `do … while`, or `none` while it has not ended after `fuel` iterations. -/
def doWhile (body : σ → σ ⊕ ρ) : Nat → σ → Option ρ
  | 0, _ => none
  | fuel + 1, s =>
      match body s with
      | .inl s => doWhile body fuel s
      | .inr r => some r

variable {body : σ → σ ⊕ ρ}

/-- A loop that goes on `k` times ends in its next iteration and not before. -/
theorem doWhile_eq {k : Nat} {s : Nat → σ} {r : ρ} (hSteps : ∀ j < k, body (s j) = .inl (s (j + 1)))
    (hEnd : body (s k) = .inr r) (fuel : Nat) :
    doWhile body fuel (s 0) = if k < fuel then some r else none := by
  induction k generalizing s fuel with
  | zero =>
      cases fuel with
      | zero => rfl
      | succ fuel => simp [doWhile, hEnd]
  | succ k ih =>
      cases fuel with
      | zero => rfl
      | succ fuel =>
          have hRest := ih (fun j hj => hSteps (j + 1) (Nat.succ_lt_succ hj)) hEnd fuel
          simp only [doWhile, hSteps 0 (Nat.zero_lt_succ k), Nat.succ_lt_succ_iff]
          exact hRest

end

/-! ### Positions -/

variable {n start : Nat}

/-- On the way around, the start is met again only at the end. -/
theorem add_mod_ne (hStart : start < n) {k : Nat} (hPos : 0 < k) (hk : k < n) :
    (start + k) % n ≠ start := by
  by_cases hWrap : start + k < n
  · rw [Nat.mod_eq_of_lt hWrap]
    omega
  · rw [Nat.mod_eq_sub_mod (by omega), Nat.mod_eq_of_lt (by omega)]
    omega

theorem succ_add_mod (start k n : Nat) : ((start + k) % n + 1) % n = (start + (k + 1)) % n := by
  rw [Nat.mod_add_mod, Nat.add_assoc]

/-- Every position is met on the way around. -/
theorem exists_lt_add_mod (hStart : start < n) {i : Nat} (hi : i < n) :
    ∃ k < n, (start + k) % n = i := by
  refine ⟨(i + n - start) % n, Nat.mod_lt _ (by omega), ?_⟩
  rw [Nat.add_mod_mod, Nat.add_sub_cancel' (by omega), Nat.add_mod_right, Nat.mod_eq_of_lt hi]

section

variable {σ ρ : Type*} {p : Nat → Prop} {body : σ → σ ⊕ ρ} {state : Nat → σ} {found : Nat → ρ}
  {missing : ρ}

/-- A loop over the positions of a cycle that ends at a position with `p`, or
when it comes back to its start: `state i` is its state before position `i`. -/
structure Searches (n start : Nat) (p : Nat → Prop) (body : σ → σ ⊕ ρ) (state : Nat → σ)
    (found : Nat → ρ) (missing : ρ) : Prop where
  start_lt : start < n
  hit : ∀ i < n, p i → body (state i) = .inr (found i)
  miss : ∀ i < n, ¬p i → (i + 1) % n ≠ start → body (state i) = .inl (state ((i + 1) % n))
  back : ∀ i < n, ¬p i → (i + 1) % n = start → body (state i) = .inr missing

/-- `k` positions after the start comes the first one with `p`. -/
def First (n start : Nat) (p : Nat → Prop) (k : Nat) : Prop :=
  k < n ∧ p ((start + k) % n) ∧ ∀ j < k, ¬p ((start + j) % n)

theorem exists_first (hStart : start < n) {i : Nat} (hi : i < n) (hp : p i) :
    ∃ k, First n start p k := by
  classical
  obtain ⟨m, hm, rfl⟩ := exists_lt_add_mod hStart hi
  have hExists : ∃ k, p ((start + k) % n) := ⟨m, hp⟩
  refine ⟨Nat.find hExists, ?_, Nat.find_spec hExists, fun j hj => Nat.find_min hExists hj⟩
  exact Nat.lt_of_le_of_lt (Nat.find_min' hExists hp) hm

theorem First.lt {k : Nat} (h : First n start p k) : (start + k) % n < n :=
  Nat.mod_lt _ (Nat.zero_lt_of_lt h.1)

theorem First.unique {k k' : Nat} (h : First n start p k) (h' : First n start p k') : k = k' := by
  rcases Nat.lt_trichotomy k k' with hLt | hEq | hGt
  · exact absurd h.2.1 (h'.2.2 k hLt)
  · exact hEq
  · exact absurd h'.2.1 (h.2.2 k' hGt)

namespace Searches

/-- The loop passes the positions without `p`. -/
theorem steps (h : Searches n start p body state found missing) {k : Nat} (hk : k < n)
    (hMiss : ∀ j < k, ¬p ((start + j) % n)) {j : Nat} (hj : j < k) :
    body (state ((start + j) % n)) = .inl (state ((start + (j + 1)) % n)) := by
  have hLt : (start + j) % n < n := Nat.mod_lt _ (Nat.zero_lt_of_lt hk)
  have hStep := h.miss _ hLt (hMiss j hj)
  rw [succ_add_mod] at hStep
  exact hStep (add_mod_ne h.start_lt (Nat.zero_lt_succ j) (by omega))

theorem state_zero (h : Searches n start p body state found missing) :
    state ((start + 0) % n) = state start := by
  rw [Nat.add_zero, Nat.mod_eq_of_lt h.start_lt]

/-- It ends at the first position with `p`. -/
theorem doWhile_first (h : Searches n start p body state found missing) {k : Nat}
    (hFirst : First n start p k) (fuel : Nat) :
    doWhile body fuel (state start) = if k < fuel then some (found ((start + k) % n)) else none := by
  rw [← h.state_zero]
  exact doWhile_eq (s := fun j => state ((start + j) % n))
    (fun j hj => h.steps hFirst.1 hFirst.2.2 hj) (h.hit _ hFirst.lt hFirst.2.1) fuel

/-- Without such a position it ends after one turn. -/
theorem doWhile_none (h : Searches n start p body state found missing) (hNone : ∀ i < n, ¬p i)
    (fuel : Nat) : doWhile body fuel (state start) = if n ≤ fuel then some missing else none := by
  obtain ⟨m, rfl⟩ : ∃ m, n = m + 1 := ⟨n - 1, by have := h.start_lt; omega⟩
  have hMiss : ∀ j, ¬p ((start + j) % (m + 1)) := fun j =>
    hNone _ (Nat.mod_lt _ (Nat.zero_lt_succ m))
  have hLast : body (state ((start + m) % (m + 1))) = .inr missing := by
    refine h.back _ (Nat.mod_lt _ (Nat.zero_lt_succ m)) (hMiss m) ?_
    rw [succ_add_mod, Nat.add_mod_right, Nat.mod_eq_of_lt h.start_lt]
  rw [← h.state_zero]
  exact doWhile_eq (s := fun j => state ((start + j) % (m + 1)))
    (fun j hj => h.steps (Nat.lt_succ_self m) (fun i _ => hMiss i) hj) hLast fuel

/-- One turn is always enough, and there are two ways to end. -/
theorem ends (h : Searches n start p body state found missing) :
    ∃ r, (∀ fuel ≥ n, doWhile body fuel (state start) = some r) ∧
      ((∃ k, First n start p k ∧ r = found ((start + k) % n)) ∨
        (∀ i < n, ¬p i) ∧ r = missing) := by
  by_cases hSome : ∃ i < n, p i
  · obtain ⟨i, hi, hp⟩ := hSome
    obtain ⟨k, hFirst⟩ := exists_first h.start_lt hi hp
    refine ⟨_, fun fuel hFuel => ?_, .inl ⟨k, hFirst, rfl⟩⟩
    rw [h.doWhile_first hFirst, if_pos (Nat.lt_of_lt_of_le hFirst.1 hFuel)]
  · have hNone : ∀ i < n, ¬p i := fun i hi hp => hSome ⟨i, hi, hp⟩
    refine ⟨_, fun fuel hFuel => ?_, .inr ⟨hNone, rfl⟩⟩
    rw [h.doWhile_none hNone, if_pos hFuel]

end Searches

end

/-! ### Visiting the positions in turn -/

/-- How often a position is visited in the first `rounds` visits. -/
def visits (n start rounds i : Nat) : Nat := Nat.count (fun k => (start + k) % n = i) rounds

theorem visits_succ (n start rounds i : Nat) :
    visits n start (rounds + 1) i =
      visits n start rounds i + if (start + rounds) % n = i then 1 else 0 :=
  Nat.count_succ _ rounds

/-- All positions are visited once in every full turn. -/
theorem visits_eq (hStart : start < n) {i : Nat} (hi : i < n) (rounds : Nat) :
    visits n start rounds i =
      rounds / n + if (i + n - start) % n < rounds % n then 1 else 0 := by
  have hSame : ∀ k, (start + k) % n = i ↔ k ≡ i + n - start [MOD n] := by
    intro k
    constructor
    · rintro rfl
      refine Nat.ModEq.add_left_cancel' start ?_
      rw [Nat.add_sub_cancel' (by omega)]
      exact (Nat.mod_modEq (start + k) n).symm.trans Nat.add_modEq_right.symm
    · intro hMod
      have hAdd := hMod.add_left start
      rw [Nat.add_sub_cancel' (by omega)] at hAdd
      calc (start + k) % n = (i + n) % n := hAdd
        _ = i % n := Nat.add_mod_right i n
        _ = i := Nat.mod_eq_of_lt hi
  simp only [visits, hSame]
  exact Nat.count_modEq_card rounds (Nat.zero_lt_of_lt hStart) (i + n - start)

/-- No position is more than one visit ahead of another. -/
theorem visits_le_succ (hStart : start < n) {i j : Nat} (hi : i < n) (hj : j < n) (rounds : Nat) :
    visits n start rounds i ≤ visits n start rounds j + 1 := by
  rw [visits_eq hStart hi, visits_eq hStart hj]
  split <;> split <;> omega

end Cycle
