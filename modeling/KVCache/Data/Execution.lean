import Mathlib.Data.List.Basic

/-! Rules for fallible programs and for their loops. A loop is the fold of its
body; its rule asks for what one iteration preserves and gives what the whole
loop preserves. -/

namespace Execution

universe u v

variable {α β : Type u} {ε : Type v}

/-- A sequence of two fallible programs succeeds when both parts do. -/
theorem bind_eq_ok {x : Except ε α} {f : α → Except ε β} {b : β} :
    (x >>= f) = .ok b ↔ ∃ a, x = .ok a ∧ f a = .ok b := by
  cases x with
  | error e => simp [bind, Except.bind]
  | ok a => simp [bind, Except.bind]

@[simp] theorem pure_eq_ok {a b : α} : (pure a : Except ε α) = .ok b ↔ a = b := by
  simp [pure, Except.pure]

/-- What follows the first part of a program can be mapped on its own. -/
theorem map_bind {γ : Type u} (x : Except ε α) (f : α → Except ε β) (g : β → γ) :
    (x >>= f).map g = x >>= fun a => (f a).map g := by
  cases x <;> rfl

/-- The result of the first part can be mapped where it is used. -/
theorem bind_map {γ : Type u} (x : Except ε α) (f : α → β) (g : β → Except ε γ) :
    x.map f >>= g = x >>= fun a => g (f a) := by
  cases x <;> rfl

/-- A loop whose body commutes with a map of the state. -/
theorem foldlM_map {f : β → α → Except ε β} {g : β → β} {xs : List α}
    (hBody : ∀ b, ∀ x ∈ xs, f (g b) x = (f b x).map g) (b : β) :
    xs.foldlM f (g b) = (xs.foldlM f b).map g := by
  induction xs generalizing b with
  | nil => rfl
  | cons x rest ih =>
      have hRest : ∀ b, ∀ x ∈ rest, f (g b) x = (f b x).map g :=
        fun b x hx => hBody b x (List.mem_cons_of_mem _ hx)
      rw [List.foldlM_cons, List.foldlM_cons, hBody b x List.mem_cons_self]
      cases f b x with
      | error e => rfl
      | ok b' => exact ih hRest b'

/-- A program that was seen to succeed with a result as expected. -/
theorem ok_of_check {x : Except ε α} (p : α → Bool)
    (h : (match x with | .ok a => p a | .error _ => false) = true) : ∃ a, x = .ok a ∧ p a = true := by
  cases x with
  | error e => cases h
  | ok a => exact ⟨a, rfl, h⟩

/-- The list rule: `P rest state` holds while `rest` is still to be visited. -/
theorem foldlM_rule {f : β → α → Except ε β} (P : List α → β → Prop)
    (hStep : ∀ x rest b b', P (x :: rest) b → f b x = .ok b' → P rest b')
    {xs : List α} {b b' : β} (hRun : xs.foldlM f b = .ok b') (hStart : P xs b) : P [] b' := by
  induction xs generalizing b with
  | nil =>
      have : b = b' := by simpa using hRun
      exact this ▸ hStart
  | cons x rest ih =>
      rw [List.foldlM_cons, bind_eq_ok] at hRun
      obtain ⟨middle, hFirst, hRest⟩ := hRun
      exact ih hRest (hStep x rest b middle hStart hFirst)

theorem foldl_rule {f : β → α → β} (P : List α → β → Prop)
    (hStep : ∀ x rest b, P (x :: rest) b → P rest (f b x))
    {xs : List α} {b : β} (hStart : P xs b) : P [] (xs.foldl f b) := by
  induction xs generalizing b with
  | nil => exact hStart
  | cons x rest ih => exact ih (hStep x rest b hStart)

/-- The counting rule: `P i state` holds after the iterations below `i`. -/
theorem foldl_range_rule {f : β → Nat → β} (P : Nat → β → Prop) (count : Nat)
    (hStep : ∀ i b, i < count → P i b → P (i + 1) (f b i)) {b : β} (hStart : P 0 b) :
    P count ((List.range count).foldl f b) := by
  induction count with
  | zero => exact hStart
  | succ count ih =>
      rw [List.range_succ, List.foldl_append]
      exact hStep count _ (Nat.lt_succ_self _)
        (ih fun i b hi => hStep i b (Nat.lt_succ_of_lt hi))

/-- The same for a fallible body that never fails while `P` holds. -/
theorem foldlM_range_total {f : β → Nat → Except ε β} (P : Nat → β → Prop) (count : Nat)
    (hStep : ∀ i b, i < count → P i b → ∃ b', f b i = .ok b' ∧ P (i + 1) b') {b : β}
    (hStart : P 0 b) : ∃ b', (List.range count).foldlM f b = .ok b' ∧ P count b' := by
  induction count with
  | zero => exact ⟨b, rfl, hStart⟩
  | succ count ih =>
      obtain ⟨middle, hRun, hMiddle⟩ := ih fun i b hi => hStep i b (Nat.lt_succ_of_lt hi)
      obtain ⟨b', hLast, hEnd⟩ := hStep count middle (Nat.lt_succ_self _) hMiddle
      refine ⟨b', ?_, hEnd⟩
      rw [List.range_succ, List.foldlM_append, bind_eq_ok]
      exact ⟨middle, hRun, by simpa using hLast⟩

/-- A loop whose body never fails. -/
theorem foldlM_total {f : β → α → Except ε β} (hBody : ∀ b x, ∃ b', f b x = .ok b') (xs : List α)
    (b : β) : ∃ b', xs.foldlM f b = .ok b' := by
  induction xs generalizing b with
  | nil => exact ⟨b, rfl⟩
  | cons x rest ih =>
      obtain ⟨middle, hFirst⟩ := hBody b x
      obtain ⟨b', hRest⟩ := ih middle
      exact ⟨b', by rw [List.foldlM_cons, bind_eq_ok]; exact ⟨middle, hFirst, hRest⟩⟩

/-! ### How a program can stop -/

/-- A program does not stop for one of the given reasons. -/
def Avoids (S : ε → Prop) (x : Except ε α) : Prop := ∀ e, x = .error e → ¬S e

namespace Avoids

variable {S : ε → Prop} {x : Except ε α}

theorem ok (a : α) : Avoids S (.ok a) := by
  intro e h
  cases h

theorem error {e : ε} (h : ¬S e) : Avoids S (.error e : Except ε α) := by
  intro e' hEq
  obtain rfl := Except.error.inj hEq
  exact h

theorem bind {f : α → Except ε β} (hFirst : Avoids S x)
    (hNext : ∀ a, x = .ok a → Avoids S (f a)) : Avoids S (x >>= f) := by
  intro e h
  cases hx : x with
  | error e' =>
      rw [hx] at h
      obtain rfl := Except.error.inj h
      exact hFirst e' hx
  | ok a =>
      rw [hx] at h
      exact hNext a hx e h

/-- A program that does not stop for any reason has a result. -/
theorem total (h : Avoids (fun _ => True) x) : ∃ a, x = .ok a := by
  cases x with
  | error e => exact absurd trivial (h e rfl)
  | ok a => exact ⟨a, rfl⟩

theorem foldlM {f : β → α → Except ε β} (hBody : ∀ b a, Avoids S (f b a)) (xs : List α) (b : β) :
    Avoids S (xs.foldlM f b) := by
  induction xs generalizing b with
  | nil => exact .ok b
  | cons a rest ih =>
      rw [List.foldlM_cons]
      exact (hBody b a).bind fun b' _ => ih b'

/-- The same with an invariant of the loop. -/
theorem foldlM_rule {f : β → α → Except ε β} (P : List α → β → Prop)
    (hBody : ∀ a rest b, P (a :: rest) b → Avoids S (f b a))
    (hStep : ∀ a rest b b', P (a :: rest) b → f b a = .ok b' → P rest b')
    {xs : List α} {b : β} (hStart : P xs b) : Avoids S (xs.foldlM f b) := by
  induction xs generalizing b with
  | nil => exact .ok b
  | cons a rest ih =>
      rw [List.foldlM_cons]
      exact (hBody a rest b hStart).bind fun b' hRun => ih (hStep a rest b b' hStart hRun)

end Avoids

/-! ### Two versions of a program -/

/-- Whenever the first program succeeds, the second one has the same result. -/
def Agree (x y : Except ε α) : Prop := ∀ a, x = .ok a → y = .ok a

namespace Agree

variable {x y : Except ε α}

theorem refl (x : Except ε α) : Agree x x := fun _ h => h

theorem bind {f h : α → Except ε β} (hFirst : Agree x y) (hNext : ∀ a, Agree (f a) (h a)) :
    Agree (x >>= f) (y >>= h) := by
  intro b hRun
  obtain ⟨a, hx, hf⟩ := bind_eq_ok.mp hRun
  exact bind_eq_ok.mpr ⟨a, hFirst a hx, hNext a b hf⟩

theorem foldlM {f h : β → α → Except ε β} (hBody : ∀ b a, Agree (f b a) (h b a)) (xs : List α)
    (b : β) : Agree (xs.foldlM f b) (xs.foldlM h b) := by
  induction xs generalizing b with
  | nil => exact refl _
  | cons a rest ih => exact (hBody b a).bind fun b' => ih b'

theorem ite {p : Prop} [Decidable p] {x' y' : Except ε α} (hThen : Agree x y)
    (hElse : Agree x' y') : Agree (if p then x else x') (if p then y else y') := by
  split
  · exact hThen
  · exact hElse

end Agree

end Execution
