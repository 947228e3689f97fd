import Mathlib.Algebra.Order.Group.Multiset
import Mathlib.Data.Multiset.Sort

/-! Priority queues by their contract. The top of a queue is a largest element;
which one of several it is remains open. A scan with a bounded queue keeps
lightest elements of what it has seen, and popping a queue until it is empty
gives its elements in descending order. -/

variable {α β : Type} [LinearOrder β]

/-- An implementation of a queue, with the multiset of its elements. -/
structure PriorityQueue (weight : α → β) where
  Queue : Type
  empty : Queue
  size : Queue → Nat
  top : Queue → Option α
  push : α → Queue → Queue
  pop : Queue → Queue
  contents : Queue → Multiset α
  contents_empty : contents empty = 0
  size_eq : ∀ q, size q = Multiset.card (contents q)
  contents_push : ∀ a q, contents (push a q) = a ::ₘ contents q
  top_eq_none : ∀ q, top q = none → contents q = 0
  top_max : ∀ q a, top q = some a → ∀ b ∈ contents q, weight b ≤ weight a
  contents_pop : ∀ q a, top q = some a → contents q = a ::ₘ contents (pop q)

namespace PriorityQueue

variable {weight : α → β} {k : Nat} {seen kept : Multiset α}

/-- As many elements as the bound allows, and no heavier ones than those left
out. -/
def Lightest (weight : α → β) (k : Nat) (seen kept : Multiset α) : Prop :=
  ∃ left, kept + left = seen ∧ Multiset.card kept = min k (Multiset.card seen) ∧
    ∀ x ∈ kept, ∀ y ∈ left, weight x ≤ weight y

namespace Lightest

theorem zero (weight : α → β) (k : Nat) : Lightest weight k 0 0 := by
  refine ⟨0, by simp, by simp, ?_⟩
  intro x hx
  simp at hx

/-- While there is room, an element is added. -/
theorem add (h : Lightest weight k seen kept) (hRoom : Multiset.card kept < k) (a : α) :
    Lightest weight k (a ::ₘ seen) (a ::ₘ kept) := by
  obtain ⟨left, hSplit, hCard, hOrder⟩ := h
  have hTotal := congrArg Multiset.card hSplit
  rw [Multiset.card_add] at hTotal
  have hLeft : left = 0 := Multiset.card_eq_zero.mp (by omega)
  subst left
  refine ⟨0, by simp [← hSplit], ?_, fun x _ y hy => absurd hy (Multiset.notMem_zero y)⟩
  simp only [Multiset.card_cons]
  omega

/-- Without room, a lighter element takes the place of a heaviest one. -/
theorem replace {a top : α} {rest : Multiset α} (h : Lightest weight k seen (top ::ₘ rest))
    (hFull : k ≤ Multiset.card (top ::ₘ rest)) (hMax : ∀ b ∈ rest, weight b ≤ weight top)
    (hLess : weight a < weight top) : Lightest weight k (a ::ₘ seen) (a ::ₘ rest) := by
  obtain ⟨left, hSplit, hCard, hOrder⟩ := h
  refine ⟨top ::ₘ left, ?_, ?_, ?_⟩
  · rw [← hSplit]
    simp only [Multiset.cons_add, Multiset.add_cons]
    exact Multiset.cons_swap top a _
  · simp only [Multiset.card_cons] at hFull hCard ⊢
    omega
  · intro x hx y hy
    have hTop : weight x ≤ weight top := by
      rcases Multiset.mem_cons.mp hx with rfl | hx
      · exact hLess.le
      · exact hMax x hx
    rcases Multiset.mem_cons.mp hy with rfl | hy
    · exact hTop
    · exact hTop.trans (hOrder top (Multiset.mem_cons_self top rest) y hy)

/-- An element that is no lighter than a heaviest one is left out. -/
theorem skip {a top : α} (h : Lightest weight k seen kept) (hFull : k ≤ Multiset.card kept)
    (hMax : ∀ b ∈ kept, weight b ≤ weight top) (hMore : weight top ≤ weight a) :
    Lightest weight k (a ::ₘ seen) kept := by
  obtain ⟨left, hSplit, hCard, hOrder⟩ := h
  refine ⟨a ::ₘ left, ?_, ?_, ?_⟩
  · rw [← hSplit, Multiset.add_cons]
  · simp only [Multiset.card_cons]
    omega
  · intro x hx y hy
    rcases Multiset.mem_cons.mp hy with rfl | hy
    · exact (hMax x hx).trans hMore
    · exact hOrder x hx y hy

end Lightest

/-! ### Scanning -/

/-- One element of a scan: it is pushed while there is room, and else in place
of the top, if it is lighter. Without room there has to be a top. -/
def offer (Q : PriorityQueue weight) (room : Nat → Bool) (q : Q.Queue) (a : α) : Option Q.Queue :=
  if room (Q.size q) then some (Q.push a q)
  else
    match Q.top q with
    | none => none
    | some top => some (if weight a < weight top then Q.push a (Q.pop q) else q)

def scan (Q : PriorityQueue weight) (room : Nat → Bool) (xs : List α) : Option Q.Queue :=
  xs.foldlM (Q.offer room) Q.empty

variable {Q : PriorityQueue weight} {room : Nat → Bool}

section

variable {q : Q.Queue} {a top : α}

theorem offer_of_room (hRoom : room (Q.size q) = true) :
    Q.offer room q a = some (Q.push a q) := by
  rw [offer, if_pos hRoom]

theorem offer_of_none (hRoom : ¬room (Q.size q) = true) (hTop : Q.top q = none) :
    Q.offer room q a = none := by
  rw [offer, if_neg hRoom, hTop]

theorem offer_of_lt (hRoom : ¬room (Q.size q) = true) (hTop : Q.top q = some top)
    (hLess : weight a < weight top) : Q.offer room q a = some (Q.push a (Q.pop q)) := by
  simp only [offer, if_neg hRoom, hTop, if_pos hLess]

theorem offer_of_not_lt (hRoom : ¬room (Q.size q) = true) (hTop : Q.top q = some top)
    (hLess : ¬weight a < weight top) : Q.offer room q a = some q := by
  simp only [offer, if_neg hRoom, hTop, if_neg hLess]

end

theorem offer_lightest {q : Q.Queue} (hRoom : ∀ n, room n = true ↔ n < k) (hk : 1 ≤ k)
    (h : Lightest weight k seen (Q.contents q)) (a : α) :
    ∃ q', Q.offer room q a = some q' ∧ Lightest weight k (a ::ₘ seen) (Q.contents q') := by
  have hSize := Q.size_eq q
  by_cases hSpace : room (Q.size q) = true
  · refine ⟨Q.push a q, offer_of_room hSpace, ?_⟩
    rw [Q.contents_push]
    exact h.add (by rw [← hSize]; exact (hRoom _).mp hSpace) a
  · have hFull : k ≤ Multiset.card (Q.contents q) := by
      rw [← hSize]
      exact Nat.le_of_not_lt fun hLt => hSpace ((hRoom _).mpr hLt)
    cases hTop : Q.top q with
    | none =>
        rw [Q.top_eq_none q hTop] at hFull
        simp at hFull
        omega
    | some top =>
        have hMax := Q.top_max q top hTop
        have hPop := Q.contents_pop q top hTop
        by_cases hLess : weight a < weight top
        · refine ⟨_, offer_of_lt hSpace hTop hLess, ?_⟩
          rw [Q.contents_push]
          rw [hPop] at h hFull hMax
          exact h.replace hFull (fun b hb => hMax b (Multiset.mem_cons_of_mem hb)) hLess
        · refine ⟨q, offer_of_not_lt hSpace hTop hLess, ?_⟩
          exact h.skip hFull hMax (le_of_not_gt hLess)

/-- A scan ends, with lightest elements. -/
theorem scan_lightest (Q : PriorityQueue weight) (hRoom : ∀ n, room n = true ↔ n < k) (hk : 1 ≤ k)
    (xs : List α) : ∃ q, Q.scan room xs = some q ∧ Lightest weight k xs (Q.contents q) := by
  have hLoop : ∀ (rest : List α) (seen : Multiset α) (q : Q.Queue),
      Lightest weight k seen (Q.contents q) →
      ∃ q', rest.foldlM (Q.offer room) q = some q' ∧
        Lightest weight k (seen + rest) (Q.contents q') := by
    intro rest
    induction rest with
    | nil =>
        intro seen q h
        refine ⟨q, rfl, ?_⟩
        simpa using h
    | cons a rest ih =>
        intro seen q h
        obtain ⟨q₁, hOffer, h₁⟩ := offer_lightest hRoom hk h a
        obtain ⟨q', hRest, h'⟩ := ih (a ::ₘ seen) q₁ h₁
        refine ⟨q', by rw [List.foldlM_cons, hOffer]; exact hRest, ?_⟩
        rwa [← Multiset.cons_coe, Multiset.add_cons, ← Multiset.cons_add]
  obtain ⟨q, hScan, h⟩ := hLoop xs 0 Q.empty (by rw [Q.contents_empty]; exact .zero weight k)
  refine ⟨q, hScan, ?_⟩
  simpa using h

/-! ### Taking a queue apart -/

/-- `while (!q.empty()) q.pop()`, with the elements popped. -/
def drain (Q : PriorityQueue weight) : Nat → Q.Queue → List α
  | 0, _ => []
  | fuel + 1, q =>
      match Q.top q with
      | none => []
      | some a => a :: Q.drain fuel (Q.pop q)

theorem drain_contents {fuel : Nat} {q : Q.Queue} (hFuel : Q.size q ≤ fuel) :
    (Q.drain fuel q : Multiset α) = Q.contents q := by
  induction fuel generalizing q with
  | zero =>
      rw [Q.size_eq] at hFuel
      exact (Multiset.card_eq_zero.mp (Nat.le_zero.mp hFuel)).symm
  | succ fuel ih =>
      cases hTop : Q.top q with
      | none =>
          simp only [drain, hTop]
          exact (Q.top_eq_none q hTop).symm
      | some a =>
          have hPop := Q.contents_pop q a hTop
          have hRest : Q.size (Q.pop q) ≤ fuel := by
            rw [Q.size_eq, hPop, Multiset.card_cons] at hFuel
            rw [Q.size_eq]
            omega
          simp only [drain, hTop, ← Multiset.cons_coe, ih hRest]
          exact hPop.symm

/-- Elements come out in descending order. -/
theorem drain_sorted {fuel : Nat} {q : Q.Queue} (hFuel : Q.size q ≤ fuel) :
    (Q.drain fuel q).Pairwise fun a b => weight b ≤ weight a := by
  induction fuel generalizing q with
  | zero => exact .nil
  | succ fuel ih =>
      cases hTop : Q.top q with
      | none =>
          simp only [drain, hTop]
          exact .nil
      | some a =>
          have hPop := Q.contents_pop q a hTop
          have hRest : Q.size (Q.pop q) ≤ fuel := by
            rw [Q.size_eq, hPop, Multiset.card_cons] at hFuel
            rw [Q.size_eq]
            omega
          simp only [drain, hTop]
          refine .cons ?_ (ih hRest)
          intro b hb
          apply Q.top_max q a hTop
          rw [hPop, ← drain_contents hRest]
          exact Multiset.mem_cons_of_mem hb

end PriorityQueue
