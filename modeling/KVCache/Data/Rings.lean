import Mathlib

/-! Circular lists of nodes that are linked in both directions. The order of a
list is not stored anywhere: it is what the links say from the head on, until
they lead back to it. A change of the links that no node of a list takes part
in leaves the list as it was. -/

/-- The links of all nodes. -/
structure Links (α : Type*) where
  next : α → α
  prev : α → α

namespace Links

variable {α : Type*} {l l' : Links α} {head x : α} {xs ys : List α}

/-- `b` follows `a`, and `a` precedes `b`. -/
def Joined (l : Links α) (a b : α) : Prop := l.next a = b ∧ l.prev b = a

/-- Both links of a node lead back to it. -/
def Alone (l : Links α) (x : α) : Prop := l.next x = x ∧ l.prev x = x

/-- Two memories agree on a node. -/
def AgreeAt (l l' : Links α) (x : α) : Prop := l'.next x = l.next x ∧ l'.prev x = l.prev x

/-- The links lead from `head` through `xs`, in this order, back to `head`. -/
structure Ring (l : Links α) (head : α) (xs : List α) : Prop where
  nodup : (head :: xs).Nodup
  chain : (head :: (xs ++ [head])).IsChain l.Joined

theorem Alone.congr (h : l.Alone x) (hAgree : l.AgreeAt l' x) : l'.Alone x :=
  ⟨hAgree.1.trans h.1, hAgree.2.trans h.2⟩

/-- A chain does not read the link before its first node or after its last one. -/
theorem chain_congr (h : xs.IsChain l.Joined) (hNext : ∀ a ∈ xs.dropLast, l'.next a = l.next a)
    (hPrev : ∀ b ∈ xs.tail, l'.prev b = l.prev b) : xs.IsChain l'.Joined := by
  induction xs with
  | nil => exact .nil
  | cons a rest ih =>
      cases rest with
      | nil => exact .singleton a
      | cons b rest =>
          obtain ⟨hJoined, hRest⟩ := List.isChain_cons_cons.mp h
          have hFirst : l'.Joined a b :=
            ⟨(hNext a (by simp)).trans hJoined.1, (hPrev b (by simp)).trans hJoined.2⟩
          refine List.isChain_cons_cons.mpr ⟨hFirst, ih hRest ?_ ?_⟩
          · intro y hy
            apply hNext
            rw [List.dropLast_cons_cons]
            exact List.mem_cons_of_mem a hy
          · intro y hy
            apply hPrev
            exact List.mem_of_mem_tail hy

namespace Ring

/-- What follows the head. -/
theorem next_head (h : Ring l head xs) : l.next head = xs.headD head := by
  cases xs with
  | nil => exact (List.isChain_cons_cons.mp h.chain).1.1
  | cons x rest => exact (List.isChain_cons_cons.mp h.chain).1.1

/-- What follows a member. -/
theorem next_mem (h : Ring l head (xs ++ x :: ys)) : l.next x = ys.headD head := by
  have hChain := h.chain
  rw [List.append_assoc, List.cons_append, ← List.cons_append] at hChain
  cases ys with
  | nil => exact (List.isChain_append_cons_cons.mp hChain).2.1.1
  | cons y rest => exact (List.isChain_append_cons_cons.mp hChain).2.1.1

theorem head_notMem (h : Ring l head xs) : head ∉ xs := (List.nodup_cons.mp h.nodup).1

theorem nodup_members (h : Ring l head xs) : xs.Nodup := (List.nodup_cons.mp h.nodup).2

/-- The cycle read from the first member on. -/
theorem nodup_rotated (h : Ring l head xs) : (xs ++ [head]).Nodup :=
  (List.perm_append_singleton head xs).nodup_iff.mpr h.nodup

theorem next_head_mem (h : Ring l head xs) : l.next head ∈ head :: xs := by
  rw [h.next_head]
  cases xs with
  | nil => simp
  | cons x rest => simp

/-- A member is never alone. -/
theorem next_ne (h : Ring l head xs) (hx : x ∈ xs) : l.next x ≠ x := by
  obtain ⟨as, bs, rfl⟩ := List.append_of_mem hx
  have hNodup := h.nodup
  rw [h.next_mem]
  intro hEq
  cases bs with
  | nil =>
      obtain rfl : head = x := hEq
      exact h.head_notMem hx
  | cons y rest =>
      obtain rfl : y = x := hEq
      simp [List.nodup_append] at hNodup

theorem not_alone (h : Ring l head xs) (hx : x ∈ xs) : ¬l.Alone x := fun hAlone =>
  h.next_ne hx hAlone.1

theorem nil_iff : Ring l head [] ↔ l.Alone head := by
  constructor
  · intro h
    exact (List.isChain_cons_cons.mp h.chain).1
  · intro h
    exact ⟨List.nodup_singleton head, List.isChain_cons_cons.mpr ⟨h, .singleton head⟩⟩

/-- The links determine the list. -/
theorem unique (h : Ring l head xs) (h' : Ring l head ys) : xs = ys := by
  suffices hSuffix : ∀ (as xs ys : List α), Ring l head (as ++ xs) → Ring l head (as ++ ys) →
      xs.headD head = ys.headD head → xs = ys from
    hSuffix [] xs ys h h' (h.next_head.symm.trans h'.next_head)
  intro as xs ys hx hy hFirst
  induction xs generalizing as ys with
  | nil =>
      cases ys with
      | nil => rfl
      | cons y ys =>
          obtain rfl : head = y := hFirst
          exact absurd (by simp) hy.head_notMem
  | cons x xs ih =>
      cases ys with
      | nil =>
          obtain rfl : x = head := hFirst
          exact absurd (by simp) hx.head_notMem
      | cons y ys =>
          obtain rfl : x = y := hFirst
          have hRest := ih (as ++ [x]) ys (by simpa using hx) (by simpa using hy)
            (hx.next_mem.symm.trans hy.next_mem)
          rw [hRest]

/-- A list whose nodes kept their links. -/
theorem congr (h : Ring l head xs) (hAgree : ∀ a ∈ head :: xs, l.AgreeAt l' a) :
    Ring l' head xs := by
  refine ⟨h.nodup, chain_congr h.chain ?_ ?_⟩
  · intro a ha
    refine (hAgree a ?_).1
    rw [← List.cons_append, List.dropLast_concat] at ha
    exact ha
  · intro b hb
    refine (hAgree b ?_).2
    simpa [or_comm] using hb

/-! ### Insertion and removal -/

/-- The links after `x` was put right behind the head. -/
structure Inserts (l l' : Links α) (head x : α) : Prop where
  next_head : l'.next head = x
  prev_new : l'.prev x = head
  next_new : l'.next x = l.next head
  prev_first : l'.prev (l.next head) = x
  next_eq : ∀ a, a ≠ head → a ≠ x → l'.next a = l.next a
  prev_eq : ∀ b, b ≠ l.next head → b ≠ x → l'.prev b = l.prev b

theorem insert (h : Ring l head xs) (hNew : x ∉ head :: xs) (hSet : Inserts l l' head x) :
    Ring l' head (x :: xs) := by
  obtain ⟨first, rest, hRest⟩ : ∃ first rest, xs ++ [head] = first :: rest :=
    List.exists_cons_of_ne_nil (by simp)
  have hChain := h.chain
  rw [hRest] at hChain
  obtain ⟨hFirst, hTail⟩ := List.isChain_cons_cons.mp hChain
  have hNodup : (first :: rest).Nodup := hRest ▸ h.nodup_rotated
  have hx : x ∉ first :: rest := by
    rw [← hRest]
    simpa [or_comm] using hNew
  have hTail' : (first :: rest).IsChain l'.Joined := by
    refine chain_congr hTail ?_ ?_
    · intro a ha
      have haMem : a ∈ xs := by
        rw [← hRest, List.dropLast_concat] at ha
        exact ha
      refine hSet.next_eq a ?_ ?_
      · rintro rfl
        exact h.head_notMem haMem
      · rintro rfl
        exact hNew (List.mem_cons_of_mem head haMem)
    · intro b hb
      refine hSet.prev_eq b ?_ ?_
      · rw [hFirst.1]
        rintro rfl
        exact (List.nodup_cons.mp hNodup).1 hb
      · rintro rfl
        exact hx (List.mem_cons_of_mem first hb)
  have hSecond : l'.Joined x first := by
    rw [← hFirst.1]
    exact ⟨hSet.next_new, hSet.prev_first⟩
  refine ⟨?_, ?_⟩
  · rw [List.nodup_cons, List.nodup_cons]
    simp only [List.mem_cons, not_or] at hNew ⊢
    exact ⟨⟨Ne.symm hNew.1, h.head_notMem⟩, hNew.2, h.nodup_members⟩
  · rw [List.cons_append, hRest]
    exact List.isChain_cons_cons.mpr ⟨⟨hSet.next_head, hSet.prev_new⟩,
      List.isChain_cons_cons.mpr ⟨hSecond, hTail'⟩⟩

/-- The links after the neighbours of `x` were joined. -/
structure Removes (l l' : Links α) (x : α) : Prop where
  next_before : l'.next (l.prev x) = l.next x
  prev_after : l'.prev (l.next x) = l.prev x
  next_eq : ∀ a, a ≠ l.prev x → a ≠ x → l'.next a = l.next a
  prev_eq : ∀ b, b ≠ l.next x → b ≠ x → l'.prev b = l.prev b

/-- The cycle cut at a member, into the part that leads to it and the part that
leads back to the head. Only the head is in both parts. -/
structure Cut (l : Links α) (head x : α) (as bs : List α) : Prop where
  front : (head :: as).IsChain l.Joined
  back : (bs ++ [head]).IsChain l.Joined
  before : (head :: as).getLast? = some (l.prev x)
  after : (bs ++ [head]).head? = some (l.next x)
  nodup_front : (head :: as).Nodup
  nodup_back : (bs ++ [head]).Nodup
  notMem_front : x ∉ head :: as
  notMem_back : x ∉ bs ++ [head]
  apart_front : ∀ a ∈ as, a ∉ bs ++ [head]
  apart_back : ∀ b ∈ bs, b ∉ head :: as

theorem cut {as bs : List α} (h : Ring l head (as ++ x :: bs)) : Cut l head x as bs := by
  have hChain := h.chain
  rw [List.append_assoc, List.cons_append, ← List.cons_append] at hChain
  obtain ⟨hFront, hRest, hIn⟩ := List.isChain_append.mp hChain
  obtain ⟨hOut, hBack⟩ := List.isChain_cons.mp hRest
  have hNodup := h.nodup
  simp only [List.nodup_cons, List.nodup_append, List.mem_append, List.mem_cons, not_or] at hNodup
  obtain ⟨⟨hHeadAs, hHeadX, hHeadBs⟩, hAs, ⟨hXBs, hBs⟩, hApart⟩ := hNodup
  have hXAs : x ∉ as := fun hMem => hApart x hMem x (.inl rfl) rfl
  have hAsBs : ∀ a ∈ as, a ∉ bs := fun a ha hMem => hApart a ha a (.inr hMem) rfl
  refine ⟨hFront, hBack, ?_, ?_, List.nodup_cons.mpr ⟨hHeadAs, hAs⟩, ?_, ?_, ?_, ?_, ?_⟩
  · obtain ⟨before, hBefore⟩ := Option.isSome_iff_exists.mp
      (List.getLast?_isSome.mpr (List.cons_ne_nil head as))
    rw [hBefore, (hIn before hBefore x rfl).2]
  · obtain ⟨after, hAfter⟩ := Option.isSome_iff_exists.mp
      (List.isSome_head?.mpr (List.append_ne_nil_of_right_ne_nil bs (List.cons_ne_nil head [])))
    rw [hAfter, (hOut after hAfter).1]
  · exact (List.perm_append_singleton head bs).nodup_iff.mpr (List.nodup_cons.mpr ⟨hHeadBs, hBs⟩)
  · simp [Ne.symm hHeadX, hXAs]
  · simp [Ne.symm hHeadX, hXBs]
  · intro a ha
    have hne : a ≠ head := fun hEq => hHeadAs (hEq ▸ ha)
    simp [hAsBs a ha, hne]
  · intro b hb
    have hne : b ≠ head := fun hEq => hHeadBs (hEq ▸ hb)
    simpa [hne] using fun hMem => hAsBs b hMem hb

/-- The last element of a list without repetitions is not among the others. -/
theorem notMem_dropLast {zs : List α} (hNodup : zs.Nodup) {last : α} (hLast : zs.getLast? = some last) :
    last ∉ zs.dropLast := by
  rw [List.dropLast_append_getLast? last hLast |>.symm] at hNodup
  intro hMem
  exact (List.nodup_append.mp hNodup).2.2 last hMem last (List.mem_singleton_self last) rfl

theorem Cut.front_congr {as bs : List α} (h : Cut l head x as bs) (hSet : Removes l l' x) :
    (head :: as).IsChain l'.Joined := by
  refine chain_congr h.front ?_ ?_
  · intro a ha
    refine hSet.next_eq a ?_ ?_
    · rintro rfl
      exact notMem_dropLast h.nodup_front h.before ha
    · rintro rfl
      exact h.notMem_front (List.mem_of_mem_dropLast ha)
  · intro b hb
    rw [List.tail_cons] at hb
    refine hSet.prev_eq b ?_ ?_
    · rintro rfl
      exact h.apart_front _ hb (List.mem_of_mem_head? h.after)
    · rintro rfl
      exact h.notMem_front (List.mem_cons_of_mem head hb)

theorem Cut.back_congr {as bs : List α} (h : Cut l head x as bs) (hSet : Removes l l' x) :
    (bs ++ [head]).IsChain l'.Joined := by
  refine chain_congr h.back ?_ ?_
  · intro a ha
    rw [List.dropLast_concat] at ha
    refine hSet.next_eq a ?_ ?_
    · rintro rfl
      exact h.apart_back _ ha (List.mem_of_getLast? h.before)
    · rintro rfl
      exact h.notMem_back (List.mem_append_left [head] ha)
  · intro b hb
    refine hSet.prev_eq b ?_ ?_
    · rintro rfl
      have hNodup := h.nodup_back
      rw [← List.cons_head?_tail h.after] at hNodup
      exact (List.nodup_cons.mp hNodup).1 hb
    · rintro rfl
      exact h.notMem_back (List.mem_of_mem_tail hb)

theorem remove [DecidableEq α] (h : Ring l head xs) (hx : x ∈ xs) (hSet : Removes l l' x) :
    Ring l' head (xs.erase x) := by
  obtain ⟨as, bs, rfl⟩ := List.append_of_mem hx
  have hCut := h.cut
  have hXAs : x ∉ as := fun hMem => hCut.notMem_front (List.mem_cons_of_mem head hMem)
  rw [List.erase_append_right _ hXAs, List.erase_cons_head]
  refine ⟨?_, ?_⟩
  · have hSub : (head :: (as ++ bs)).Sublist (head :: (as ++ x :: bs)) :=
      .cons_cons head (.append_left (List.sublist_cons_self x bs) as)
    exact h.nodup.sublist hSub
  · rw [List.append_assoc, ← List.cons_append]
    refine List.isChain_append.mpr ⟨hCut.front_congr hSet, hCut.back_congr hSet, ?_⟩
    intro before hBefore after hAfter
    obtain rfl : l.prev x = before := Option.some.inj (hCut.before.symm.trans hBefore)
    obtain rfl : l.next x = after := Option.some.inj (hCut.after.symm.trans hAfter)
    exact ⟨hSet.next_before, hSet.prev_after⟩

/-- An insertion is not seen outside of the list and the new node. -/
theorem Inserts.agreeAt (hSet : Inserts l l' head x) (h : Ring l head xs) {a : α}
    (ha : a ∉ head :: xs) (hne : a ≠ x) : l.AgreeAt l' a := by
  constructor
  · exact hSet.next_eq a (fun hEq => ha (hEq ▸ List.mem_cons_self)) hne
  · exact hSet.prev_eq a (fun hEq => ha (hEq ▸ h.next_head_mem)) hne

/-- A removal is not seen outside of the list. -/
theorem Removes.agreeAt (hSet : Removes l l' x) (h : Ring l head xs) (hx : x ∈ xs) {a : α}
    (ha : a ∉ head :: xs) : l.AgreeAt l' a := by
  obtain ⟨as, bs, rfl⟩ := List.append_of_mem hx
  have hBefore : l.prev x ∈ head :: as := List.mem_of_getLast? h.cut.before
  have hAfter : l.next x ∈ bs ++ [head] := List.mem_of_mem_head? h.cut.after
  have hne : a ≠ x := by
    rintro rfl
    exact ha (List.mem_cons_of_mem head hx)
  constructor
  · refine hSet.next_eq a ?_ hne
    rintro rfl
    exact ha (List.cons_subset_cons head (List.subset_append_left as (x :: bs)) hBefore)
  · refine hSet.prev_eq a ?_ hne
    rintro rfl
    refine ha ?_
    rcases List.mem_append.mp hAfter with hMem | hMem
    · exact List.mem_cons_of_mem head (List.mem_append_right as (List.mem_cons_of_mem x hMem))
    · rw [List.mem_singleton.mp hMem]
      exact List.mem_cons_self

end Ring

/-! ### Several lists -/

/-- Any number of lists, given by their heads. No two of them share a node. -/
structure Rings (l : Links α) (heads : Set α) (members : α → List α) : Prop where
  ring : ∀ p ∈ heads, l.Ring p (members p)
  disjoint : ∀ p ∈ heads, ∀ q ∈ heads, p ≠ q → (p :: members p).Disjoint (q :: members q)

namespace Rings

variable {heads : Set α} {members : α → List α}

/-- A node that is alone and not a head is on no list. -/
theorem notMem_of_alone (h : Rings l heads members) (hHead : x ∉ heads) (hAlone : l.Alone x)
    {p : α} (hp : p ∈ heads) : x ∉ p :: members p := by
  intro hMem
  rcases List.mem_cons.mp hMem with rfl | hMem
  · exact hHead hp
  · exact (h.ring p hp).not_alone hMem hAlone

/-- Lists none of whose nodes was written. -/
theorem congr (h : Rings l heads members)
    (hAgree : ∀ p ∈ heads, ∀ a ∈ p :: members p, l.AgreeAt l' a) : Rings l' heads members :=
  ⟨fun p hp => (h.ring p hp).congr (hAgree p hp), h.disjoint⟩

/-- Lists that kept their links, in a memory where some other list changed. -/
theorem congr_off (h : Rings l heads members) (hHead : head ∈ heads)
    (hAgree : ∀ p ∈ heads, p ≠ head → ∀ a ∈ p :: members p, a ∉ head :: members head →
      l.AgreeAt l' a) {p : α} (hp : p ∈ heads) (hne : p ≠ head) : l'.Ring p (members p) := by
  refine (h.ring p hp).congr fun a ha => hAgree p hp hne a ha ?_
  exact h.disjoint p hp head hHead hne ha

variable [DecidableEq α]

theorem insert (h : Rings l heads members) (hHead : head ∈ heads) (hx : x ∉ heads)
    (hAlone : l.Alone x) (hSet : Ring.Inserts l l' head x) :
    Rings l' heads (Function.update members head (x :: members head)) := by
  have hNew : ∀ p ∈ heads, x ∉ p :: members p := fun p hp => h.notMem_of_alone hx hAlone hp
  -- the new node makes the head's list longer and is on no other one
  have hCons : ∀ q ∈ heads, q ≠ head →
      (head :: x :: members head).Disjoint (q :: members q) := by
    intro q hq hne a ha haq
    rcases List.mem_cons.mp ha with rfl | ha
    · exact h.disjoint q hq a hHead hne haq List.mem_cons_self
    · rcases List.mem_cons.mp ha with rfl | ha
      · exact hNew q hq haq
      · exact h.disjoint q hq head hHead hne haq (List.mem_cons_of_mem head ha)
  refine ⟨?_, ?_⟩
  · intro p hp
    by_cases hEq : p = head
    · subst p
      rw [Function.update_self]
      exact (h.ring head hHead).insert (hNew head hHead) hSet
    · rw [Function.update_of_ne hEq]
      refine h.congr_off hHead (fun q hq _ a ha hOff => ?_) hp hEq
      refine hSet.agreeAt (h.ring head hHead) hOff ?_
      rintro rfl
      exact hNew q hq ha
  · intro p hp q hq hne
    by_cases hpHead : p = head
    · subst p
      rw [Function.update_self, Function.update_of_ne (Ne.symm hne)]
      exact hCons q hq (Ne.symm hne)
    · rw [Function.update_of_ne hpHead]
      by_cases hqHead : q = head
      · subst q
        rw [Function.update_self]
        exact (hCons p hp hne).symm
      · rw [Function.update_of_ne hqHead]
        exact h.disjoint p hp q hq hne

theorem remove (h : Rings l heads members) (hHead : head ∈ heads) (hx : x ∈ members head)
    (hSet : Ring.Removes l l' x) : Rings l' heads fun p => (members p).erase x := by
  have hOther : ∀ p ∈ heads, p ≠ head → (members p).erase x = members p := by
    intro p hp hne
    refine List.erase_of_not_mem fun hMem => ?_
    exact h.disjoint p hp head hHead hne (List.mem_cons_of_mem p hMem)
      (List.mem_cons_of_mem head hx)
  refine ⟨?_, ?_⟩
  · intro p hp
    by_cases hEq : p = head
    · subst p
      exact (h.ring head hHead).remove hx hSet
    · show l'.Ring p ((members p).erase x)
      rw [hOther p hp hEq]
      exact h.congr_off hHead (fun q _ _ a _ hOff => hSet.agreeAt (h.ring head hHead) hx hOff) hp hEq
  · intro p hp q hq hne a hap haq
    exact h.disjoint p hp q hq hne (List.cons_subset_cons p List.erase_subset hap)
      (List.cons_subset_cons q List.erase_subset haq)

/-- A node that is alone and on no list becomes the head of an empty one. -/
theorem create (h : Rings l heads members) (hAlone : l.Alone x)
    (hNew : ∀ p ∈ heads, x ∉ p :: members p) :
    Rings l (Set.insert x heads) (Function.update members x []) := by
  have hne : ∀ p ∈ heads, p ≠ x := by
    rintro p hp rfl
    exact hNew p hp List.mem_cons_self
  refine ⟨?_, ?_⟩
  · rintro p (rfl | hp)
    · rw [Function.update_self]
      exact Ring.nil_iff.mpr hAlone
    · rw [Function.update_of_ne (hne p hp)]
      exact h.ring p hp
  · rintro p (rfl | hp) q (rfl | hq) hpq
    · exact absurd rfl hpq
    · rw [Function.update_self, Function.update_of_ne (hne q hq), List.singleton_disjoint]
      exact hNew q hq
    · rw [Function.update_self, Function.update_of_ne (hne p hp), List.disjoint_singleton]
      exact hNew p hp
    · rw [Function.update_of_ne (hne p hp), Function.update_of_ne (hne q hq)]
      exact h.disjoint p hp q hq hpq

end Rings

end Links
