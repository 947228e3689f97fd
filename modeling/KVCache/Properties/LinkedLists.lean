import KVCache.Semantics.LinkedLists
import KVCache.Semantics.State

/-! The linked lists behave as sequences. The neighbours of a node may coincide
with each other and with the head, but never with the node that is added or
removed; that is enough for the assignments to come in any of these cases to
the same links. -/

namespace KVCache

variable {h : Heap} {q : Sequences} {head x : Ptr} {xs : List Ptr}

namespace Heap

theorem initListHead_alone (h : Heap) (x : Ptr) : (h.initListHead x).Alone x := by
  constructor
  · exact Function.update_self x x h.next
  · exact Function.update_self x x h.prev

theorem initListHead_agreeAt {a : Ptr} (ha : a ≠ x) : h.AgreeAt (h.initListHead x) a := by
  constructor
  · exact Function.update_of_ne ha x h.next
  · exact Function.update_of_ne ha x h.prev

theorem listAdd_inserts (hHead : x ≠ head) (hFirst : h.next head ≠ x) :
    Links.Ring.Inserts h (h.listAdd x head) head x where
  next_head := by simp [listAdd, setNext, setPrev]
  prev_new := by simp [listAdd, setNext, setPrev, hHead.symm, hFirst.symm]
  next_new := by simp [listAdd, setNext, setPrev, hHead]
  prev_first := by simp [listAdd, setNext, setPrev, hHead.symm]
  next_eq := by
    intro a ha hne
    simp [listAdd, setNext, setPrev, ha, hne]
  prev_eq := by
    intro b hb hne
    simp [listAdd, setNext, setPrev, hHead.symm, hb, hne]

theorem listDel_removes (hNext : h.next x ≠ x) (hPrev : h.prev x ≠ x) :
    Links.Ring.Removes h (h.listDel x) x where
  next_before := by simp [listDel, setNext, setPrev, hPrev]
  prev_after := by simp [listDel, setNext, setPrev, hNext, hPrev.symm]
  next_eq := by
    intro a ha hne
    simp [listDel, setNext, setPrev, ha, hne]
  prev_eq := by
    intro b hb hne
    simp [listDel, setNext, setPrev, hPrev.symm, hb, hne]

theorem listDel_alone (h : Heap) (x : Ptr) : (h.listDel x).Alone x := by
  constructor <;> simp [listDel, setNext, setPrev]

theorem listEmpty_eq (hRing : h.Ring head xs) : h.listEmpty head = xs.isEmpty := by
  unfold listEmpty
  rw [hRing.next_head]
  cases xs with
  | nil => simp
  | cons x rest =>
      have hne : x ≠ head := fun hEq => hRing.head_notMem (hEq ▸ List.mem_cons_self)
      simpa using hne

theorem listFirstEntry_eq (hRing : h.Ring head (x :: xs)) (offset : Ptr) :
    h.listFirstEntry head offset = x - offset := by
  unfold listFirstEntry
  rw [hRing.next_head, List.headD_cons]

/-- The loop over the entries that are left, `done` being those behind it. -/
theorem forEachFrom_eq {σ : Type} {offset : Ptr} {body : Heap → σ → Ptr → Heap × σ}
    (done : List Ptr) {rest : List Ptr}
    (hBody : ∀ h s entry, h.Ring head (done ++ rest) → (body h s entry).1.Ring head (done ++ rest))
    (hRing : h.Ring head (done ++ rest)) {fuel : Nat} (hFuel : rest.length < fuel) (s : σ) :
    forEachFrom head offset body fuel h s (rest.headD head - offset) =
      some ((rest.map (· - offset)).foldl (fun r entry => body r.1 r.2 entry) (h, s)) := by
  induction rest generalizing done h s fuel with
  | nil =>
      obtain ⟨fuel, rfl⟩ := Nat.exists_eq_succ_of_ne_zero (Nat.ne_zero_of_lt hFuel)
      simp [forEachFrom]
  | cons x rest ih =>
      obtain ⟨fuel, rfl⟩ := Nat.exists_eq_succ_of_ne_zero (Nat.ne_zero_of_lt hFuel)
      have hx : x ≠ head := fun hEq => hRing.head_notMem (by simp [hEq])
      have hNext := hBody h s (x - offset) hRing
      have hLink : (body h s (x - offset)).1.next x = rest.headD head := hNext.next_mem
      rw [List.append_cons] at hBody hNext
      have hRest := ih (done ++ [x]) hBody hNext (Nat.lt_of_succ_lt_succ hFuel)
        (body h s (x - offset)).2
      simp only [forEachFrom, List.headD_cons, BitVec.sub_add_cancel, ne_eq, hx, not_false_eq_true,
        if_true, hLink, List.map_cons, List.foldl_cons]
      exact hRest

end Heap

namespace Sequences

theorem Held.ring (hq : q.Held h) (hHead : head ∈ q.heads) : h.Ring head (q.members head) :=
  Links.Rings.ring hq head hHead

/-! ### One operation -/

theorem Held.listAdd_inserts (hq : q.Held h) (hHead : head ∈ q.heads) (hx : q.Detached h x) :
    Links.Ring.Inserts h (h.listAdd x head) head x := by
  have hNew : x ∉ head :: q.members head := Links.Rings.notMem_of_alone hq hx.1 hx.2 hHead
  refine Heap.listAdd_inserts ?_ ?_
  · rintro rfl
    exact hNew List.mem_cons_self
  · rintro rfl
    exact hNew (hq.ring hHead).next_head_mem

theorem Held.listDel_removes (hq : q.Held h) (hHead : head ∈ q.heads) (hx : x ∈ q.members head) :
    Links.Ring.Removes h (h.listDel x) x := by
  have hRing := hq.ring hHead
  refine Heap.listDel_removes (hRing.next_ne hx) (fun hEq => ?_)
  obtain ⟨as, bs, hMembers⟩ := List.append_of_mem hx
  rw [hMembers] at hRing
  have hBefore := List.mem_of_getLast? hRing.cut.before
  rw [hEq] at hBefore
  exact hRing.cut.notMem_front hBefore

theorem Held.add (hq : q.Held h) (hHead : head ∈ q.heads) (hx : q.Detached h x) :
    ((ListOp.add x head).apply q).Held (h.listAdd x head) :=
  Links.Rings.insert hq hHead hx.1 hx.2 (hq.listAdd_inserts hHead hx)

theorem Held.del (hq : q.Held h) (hHead : head ∈ q.heads) (hx : x ∈ q.members head) :
    ((ListOp.del x).apply q).Held (h.listDel x) :=
  Links.Rings.remove hq hHead hx (hq.listDel_removes hHead hx)

/-- A list that an operation does not name. -/
theorem Held.erase_eq (hq : q.Held h) (hHead : head ∈ q.heads) (hx : x ∈ q.members head) {p : Ptr}
    (hp : p ∈ q.heads) (hne : p ≠ head) : (q.members p).erase x = q.members p := by
  refine List.erase_of_not_mem fun hMem => ?_
  exact Links.Rings.disjoint hq p hp head hHead hne (List.mem_cons_of_mem p hMem)
    (List.mem_cons_of_mem head hx)

theorem Held.init (hq : q.Held h) (hx : q.Unused x) : q.Held (h.initListHead x) := by
  refine Links.Rings.congr hq fun p hp a ha => Heap.initListHead_agreeAt ?_
  rintro rfl
  exact hx p hp ha

theorem Held.initList (hq : q.Held h) (hx : q.Unused x) :
    ((ListOp.initList x).apply q).Held (h.initListHead x) :=
  Links.Rings.create (hq.init hx) (h.initListHead_alone x) hx

/-- An empty list that is initialised again. -/
theorem Held.initList_again (hq : q.Held h) (hx : x ∈ q.heads) (hEmpty : q.members x = []) :
    ((ListOp.initList x).apply q).Held (h.initListHead x) := by
  have hApply : (ListOp.initList x).apply q = q := by
    simp only [ListOp.apply, ← hEmpty, Function.update_eq_self]
    rw [show Set.insert x q.heads = q.heads from Set.insert_eq_of_mem hx]
  rw [hApply]
  have hAlone : h.Alone x := Links.Ring.nil_iff.mp (hEmpty ▸ hq.ring hx)
  refine Links.Rings.congr hq fun p hp a ha => ?_
  by_cases hEq : a = x
  · subst a
    obtain ⟨hNext, hPrev⟩ := h.initListHead_alone x
    exact ⟨hNext.trans hAlone.1.symm, hPrev.trans hAlone.2.symm⟩
  · exact Heap.initListHead_agreeAt hEq

/-! ### Any sequence of operations -/

/-- The step lemma. -/
theorem Held.step (hq : q.Held h) {op : ListOp} (hLegal : op.Legal h q) :
    (op.apply q).Held (op.run h) := by
  cases op with
  | initList list =>
      rcases hLegal with hUnused | ⟨hHead, hEmpty⟩
      · exact hq.initList hUnused
      · exact hq.initList_again hHead hEmpty
  | initNode node => exact hq.init hLegal
  | add newh head => exact hq.add hLegal.1 hLegal.2
  | del entry =>
      obtain ⟨head, hHead, hEntry⟩ := hLegal
      exact hq.del hHead hEntry

/-- The run lemma. -/
theorem Held.run (hq : q.Held h) {ops : List ListOp} (hLegal : ListOp.LegalRun h q ops) :
    (ops.foldl ListOp.apply q).Held (ops.foldl ListOp.run h) := by
  induction ops generalizing h q with
  | nil => exact hq
  | cons op ops ih =>
      obtain ⟨hFirst, hRest⟩ := hLegal
      exact ih (hq.step hFirst) hRest

end Sequences

/-- Whatever lists the memory holds, the operations of `list.h` do to them what
they should do to sequences, and nothing to the other nodes. A loop over a list
ends, and its body sees the entries in order; it may change the memory if it
leaves this list alone. -/
theorem lists_refine_sequences (hq : q.Held h) :
    (∀ head ∈ q.heads, ∀ x, q.Detached h x →
      (h.listAdd x head).Ring head (x :: q.members head) ∧
        (∀ p ∈ q.heads, p ≠ head → (h.listAdd x head).Ring p (q.members p)) ∧
        ∀ a ∉ head :: q.members head, a ≠ x → h.AgreeAt (h.listAdd x head) a) ∧
    (∀ head ∈ q.heads, ∀ x ∈ q.members head,
      (h.listDel x).Ring head ((q.members head).erase x) ∧ q.Detached (h.listDel x) x ∧
        (∀ p ∈ q.heads, p ≠ head → (h.listDel x).Ring p (q.members p)) ∧
        ∀ a ∉ head :: q.members head, h.AgreeAt (h.listDel x) a) ∧
    (∀ head ∈ q.heads, h.listEmpty head = (q.members head).isEmpty) ∧
    (∀ head ∈ q.heads, ∀ x xs, q.members head = x :: xs →
      ∀ offset, h.listFirstEntry head offset + offset = x) ∧
    (∀ head ∈ q.heads, ∀ (σ : Type) (offset : Ptr) (body : Heap → σ → Ptr → Heap × σ),
      (∀ h s entry, h.Ring head (q.members head) →
        (body h s entry).1.Ring head (q.members head)) →
      ∀ fuel > (q.members head).length, ∀ s,
        Heap.listForEachWithEntry head offset body fuel h s =
          some (((q.members head).map (· - offset)).foldl
            (fun r entry => body r.1 r.2 entry) (h, s))) ∧
    ∀ ops, ListOp.LegalRun h q ops →
      (ops.foldl ListOp.apply q).Held (ops.foldl ListOp.run h) := by
  refine ⟨?_, ?_, ?_, ?_, ?_, ?_⟩
  · intro head hHead x hx
    have hAdd := hq.add hHead hx
    refine ⟨?_, ?_, ?_⟩
    · simpa [ListOp.apply] using hAdd.ring hHead
    · intro p hp hne
      simpa [ListOp.apply, hne] using hAdd.ring hp
    · intro a ha hne
      exact (hq.listAdd_inserts hHead hx).agreeAt (hq.ring hHead) ha hne
  · intro head hHead x hx
    have hDel := hq.del hHead hx
    refine ⟨hDel.ring hHead, ⟨?_, h.listDel_alone x⟩, ?_, ?_⟩
    · intro hMem
      by_cases hEq : x = head
      · exact (hq.ring hHead).head_notMem (hEq ▸ hx)
      · exact Links.Rings.disjoint hq x hMem head hHead hEq List.mem_cons_self
          (List.mem_cons_of_mem head hx)
    · intro p hp hne
      simpa [ListOp.apply, hq.erase_eq hHead hx hp hne] using hDel.ring hp
    · intro a ha
      exact (hq.listDel_removes hHead hx).agreeAt (hq.ring hHead) hx ha
  · intro head hHead
    exact Heap.listEmpty_eq (hq.ring hHead)
  · intro head hHead x xs hMembers offset
    rw [Heap.listFirstEntry_eq (hMembers ▸ hq.ring hHead), BitVec.sub_add_cancel]
  · intro head hHead σ offset body hBody fuel hFuel s
    rw [Heap.listForEachWithEntry, (hq.ring hHead).next_head]
    exact Heap.forEachFrom_eq [] hBody (hq.ring hHead) hFuel s
  · intro ops hLegal
    exact hq.run hLegal

/-- Two lists at 0x100 and 0x200, the first one with the members 0x20 and 0x10. -/
theorem lists_refine_two :
    ∃ (h : Heap) (q : Sequences), q.Held h ∧ q.members 0x100 = [0x20, 0x10] ∧
      (h.listDel 0x20).Ring 0x100 [0x10] ∧ (h.listDel 0x20).Ring 0x200 [] ∧
      h.listEmpty 0x100 = false ∧ h.listEmpty 0x200 = true ∧
      Heap.listForEachWithEntry 0x100 8 (fun h (s : List Ptr) entry => (h, s ++ [entry])) 3 h [] =
        some (h, [0x18, 0x08]) := by
  let start : Heap := ⟨id, id⟩
  let ops : List ListOp :=
    [.initList 0x100, .initList 0x200, .add 0x10 0x100, .add 0x20 0x100]
  let h := ops.foldl ListOp.run start
  let q := ops.foldl ListOp.apply ⟨∅, fun _ => []⟩
  have hNone : (⟨∅, fun _ => []⟩ : Sequences).Held start :=
    ⟨fun p hp => absurd hp (Set.notMem_empty p), fun p hp => absurd hp (Set.notMem_empty p)⟩
  have hLegal : ListOp.LegalRun start ⟨∅, fun _ => []⟩ ops := by
    refine ⟨.inl ?_, .inl ?_, ⟨.inr (.inl rfl), ?_, ?_⟩, ⟨.inr (.inl rfl), ?_, ?_⟩, trivial⟩
    · exact fun p hp => absurd hp (Set.notMem_empty p)
    · rintro p (rfl | hp)
      · decide
      · exact absurd hp (Set.notMem_empty p)
    · rintro (hEq | hEq | hp)
      · exact absurd hEq (by decide)
      · exact absurd hEq (by decide)
      · exact absurd hp (Set.notMem_empty _)
    · exact ⟨by decide, by decide⟩
    · rintro (hEq | hEq | hp)
      · exact absurd hEq (by decide)
      · exact absurd hEq (by decide)
      · exact absurd hp (Set.notMem_empty _)
    · exact ⟨by decide, by decide⟩
  obtain ⟨-, -, -, -, -, hRun⟩ := lists_refine_sequences hNone
  have hq : q.Held h := hRun ops hLegal
  obtain ⟨-, hDel, hEmpty, -, hLoop, -⟩ := lists_refine_sequences hq
  have hFirst : (0x100 : Ptr) ∈ q.heads := .inr (.inl rfl)
  have hSecond : (0x200 : Ptr) ∈ q.heads := .inl rfl
  obtain ⟨hRing, -, hOther, -⟩ := hDel 0x100 hFirst 0x20 (by decide)
  exact ⟨h, q, hq, by decide, hRing, hOther 0x200 hSecond (by decide), hEmpty 0x100 hFirst,
    hEmpty 0x200 hSecond, hLoop 0x100 hFirst _ 8 _ (fun _ _ _ hKeep => hKeep) 3 (by decide) []⟩

/-! ### The lists of the cache

The cache is modelled with lists of ids. They are what the memory holds when
every slab has its `list` member at an address of its own. -/

section

variable {ι : Type} {node : Nat → Ptr} {head : ι → Ptr} {lists : ι → SlabList}

/-- Lists of slabs as sequences of addresses. -/
noncomputable def slabSequences (node : Nat → Ptr) (head : ι → Ptr) (lists : ι → SlabList) :
    Sequences where
  heads := Set.range head
  members := Function.extend head (fun i => (lists i).list.map node) fun _ => []

theorem slabSequences_members (hHead : head.Injective) (i : ι) :
    (slabSequences node head lists).members (head i) = (lists i).list.map node := by
  simp only [slabSequences]
  exact hHead.extend_apply _ _ i

theorem slabSequences_out {p : Ptr} (hp : p ∉ Set.range head) :
    (slabSequences node head lists).members p = [] := by
  simp only [slabSequences]
  exact Function.extend_apply' _ _ p hp

theorem eq_slabSequences (hHead : head.Injective) (hHeads : q.heads = Set.range head)
    (hIn : ∀ i, q.members (head i) = (lists i).list.map node)
    (hOut : ∀ p ∉ Set.range head, q.members p = []) : q = slabSequences node head lists := by
  have hMembers : q.members = (slabSequences node head lists).members := by
    funext p
    by_cases hp : p ∈ Set.range head
    · obtain ⟨i, rfl⟩ := hp
      rw [hIn, slabSequences_members hHead]
    · rw [hOut p hp, slabSequences_out hp]
  obtain ⟨heads, members⟩ := q
  subst hHeads hMembers
  rfl

variable [DecidableEq ι]

/-- `list_add` of a slab is `SlabList.add`. -/
theorem slabList_add_held (hHead : head.Injective)
    (hHeld : (slabSequences node head lists).Held h) {i : ι} {x : Nat}
    (hx : (slabSequences node head lists).Detached h (node x)) :
    (slabSequences node head (Function.update lists i ((lists i).add x))).Held
      (h.listAdd (node x) (head i)) := by
  rw [← eq_slabSequences (q := (ListOp.add (node x) (head i)).apply
    (slabSequences node head lists)) hHead rfl]
  · exact hHeld.add (Set.mem_range_self i) hx
  · intro j
    by_cases hEq : j = i
    · subst j
      simp [ListOp.apply, SlabList.add, slabSequences_members hHead]
    · simp [ListOp.apply, slabSequences_members hHead, hHead.ne hEq, hEq]
  · intro p hp
    have hne : p ≠ head i := fun hEq => hp ⟨i, hEq.symm⟩
    simpa [ListOp.apply, hne] using slabSequences_out hp

/-- `list_del` of a slab is `SlabList.del`. -/
theorem slabList_del_held (hHead : head.Injective) (hNode : node.Injective)
    (hHeld : (slabSequences node head lists).Held h) {i : ι} {x : Nat} (hx : x ∈ (lists i).list) :
    (slabSequences node head (Function.update lists i ((lists i).del x))).Held
      (h.listDel (node x)) := by
  have hMem : node x ∈ (slabSequences node head lists).members (head i) := by
    rw [slabSequences_members hHead]
    exact List.mem_map_of_mem hx
  rw [← eq_slabSequences (q := (ListOp.del (node x)).apply (slabSequences node head lists)) hHead
    rfl]
  · exact hHeld.del (Set.mem_range_self i) hMem
  · intro j
    by_cases hEq : j = i
    · subst j
      simp only [ListOp.apply, Function.update_self, slabSequences_members hHead]
      exact (List.map_erase hNode (lists i).list).symm
    · rw [Function.update_of_ne hEq, ← slabSequences_members hHead]
      exact hHeld.erase_eq (Set.mem_range_self i) hMem (Set.mem_range_self j) (hHead.ne hEq)
  · intro p hp
    simp only [ListOp.apply, slabSequences_out hp]
    rfl

omit [DecidableEq ι] in
/-- `list_empty` and `list_first_entry` see the first slab. -/
theorem slabList_first (hHead : head.Injective) (hHeld : (slabSequences node head lists).Held h)
    (i : ι) : match (lists i).list with
      | [] => h.listEmpty (head i) = true
      | x :: _ => h.listEmpty (head i) = false ∧
          ∀ offset, h.listFirstEntry (head i) offset + offset = node x := by
  have hRing := hHeld.ring (Set.mem_range_self i)
  rw [slabSequences_members hHead] at hRing
  cases hList : (lists i).list with
  | nil =>
      rw [hList] at hRing
      exact Heap.listEmpty_eq hRing
  | cons x rest =>
      rw [hList] at hRing
      refine ⟨Heap.listEmpty_eq hRing, fun offset => ?_⟩
      rw [Heap.listFirstEntry_eq hRing, BitVec.sub_add_cancel]

end

end KVCache
