import KVCache.Semantics.Locking
import KVCache.Invariant.Writer
import KVCache.Semantics.Startup
import KVCache.Properties.Lookup

/-! Which objects a cache takes, and into which class they go. The class of an
object is found by a binary search over the sizes of the classes, so all of it
rests on their order: the smallest class that holds the object is found, and an
object is refused exactly if it is larger than the last class. The table that
`DefaultOptions` builds has this order. -/

namespace KVCache

/-! ### The search -/

/-- Below the result of the search the order holds, from it on it does not. -/
theorem lowerBound_spec {less : Nat → Bool} {limit : Nat}
    (hMono : ∀ i j, i ≤ j → j < limit → less j = true → less i = true) {rounds first count : Nat}
    (hRounds : count ≤ rounds) (hLimit : first + count ≤ limit) :
    first ≤ lowerBound less rounds first count ∧
      lowerBound less rounds first count ≤ first + count ∧
      (∀ i, first ≤ i → i < lowerBound less rounds first count → less i = true) ∧
      ∀ i, lowerBound less rounds first count ≤ i → i < first + count → less i = false := by
  induction rounds generalizing first count with
  | zero =>
      obtain rfl : count = 0 := Nat.le_zero.mp hRounds
      refine ⟨Nat.le_refl _, Nat.le_refl _, ?_, ?_⟩ <;> intro i hLow hHigh <;>
        simp only [lowerBound] at hLow hHigh <;> omega
  | succ rounds ih =>
      simp only [lowerBound]
      split
      · rename_i hNone
        subst hNone
        refine ⟨Nat.le_refl _, Nat.le_refl _, ?_, ?_⟩ <;> intro i hLow hHigh <;> omega
      · rename_i hSome
        split
        · rename_i hLess
          obtain ⟨hFirst, hLast, hBelow, hAbove⟩ :=
            @ih (first + count / 2 + 1) (count - count / 2 - 1) (by omega) (by omega)
          refine ⟨by omega, by omega, fun i hLow hHigh => ?_, fun i hLow hHigh => ?_⟩
          · by_cases hHalf : i ≤ first + count / 2
            · exact hMono i _ hHalf (by omega) hLess
            · exact hBelow i (by omega) hHigh
          · exact hAbove i hLow (by omega)
        · rename_i hNot
          obtain ⟨hFirst, hLast, hBelow, hAbove⟩ :=
            @ih first (count / 2) (by omega) (by omega)
          refine ⟨hFirst, by omega, hBelow, fun i hLow hHigh => ?_⟩
          by_cases hHalf : i < first + count / 2
          · exact hAbove i hLow hHalf
          · refine Bool.eq_false_iff.mpr fun hLess => hNot ?_
            exact hMono _ i (by omega) (by omega) hLess

/-- The sizes of the classes grow. -/
def Config.Ascending (cfg : Config) : Prop := cfg.slabClassSize.Pairwise (· ≤ ·)

instance (cfg : Config) : Decidable cfg.Ascending :=
  inferInstanceAs (Decidable (cfg.slabClassSize.Pairwise (· ≤ ·)))

variable {cfg : Config}

theorem Config.Ascending.classSize_le (h : cfg.Ascending) {i j : Nat} (hij : i ≤ j)
    (hj : j < cfg.nrSlabClass) : cfg.classSize i ≤ cfg.classSize j := by
  rcases Nat.eq_or_lt_of_le hij with rfl | hLess
  · exact Nat.le_refl _
  · have hi : i < cfg.slabClassSize.length := Nat.lt_trans hLess hj
    rw [Config.classSize, Config.classSize, List.getD_eq_getElem _ _ hi,
      List.getD_eq_getElem _ _ hj]
    exact List.pairwise_iff_getElem.mp h i j hi hj hLess

/-- The search splits the classes into those that are too small and the rest. -/
theorem getSlabClass_spec (h : cfg.Ascending) (size : Nat) :
    ∃ it ≤ cfg.nrSlabClass, (∀ j < it, cfg.classSize j < size) ∧
      (∀ j, it ≤ j → j < cfg.nrSlabClass → size ≤ cfg.classSize j) ∧
      getSlabClass cfg size = if it < cfg.nrSlabClass then some it else none := by
  obtain ⟨-, hLast, hBelow, hAbove⟩ := @lowerBound_spec
    (fun cid => decide (cfg.classSize cid < size)) cfg.nrSlabClass
    (fun i j hij hj hLess => decide_eq_true
      (Nat.lt_of_le_of_lt (h.classSize_le hij hj) (of_decide_eq_true hLess)))
    _ _ _ (Nat.le_refl cfg.nrSlabClass) (Nat.le_of_eq (Nat.zero_add _))
  simp only [getSlabClass]
  generalize lowerBound (fun cid => decide (cfg.classSize cid < size)) cfg.nrSlabClass 0
    cfg.nrSlabClass = it at hLast hBelow hAbove
  simp only [Nat.zero_add, Nat.zero_le, forall_const, decide_eq_true_eq, decide_eq_false_iff_not,
    Nat.not_lt] at hLast hBelow hAbove
  refine ⟨it, hLast, hBelow, hAbove, ?_⟩
  by_cases hIn : it < cfg.nrSlabClass
  · rw [if_pos ⟨hIn, hAbove it (Nat.le_refl _) hIn⟩, if_pos hIn]
  · rw [if_neg fun hBoth => hIn hBoth.1, if_neg hIn]

/-- The class found for a size is the first one that holds it. -/
theorem getSlabClass_eq_some_iff (h : cfg.Ascending) {size k : Nat} :
    getSlabClass cfg size = some k ↔
      k < cfg.nrSlabClass ∧ size ≤ cfg.classSize k ∧ ∀ j < k, cfg.classSize j < size := by
  obtain ⟨it, -, hBelow, hAbove, hFound⟩ := getSlabClass_spec h size
  rw [hFound]
  constructor
  · intro hSome
    split at hSome
    · rename_i hIn
      obtain rfl := Option.some.inj hSome
      exact ⟨hIn, hAbove it (Nat.le_refl _) hIn, hBelow⟩
    · cases hSome
  · rintro ⟨hk, hSize, hSmaller⟩
    have hEq : it = k := by
      rcases Nat.lt_trichotomy it k with hLess | hSame | hMore
      · have := hSmaller it hLess
        have := hAbove it (Nat.le_refl _) (by omega)
        omega
      · exact hSame
      · have := hBelow k hMore
        omega
    rw [hEq, if_pos hk]

/-- No class is found exactly for sizes beyond the last class. -/
theorem getSlabClass_eq_none_iff (h : cfg.Ascending) {size : Nat} :
    getSlabClass cfg size = none ↔ ∀ k < cfg.nrSlabClass, cfg.classSize k < size := by
  obtain ⟨it, -, hBelow, hAbove, hFound⟩ := getSlabClass_spec h size
  rw [hFound]
  constructor
  · intro hNone k hk
    split at hNone
    · cases hNone
    · exact hBelow k (by omega)
  · intro hAll
    refine if_neg fun hIn => ?_
    have := hAll it hIn
    have := hAbove it (Nat.le_refl _) hIn
    omega

/-! ### `Put` -/

/-- A table of classes as `DefaultOptions` builds it. -/
structure Config.ClassTable (cfg : Config) : Prop where
  nonempty : 0 < cfg.nrSlabClass
  ascending : cfg.slabClassSize.Pairwise (· < ·)
  header : ∀ z ∈ cfg.slabClassSize, Slot.headerSize ≤ z
  slab : ∀ z ∈ cfg.slabClassSize, z ≤ cfg.slabSize - Slab.headerSize

theorem Config.ClassTable.order (h : cfg.ClassTable) : cfg.Ascending :=
  h.ascending.imp Nat.le_of_lt

/-- What does not fit into the last class is what `MaxKVSize` excludes. -/
theorem getSlabClass_eq_none_iff_maxKvSize (h : cfg.ClassTable) {key : Key} {value : Value} :
    getSlabClass cfg (slotSize key value) = none ↔ cfg.maxKvSize < key.length + value.length := by
  have hNonempty := h.nonempty
  have hLast : Slot.headerSize ≤ cfg.classSize (cfg.nrSlabClass - 1) :=
    h.header _ (cfg.classSize_mem (by omega))
  rw [getSlabClass_eq_none_iff h.order]
  simp only [Config.maxKvSize, slotSize]
  constructor
  · intro hAll
    have := hAll (cfg.nrSlabClass - 1) (by omega)
    omega
  · intro hLarge k hk
    have := h.order.classSize_le (i := k) (j := cfg.nrSlabClass - 1) (by omega) (by omega)
    omega

namespace Setup

open Locks Routine

variable {u : Setup} {env : Shared → Shared → Prop} {s s' : Shared}

/-- Once there is a class, `slot_alloc` does not refuse the object, whatever it
has to wait for. -/
theorem slotAlloc_ne_tooLarge {size cid fuel : Nat} {r : Except Status (Nat × Nat)}
    (hClass : getSlabClass u.cfg size = some cid)
    (hRun : (u.slotAlloc size fuel).Returns env s r s') : r ≠ .error .objectTooLarge := by
  induction fuel generalizing s with
  | zero =>
      cases hRun with
      | act _ hStep _ => cases hStep
  | succ fuel ih =>
      simp only [slotAlloc, hClass] at hRun
      obtain ⟨slot, s₁, -, hRun⟩ := Prog.returns_bind hRun
      cases slot with
      | some slot =>
          obtain ⟨rfl, -⟩ := Prog.returns_pure.mp hRun
          simp
      | none =>
          obtain ⟨free, s₂, -, hRun⟩ := Prog.returns_bind hRun
          cases free with
          | some sid =>
              obtain ⟨_, s₃, -, hRun⟩ := Prog.returns_bind hRun
              exact ih hRun
          | none =>
              obtain ⟨_, s₃, -, hRun⟩ := Prog.returns_bind hRun
              obtain ⟨go, s₄, -, hRun⟩ := Prog.returns_bind hRun
              cases go with
              | true => exact ih hRun
              | false =>
                  obtain ⟨rfl, -⟩ := Prog.returns_pure.mp hRun
                  simp [Status.shutdown, Status.objectTooLarge]

/-- An object without a class is refused under the lock, and nothing is done. -/
theorem put_of_no_class {key : Key} {value : Value} (hFuel : 0 < u.fuel)
    (hClass : getSlabClass u.cfg (slotSize key value) = none) :
    u.put key value = lock .writer (return .objectTooLarge) := by
  obtain ⟨fuel, hSucc⟩ := Nat.exists_eq_succ_of_ne_zero (Nat.pos_iff_ne_zero.mp hFuel)
  unfold put
  rw [hSucc]
  simp only [slotAlloc, hClass]
  rfl

end Setup

open Locks in
/-- `Put` refuses an object exactly if it is larger than `MaxKVSize`, in any
state and whatever other threads do meanwhile; it then changes nothing itself.
Any other object goes to the smallest class that holds it. -/
theorem put_tooLarge_iff (u : Setup) {env : Shared → Shared → Prop} (hFuel : 0 < u.fuel)
    (hTable : u.cfg.ClassTable) (hRefl : ∀ s, env s s)
    (hTrans : ∀ s₁ s₂ s₃, env s₁ s₂ → env s₂ s₃ → env s₁ s₃) (key : Key) (value : Value) :
    (∀ s, (∃ s', (u.put key value).Returns env s .objectTooLarge s') ↔
      u.cfg.maxKvSize < key.length + value.length) ∧
    (u.cfg.maxKvSize < key.length + value.length → ∀ s status s',
      (u.put key value).Returns env s status s' → status = .objectTooLarge ∧ env s s') ∧
    (key.length + value.length ≤ u.cfg.maxKvSize → ∃ k < u.cfg.nrSlabClass,
      getSlabClass u.cfg (slotSize key value) = some k ∧
        slotSize key value ≤ u.cfg.classSize k ∧
        ∀ j < k, u.cfg.classSize j < slotSize key value) := by
  have hNone := @getSlabClass_eq_none_iff_maxKvSize u.cfg hTable key value
  refine ⟨fun s => ⟨?_, fun hLarge => ?_⟩, fun hLarge s status s' hRun => ?_, fun hSmall => ?_⟩
  · rintro ⟨s', hRun⟩
    by_contra hNot
    obtain ⟨k, hClass⟩ := Option.ne_none_iff_exists'.mp fun hEq => hNot (hNone.mp hEq)
    obtain ⟨s₁, s₂, -, hBody, -⟩ := Prog.returns_withLock hRun
    obtain ⟨r, s₃, hAlloc, hRest⟩ := Prog.returns_bind hBody
    have hKept := Setup.slotAlloc_ne_tooLarge hClass hAlloc
    cases r with
    | error status =>
        obtain ⟨rfl, -⟩ := Prog.returns_pure.mp hRest
        exact hKept rfl
    | ok slot =>
        obtain ⟨_, s₄, -, hRest⟩ := Prog.returns_bind hRest
        obtain ⟨_, s₅, -, hRest⟩ := Prog.returns_bind hRest
        obtain ⟨_, s₆, -, hRest⟩ := Prog.returns_bind hRest
        obtain ⟨hStatus, -⟩ := Prog.returns_pure.mp hRest
        simp [Status.ok, Status.objectTooLarge] at hStatus
  · rw [Setup.put_of_no_class hFuel (hNone.mpr hLarge)]
    exact ⟨s, .acquire (hRefl s) rfl (.release (hRefl s) (.ret _ s))⟩
  · rw [Setup.put_of_no_class hFuel (hNone.mpr hLarge)] at hRun
    obtain ⟨s₁, s₂, hBefore, hBody, hAfter⟩ := Prog.returns_withLock hRun
    obtain ⟨rfl, rfl⟩ := Prog.returns_pure.mp hBody
    exact ⟨rfl, hTrans _ _ _ hBefore hAfter⟩
  · obtain ⟨k, hClass⟩ := Option.ne_none_iff_exists'.mp fun hEq =>
      Nat.not_lt.mpr hSmall (hNone.mp hEq)
    obtain ⟨hk, hHolds, hFirst⟩ := (getSlabClass_eq_some_iff hTable.order).mp hClass
    exact ⟨k, hk, hClass, hHolds, hFirst⟩

theorem Config.small_classTable : Config.small.ClassTable where
  nonempty := by decide
  ascending := by decide
  header := by decide
  slab := by decide

/-- A slot of 16 bytes has room for 8 bytes of key and value, not for 9. -/
theorem put_tooLarge_nine :
    let u : Setup := ⟨.release, .small, false, false, fun _ _ pq => pq, 1⟩
    let s : Shared := ⟨Cache.initEmpty .small, false⟩
    (∃ s', (u.put [1] [1, 2, 3, 4, 5, 6, 7, 8]).Returns Eq s .objectTooLarge s') ∧
      ¬∃ s', (u.put [1] [1, 2, 3, 4, 5, 6, 7]).Returns Eq s .objectTooLarge s' := by
  intro u s
  have hPut := put_tooLarge_iff u Nat.one_pos Config.small_classTable (fun s => Eq.refl s)
    fun _ _ _ => Eq.trans
  refine ⟨((hPut [1] [1, 2, 3, 4, 5, 6, 7, 8]).1 s).mpr (by decide), fun hRun => ?_⟩
  exact absurd (((hPut [1] [1, 2, 3, 4, 5, 6, 7]).1 s).mp hRun) (by decide)

/-! ### The default table -/

/-- A size and the next one: it grows, at most to the double. -/
def Doubles (z z' : Int) : Prop := z < z' ∧ z' ≤ 2 * z

/-- The loop of `default_slab_class_size` after its first class. It ends with the
largest slot, provided there are classes left to double up to it. -/
theorem slabClassSizes_spec {maxSlotSize : Int} {left i : Nat} {last : Int} (hi : 1 ≤ i)
    (hPos : 0 < last) (hLast : last < maxSlotSize) (hLeft : maxSlotSize ≤ last * 2 ^ left) :
    let sizes := last :: slabClassSizes maxSlotSize left i last (min (2 * last) maxSlotSize)
    sizes.IsChain Doubles ∧ sizes.getLast? = some maxSlotSize ∧ sizes.length ≤ left + 1 ∧
      ∀ z ∈ sizes, z ≤ maxSlotSize := by
  induction left generalizing i last with
  | zero =>
      rw [pow_zero, mul_one] at hLeft
      exact absurd hLast (Int.not_lt.mpr hLeft)
  | succ left ih =>
      have hGo : ¬(1 < i ∧ maxSlotSize ≤ last) := fun h => Int.not_le.mpr hLast h.2
      have hNext : Doubles last (min (2 * last) maxSlotSize) := by
        constructor <;> omega
      simp only [slabClassSizes, if_neg hGo]
      by_cases hEnd : maxSlotSize ≤ 2 * last
      · -- the class after the largest slot is not counted
        have hMax : min (2 * last) maxSlotSize = maxSlotSize := Int.min_eq_right hEnd
        have hStop : slabClassSizes maxSlotSize left (i + 1) maxSlotSize
            (min (2 * maxSlotSize) maxSlotSize) = [] := by
          cases left with
          | zero => rfl
          | succ left => rw [slabClassSizes, if_pos ⟨by omega, Int.le_refl _⟩]
        rw [hMax] at hNext
        rw [hMax, hStop]
        refine ⟨.cons_cons hNext (.singleton _), rfl, Nat.le_add_left 2 left, ?_⟩
        simpa using Int.le_of_lt hLast
      · have hMin : min (2 * last) maxSlotSize = 2 * last := Int.min_eq_left (by omega)
        rw [hMin] at hNext
        rw [pow_succ', ← mul_assoc, mul_comm last 2] at hLeft
        obtain ⟨hChain, hTop, hLength, hBound⟩ :=
          @ih (i + 1) (2 * last) (by omega) (by omega) (by omega) hLeft
        rw [hMin]
        refine ⟨.cons_cons hNext hChain, ?_, Nat.succ_le_succ hLength, ?_⟩
        · rw [List.getLast?_cons_cons]
          exact hTop
        · exact List.forall_mem_cons.mpr ⟨Int.le_of_lt hLast, hBound⟩

theorem defaultSlabClassSize_cons {slabSize minKvSize left : Nat} :
    defaultSlabClassSize slabSize minKvSize (left + 1) =
      (minKvSize + Slot.headerSize : Int) ::
        slabClassSizes (slabSize - Slab.headerSize) left 1 (minKvSize + Slot.headerSize)
          (min (2 * (minKvSize + Slot.headerSize)) (slabSize - Slab.headerSize)) := by
  rw [defaultSlabClassSize, slabClassSizes, if_neg fun h => absurd h.1 (by decide)]

/-- In a table without gaps every request up to the last size has a class, and
one beyond the first size fills more than half of its slot. -/
theorem getSlabClass_of_chain {minSlot maxSlot n : Nat}
    (hChain : cfg.slabClassSize.IsChain fun z z' => z ≤ z' ∧ z' ≤ 2 * z)
    (hHead : cfg.slabClassSize.head? = some minSlot)
    (hLast : cfg.slabClassSize.getLast? = some maxSlot) (hn : n ≤ maxSlot) :
    ∃ k < cfg.nrSlabClass, getSlabClass cfg n = some k ∧ n ≤ cfg.classSize k ∧
      (minSlot < n → cfg.classSize k < 2 * n) := by
  have hOrder : cfg.Ascending :=
    List.isChain_iff_pairwise.mp (List.IsChain.imp (fun _ _ h => h.1) hChain)
  rw [List.head?_eq_getElem?] at hHead
  rw [List.getLast?_eq_getElem?] at hLast
  obtain ⟨hTop, hTopSize⟩ := List.getElem?_eq_some_iff.mp hLast
  have hFound : getSlabClass cfg n ≠ none := fun hNone => by
    have hSmall := (getSlabClass_eq_none_iff hOrder).mp hNone _ hTop
    rw [Config.classSize, List.getD_eq_getElem _ _ hTop, hTopSize] at hSmall
    omega
  obtain ⟨k, hClass⟩ := Option.ne_none_iff_exists'.mp hFound
  obtain ⟨hk, hHolds, hFirst⟩ := (getSlabClass_eq_some_iff hOrder).mp hClass
  refine ⟨k, hk, hClass, hHolds, fun hMore => ?_⟩
  cases k with
  | zero =>
      rw [Config.classSize, List.getD_eq_getElem?_getD, hHead] at hHolds
      exact absurd hMore (Nat.not_lt.mpr hHolds)
  | succ k =>
      have hBefore := hFirst k (Nat.lt_succ_self k)
      have hDouble := (List.isChain_iff_getElem.mp hChain k hk).2
      rw [Config.classSize, List.getD_eq_getElem _ _ (Nat.lt_of_succ_lt hk)] at hBefore
      rw [Config.classSize, List.getD_eq_getElem _ _ hk]
      omega

/-- The default table starts with the smallest slot and ends with the largest
one, no size is more than the double of the one before, and no product leaves
`int`. So every request up to the largest slot has a class, and one that exceeds
the smallest slot fills more than half of its slot. -/
theorem defaultSlabClassSize_covers {slabSize minKvSize : Nat} (hSlab : slabSize ≤ 2 ^ 30)
    (hMin : 1 ≤ minKvSize) (hSlots : minKvSize + Slot.headerSize < slabSize - Slab.headerSize) :
    let sizes := defaultSlabClassSize slabSize minKvSize kMaxNumSlabClass
    let minSlot := minKvSize + Slot.headerSize
    let maxSlot := slabSize - Slab.headerSize
    sizes.length ≤ kMaxNumSlabClass ∧ sizes.Pairwise (· < ·) ∧
      sizes.head? = some (minSlot : Int) ∧ sizes.getLast? = some (maxSlot : Int) ∧
      sizes.IsChain (fun z z' => z' ≤ 2 * z) ∧ (∀ z ∈ sizes, 2 * z < 2 ^ 31) ∧
      ∀ cfg : Config, cfg.slabClassSize = sizes.map Int.toNat → ∀ n ≤ maxSlot,
        ∃ k < cfg.nrSlabClass, getSlabClass cfg n = some k ∧ n ≤ cfg.classSize k ∧
          (minSlot < n → cfg.classSize k < 2 * n) := by
  intro sizes minSlot maxSlot
  have hFits : (slabSize : Int) - Slab.headerSize = (maxSlot : Int) := by omega
  have hPow : (maxSlot : Int) ≤ minSlot * 2 ^ 49 := by omega
  obtain ⟨hChain, hLast, hLength, hBound⟩ := @slabClassSizes_spec (slabSize - Slab.headerSize) 49 1
    (minKvSize + Slot.headerSize) (Nat.le_refl 1) (by omega) (by omega) (by omega)
  rw [← defaultSlabClassSize_cons] at hChain hLast hLength hBound
  rw [hFits] at hLast
  have hHead : sizes.head? = some (minSlot : Int) := by
    rw [show sizes = _ from defaultSlabClassSize_cons]
    rfl
  have hTop : sizes.getLast? = some (maxSlot : Int) := hLast
  refine ⟨hLength, ?_, hHead, hTop, ?_, fun z hz => ?_, fun cfg hTable n hn => ?_⟩
  · exact List.isChain_iff_pairwise.mp (List.IsChain.imp (fun _ _ h => h.1) hChain)
  · exact List.IsChain.imp (fun _ _ h => h.2) hChain
  · have hSize := hBound z hz
    have hHeader : Slab.headerSize = 44 := rfl
    omega
  · refine getSlabClass_of_chain ?_ ?_ ?_ hn
    · rw [hTable, List.isChain_map]
      refine List.IsChain.imp (fun z z' h => ?_) hChain
      have := h.1
      have := h.2
      constructor <;> omega
    · rw [hTable, List.head?_map, hHead]
      rfl
    · rw [hTable, List.getLast?_map, hTop]
      rfl

/-- A slab of 1024 bytes has six classes. -/
theorem defaultSlabClassSize_covers_1024 :
    defaultSlabClassSize 1024 32 kMaxNumSlabClass = [40, 80, 160, 320, 640, 980] ∧
      (defaultSlabClassSize 1024 32 kMaxNumSlabClass).getLast? = some 980 :=
  ⟨by decide, (defaultSlabClassSize_covers (by decide) (by decide) (by decide)).2.2.2.1⟩

end KVCache
