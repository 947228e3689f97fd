import KVCache.Semantics.Ssd
import KVCache.Semantics.Config
import KVCache.Data.Execution

/-! The enumeration of the blocks of an SSD. A block is found by its key, which
holds its channel and its id, and the keys of earlier creations stay in the
store. The blocks are enumerated as on a device exactly if every earlier
geometry has left only keys that the last one has, too. -/

namespace KVCache

/-! ### Numbers and keys -/

theorem isDigit_decimal {n : Nat} {c : Char} (hc : c ∈ decimal n) : c.isDigit = true :=
  Nat.isDigit_of_mem_toDigits (by decide) (by decide) hc

/-- Digits are neither blanks nor signs. -/
theorem not_isSpace_of_isDigit {c : Char} (h : c.isDigit = true) : isSpace c = false := by
  simp only [Char.isDigit, ge_iff_le, Bool.and_eq_true, decide_eq_true_eq,
    UInt32.le_iff_toNat_le] at h
  simp only [isSpace, Bool.or_eq_false_iff, Bool.and_eq_false_iff, decide_eq_false_iff_not,
    Char.le_def, UInt32.le_iff_toNat_le]
  refine ⟨?_, .inr ?_⟩
  · rintro rfl
    revert h
    decide
  · have : ('\r'.val).toNat = 13 := rfl
    have : ('0'.val).toNat = 48 := rfl
    omega

theorem stoi_decimal {n : Nat} (hInt : n < 2 ^ 31) : stoi (decimal n) = some (n : Int) := by
  have hValue : Nat.ofDigitChars 10 (decimal n) 0 = n := Nat.ofDigitChars_ten_toDigits
  have hDigit : ∀ c ∈ decimal n, c.isDigit = true := fun c => isDigit_decimal
  have hTake := List.takeWhile_eq_self_iff.mpr hDigit
  have hNil : decimal n ≠ [] := Nat.toDigits_ne_nil
  generalize decimal n = text at *
  cases text with
  | nil => exact absurd rfl hNil
  | cons c rest =>
      have hFirst := hDigit c List.mem_cons_self
      have hSpace := not_isSpace_of_isDigit hFirst
      unfold stoi
      rw [List.dropWhile_cons_of_neg (by simp [hSpace])]
      split
      rename_i negative digits hMatch
      split at hMatch
      · rename_i hText
        cases hText
        exact absurd hFirst (by decide)
      · rename_i hText
        cases hText
        exact absurd hFirst (by decide)
      · obtain ⟨rfl, rfl⟩ := Prod.mk.inj hMatch
        rw [hTake, if_neg (by simp), hValue]
        simp only [Bool.false_eq_true, if_false]
        rw [if_pos (by omega)]
/-- Numbers can be told from their texts. -/
theorem decimal_injective : Function.Injective decimal := by
  intro m n h
  rw [← Nat.ofDigitChars_ten_toDigits (n := m), ← Nat.ofDigitChars_ten_toDigits (n := n)]
  exact congrArg (Nat.ofDigitChars 10 · 0) h

theorem splitKey_blockKey (channel block : Nat) :
    splitKey (blockKey channel block) = some (decimal channel, decimal block) := by
  have hDigit : ∀ c ∈ decimal channel, decide (c ≠ '/') = true := by
    intro c hc
    refine decide_eq_true fun h => ?_
    rw [h] at hc
    exact absurd (isDigit_decimal hc) (by decide)
  have hDrop : (blockKey channel block).drop 8 = decimal channel ++ '/' :: decimal block := rfl
  unfold splitKey
  rw [hDrop, List.dropWhile_append_of_pos hDigit, List.takeWhile_append_of_pos hDigit]
  simp

/-- The key of a block, given its channel and its id. -/
def pairKey (p : Nat × Nat) : Text := blockKey p.1 p.2

theorem pairKey_injective : Function.Injective pairKey := by
  intro p q h
  have hSplit := congrArg splitKey h
  rw [pairKey, pairKey, splitKey_blockKey, splitKey_blockKey] at hSplit
  obtain ⟨hChannel, hBlock⟩ := Prod.mk.inj (Option.some.inj hSplit)
  exact Prod.ext (decimal_injective hChannel) (decimal_injective hBlock)

theorem isPrefixOf_blockKey (channel block : Nat) :
    kBlockPrefix.isPrefixOf (blockKey channel block) = true :=
  List.isPrefixOf_iff_prefix.mpr (List.prefix_append _ _)

/-- The loops visit the blocks in order, each with its channel. -/
theorem forEachBlock_eq {β : Type} (nrChannels blocksPerChannel : Nat) (body : Nat → Nat → β → β)
    (start : β) : forEachBlock nrChannels blocksPerChannel body start =
      (List.range (blocksPerChannel * nrChannels)).foldl
        (fun b i => body (i / blocksPerChannel) i b) start := by
  let visited : Nat → β × Nat := fun n =>
    ((List.range n).foldl (fun b i => body (i / blocksPerChannel) i b) start, n)
  refine congrArg Prod.fst (Execution.foldl_range_rule
    (fun channel state => state = visited (blocksPerChannel * channel)) nrChannels ?_ rfl)
  rintro channel _ - rfl
  refine Execution.foldl_range_rule
    (fun j state => state = visited (blocksPerChannel * channel + j)) blocksPerChannel ?_ rfl
  rintro j _ hj rfl
  have hChannel : (blocksPerChannel * channel + j) / blocksPerChannel = channel := by
    rw [Nat.mul_add_div (by omega), Nat.div_eq_of_lt hj, Nat.add_zero]
  simp only [visited, ← Nat.add_assoc, List.range_succ, List.foldl_append, List.foldl_cons,
    List.foldl_nil, hChannel]

/-! ### What the store holds -/

/-- The blocks of a geometry, each with its channel. -/
def SsdConfig.pair (g : SsdConfig) (i : Nat) : Nat × Nat := (i / g.blocksPerChannel, i)

/-- The store with the numbers of a geometry. -/
def Store.putConfig (store : Store) (g : SsdConfig) : Store :=
  (((store.put kBlockPerChannelKey (decimal g.blocksPerChannel)).put kNumBlocksKey
    (decimal g.nrBlocks)).put kBlockSizeKey (decimal g.blockSize)).put kNumChannelsKey
      (decimal g.nrChannels)

theorem create_eq (store : Store) (g : SsdConfig) :
    store.create g = (List.range g.nrBlocks).foldl (fun m i => m.put (pairKey (g.pair i)) [])
      (store.putConfig g) := by
  unfold Store.create
  exact forEachBlock_eq _ _ _ _

/-- The keys for blocks that a creation adds. -/
theorem mem_create {store : Store} {g : SsdConfig} {k : Text}
    (hPrefix : kBlockPrefix.isPrefixOf k = true) :
    k ∈ (store.create g).keys ↔ (∃ i < g.nrBlocks, k = pairKey (g.pair i)) ∨ k ∈ store.keys := by
  have hNot : ∀ key ∈ [kBlockPerChannelKey, kNumBlocksKey, kBlockSizeKey, kNumChannelsKey],
      k ≠ key := by
    rintro key hKey rfl
    simp only [List.mem_cons, List.not_mem_nil, or_false] at hKey
    rcases hKey with rfl | rfl | rfl | rfl <;> exact absurd hPrefix (by decide)
  rw [create_eq, OrderedMap.mem_keys_foldl_put]
  simp only [List.mem_range, Store.putConfig, OrderedMap.mem_keys_put]
  simp [hNot]

theorem mem_createAll {configs : List SsdConfig} {k : Text}
    (hPrefix : kBlockPrefix.isPrefixOf k = true) :
    k ∈ (Store.createAll configs).keys ↔
      ∃ g ∈ configs, ∃ i < g.nrBlocks, k = pairKey (g.pair i) := by
  have hAll : ∀ store : Store, k ∈ (configs.foldl Store.create store).keys ↔
      (∃ g ∈ configs, ∃ i < g.nrBlocks, k = pairKey (g.pair i)) ∨ k ∈ store.keys := by
    induction configs with
    | nil => simp
    | cons g rest ih =>
        intro store
        rw [List.foldl_cons, ih, mem_create hPrefix, List.exists_mem_cons_iff, or_left_comm,
          or_assoc]
  rw [Store.createAll, hAll, OrderedMap.keys_empty]
  simp

/-- The geometry is read back as it was written. -/
theorem ofStore_create (store : Store) (g : SsdConfig) :
    Ssd.ofStore (store.create g) = some ⟨g.nrChannels, g.nrBlocks, g.blockSize,
      g.blocksPerChannel, store.create g⟩ := by
  have hGet : ∀ k : Text, kBlockPrefix.isPrefixOf k = false →
      (store.create g).get k = (store.putConfig g).get k := by
    intro k hNot
    rw [create_eq]
    refine OrderedMap.get_foldl_put fun i _ hEq => ?_
    rw [hEq, pairKey, isPrefixOf_blockKey] at hNot
    cases hNot
  have hBlocks : g.nrBlocks < 2 ^ 31 := g.blocks_int
  have hChannels : g.nrChannels < 2 ^ 31 :=
    Nat.lt_of_le_of_lt (Nat.le_mul_of_pos_left _ g.blocks_pos) g.blocks_int
  have hPerChannel : g.blocksPerChannel < 2 ^ 31 :=
    Nat.lt_of_le_of_lt (Nat.le_mul_of_pos_right _ g.channels_pos) g.blocks_int
  unfold Ssd.ofStore
  rw [hGet _ (by decide), hGet _ (by decide), hGet _ (by decide), hGet _ (by decide)]
  simp +decide [Store.putConfig, OrderedMap.get_put, stoi_decimal hBlocks,
    stoi_decimal g.size_int, stoi_decimal hChannels, stoi_decimal hPerChannel]

/-! ### What the enumeration finds -/

theorem visit_pairs (ssd : Ssd) {pairs : List (Nat × Nat)}
    (hInt : ∀ p ∈ pairs, p.1 < 2 ^ 31 ∧ p.2 < 2 ^ 31) :
    ssd.visit (pairs.map pairKey) = some (pairs.map fun p => ((p.1 : Int), ssd.block p.2)) := by
  induction pairs with
  | nil => rfl
  | cons p rest ih =>
      obtain ⟨hChannel, hBlock⟩ := hInt p List.mem_cons_self
      simp only [List.map_cons, Ssd.visit, pairKey, splitKey_blockKey]
      rw [stoi_decimal hChannel, stoi_decimal hBlock,
        ih fun q hq => hInt q (List.mem_cons_of_mem _ hq)]
      rfl

/-- A list of keys of blocks, by its blocks. -/
theorem exists_pairs {keys : List Text} {P : Nat × Nat → Prop}
    (h : ∀ k ∈ keys, ∃ p, P p ∧ k = pairKey p) :
    ∃ pairs : List (Nat × Nat), (∀ p ∈ pairs, P p) ∧ keys = pairs.map pairKey := by
  induction keys with
  | nil => exact ⟨[], by simp, rfl⟩
  | cons k rest ih =>
      obtain ⟨p, hp, rfl⟩ := h k List.mem_cons_self
      obtain ⟨pairs, hPairs, rfl⟩ := ih fun k hk => h k (List.mem_cons_of_mem _ hk)
      exact ⟨p :: pairs, List.forall_mem_cons.mpr ⟨hp, hPairs⟩, rfl⟩

/-- The store enumerates once every pair of a channel and a block that some
creation has added. -/
theorem iterateStore_createAll (configs : List SsdConfig) :
    ∃ pairs : List (Nat × Nat), pairs.Nodup ∧
      (∀ p, p ∈ pairs ↔ ∃ g ∈ configs, ∃ i < g.nrBlocks, p = g.pair i) ∧
      ∀ ssd : Ssd, ssd.db = Store.createAll configs →
        ssd.iterateStore = some (pairs.map fun p => ((p.1 : Int), ssd.block p.2)) := by
  have hMem : ∀ k, k ∈ (Store.createAll configs).scan kBlockPrefix ↔
      ∃ g ∈ configs, ∃ i < g.nrBlocks, k = pairKey (g.pair i) := by
    intro k
    rw [OrderedMap.scan_eq_filter, List.mem_filter]
    constructor
    · exact fun ⟨hKey, hPrefix⟩ => (mem_createAll hPrefix).mp hKey
    · intro hSome
      have hPrefix : kBlockPrefix.isPrefixOf k = true := by
        obtain ⟨g, -, i, -, rfl⟩ := hSome
        exact isPrefixOf_blockKey _ _
      exact ⟨(mem_createAll hPrefix).mpr hSome, hPrefix⟩
  obtain ⟨pairs, hPairs, hScan⟩ :=
    @exists_pairs _ (fun p => ∃ g ∈ configs, ∃ i < g.nrBlocks, p = g.pair i) fun k hk => by
      obtain ⟨g, hg, i, hi, rfl⟩ := (hMem k).mp hk
      exact ⟨g.pair i, ⟨g, hg, i, hi, rfl⟩, rfl⟩
  have hNodup : ((Store.createAll configs).scan kBlockPrefix).Nodup := by
    rw [OrderedMap.scan_eq_filter]
    exact ((OrderedMap.keys_sorted _).imp ne_of_lt).filter _
  refine ⟨pairs, ?_, fun p => ⟨hPairs p, ?_⟩, ?_⟩
  · rw [hScan] at hNodup
    exact List.Nodup.of_map pairKey hNodup
  · rintro ⟨g, hg, i, hi, rfl⟩
    have hKey := (hMem _).mpr ⟨g, hg, i, hi, rfl⟩
    rw [hScan] at hKey
    exact (List.mem_map_of_injective pairKey_injective).mp hKey
  · intro ssd hDb
    rw [Ssd.iterateStore, hDb, hScan]
    refine visit_pairs ssd fun p hp => ?_
    obtain ⟨g, -, i, hi, rfl⟩ := hPairs p hp
    have hInt := g.blocks_int
    have hLess : i < 2 ^ 31 := Nat.lt_trans hi hInt
    exact ⟨Nat.lt_of_le_of_lt (Nat.div_le_self _ _) hLess, hLess⟩

/-! ### When the enumeration is right -/

/-- The calls of `iterate_all_blocks` on a store, each with the channel in its
key, are those that the geometry asks for: one for every block and no other,
with the channel of the key, as on a device, and with enough slab ids in
`slab_init`, which numbers the blocks from `nr_mslab_` on. -/
structure Ssd.Enumerates (ssd : Ssd) (calls : List (Int × Block)) : Prop where
  once : (calls.map fun call => call.2.blockId).Perm
    ((List.range ssd.nrBlocks.toNat).map fun i : Nat => (i : Int))
  channel : ∀ call ∈ calls, call.2.channelId = call.1 ∧ call.2.channelId < ssd.nrChannels
  device : (calls.map Prod.snd).Perm ssd.iterateDevice
  slabIds : ∀ (nrMslab : Int) (n : Nat), n < calls.length →
    nrMslab + n < nrMslab + ssd.nrBlocks

/-- All blocks of the first geometry are blocks of the second one, in the same
channels. -/
def SsdConfig.FitsInto (g last : SsdConfig) : Prop :=
  (g.blocksPerChannel = last.blocksPerChannel ∧ g.nrChannels ≤ last.nrChannels) ∨
    (g.nrChannels = 1 ∧ g.blocksPerChannel ≤ last.blocksPerChannel)

theorem fitsInto_iff {g last : SsdConfig} :
    g.FitsInto last ↔ ∀ i < g.nrBlocks, i < last.nrBlocks ∧
      i / g.blocksPerChannel = i / last.blocksPerChannel := by
  have hBlocks := g.blocks_pos
  have hLast := last.blocks_pos
  constructor
  · rintro (⟨hSame, hChannels⟩ | ⟨hOne, hBlocks⟩) i hi
    · refine ⟨Nat.lt_of_lt_of_le hi ?_, by rw [hSame]⟩
      rw [SsdConfig.nrBlocks, SsdConfig.nrBlocks, hSame]
      exact Nat.mul_le_mul_left _ hChannels
    · have hFirst : i < g.blocksPerChannel := by rwa [SsdConfig.nrBlocks, hOne, Nat.mul_one] at hi
      have hLess : i < last.blocksPerChannel := Nat.lt_of_lt_of_le hFirst hBlocks
      refine ⟨Nat.lt_of_lt_of_le hLess (Nat.le_mul_of_pos_right _ last.channels_pos), ?_⟩
      rw [Nat.div_eq_of_lt hFirst, Nat.div_eq_of_lt hLess]
  · intro hAll
    -- the last block of the first channel
    have hEnd : g.blocksPerChannel - 1 < last.blocksPerChannel := by
      have hLess : g.blocksPerChannel - 1 < g.nrBlocks :=
        Nat.lt_of_lt_of_le (by omega) (Nat.le_mul_of_pos_right _ g.channels_pos)
      have hZero := (hAll _ hLess).2
      rw [Nat.div_eq_of_lt (by omega)] at hZero
      exact (Nat.div_eq_zero_iff_lt hLast).mp hZero.symm
    by_cases hOne : g.nrChannels = 1
    · exact .inr ⟨hOne, by omega⟩
    · have hTwo : 2 ≤ g.nrChannels := by
        have := g.channels_pos
        omega
      -- the first block of the second channel
      have hNext := (hAll g.blocksPerChannel (by
        have := Nat.mul_le_mul_left g.blocksPerChannel hTwo
        simp only [SsdConfig.nrBlocks]
        omega)).2
      rw [Nat.div_self hBlocks] at hNext
      have hLe : last.blocksPerChannel ≤ g.blocksPerChannel := by
        by_contra hNot
        rw [Nat.div_eq_of_lt (by omega)] at hNext
        omega
      have hSame : g.blocksPerChannel = last.blocksPerChannel := by omega
      refine .inl ⟨hSame, ?_⟩
      have hCount : g.nrBlocks ≤ last.nrBlocks := by
        by_contra hNot
        exact Nat.lt_irrefl _ (hAll last.nrBlocks (by omega)).1
      rw [SsdConfig.nrBlocks, SsdConfig.nrBlocks, hSame] at hCount
      exact Nat.le_of_mul_le_mul_left hCount hLast

/-- An SSD with a given geometry. -/
structure Ssd.Has (ssd : Ssd) (g : SsdConfig) : Prop where
  nrChannels : ssd.nrChannels = g.nrChannels
  nrBlocks : ssd.nrBlocks = g.nrBlocks
  blocksPerChannel : ssd.blocksPerChannel = g.blocksPerChannel

namespace Ssd.Has

variable {ssd : Ssd} {g : SsdConfig}

theorem block (h : ssd.Has g) (i : Nat) : ssd.block i = ⟨i, (i / g.blocksPerChannel : Nat)⟩ := by
  rw [Ssd.block, h.blocksPerChannel, Int.ofNat_tdiv]

theorem iterateDevice (h : ssd.Has g) :
    ssd.iterateDevice = (List.range g.nrBlocks).map fun i : Nat => ssd.block i := by
  have hMap : ∀ (l : List Nat) (blocks : List Block),
      l.foldl (fun blocks (i : Nat) => blocks ++ [ssd.block i]) blocks =
        blocks ++ l.map fun i : Nat => ssd.block i := by
    intro l
    induction l with
    | nil => simp
    | cons i rest ih => simp [ih]
  rw [Ssd.iterateDevice, forEachBlock_eq, h.nrChannels, h.blocksPerChannel, Int.toNat_natCast,
    Int.toNat_natCast]
  exact hMap _ []

/-- What the enumeration is for the blocks of a geometry, in any order. -/
theorem enumerates (h : ssd.Has g) {pairs : List (Nat × Nat)}
    (hPerm : pairs.Perm ((List.range g.nrBlocks).map g.pair)) :
    ssd.Enumerates (pairs.map fun p => ((p.1 : Int), ssd.block p.2)) where
  once := by
    have := hPerm.map fun p => (p.2 : Int)
    simpa [h.nrBlocks, h.block, SsdConfig.pair, Function.comp_def] using this
  channel := by
    intro call hCall
    obtain ⟨p, hp, rfl⟩ := List.mem_map.mp hCall
    obtain ⟨i, hi, rfl⟩ := List.mem_map.mp (hPerm.mem_iff.mp hp)
    simp only [SsdConfig.pair, h.block, h.nrChannels, true_and]
    exact Int.ofNat_lt.mpr (Nat.div_lt_of_lt_mul (List.mem_range.mp hi))
  device := by
    rw [h.iterateDevice]
    have := hPerm.map fun p => ssd.block p.2
    simpa [SsdConfig.pair, Function.comp_def] using this
  slabIds := by
    intro nrMslab n hn
    have hLength := hPerm.length_eq
    simp only [List.length_map, List.length_range] at hn hLength
    rw [h.nrBlocks]
    omega

end Ssd.Has

/-- After any history of creations, the blocks of the last geometry are
enumerated as they should be exactly if all earlier geometries fit into it. -/
theorem enumerates_iff (earlier : List SsdConfig) (last : SsdConfig) :
    (∃ ssd calls, Ssd.ofStore (Store.createAll (earlier ++ [last])) = some ssd ∧
      ssd.iterateStore = some calls ∧ ssd.Enumerates calls) ↔ ∀ g ∈ earlier, g.FitsInto last := by
  obtain ⟨pairs, hNodup, hPairs, hIterate⟩ := iterateStore_createAll (earlier ++ [last])
  have hCreate : Store.createAll (earlier ++ [last]) = (Store.createAll earlier).create last := by
    rw [Store.createAll, List.foldl_append]
    rfl
  constructor
  · rintro ⟨ssd, calls, hSsd, hCalls, hEnumerates⟩ g hg
    rw [hCreate, ofStore_create] at hSsd
    have hHas : ssd.Has last := by
      obtain rfl := Option.some.inj hSsd
      exact ⟨rfl, rfl, rfl⟩
    have hDb : ssd.db = Store.createAll (earlier ++ [last]) := by
      obtain rfl := Option.some.inj hSsd
      exact hCreate.symm
    rw [hIterate ssd hDb] at hCalls
    obtain rfl := Option.some.inj hCalls
    refine fitsInto_iff.mpr fun i hi => ?_
    have hPair : g.pair i ∈ pairs := (hPairs _).mpr ⟨g, List.mem_append_left _ hg, i, hi, rfl⟩
    constructor
    · have hBlock := hEnumerates.once.mem_iff.mp (List.mem_map_of_mem (List.mem_map_of_mem hPair))
      rw [hHas.nrBlocks, Int.toNat_natCast] at hBlock
      obtain ⟨j, hj, hSame⟩ := List.mem_map.mp hBlock
      obtain rfl : j = i := Int.ofNat.inj hSame
      exact List.mem_range.mp hj
    · have hChannel := (hEnumerates.channel _ (List.mem_map_of_mem hPair)).1
      simp only [SsdConfig.pair, hHas.block] at hChannel
      exact (Int.ofNat.inj hChannel).symm
  · intro hFits
    refine ⟨_, _, by rw [hCreate, ofStore_create], hIterate _ hCreate.symm, ?_⟩
    refine Ssd.Has.enumerates (g := last) ⟨rfl, rfl, rfl⟩ ?_
    refine (List.perm_ext_iff_of_nodup hNodup ?_).mpr fun p => ?_
    · exact List.nodup_range.map fun i j h => (Prod.mk.inj h).2
    · rw [hPairs, List.mem_map]
      constructor
      · rintro ⟨g, hg, i, hi, rfl⟩
        rcases List.mem_append.mp hg with hg | hg
        · obtain ⟨hLess, hChannel⟩ := fitsInto_iff.mp (hFits g hg) i hi
          exact ⟨i, List.mem_range.mpr hLess, by rw [SsdConfig.pair, SsdConfig.pair, hChannel]⟩
        · obtain rfl := List.mem_singleton.mp hg
          exact ⟨i, List.mem_range.mpr hi, rfl⟩
      · rintro ⟨i, hi, rfl⟩
        exact ⟨last, by simp, i, List.mem_range.mp hi, rfl⟩

/-- Two creations on one path: block 1 is enumerated for both channels, and the
second time as the block of a slab that does not exist. -/
theorem enumerates_twice :
    ¬∀ (earlier : List SsdConfig) (last : SsdConfig), ∃ ssd calls,
      Ssd.ofStore (Store.createAll (earlier ++ [last])) = some ssd ∧
        ssd.iterateStore = some calls ∧ ssd.Enumerates calls := by
  intro hAll
  let first : SsdConfig :=
    ⟨1, 2, 4096, by decide, by decide, by decide, by decide, by decide⟩
  let last : SsdConfig :=
    ⟨2, 1, 4096, by decide, by decide, by decide, by decide, by decide⟩
  obtain ⟨ssd, calls, hSsd, hCalls, hEnumerates⟩ := hAll [first] last
  have hBlocks : (Ssd.ofStore (Store.createAll [first, last])).map Ssd.nrBlocks = some 2 := by
    decide +kernel
  have hIterate : (Ssd.ofStore (Store.createAll [first, last])).bind Ssd.iterateStore =
      some [(0, ⟨0, 0⟩), (0, ⟨1, 1⟩), (1, ⟨1, 1⟩)] := by
    decide +kernel
  rw [List.singleton_append] at hSsd
  rw [hSsd] at hBlocks hIterate
  obtain rfl := Option.some.inj (hCalls.symm.trans hIterate)
  have hLength := hEnumerates.slabIds 0 2 (by decide)
  rw [Option.some.inj hBlocks] at hLength
  exact absurd hLength (by decide)

/-- What the cache relies on when it numbers its disk slabs. -/
theorem Ssd.Enumerates.order {ssd : Ssd} {calls : List (Int × Block)} {cfg : Config}
    (h : ssd.Enumerates calls) (hBlocks : ssd.nrBlocks = cfg.nrBlocks)
    (hOrder : cfg.blockOrder = calls.map fun call => call.2.blockId.toNat) :
    cfg.blockOrder.Perm (List.range cfg.nrBlocks) := by
  have hOnce := h.once.map Int.toNat
  rw [hBlocks, Int.toNat_natCast, List.map_map, List.map_map] at hOnce
  rw [hOrder]
  simpa [Function.comp_def] using hOnce

end KVCache
