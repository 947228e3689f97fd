import Mathlib

/-! Finite maps whose entries are kept in the order of their keys, as key-value
stores keep them. When the keys are texts, the keys with a common beginning are
next to each other, so that a walk from the first of them finds them all. -/

/-- A finite map, sorted by its keys. -/
structure OrderedMap (κ ν : Type) [LinearOrder κ] where
  entries : List (κ × ν)
  sorted : entries.Pairwise fun a b => a.1 < b.1

namespace OrderedMap

variable {κ ν : Type} [LinearOrder κ]

def empty : OrderedMap κ ν := ⟨[], .nil⟩

def keys (m : OrderedMap κ ν) : List κ := m.entries.map Prod.fst

def get (m : OrderedMap κ ν) (k : κ) : Option ν := m.entries.lookup k

def putEntries (k : κ) (v : ν) : List (κ × ν) → List (κ × ν)
  | [] => [(k, v)]
  | e :: rest =>
      if k < e.1 then (k, v) :: e :: rest
      else if k = e.1 then (k, v) :: rest
      else e :: putEntries k v rest

theorem mem_putEntries {k : κ} {v : ν} {entries : List (κ × ν)} {e : κ × ν}
    (h : e ∈ putEntries k v entries) : e = (k, v) ∨ e ∈ entries := by
  induction entries with
  | nil => exact .inl (List.mem_singleton.mp h)
  | cons first rest ih =>
      unfold putEntries at h
      split_ifs at h
      · exact List.mem_cons.mp h
      · rcases List.mem_cons.mp h with h | h
        · exact .inl h
        · exact .inr (List.mem_cons_of_mem _ h)
      · rcases List.mem_cons.mp h with rfl | h
        · exact .inr List.mem_cons_self
        · exact (ih h).imp_right (List.mem_cons_of_mem _)

theorem sorted_putEntries (k : κ) (v : ν) {entries : List (κ × ν)}
    (h : entries.Pairwise fun a b => a.1 < b.1) :
    (putEntries k v entries).Pairwise fun a b => a.1 < b.1 := by
  induction entries with
  | nil => exact List.pairwise_singleton _ _
  | cons first rest ih =>
      obtain ⟨hFirst, hRest⟩ := List.pairwise_cons.mp h
      unfold putEntries
      split_ifs with hLess hSame
      · refine List.pairwise_cons.mpr ⟨fun e he => ?_, h⟩
        rcases List.mem_cons.mp he with rfl | he
        · exact hLess
        · exact hLess.trans (hFirst e he)
      · exact List.pairwise_cons.mpr ⟨fun e he => hSame ▸ hFirst e he, hRest⟩
      · refine List.pairwise_cons.mpr ⟨fun e he => ?_, ih hRest⟩
        rcases mem_putEntries he with rfl | he
        · exact lt_of_le_of_ne (not_lt.mp hLess) (Ne.symm hSame)
        · exact hFirst e he

/-- Add an entry, or replace the one of the key. -/
def put (m : OrderedMap κ ν) (k : κ) (v : ν) : OrderedMap κ ν :=
  ⟨putEntries k v m.entries, sorted_putEntries k v m.sorted⟩

@[simp] theorem keys_empty : (empty : OrderedMap κ ν).keys = [] := rfl

theorem keys_sorted (m : OrderedMap κ ν) : m.keys.Pairwise (· < ·) :=
  List.pairwise_map.mpr m.sorted

theorem mem_keys_put {m : OrderedMap κ ν} {k k' : κ} {v : ν} :
    k' ∈ (m.put k v).keys ↔ k' = k ∨ k' ∈ m.keys := by
  obtain ⟨entries, hSorted⟩ := m
  simp only [put, keys]
  clear hSorted
  induction entries with
  | nil => simp [putEntries]
  | cons first rest ih =>
      unfold putEntries
      split_ifs with hLess hSame
      · simp
      · simp [hSame]
      · simp only [List.map_cons, List.mem_cons, ih]
        exact or_left_comm

theorem lookup_cons_eq_ite (k : κ) (e : κ × ν) (rest : List (κ × ν)) :
    (e :: rest).lookup k = if k = e.1 then some e.2 else rest.lookup k := by
  rw [List.lookup_cons]
  by_cases h : k = e.1
  · rw [if_pos h, beq_iff_eq.mpr h]
  · rw [if_neg h, beq_eq_false_iff_ne.mpr h]

theorem get_put (m : OrderedMap κ ν) (k k' : κ) (v : ν) :
    (m.put k v).get k' = if k' = k then some v else m.get k' := by
  obtain ⟨entries, hSorted⟩ := m
  simp only [put, get]
  clear hSorted
  induction entries with
  | nil => rw [putEntries, lookup_cons_eq_ite]
  | cons first rest ih =>
      unfold putEntries
      split
      · rw [lookup_cons_eq_ite]
      · split
        · rename_i hSame
          rw [lookup_cons_eq_ite, lookup_cons_eq_ite]
          by_cases hKey : k' = k
          · rw [if_pos hKey, if_pos hKey]
          · rw [if_neg hKey, if_neg hKey, if_neg (hSame ▸ hKey)]
        · rename_i hNe
          rw [lookup_cons_eq_ite, lookup_cons_eq_ite, ih]
          by_cases hKey : k' = first.1
          · rw [if_pos hKey, if_pos hKey, if_neg fun h => hNe (h.symm.trans hKey)]
          · rw [if_neg hKey, if_neg hKey]

section Loop

variable {ι : Type} {f : ι → κ} {v : ν} {k : κ}

theorem mem_keys_foldl_put {l : List ι} {m : OrderedMap κ ν} :
    k ∈ (l.foldl (fun m i => m.put (f i) v) m).keys ↔ (∃ i ∈ l, k = f i) ∨ k ∈ m.keys := by
  induction l generalizing m with
  | nil => simp
  | cons i rest ih => rw [List.foldl_cons, ih, mem_keys_put, List.exists_mem_cons_iff, or_left_comm, or_assoc]

theorem get_foldl_put {l : List ι} {m : OrderedMap κ ν} (h : ∀ i ∈ l, k ≠ f i) :
    (l.foldl (fun m i => m.put (f i) v) m).get k = m.get k := by
  induction l generalizing m with
  | nil => rfl
  | cons i rest ih =>
      rw [List.foldl_cons, ih fun j hj => h j (List.mem_cons_of_mem _ hj), get_put,
        if_neg (h i List.mem_cons_self)]

end Loop

/-- The keys from a given one on, as an iterator delivers them. -/
def seek (m : OrderedMap κ ν) (k : κ) : List κ := m.keys.dropWhile (· < k)

/-! ### Keys with a common beginning -/

section Text

variable {α : Type} [LinearOrder α]

theorem le_of_isPrefix {p k : List α} (h : p <+: k) : p ≤ k := by
  obtain ⟨rest, rfl⟩ := h
  induction p with
  | nil => exact not_lt.mp (List.not_lt_nil _)
  | cons a p ih => exact List.cons_le_cons a ih

/-- Between a text and one that begins with it, all texts begin with it. -/
theorem isPrefix_of_between {p k k' : List α} (hLow : p ≤ k) (hHigh : k ≤ k') (h : p <+: k') :
    p <+: k := by
  induction p generalizing k k' with
  | nil => exact List.nil_prefix
  | cons a p ih =>
      obtain ⟨rest, rfl⟩ := h
      cases k with
      | nil => exact absurd (List.nil_lt_cons a p) (not_lt.mpr hLow)
      | cons b k =>
          rw [← not_lt, List.cons_lt_cons_iff] at hLow
          rw [List.cons_append, ← not_lt, List.cons_lt_cons_iff] at hHigh
          have hSame : a = b := le_antisymm (not_lt.mp fun h => hLow (.inl h))
            (not_lt.mp fun h => hHigh (.inl h))
          subst hSame
          refine List.cons_prefix_cons.mpr ⟨rfl, ih ?_ ?_ (List.prefix_append p rest)⟩
          · exact not_lt.mp fun h => hLow (.inr ⟨rfl, h⟩)
          · exact not_lt.mp fun h => hHigh (.inr ⟨rfl, h⟩)

/-- A walk over all keys that begin with `p`: it starts at the first key that is
not less than `p` and ends with the first key that begins otherwise. -/
def scan (m : OrderedMap (List α) ν) (p : List α) : List (List α) :=
  (m.seek p).takeWhile p.isPrefixOf

/-- Once the walk has left the keys that begin with `p`, no such key follows. -/
theorem takeWhile_eq_filter {p : List α} {l : List (List α)} (hSorted : l.Pairwise (· < ·))
    (hLow : ∀ k ∈ l, p ≤ k) : l.takeWhile p.isPrefixOf = l.filter p.isPrefixOf := by
  induction l with
  | nil => rfl
  | cons k rest ih =>
      obtain ⟨hFirst, hRest⟩ := List.pairwise_cons.mp hSorted
      by_cases hPrefix : p.isPrefixOf k = true
      · rw [List.takeWhile_cons_of_pos hPrefix, List.filter_cons_of_pos hPrefix,
          ih hRest fun k hk => hLow k (List.mem_cons_of_mem _ hk)]
      · rw [List.takeWhile_cons_of_neg hPrefix, List.filter_cons_of_neg hPrefix, eq_comm,
          List.filter_eq_nil_iff]
        intro k' hk' hPrefix'
        refine hPrefix (List.isPrefixOf_iff_prefix.mpr ?_)
        exact isPrefix_of_between (hLow k List.mem_cons_self) (hFirst k' hk').le
          (List.isPrefixOf_iff_prefix.mp hPrefix')

/-- The walk finds the keys that begin with `p`. -/
theorem scan_eq_filter (m : OrderedMap (List α) ν) (p : List α) :
    m.scan p = m.keys.filter p.isPrefixOf := by
  unfold scan seek
  have hSorted := m.keys_sorted
  generalize m.keys = l at hSorted
  induction l with
  | nil => rfl
  | cons k rest ih =>
      obtain ⟨hFirst, hRest⟩ := List.pairwise_cons.mp hSorted
      by_cases hLess : k < p
      · have hPrefix : ¬p.isPrefixOf k = true := fun h =>
          not_lt.mpr (le_of_isPrefix (List.isPrefixOf_iff_prefix.mp h)) hLess
        rw [List.dropWhile_cons_of_pos (by simpa using hLess), List.filter_cons_of_neg hPrefix,
          ih hRest]
      · rw [List.dropWhile_cons_of_neg (by simpa using hLess)]
        refine takeWhile_eq_filter hSorted fun k' hk' => ?_
        rcases List.mem_cons.mp hk' with rfl | hk'
        · exact not_lt.mp hLess
        · exact (not_lt.mp hLess).trans (hFirst k' hk').le

end Text

end OrderedMap
