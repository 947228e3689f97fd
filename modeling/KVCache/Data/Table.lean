import Mathlib

/-! Arrays as total maps from indices to cells. Only the cells up to the last
index written are stored; every other cell holds the default value. Reading
and writing therefore need no bounds, while a concrete array stays a finite
value that can be compared and computed with. -/

/-- A total map on indices, at its default outside of `cells`. -/
structure Table (α : Type*) where
  cells : List α
  deriving DecidableEq, Repr

namespace Table

variable {α β : Type*} [Inhabited α]

instance : Inhabited (Table β) := ⟨⟨[]⟩⟩

def get (t : Table α) (i : Nat) : α := t.cells.getD i default

instance : CoeFun (Table α) (fun _ => Nat → α) := ⟨get⟩

def setCells : List α → Nat → α → List α
  | [], 0, v => [v]
  | [], i + 1, v => default :: setCells [] i v
  | _ :: rest, 0, v => v :: rest
  | x :: rest, i + 1, v => x :: setCells rest i v

/-- Write one cell, filling the cells before it with the default. -/
def set (t : Table α) (i : Nat) (v : α) : Table α := ⟨setCells t.cells i v⟩

def modify (t : Table α) (i : Nat) (f : α → α) : Table α := t.set i (f (t i))

theorem getD_setCells (cells : List α) (i j : Nat) (v : α) :
    (setCells cells i v).getD j default = if j = i then v else cells.getD j default := by
  induction cells, i, v using setCells.induct generalizing j with
  | case1 v => cases j <;> simp [setCells]
  | case2 i v ih =>
      cases j with
      | zero => simp [setCells]
      | succ j => simpa [setCells] using ih j
  | case3 v x rest => cases j <;> simp [setCells]
  | case4 v x rest i ih =>
      cases j with
      | zero => simp [setCells]
      | succ j => simpa [setCells] using ih j

theorem get_set (t : Table α) (i j : Nat) (v : α) :
    (t.set i v) j = if j = i then v else t j :=
  getD_setCells t.cells i j v

@[simp] theorem get_set_self (t : Table α) (i : Nat) (v : α) : (t.set i v) i = v := by
  simp [get_set]

theorem get_set_of_ne (t : Table α) {i j : Nat} (v : α) (h : j ≠ i) : (t.set i v) j = t j := by
  simp [get_set, h]

theorem get_modify (t : Table α) (i j : Nat) (f : α → α) :
    (t.modify i f) j = if j = i then f (t i) else t j := by
  simp [modify, get_set]

@[simp] theorem get_modify_self (t : Table α) (i : Nat) (f : α → α) :
    (t.modify i f) i = f (t i) := by
  simp [get_modify]

theorem get_modify_of_ne (t : Table α) {i j : Nat} (f : α → α) (h : j ≠ i) :
    (t.modify i f) j = t j := by
  simp [get_modify, h]

/-- A projection that the update keeps is unchanged at every index. -/
theorem get_modify_proj (t : Table α) (i j : Nat) (f : α → α) (g : α → β)
    (h : g (f (t i)) = g (t i)) : g ((t.modify i f) j) = g (t j) := by
  rw [get_modify]
  split
  · subst j; exact h
  · rfl

theorem setCells_comm (cells : List α) {i j : Nat} (h : i ≠ j) (v w : α) :
    setCells (setCells cells i v) j w = setCells (setCells cells j w) i v := by
  induction cells, i, v using setCells.induct generalizing j with
  | case1 v => cases j <;> simp_all [setCells]
  | case2 i v ih =>
      cases j with
      | zero => simp [setCells]
      | succ j => simpa [setCells] using ih (j := j) (by omega)
  | case3 v x rest => cases j <;> simp_all [setCells]
  | case4 v x rest i ih =>
      cases j with
      | zero => simp [setCells]
      | succ j => simpa [setCells] using ih (j := j) (by omega)

theorem setCells_setCells (cells : List α) (i : Nat) (v w : α) :
    setCells (setCells cells i v) i w = setCells cells i w := by
  induction cells, i, v using setCells.induct with
  | case1 v => rfl
  | case2 i v ih => simpa [setCells] using ih
  | case3 v x rest => rfl
  | case4 v x rest i ih => simpa [setCells] using ih

/-- The later one of two writes to a cell remains. -/
theorem set_set (t : Table α) (i : Nat) (v w : α) : (t.set i v).set i w = t.set i w := by
  simp only [set, setCells_setCells]

theorem setCells_getD (cells : List α) {i : Nat} (h : i < cells.length) :
    setCells cells i (cells.getD i default) = cells := by
  induction cells generalizing i with
  | nil => cases h
  | cons x rest ih =>
      cases i with
      | zero => rfl
      | succ i => simpa [setCells] using ih (i := i) (by simpa using h)

/-- To write what a stored cell holds changes nothing. -/
theorem set_get_self (t : Table α) {i : Nat} (h : i < t.cells.length) : t.set i (t i) = t := by
  simp only [set, get, setCells_getD t.cells h]

/-- A cell with another value than the default is stored. -/
theorem lt_length_of_ne_default (t : Table α) {i : Nat} (h : t i ≠ default) :
    i < t.cells.length := by
  by_contra hNot
  exact h (by rw [get, List.getD_eq_default _ _ (by omega)])

/-- Writes to different cells can be exchanged. -/
theorem set_comm (t : Table α) {i j : Nat} (h : i ≠ j) (v w : α) :
    (t.set i v).set j w = (t.set j w).set i v := by
  simp only [set, setCells_comm t.cells h]

theorem modify_set_of_ne (t : Table α) {i j : Nat} {v : α} (h : j ≠ i) (f : α → α) :
    (t.set i v).modify j f = (t.modify j f).set i v := by
  rw [modify, get_set_of_ne _ _ h]
  exact set_comm t h.symm v _

@[simp] theorem get_empty (i : Nat) : (⟨[]⟩ : Table α) i = default := by simp [get]

@[simp] theorem get_replicate_default (n i : Nat) :
    (⟨List.replicate n default⟩ : Table α) i = default := by
  simp only [get, List.getD_eq_getElem?_getD, List.getElem?_replicate]
  split <;> rfl

/-- All elements of a table of collections, in the order of the indices. -/
def flatMap (t : Table α) (f : α → List β) : List β := t.cells.flatMap f

theorem mem_flatMap {t : Table α} {f : α → List β} (hf : f default = []) {x : β} :
    x ∈ t.flatMap f ↔ ∃ i, x ∈ f (t i) := by
  simp only [flatMap, List.mem_flatMap]
  constructor
  · rintro ⟨cell, hCell, hx⟩
    obtain ⟨i, hi, rfl⟩ := List.mem_iff_getElem.mp hCell
    exact ⟨i, by simpa [get, List.getD_eq_getElem?_getD, List.getElem?_eq_getElem hi] using hx⟩
  · rintro ⟨i, hx⟩
    by_cases hi : i < t.cells.length
    · refine ⟨t.cells[i], List.getElem_mem hi, ?_⟩
      simpa [get, List.getD_eq_getElem?_getD, List.getElem?_eq_getElem hi] using hx
    · have hDefault : t i = default := by
        simp [get, List.getD_eq_getElem?_getD, List.getElem?_eq_none (Nat.le_of_not_lt hi)]
      rw [hDefault, hf] at hx
      cases hx

theorem sublist_flatMap {t : Table α} {f : α → List β} (hf : f default = []) (i : Nat) :
    (f (t i)).Sublist (t.flatMap f) := by
  by_cases hi : i < t.cells.length
  · have hGet : t i = t.cells[i] := by
      simp [get, List.getD_eq_getElem?_getD, List.getElem?_eq_getElem hi]
    rw [hGet, flatMap, List.flatMap_def]
    exact List.sublist_flatten_of_mem (List.mem_map_of_mem (List.getElem_mem hi))
  · have hDefault : t i = default := by
      simp [get, List.getD_eq_getElem?_getD, List.getElem?_eq_none (Nat.le_of_not_lt hi)]
    rw [hDefault, hf]
    exact List.nil_sublist _

/-- No element occurs twice when none is in two cells. -/
theorem nodup_flatMap {t : Table α} {f : α → List β} (hEach : ∀ i, (f (t i)).Nodup)
    (hApart : ∀ i j x, x ∈ f (t i) → x ∈ f (t j) → i = j) : (t.flatMap f).Nodup := by
  have hGet : ∀ i (hi : i < t.cells.length), t i = t.cells[i] := fun i hi => by
    simp [get, List.getD_eq_getElem?_getD, List.getElem?_eq_getElem hi]
  refine List.nodup_flatMap.mpr ⟨fun cell hCell => ?_, List.pairwise_iff_getElem.mpr ?_⟩
  · obtain ⟨i, hi, rfl⟩ := List.mem_iff_getElem.mp hCell
    rw [← hGet i hi]
    exact hEach i
  · intro i j hi hj hLt x hx hx'
    rw [← hGet i hi] at hx
    rw [← hGet j hj] at hx'
    exact Nat.ne_of_lt hLt (hApart i j x hx hx')

theorem flatMap_replicate_default (n : Nat) {f : α → List β} (hf : f default = []) :
    (⟨List.replicate n default⟩ : Table α).flatMap f = [] := by
  refine List.eq_nil_iff_forall_not_mem.mpr fun x hx => ?_
  obtain ⟨i, hi⟩ := (mem_flatMap hf).mp hx
  rw [get_replicate_default, hf] at hi
  cases hi

/-- Writing one cell exchanges its old elements for the new ones and moves
nothing else, whatever is counted. -/
theorem countP_flatMap_set (t : Table α) (f : α → List β) (hf : f default = [])
    (p : β → Bool) (i : Nat) (v : α) :
    ((t.set i v).flatMap f).countP p + (f (t i)).countP p =
      (t.flatMap f).countP p + (f v).countP p := by
  obtain ⟨cells⟩ := t
  simp only [set, flatMap, get]
  induction cells, i, v using setCells.induct with
  | case1 v => simp [setCells, hf]
  | case2 i v ih => simpa [setCells, hf] using ih
  | case3 v x rest => simp [setCells]; omega
  | case4 v x rest i ih => simp [setCells] at ih ⊢; omega

theorem length_flatMap_set (t : Table α) (f : α → List β) (hf : f default = [])
    (i : Nat) (v : α) :
    ((t.set i v).flatMap f).length + (f (t i)).length =
      (t.flatMap f).length + (f v).length := by
  simpa [List.countP_true] using t.countP_flatMap_set f hf (fun _ => true) i v

/-- A sum over all cells follows a write. -/
theorem sum_map_set {M : Type*} [AddCommMonoid M] (t : Table α) (f : α → M) (hf : f default = 0)
    (i : Nat) (v : α) :
    ((t.set i v).cells.map f).sum + f (t i) = (t.cells.map f).sum + f v := by
  obtain ⟨cells⟩ := t
  simp only [set, get]
  induction cells, i, v using setCells.induct with
  | case1 v => simp [setCells, hf]
  | case2 i v ih => simpa [setCells, hf] using ih
  | case3 x rest v =>
      simp only [setCells, List.map_cons, List.sum_cons, List.getD_cons_zero]
      rw [add_right_comm, add_comm (f v), add_right_comm]
  | case4 v x rest i ih =>
      simp only [setCells, List.map_cons, List.sum_cons, List.getD_cons_succ]
      rw [add_assoc, ih, add_assoc]

/-- When the cells from `n` on are empty, the first `n` cells count. -/
theorem length_flatMap_eq_sum {t : Table α} {f : α → List β} (hf : f default = []) (n : Nat)
    (h : ∀ i, n ≤ i → f (t i) = []) :
    (t.flatMap f).length = ((List.range n).map fun i => (f (t i)).length).sum := by
  obtain ⟨cells⟩ := t
  simp only [flatMap, get] at h ⊢
  induction cells generalizing n with
  | nil => simp [hf]
  | cons x rest ih =>
      cases n with
      | zero =>
          have hx : f x = [] := by simpa using h 0 (Nat.le_refl 0)
          have hRest := ih 0 fun i _ => by simpa using h (i + 1) (Nat.zero_le _)
          simp [hx, hRest]
      | succ n =>
          have hRest := ih n fun i hi => by simpa using h (i + 1) (by omega)
          simp [List.range_succ_eq_map, hRest, Function.comp_def]

end Table
