import KVCache.Data.Rings

/-! `list.h`, assignment by assignment. The links of a list are members of the
structures on it, so a list is found through pointers only: to the `list_head`
that starts it, and from each `list_head` to the next. -/

namespace KVCache

abbrev Ptr := BitVec 64

/-- The `list_head`s in memory, by their addresses. -/
abbrev Heap := Links Ptr

namespace Heap

def setNext (h : Heap) (p q : Ptr) : Heap := { h with next := Function.update h.next p q }

def setPrev (h : Heap) (p q : Ptr) : Heap := { h with prev := Function.update h.prev p q }

def initListHead (h : Heap) (list : Ptr) : Heap :=
  let h := h.setNext list list
  h.setPrev list list

def listEmpty (h : Heap) (head : Ptr) : Bool := h.next head = head

/-- `list_first_entry` for a structure with its `list_head` at an offset. -/
def listFirstEntry (h : Heap) (head offset : Ptr) : Ptr := h.next head - offset

def listAdd (h : Heap) (newh head : Ptr) : Heap :=
  let h := h.setNext newh (h.next head)
  let h := h.setPrev newh head
  let h := h.setPrev (h.next head) newh
  h.setNext head newh

def listDel (h : Heap) (entry : Ptr) : Heap :=
  let h := h.setNext (h.prev entry) (h.next entry)
  let h := h.setPrev (h.next entry) (h.prev entry)
  let h := h.setPrev entry entry
  h.setNext entry entry

section

variable {σ : Type}

/-- The loop of `list_for_each_with_entry` from an entry on, with a body that
may write to the memory. It is `none` as long as the loop wants to test its
condition more than `fuel` times. -/
def forEachFrom (head offset : Ptr) (body : Heap → σ → Ptr → Heap × σ) :
    Nat → Heap → σ → Ptr → Option (Heap × σ)
  | 0, _, _, _ => none
  | fuel + 1, h, s, entry =>
      if entry + offset ≠ head then
        let (h, s) := body h s entry
        forEachFrom head offset body fuel h s (h.next (entry + offset) - offset)
      else some (h, s)

def listForEachWithEntry (head offset : Ptr) (body : Heap → σ → Ptr → Heap × σ) (fuel : Nat)
    (h : Heap) (s : σ) : Option (Heap × σ) :=
  forEachFrom head offset body fuel h s (h.next head - offset)

end

end Heap

/-- The operations that write links. `INIT_LIST_HEAD` is used for the starts of
lists and for the members of structures. -/
inductive ListOp where
  | initList (list : Ptr)
  | initNode (node : Ptr)
  | add (newh head : Ptr)
  | del (entry : Ptr)
  deriving DecidableEq, Repr

def ListOp.run (h : Heap) : ListOp → Heap
  | .initList list => h.initListHead list
  | .initNode node => h.initListHead node
  | .add newh head => h.listAdd newh head
  | .del entry => h.listDel entry

/-! ### What the lists stand for -/

/-- Sequences of nodes, one for each list. -/
structure Sequences where
  heads : Set Ptr
  members : Ptr → List Ptr

namespace Sequences

/-- The memory holds these lists, and no two of them share a node. -/
def Held (q : Sequences) (h : Heap) : Prop := h.Rings q.heads q.members

/-- A node that is linked to itself and does not start a list. -/
def Detached (q : Sequences) (h : Heap) (x : Ptr) : Prop := x ∉ q.heads ∧ h.Alone x

/-- A `list_head` that no list uses. -/
def Unused (q : Sequences) (x : Ptr) : Prop := ∀ p ∈ q.heads, x ∉ p :: q.members p

end Sequences

namespace ListOp

/-- What an operation does to the sequences. -/
def apply (q : Sequences) : ListOp → Sequences
  | .initList list =>
      ⟨Set.insert list q.heads, Function.update q.members list []⟩
  | .initNode _ => q
  | .add newh head => { q with members := Function.update q.members head (newh :: q.members head) }
  | .del entry => { q with members := fun p => (q.members p).erase entry }

/-- An empty list may be initialised once more, as the constructor of the cache
does with those of the channels. -/
def Legal (h : Heap) (q : Sequences) : ListOp → Prop
  | .initList list => q.Unused list ∨ list ∈ q.heads ∧ q.members list = []
  | .initNode node => q.Unused node
  | .add newh head => head ∈ q.heads ∧ q.Detached h newh
  | .del entry => ∃ head ∈ q.heads, entry ∈ q.members head

/-- Every operation is legal when its turn comes. -/
def LegalRun (h : Heap) (q : Sequences) : List ListOp → Prop
  | [] => True
  | op :: ops => op.Legal h q ∧ LegalRun (op.run h) (op.apply q) ops

end ListOp

end KVCache
