import KVCache.Properties.Lookup

/-! What quick GC evicts. It deletes the entry of every key that it finds in a
slab it drops, without looking where the entry points. Normal GC does look. -/

namespace KVCache

variable {build : Build} {cfg : Config} {c c' c₁ : Cache} {s : Sys} {toDrop : List Nat}

/-- A key whose entry points to a slab that is not dropped keeps it. -/
def KeepsOthers (cfg : Config) (c : Cache) (toDrop : List Nat) (c' : Cache) : Prop :=
  ∀ key e, c.index.getIndexEntry cfg key = some e → (c.index.entries e).slabId ∉ toDrop →
    ∃ e', c'.index.getIndexEntry cfg key = some e' ∧
      (c'.index.entries e').slabId = (c.index.entries e).slabId ∧
      (c'.index.entries e').slotId = (c.index.entries e).slotId

/-- Deleting all keys of the dropped slabs concerns their own entries only when
these slabs hold no key with an entry elsewhere. -/
theorem keepsOthers_iff_of_pruned
    (h : c.index.Pruned cfg c'.index fun key => ∃ d ∈ toDrop, StoredIn cfg c d key) :
    KeepsOthers cfg c toDrop c' ↔ OwnKeys cfg c toDrop := by
  constructor
  · intro hKeeps d hd i hi e hGet
    by_contra hOther
    obtain ⟨e', hGet', -⟩ := hKeeps _ e hGet hOther
    rw [h.lost _ ⟨d, hd, i, hi, rfl⟩] at hGet'
    cases hGet'
  · intro hOwn key e hGet hOther
    have hStays : ¬∃ d ∈ toDrop, StoredIn cfg c d key := by
      rintro ⟨d, hd, i, hi, hCell⟩
      rw [Index.getIndexEntry_congr c.index hCell] at hGet
      exact hOther (hOwn d hd i hi e hGet)
    exact ⟨e, (h.kept key hStays).trans hGet, by rw [h.entries], by rw [h.entries]⟩

end KVCache
