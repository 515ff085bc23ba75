import Mathlib.Data.List.Sort
import FactTypes.Proofs.Schema.Editing

/-! The fields of a schema by position: those at an index come first, by ascending index,
and the others follow as they stand. Because no index is held twice, the first part is
settled by the fields alone, in whatever order these were added. -/

namespace FactTypes

/-- Whether a field is at a lower index than another one. -/
def Field.Precedes (f g : Field) : Prop :=
  ∃ i j, f.index = some i ∧ g.index = some j ∧ i < j

namespace Schema

/-- The fields at an index, by ascending index. -/
def ranked (s : Schema) : List Field :=
  (s.fields.filter fun f => f.index.isSome).mergeSort fun f g => f.index.getD 0 ≤ g.index.getD 0

/-- The fields at no index, as they stand. -/
def unranked (s : Schema) : List Field :=
  s.fields.filter fun f => f.index.isNone

end Schema

variable {s t : Schema} {f g : Field} {edits : List Schema.Edit}

theorem Field.Precedes.asymm (hfg : f.Precedes g) : ¬g.Precedes f := by
  rintro ⟨j, i, hg, hf, hlt⟩
  obtain ⟨i', j', hf', hg', hlt'⟩ := hfg
  obtain rfl := Option.some.inj (hf.symm.trans hf')
  obtain rfl := Option.some.inj (hg.symm.trans hg')
  omega

instance : Std.Irrefl Field.Precedes :=
  ⟨fun _ hff => hff.asymm hff⟩

instance : Std.Antisymm Field.Precedes :=
  ⟨fun _ _ hfg hgf => absurd hgf hfg.asymm⟩

namespace Schema

theorem positionOrder_eq (s : Schema) : s.positionOrder = s.ranked ++ s.unranked := rfl

theorem mem_ranked_iff : f ∈ s.ranked ↔ f ∈ s.fields ∧ f.index.isSome = true := by
  rw [ranked, List.mem_mergeSort, List.mem_filter]

/-- Every field has its place in the order, and nothing else has. -/
theorem positionOrder_perm (s : Schema) : s.positionOrder.Perm s.fields := by
  have hsplit := List.filter_append_perm (fun f : Field => f.index.isSome) s.fields
  have hrest : (s.fields.filter fun f => !f.index.isSome) = s.unranked := by
    simp only [unranked, Option.not_isSome]
  rw [hrest] at hsplit
  rw [positionOrder_eq]
  exact ((List.mergeSort_perm _ _).append_right _).trans hsplit

/-- The fields at no index stand in the order in which their names came up. -/
theorem names_unranked_sublist (edits : List Edit) :
    ((edited edits).unranked.map Field.name).Sublist
      (firstOfEach id (edits.flatMap Edit.names)) := by
  rw [← fieldNames_edited]
  exact List.filter_sublist.map Field.name

/-- Sorting brings a field in front of another one only if its index is not higher. -/
theorem pairwise_le_ranked (s : Schema) :
    s.ranked.Pairwise fun f g => f.index.getD 0 ≤ g.index.getD 0 := by
  refine (List.pairwise_mergeSort ?_ ?_ _).imp of_decide_eq_true
  · intro f g h hfg hgh
    exact decide_eq_true (Nat.le_trans (of_decide_eq_true hfg) (of_decide_eq_true hgh))
  · intro f g
    simpa using Nat.le_total (f.index.getD 0) (g.index.getD 0)

/-- Where no index is held twice, the indices ascend strictly. -/
theorem Distinct.pairwise_ranked (hs : s.Distinct) : s.ranked.Pairwise Field.Precedes := by
  have hnodup : s.ranked.Nodup :=
    (List.mergeSort_perm _ _).nodup_iff.2 (hs.nodup_fields.filter _)
  refine (s.pairwise_le_ranked.and hnodup).imp_of_mem ?_
  rintro f g hf hg ⟨hle, hne⟩
  obtain ⟨hf, hfsome⟩ := mem_ranked_iff.1 hf
  obtain ⟨hg, hgsome⟩ := mem_ranked_iff.1 hg
  obtain ⟨i, hi⟩ := Option.isSome_iff_exists.1 hfsome
  obtain ⟨j, hj⟩ := Option.isSome_iff_exists.1 hgsome
  have hij : i ≠ j := by
    rintro rfl
    exact hne (hs.eq_of_index hf hg hi hj)
  rw [hi, hj, Option.getD_some, Option.getD_some] at hle
  exact ⟨i, j, hi, hj, Nat.lt_of_le_of_ne hle hij⟩

/-- Schemas with the same fields have the same fields in front, in the same order. -/
theorem Distinct.ranked_congr (hs : s.Distinct) (ht : t.Distinct)
    (hfields : ∀ f, f ∈ t.fields ↔ f ∈ s.fields) : t.ranked = s.ranked := by
  refine ht.pairwise_ranked.eq_of_mem_iff hs.pairwise_ranked fun f => ?_
  rw [mem_ranked_iff, mem_ranked_iff, hfields]

/-- Schemas with the same fields have the same fields behind, in an order of their own. -/
theorem Distinct.unranked_perm (hs : s.Distinct) (ht : t.Distinct)
    (hfields : ∀ f, f ∈ t.fields ↔ f ∈ s.fields) : t.unranked.Perm s.unranked :=
  ((List.perm_ext_iff_of_nodup ht.nodup_fields hs.nodup_fields).2 hfields).filter _

/-- Whatever operations are done to the empty schema, the order by position has every field
    of the schema once. In front are the fields at an index, and their indices ascend
    strictly; behind them are the others, in the order in which they stand in the schema,
    which is the order in which their names came up. Another schema with the same fields
    has the same fields in front, in the same order, and only those behind may be in
    another one. -/
theorem positionOrder_edited (edits : List Edit) :
    let s := edited edits
    s.positionOrder.Perm s.fields ∧ s.positionOrder.Nodup ∧
      ∃ front back, s.positionOrder = front ++ back ∧
        (∀ f ∈ front, f.index.isSome = true) ∧ front.Pairwise Field.Precedes ∧
        back = (s.fields.filter fun f => f.index.isNone) ∧
        (back.map Field.name).Sublist (firstOfEach id (edits.flatMap Edit.names)) ∧
        ∀ others : List Edit, (∀ f, f ∈ (edited others).fields ↔ f ∈ s.fields) →
          ∃ back', (edited others).positionOrder = front ++ back' ∧ back'.Perm back := by
  intro s
  have hs : s.Distinct := distinct_edited edits
  refine ⟨s.positionOrder_perm, s.positionOrder_perm.nodup_iff.2 hs.nodup_fields,
    s.ranked, s.unranked, s.positionOrder_eq, fun f hf => (mem_ranked_iff.1 hf).2,
    hs.pairwise_ranked, rfl, names_unranked_sublist edits, fun others hfields => ?_⟩
  have ht : (edited others).Distinct := distinct_edited others
  refine ⟨(edited others).unranked, ?_, hs.unranked_perm ht hfields⟩
  rw [positionOrder_eq, hs.ranked_congr ht hfields]

/-- An order with gaps between the indices, and the same fields added the other way round. -/
theorem positionOrder_edited_invoice :
    let s := edited [.add ⟨"note", "text", none⟩, .add ⟨"total", "int", some 7⟩,
      .add ⟨"day", "date", some 2⟩, .add ⟨"payer", "text", none⟩]
    let t := edited [.add ⟨"payer", "text", none⟩, .add ⟨"day", "date", some 2⟩,
      .add ⟨"total", "int", some 7⟩, .add ⟨"note", "text", none⟩]
    (∀ f, f ∈ t.fields ↔ f ∈ s.fields) ∧
      ∃ front back back', s.positionOrder = front ++ back ∧ t.positionOrder = front ++ back' ∧
        back'.Perm back := by
  intro s t
  have hfields : ∀ f, f ∈ t.fields ↔ f ∈ s.fields := by
    have hperm : t.fields.Perm s.fields := by decide
    exact fun f => hperm.mem_iff
  obtain ⟨-, -, front, back, horder, -, -, -, -, hsame⟩ := positionOrder_edited
    [.add ⟨"note", "text", none⟩, .add ⟨"total", "int", some 7⟩,
      .add ⟨"day", "date", some 2⟩, .add ⟨"payer", "text", none⟩]
  obtain ⟨back', horder', hback⟩ := hsame _ hfields
  exact ⟨hfields, front, back, back', horder, horder', hback⟩

end Schema

end FactTypes
