/-! Cutting a text at its last separator, the one scan that tells a package from
a simple name. -/

namespace FactTypes

namespace Text

/-- The texts before and after the last separator; nothing when there is no
    separator. -/
def splitLast (separator : Char) : List Char → Option (List Char × List Char)
  | [] => none
  | c :: rest =>
    match splitLast separator rest with
    | some (before, after) => some (c :: before, after)
    | none => if c = separator then some ([], rest) else none

theorem splitLast_eq_none_iff {separator : Char} {cs : List Char} :
    splitLast separator cs = none ↔ separator ∉ cs := by
  induction cs with
  | nil => simp [splitLast]
  | cons c rest ih =>
    cases hrest : splitLast separator rest with
    | some cut =>
      have : separator ∈ rest := by
        by_cases hmem : separator ∈ rest
        · exact hmem
        · rw [ih.2 hmem] at hrest
          cases hrest
      simp [splitLast, hrest, this]
    | none =>
      have hnot := ih.1 hrest
      by_cases hc : c = separator
      · simp [splitLast, hrest, hc]
      · simp [splitLast, hrest, hc, hnot, Ne.symm hc]

theorem splitLast_append {separator : Char} {before after : List Char}
    (hafter : separator ∉ after) :
    splitLast separator (before ++ separator :: after) = some (before, after) := by
  induction before with
  | nil => simp [splitLast, splitLast_eq_none_iff.2 hafter]
  | cons c rest ih => simp [splitLast, ih]

/-- The cut is at the separator after which no other follows, and the
    separator alone is left out. -/
theorem splitLast_eq_some_iff {separator : Char} {cs before after : List Char} :
    splitLast separator cs = some (before, after) ↔
      cs = before ++ separator :: after ∧ separator ∉ after := by
  constructor
  · intro h
    induction cs generalizing before with
    | nil => simp [splitLast] at h
    | cons c rest ih =>
      cases hrest : splitLast separator rest with
      | some cut =>
        simp only [splitLast, hrest, Option.some.injEq, Prod.mk.injEq] at h
        obtain ⟨rfl, rfl⟩ := h
        obtain ⟨hsplit, hafter⟩ := ih hrest
        exact ⟨by rw [List.cons_append, ← hsplit], hafter⟩
      | none =>
        by_cases hc : c = separator
        · simp only [splitLast, hrest, hc, if_true, Option.some.injEq, Prod.mk.injEq] at h
          obtain ⟨rfl, rfl⟩ := h
          exact ⟨by rw [hc, List.nil_append], splitLast_eq_none_iff.1 hrest⟩
        · simp [splitLast, hrest, hc] at h
  · rintro ⟨rfl, hafter⟩
    exact splitLast_append hafter

end Text

end FactTypes
