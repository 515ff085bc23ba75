/-!
# Blank characters

Which characters count as blank space around a word, and how a text is cut
free of them. The class is the Unicode property `White_Space`, so a no-break
space or an ideographic space is as blank as a tab.
-/

namespace FactTypes

namespace Text

/-- First and last code point of every run of the property `White_Space`, in
    ascending order. -/
def blankRanges : List (Nat × Nat) :=
  [(0x09, 0x0D), (0x20, 0x20), (0x85, 0x85), (0xA0, 0xA0), (0x1680, 0x1680),
    (0x2000, 0x200A), (0x2028, 0x2029), (0x202F, 0x202F), (0x205F, 0x205F),
    (0x3000, 0x3000)]

/-- Whether a character is blank: its code point lies in one of the runs. -/
def isBlank (c : Char) : Bool :=
  blankRanges.any fun run => run.1 ≤ c.toNat && c.toNat ≤ run.2

/-- A text without its leading and trailing blanks. -/
def trim (cs : List Char) : List Char :=
  ((cs.dropWhile isBlank).reverse.dropWhile isBlank).reverse

/-- The class has twenty-five members. -/
example : (blankRanges.map fun run => run.2 + 1 - run.1).sum = 25 := by decide

/-- The runs ascend and do not touch. -/
example : (blankRanges.zip blankRanges.tail).all (fun p => p.1.2 + 1 < p.2.1) = true := by
  decide

theorem isBlank_of_isWhitespace {c : Char} (h : c.isWhitespace = true) : isBlank c = true := by
  simp only [Char.isWhitespace, Bool.or_eq_true, decide_eq_true_eq] at h
  rcases h with ((rfl | rfl) | rfl) | rfl <;> decide

private theorem head?_dropWhile_blank (cs : List Char) (c : Char)
    (h : (cs.dropWhile isBlank).head? = some c) : isBlank c = false := by
  have := List.head?_dropWhile_not isBlank cs
  rw [h] at this
  simpa using this

/-- A trimmed text does not end with a blank. -/
theorem getLast?_trim {cs : List Char} {c : Char} (h : (trim cs).getLast? = some c) :
    isBlank c = false := by
  rw [trim, List.getLast?_reverse] at h
  exact head?_dropWhile_blank _ c h

/-- Cutting the trailing blanks leaves an initial stretch of what the leading
    cut left. -/
theorem trim_prefix (cs : List Char) : trim cs <+: cs.dropWhile isBlank := by
  have h := List.dropWhile_suffix (l := (cs.dropWhile isBlank).reverse) isBlank
  rw [← List.reverse_prefix, List.reverse_reverse] at h
  exact h

/-- A trimmed text does not start with a blank. -/
theorem head?_trim {cs : List Char} {c : Char} (h : (trim cs).head? = some c) :
    isBlank c = false := by
  obtain ⟨rest, hrest⟩ := trim_prefix cs
  apply head?_dropWhile_blank cs c
  rw [← hrest, List.head?_append, h, Option.some_or]

private theorem dropWhile_blank_eq_self {cs : List Char}
    (h : ∀ c, cs.head? = some c → isBlank c = false) : cs.dropWhile isBlank = cs := by
  cases cs with
  | nil => rfl
  | cons c rest => simp [h c rfl]

/-- A text is its own trim exactly when no blank stands at either end. -/
theorem trim_eq_self_iff {cs : List Char} :
    trim cs = cs ↔ (∀ c, cs.head? = some c → isBlank c = false) ∧
      ∀ c, cs.getLast? = some c → isBlank c = false := by
  constructor
  · intro h
    exact ⟨fun c hc => head?_trim (h ▸ hc), fun c hc => getLast?_trim (h ▸ hc)⟩
  · rintro ⟨hfirst, hlast⟩
    have hrev : ∀ c, cs.reverse.head? = some c → isBlank c = false := by
      intro c hc
      exact hlast c (List.head?_reverse ▸ hc)
    rw [trim, dropWhile_blank_eq_self hfirst, dropWhile_blank_eq_self hrev,
      List.reverse_reverse]

/-- Trimming a second time changes nothing. -/
theorem trim_trim (cs : List Char) : trim (trim cs) = trim cs :=
  trim_eq_self_iff.2 ⟨fun _ => head?_trim, fun _ => getLast?_trim⟩

/-- Only blanks are taken away. -/
theorem exists_trim_eq (cs : List Char) :
    ∃ before after, cs = before ++ trim cs ++ after ∧
      (∀ c ∈ before, isBlank c = true) ∧ ∀ c ∈ after, isBlank c = true := by
  have hfront := List.takeWhile_append_dropWhile (p := isBlank) (l := cs)
  have hback :=
    List.takeWhile_append_dropWhile (p := isBlank) (l := (cs.dropWhile isBlank).reverse)
  have hrest : cs.dropWhile isBlank =
      trim cs ++ ((cs.dropWhile isBlank).reverse.takeWhile isBlank).reverse := by
    rw [trim, ← List.reverse_append, hback, List.reverse_reverse]
  refine ⟨cs.takeWhile isBlank, ((cs.dropWhile isBlank).reverse.takeWhile isBlank).reverse,
    ?_, List.all_eq_true.1 List.all_takeWhile, fun c hc => ?_⟩
  · rw [List.append_assoc, ← hrest, hfront]
  · exact List.all_eq_true.1 List.all_takeWhile c (List.mem_reverse.1 hc)

/-- All blanks around a text that is trimmed already are taken away. -/
theorem trim_surrounded {before middle after : List Char}
    (hbefore : ∀ c ∈ before, isBlank c = true)
    (hafter : ∀ c ∈ after, isBlank c = true) (hmiddle : trim middle = middle) :
    trim (before ++ middle ++ after) = middle := by
  have hends := trim_eq_self_iff.1 hmiddle
  rw [trim, List.append_assoc, List.dropWhile_append_of_pos hbefore]
  cases middle with
  | nil =>
    rw [List.nil_append, ← List.append_nil after, List.dropWhile_append_of_pos hafter]
    rfl
  | cons c rest =>
    have hfirst : ¬isBlank c = true := by simp [hends.1 c rfl]
    rw [List.cons_append, List.dropWhile_cons_of_neg hfirst, ← List.cons_append,
      List.reverse_append,
      List.dropWhile_append_of_pos fun d hd => hafter d (List.mem_reverse.1 hd)]
    have hlast := hmiddle
    rw [trim, List.dropWhile_cons_of_neg hfirst] at hlast
    exact hlast

end Text

end FactTypes
