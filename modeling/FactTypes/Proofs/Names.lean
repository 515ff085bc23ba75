import FactTypes.TypeName

/-!
# Names and their parts

The tables of the packages know a type by its package and its simple name, the
other tables by its name. For a well-formed name it comes to the same: the parts
make up the name again. For other names it mostly does as well, but `.X` and `X`
have the same parts, and these make up `X`.
-/

namespace FactTypes

namespace TypeName

/-- Whether a text is read as a name. -/
def Accepted (text : String) : Prop :=
  ∃ n, parse text = .ok n

variable {n m : TypeName} {text before after : String}

theorem accepted_iff : Accepted text ↔ isWellFormed text = true := by
  constructor
  · rintro ⟨n, hn⟩
    exact (parse_eq_ok_iff.1 hn).1
  · intro hwell
    exact ⟨⟨text⟩, parse_eq_ok_iff.2 ⟨hwell, rfl⟩⟩

theorem text_ofParts_empty (after : String) : (ofParts "" after).text = after := by
  rw [ofParts, if_pos rfl]

/-- Behind a package that has a name, a dot comes first. -/
theorem toList_ofParts (hbefore : before ≠ "") :
    (ofParts before after).text.toList = before.toList ++ '.' :: after.toList := by
  rw [ofParts, if_neg hbefore]
  simp

/-- A name without a dot is its own simple name, in the default package. -/
theorem splitLast_ofParts_empty (hafter : '.' ∉ after.toList) :
    Text.splitLast '.' (ofParts "" after).text.toList = none := by
  rw [text_ofParts_empty]
  exact Text.splitLast_eq_none_iff.2 hafter

theorem splitLast_ofParts (hbefore : before ≠ "") (hafter : '.' ∉ after.toList) :
    Text.splitLast '.' (ofParts before after).text.toList = some (before.toList, after.toList) := by
  rw [toList_ofParts hbefore]
  exact Text.splitLast_append hafter

/-- A joined name lies in the package that it was joined with. -/
theorem package_ofParts (hafter : '.' ∉ after.toList) :
    (ofParts before after).package = before := by
  by_cases hbefore : before = ""
  · rw [hbefore, package, splitLast_ofParts_empty hafter]
  · rw [package, splitLast_ofParts hbefore hafter]
    exact String.ofList_toList

/-- A joined name has the simple name that it was joined with. -/
theorem simpleName_ofParts (hafter : '.' ∉ after.toList) :
    (ofParts before after).simpleName = after := by
  by_cases hbefore : before = ""
  · rw [hbefore, simpleName, splitLast_ofParts_empty hafter]
    exact text_ofParts_empty after
  · rw [simpleName, splitLast_ofParts hbefore hafter]
    exact String.ofList_toList

/-- The parts make up the name again, unless its only dot is the first of its
    characters. -/
theorem ofParts_package_simpleName
    (hdot : ∀ after, '.' ∉ after → n.text.toList ≠ '.' :: after) :
    ofParts n.package n.simpleName = n := by
  rw [package, simpleName]
  cases hcut : Text.splitLast '.' n.text.toList with
  | none => exact if_pos rfl
  | some parts =>
    obtain ⟨before, after⟩ := parts
    obtain ⟨htext, hafter⟩ := Text.splitLast_eq_some_iff.1 hcut
    have hbefore : String.ofList before ≠ "" := by
      intro hempty
      have hnil : before = [] := by simpa using congrArg String.toList hempty
      exact hdot after hafter (by rw [htext, hnil, List.nil_append])
    have hjoined : String.ofList before ++ "." ++ String.ofList after = n.text := by
      apply String.toList_inj.1
      rw [htext]
      simp
    show ofParts (String.ofList before) (String.ofList after) = n
    rw [ofParts, if_neg hbefore, hjoined]

/-- The parts make up the name again for every other name, and for those they do not. -/
theorem ofParts_parts_iff :
    ofParts n.package n.simpleName = n ↔
      ¬∃ rest : String, '.' ∉ rest.toList ∧ n.text = "." ++ rest := by
  constructor
  · rintro hjoined ⟨rest, hrest, htext⟩
    have hcut : Text.splitLast '.' n.text.toList = some ([], rest.toList) := by
      have hdot : n.text.toList = [] ++ '.' :: rest.toList := by
        rw [htext, String.toList_append]
        rfl
      rw [hdot]
      exact Text.splitLast_append hrest
    have hpackage : n.package = "" := by rw [package, hcut]
    have hsimple : n.simpleName = rest := by rw [simpleName, hcut]; exact String.ofList_toList
    have hshort : n.text = rest := by
      rw [← hjoined, hpackage, hsimple, text_ofParts_empty]
    have hlength := congrArg String.length (htext.symm.trans hshort)
    rw [String.length_append] at hlength
    simp at hlength
  · intro hnot
    apply ofParts_package_simpleName
    intro after hafter htext
    refine hnot ⟨String.ofList after, by rwa [String.toList_ofList], ?_⟩
    apply String.toList_inj.1
    rw [htext]
    simp

/-- The segments of a name that has a package are those of both parts. -/
theorem segments_ofParts (hbefore : before ≠ "") :
    segments (ofParts before after).text = segments before ++ segments after := by
  rw [segments, toList_ofParts hbefore]
  exact List.splitOn_append_cons_self _ _

/-- A joined name is well-formed exactly when its parts are; the default package
    counts as well-formed here. -/
theorem isWellFormed_ofParts :
    isWellFormed (ofParts before after).text = true ↔
      (before = "" ∨ isWellFormed before = true) ∧ isWellFormed after = true := by
  by_cases hbefore : before = ""
  · rw [hbefore, text_ofParts_empty]
    simp
  · rw [isWellFormed, segments_ofParts hbefore, List.all_append, Bool.and_eq_true]
    simp only [isWellFormed, hbefore, false_or]

/-- A well-formed name does not start with a dot. -/
theorem toList_ne_of_isWellFormed (hn : isWellFormed n.text = true) (after : List Char) :
    n.text.toList ≠ '.' :: after := by
  intro htext
  have hsegments : segments n.text = [] :: after.splitOn '.' := by
    rw [segments, htext, List.splitOn_cons_eq_if_modifyHead, if_pos (by simp)]
  rw [isWellFormed, hsegments] at hn
  cases hn

/-- A well-formed name is known by its package and its simple name. -/
theorem eq_of_parts (hn : isWellFormed n.text = true) (hm : isWellFormed m.text = true)
    (hpackage : n.package = m.package) (hsimple : n.simpleName = m.simpleName) : n = m := by
  have hself : ∀ k : TypeName, isWellFormed k.text = true → ofParts k.package k.simpleName = k :=
    fun k hk => ofParts_package_simpleName fun after _ => toList_ne_of_isWellFormed hk after
  rw [← hself n hn, ← hself m hm, hpackage, hsimple]

/-- Joining, splitting and reading fit together. What is joined is split into the same
    parts; what is split is joined to the same name, except for a dot with a text behind
    it that has none; a joined name is read exactly when its parts are; and the names that
    are read are told apart by their parts. -/
theorem parts_fit_together :
    (∀ before after : String, '.' ∉ after.toList →
      (ofParts before after).package = before ∧ (ofParts before after).simpleName = after) ∧
    (∀ n : TypeName, ofParts n.package n.simpleName = n ↔
      ¬∃ rest : String, '.' ∉ rest.toList ∧ n.text = "." ++ rest) ∧
    (∀ before after : String, Accepted (ofParts before after).text ↔
      (before = "" ∨ Accepted before) ∧ Accepted after) ∧
    ∀ n m : TypeName, Accepted n.text → Accepted m.text →
      n.package = m.package → n.simpleName = m.simpleName → n = m := by
  refine ⟨fun before after hafter => ?_, fun n => ofParts_parts_iff, fun before after => ?_, ?_⟩
  · exact ⟨package_ofParts hafter, simpleName_ofParts hafter⟩
  · simp only [accepted_iff]
    exact isWellFormed_ofParts
  · intro n m hn hm
    exact eq_of_parts (accepted_iff.1 hn) (accepted_iff.1 hm)

/-- A name in a package of two segments is joined, split and read; a dot in front of the
    simple name alone is lost. -/
theorem parts_fit_together_person :
    ('.' ∉ "Person".toList ∧ (ofParts "com.acme" "Person").package = "com.acme" ∧
      (ofParts "com.acme" "Person").simpleName = "Person") ∧
    ofParts (package ⟨".Person"⟩) (simpleName ⟨".Person"⟩) ≠ ⟨".Person"⟩ ∧
    Accepted (ofParts "com.acme" "Person").text ∧ Accepted "com.acme.Person" ∧
    ofParts "com.acme" "Person" = ⟨"com.acme.Person"⟩ := by
  obtain ⟨hjoined, hsplit, hread, hknown⟩ := parts_fit_together
  have hdotless : '.' ∉ "Person".toList := by decide
  have hparts := hjoined "com.acme" "Person" hdotless
  have haccepted : Accepted (ofParts "com.acme" "Person").text :=
    (hread "com.acme" "Person").2
      ⟨Or.inr (accepted_iff.2 (by decide)), accepted_iff.2 (by decide)⟩
  have hwritten : Accepted "com.acme.Person" := accepted_iff.2 (by decide)
  refine ⟨⟨hdotless, hparts⟩, ?_, haccepted, hwritten, ?_⟩
  · exact fun heq => (hsplit ⟨".Person"⟩).1 heq ⟨"Person", hdotless, rfl⟩
  · exact hknown _ ⟨"com.acme.Person"⟩ haccepted hwritten
      (hparts.1.trans (by decide)) (hparts.2.trans (by decide))

end TypeName

end FactTypes
