import FactTypes.Policy
import FactTypes.Proofs.Lists
import FactTypes.Text.Keyword

/-!
# Reading the options

A policy is written as its word, with any blanks around it and its letters in either case.
Of the pairs with the key the last one counts, and the first one that is written in no such
way is the fault, whatever stands behind it. All other pairs are passed over.
-/

namespace FactTypes

namespace Text

/-- Whether a text is a word in some spelling: there may be blanks before and after it, and
    its ASCII letters may be capitals. -/
def Spells (text word : String) : Prop :=
  ∃ before middle after, text.toList = before ++ middle ++ after ∧
    (∀ c ∈ before, isBlank c = true) ∧ (∀ c ∈ after, isBlank c = true) ∧
    middle.map Char.toLower = word.toList

variable {text word : String} {c : Char} {before middle after : List Char}

-- ═══════════════════════════════════════════════════════════════════════
-- Keywords
-- ═══════════════════════════════════════════════════════════════════════

/-- No blank is a letter. -/
theorem toLower_of_isBlank (hc : isBlank c = true) : c.toLower = c := by
  have hnot : ¬(c.val ≥ 'A'.val ∧ c.val ≤ 'Z'.val) := by
    rintro ⟨hlow, hhigh⟩
    have hlow : 65 ≤ c.toNat := hlow
    have hhigh : c.toNat ≤ 90 := hhigh
    simp [isBlank, blankRanges] at hc
    omega
  exact dif_neg hnot

/-- What is trimmed once its capitals are lowered was trimmed before. -/
theorem trim_of_trim_map_toLower
    (hlower : trim (middle.map Char.toLower) = middle.map Char.toLower) : trim middle = middle := by
  have hends := trim_eq_self_iff.1 hlower
  rw [List.head?_map, List.getLast?_map] at hends
  have hnot : ∀ c, isBlank c.toLower = false → isBlank c = false := by
    intro c hc
    by_contra hblank
    rw [Bool.not_eq_false] at hblank
    rw [toLower_of_isBlank hblank, hblank] at hc
    cases hc
  refine trim_eq_self_iff.2 ⟨fun c hc => hnot c ?_, fun c hc => hnot c ?_⟩
  · exact hends.1 _ (by rw [hc, Option.map_some])
  · exact hends.2 _ (by rw [hc, Option.map_some])

/-- A text has a word for its keyword exactly when it spells the word. -/
theorem keyword_eq_iff (hword : trim word.toList = word.toList) :
    keyword text = word ↔ Spells text word := by
  constructor
  · intro hkeyword
    obtain ⟨before, after, htext, hbefore, hafter⟩ := exists_trim_eq text.toList
    refine ⟨before, trim text.toList, after, htext, hbefore, hafter, ?_⟩
    rw [← hkeyword, keyword, String.toList_ofList]
  · rintro ⟨before, middle, after, htext, hbefore, hafter, hmiddle⟩
    have htrimmed : trim middle = middle := by
      apply trim_of_trim_map_toLower
      rw [hmiddle, hword]
    rw [keyword, htext, trim_surrounded hbefore hafter htrimmed, hmiddle, String.ofList_toList]

end Text

namespace ReactivityPolicy

/-- Whether a text is the word of a policy, in some spelling. -/
def Known (text : String) : Prop :=
  ∃ p : ReactivityPolicy, Text.Spells text p.word

variable {text : String} {p current : ReactivityPolicy} {fault : Fault} {q : String × String}
  {properties : List (String × String)}

-- ═══════════════════════════════════════════════════════════════════════
-- One word
-- ═══════════════════════════════════════════════════════════════════════

theorem trim_word (p : ReactivityPolicy) : Text.trim p.word.toList = p.word.toList := by
  cases p <;> decide

theorem parse_eq_ok_iff : parse text = .ok p ↔ Text.Spells text p.word := by
  rw [← Text.keyword_eq_iff p.trim_word, parse]
  split
  case h_1 hword => rw [hword]; cases p <;> simp [word]
  case h_2 hword => rw [hword]; cases p <;> simp [word]
  case h_3 hword => rw [hword]; cases p <;> simp [word]
  case h_4 hdisabled hallowed halways => cases p <;> simp_all [word]

/-- A text that is no known word is quoted as it was written. -/
theorem parse_ok_or_error (text : String) :
    (∃ p, parse text = .ok p) ∨ parse text = .error (.invalidOption key text) := by
  rw [parse]
  split
  · exact Or.inl ⟨.disabled, rfl⟩
  · exact Or.inl ⟨.allowed, rfl⟩
  · exact Or.inl ⟨.always, rfl⟩
  · exact Or.inr rfl

theorem exists_parse_eq_ok_iff : (∃ p, parse text = .ok p) ↔ Known text :=
  exists_congr fun _ => parse_eq_ok_iff

theorem parse_eq_error_iff :
    parse text = .error fault ↔ ¬Known text ∧ fault = .invalidOption key text := by
  rw [← exists_parse_eq_ok_iff]
  constructor
  · intro herror
    have hfails : ¬∃ p, parse text = .ok p := by
      rintro ⟨p, hp⟩
      cases herror.symm.trans hp
    have hquoted := (parse_ok_or_error text).resolve_left hfails
    exact ⟨hfails, Except.error.inj (herror.symm.trans hquoted)⟩
  · rintro ⟨hfails, rfl⟩
    exact (parse_ok_or_error text).resolve_left hfails

-- ═══════════════════════════════════════════════════════════════════════
-- The pairs
-- ═══════════════════════════════════════════════════════════════════════

theorem read_of_key (hkey : q.1 = key) : read current q = parse q.2 :=
  if_pos hkey

theorem read_of_ne (hkey : q.1 ≠ key) : read current q = .ok current :=
  if_neg hkey

/-- Whether reading a pair succeeds does not hang on what was read before. -/
theorem exists_read_eq_ok_iff (current : ReactivityPolicy) :
    (∃ p, read current q = .ok p) ↔ (q.1 = key → Known q.2) := by
  by_cases hkey : q.1 = key
  · rw [read_of_key hkey, exists_parse_eq_ok_iff]
    simp [hkey]
  · rw [read_of_ne hkey]
    simp [hkey]

theorem read_eq_error_iff :
    read current q = .error fault ↔
      q.1 = key ∧ ¬Known q.2 ∧ fault = .invalidOption key q.2 := by
  by_cases hkey : q.1 = key
  · rw [read_of_key hkey, parse_eq_error_iff]
    simp [hkey]
  · rw [read_of_ne hkey]
    simp [hkey]

/-- Reading succeeds when all pairs with the key are written in a known way. -/
theorem exists_foldlM_read_eq_ok_iff (current : ReactivityPolicy) :
    (∃ p, properties.foldlM read current = .ok p) ↔ ∀ q ∈ properties, q.1 = key → Known q.2 := by
  induction properties generalizing current with
  | nil => exact iff_of_true ⟨current, rfl⟩ fun q hq => absurd hq List.not_mem_nil
  | cons q rest ih =>
    rw [List.forall_mem_cons, ← exists_read_eq_ok_iff current, List.foldlM_cons]
    cases hread : read current q with
    | error fault => simp [bind, Except.bind]
    | ok next =>
      refine Iff.trans (ih next) ?_
      simp

/-- Reading fails at the first pair with the key that is not written in a known way. -/
theorem foldlM_read_eq_error_iff :
    properties.foldlM read current = .error fault ↔
      ∃ before v after, properties = before ++ (key, v) :: after ∧
        (∀ q ∈ before, q.1 = key → Known q.2) ∧ ¬Known v ∧ fault = .invalidOption key v := by
  rw [foldlM_eq_error_iff]
  constructor
  · rintro ⟨before, ⟨k, v⟩, after, p, hsplit, hbefore, hread⟩
    obtain ⟨rfl, hunknown, hfault⟩ := read_eq_error_iff.1 hread
    exact ⟨before, v, after, hsplit, (exists_foldlM_read_eq_ok_iff current).1 ⟨p, hbefore⟩,
      hunknown, hfault⟩
  · rintro ⟨before, v, after, hsplit, hbefore, hunknown, hfault⟩
    obtain ⟨p, hp⟩ := (exists_foldlM_read_eq_ok_iff current).2 hbefore
    exact ⟨before, (key, v), after, p, hsplit, hp, read_eq_error_iff.2 ⟨rfl, hunknown, hfault⟩⟩

/-- Pairs with other keys may come and go. -/
theorem foldlM_read_filter :
    (properties.filter fun q => q.1 = key).foldlM read current =
      properties.foldlM read current := by
  induction properties generalizing current with
  | nil => rfl
  | cons q rest ih =>
    by_cases hkey : q.1 = key
    · rw [List.filter_cons_of_pos (by simpa using hkey), List.foldlM_cons, List.foldlM_cons]
      exact bind_congr fun next => ih
    · rw [List.filter_cons_of_neg (by simpa using hkey), List.foldlM_cons, read_of_ne hkey]
      exact ih

/-- Behind the last pair with the key nothing changes any more. -/
theorem foldlM_read_of_forall_ne (hother : ∀ q ∈ properties, q.1 ≠ key) :
    properties.foldlM read current = .ok current := by
  have hnone : (properties.filter fun q => q.1 = key) = [] := by
    simpa [List.filter_eq_nil_iff] using hother
  rw [← foldlM_read_filter, hnone]
  rfl

/-- The last pair with the key says what reading comes to. -/
theorem foldlM_read_of_last {before after : List (String × String)} {v : String}
    (hafter : ∀ q ∈ after, q.1 ≠ key) (hbefore : before.foldlM read current = .ok p) :
    (before ++ (key, v) :: after).foldlM read current = parse v := by
  rw [foldlM_append_of_ok hbefore, List.foldlM_cons, read_of_key rfl]
  cases parse v with
  | error fault => rfl
  | ok next => exact foldlM_read_of_forall_ne hafter

/-- What reading comes to when it succeeds: what the last pair with the key says, or what
    was there before when no pair has the key. -/
theorem foldlM_read_eq_ok_iff :
    properties.foldlM read current = .ok p ↔
      (∀ q ∈ properties, q.1 = key → Known q.2) ∧
        ((∃ before v after, properties = before ++ (key, v) :: after ∧
          (∀ q ∈ after, q.1 ≠ key) ∧ Text.Spells v p.word) ∨
          ((∀ q ∈ properties, q.1 ≠ key) ∧ p = current)) := by
  constructor
  · intro hok
    have hknown := (exists_foldlM_read_eq_ok_iff current).1 ⟨p, hok⟩
    refine ⟨hknown, ?_⟩
    by_cases hnone : ∀ q ∈ properties, q.1 ≠ key
    · rw [foldlM_read_of_forall_ne hnone] at hok
      exact Or.inr ⟨hnone, (Except.ok.inj hok).symm⟩
    · left
      push Not at hnone
      obtain ⟨before, ⟨k, v⟩, after, rfl, rfl, hafter⟩ := exists_split_last hnone
      obtain ⟨next, hnext⟩ := (exists_foldlM_read_eq_ok_iff current).2
        fun q hq => hknown q (List.mem_append_left _ hq)
      rw [foldlM_read_of_last hafter hnext, parse_eq_ok_iff] at hok
      exact ⟨before, v, after, rfl, hafter, hok⟩
  · rintro ⟨hknown, ⟨before, v, after, rfl, hafter, hspells⟩ | ⟨hnone, rfl⟩⟩
    · obtain ⟨next, hnext⟩ := (exists_foldlM_read_eq_ok_iff current).2
        fun q hq => hknown q (List.mem_append_left _ hq)
      rw [foldlM_read_of_last hafter hnext]
      exact parse_eq_ok_iff.2 hspells
    · exact foldlM_read_of_forall_ne hnone

/-- Reading the policy from pairs fails exactly when some pair with the key is not written
    as the word of a policy, and then the fault quotes the first such pair as it was
    written, whatever stands behind it. Otherwise the policy is that of the last pair with
    the key, or the standing one when there is none. Pairs with other keys may come, go and
    change their places. -/
theorem ofProperties_outcome (properties : List (String × String)) :
    ((∃ fault, ofProperties properties = .error fault) ↔
      ∃ q ∈ properties, q.1 = key ∧ ¬Known q.2) ∧
    (∀ fault, ofProperties properties = .error fault ↔
      ∃ before v after, properties = before ++ (key, v) :: after ∧
        (∀ q ∈ before, q.1 = key → Known q.2) ∧ ¬Known v ∧ fault = .invalidOption key v) ∧
    (∀ p, ofProperties properties = .ok p ↔
      (∀ q ∈ properties, q.1 = key → Known q.2) ∧
        ((∃ before v after, properties = before ++ (key, v) :: after ∧
          (∀ q ∈ after, q.1 ≠ key) ∧ Text.Spells v p.word) ∨
          ((∀ q ∈ properties, q.1 ≠ key) ∧ p = .always))) ∧
    ∀ others : List (String × String),
      (others.filter fun q => q.1 = key) = (properties.filter fun q => q.1 = key) →
        ofProperties others = ofProperties properties := by
  refine ⟨?_, fun fault => foldlM_read_eq_error_iff, fun p => foldlM_read_eq_ok_iff, ?_⟩
  · have hok : (∃ p, ofProperties properties = .ok p) ↔ ∀ q ∈ properties, q.1 = key → Known q.2 :=
      exists_foldlM_read_eq_ok_iff .always
    have hfails : (∃ fault, ofProperties properties = .error fault) ↔
        ¬∃ p, ofProperties properties = .ok p := by
      cases ofProperties properties <;> simp
    rw [hfails, hok]
    push Not
    exact Iff.rfl
  · intro others hsame
    rw [ofProperties, ← foldlM_read_filter, hsame, foldlM_read_filter]
    rfl

/-- The last pair with the key counts, however it is written, and so does the first one
    that nobody knows; the colour does not. -/
theorem ofProperties_outcome_colour :
    ofProperties [("colour", "red"), (key, "\tDisabled "), (key, "ALLOWED "), ("size", "7")] =
        .ok .allowed ∧
      ofProperties [(key, "allowed"), ("colour", "red"), (key, " maybe"), (key, "always")] =
        .error (.invalidOption key " maybe") ∧
      ofProperties [("colour", "red"), (key, "allowed")] = ofProperties [(key, "allowed")] := by
  have hdisabled : Known "\tDisabled " := exists_parse_eq_ok_iff.1 ⟨.disabled, by decide⟩
  have hspells : Text.Spells "ALLOWED " "allowed" :=
    ⟨[], "ALLOWED".toList, [' '], by decide, List.forall_mem_nil _,
      List.forall_mem_singleton.2 (by decide), by decide⟩
  have hallowed : Known "allowed" := exists_parse_eq_ok_iff.1 ⟨.allowed, by decide⟩
  have hrefused : parse " maybe" = .error (.invalidOption key " maybe") := by decide
  have hmaybe : ¬Known " maybe" := (parse_eq_error_iff.1 hrefused).1
  refine ⟨?_, ?_, ?_⟩
  · obtain ⟨-, -, hok, -⟩ := ofProperties_outcome
      [("colour", "red"), (key, "\tDisabled "), (key, "ALLOWED "), ("size", "7")]
    refine (hok .allowed).2 ⟨?_, Or.inl ⟨[("colour", "red"), (key, "\tDisabled ")], "ALLOWED ",
      [("size", "7")], rfl, by decide, hspells⟩⟩
    simp only [List.forall_mem_cons]
    exact ⟨fun hkey => absurd hkey (by decide), fun _ => hdisabled, fun _ => ⟨.allowed, hspells⟩,
      fun hkey => absurd hkey (by decide), fun q hq => absurd hq List.not_mem_nil⟩
  · obtain ⟨-, herror, -⟩ := ofProperties_outcome
      [(key, "allowed"), ("colour", "red"), (key, " maybe"), (key, "always")]
    refine (herror _).2 ⟨[(key, "allowed"), ("colour", "red")], " maybe", _, rfl, ?_, hmaybe, rfl⟩
    simp only [List.forall_mem_cons]
    exact ⟨fun _ => hallowed, fun hkey => absurd hkey (by decide),
      fun q hq => absurd hq List.not_mem_nil⟩
  · exact (ofProperties_outcome [(key, "allowed")]).2.2.2 [("colour", "red"), (key, "allowed")]
      (by decide)

end ReactivityPolicy

end FactTypes
