import Mathlib.Data.List.Induction
import FactTypes.Layout.Modifies

/-!
# Records of the methods

The methods of a type are recorded one after the other, and of several methods of one
signature the last that names a property is the one that counts. What a marker names is
told by the text that its entries make up when they are joined with commas: the properties
that this text lists. A property is a text that lists itself, which is why a record can be
put back in place of the marker.
-/

namespace FactTypes

open Std

/-- Whether a text can stand for a property in a record: it is not empty, it has no comma,
    and no blank stands at either end. -/
structure IsProperty (text : String) : Prop where
  ne_empty : text ≠ ""
  comma_not_mem : ',' ∉ text.toList
  head_not_blank : ∀ c, text.toList.head? = some c → Text.isBlank c = false
  last_not_blank : ∀ c, text.toList.getLast? = some c → Text.isBlank c = false

/-- What a text lists: properties with blanks around them, put together at commas. Where
    there are only blanks, nothing is listed. -/
inductive Lists : List Char → List String → Prop where
  | blank {cs : List Char} (hblank : ∀ c ∈ cs, Text.isBlank c = true) : Lists cs []
  | property {before after : List Char} {property : String} (hproperty : IsProperty property)
      (hbefore : ∀ c ∈ before, Text.isBlank c = true)
      (hafter : ∀ c ∈ after, Text.isBlank c = true) :
      Lists (before ++ property.toList ++ after) [property]
  | comma {before after : List Char} {first rest : List String} (hfirst : Lists before first)
      (hrest : Lists after rest) : Lists (before ++ ',' :: after) (first ++ rest)

/-- The properties that the marker of a method names, none if there is no marker. -/
def HostMethod.named (m : HostMethod) : List String :=
  m.modifies.elim [] modifiedProperties

/-- The text of the marker of a method: its entries, joined with commas. -/
def HostMethod.markerText? (m : HostMethod) : Option String :=
  m.modifies.map (String.intercalate ",")

/-- The record that the methods of a type leave for a signature: what the last of its
    methods names that names anything. -/
def HostType.recorded? (c : HostType) (method : Signature) : Option (List String) :=
  (c.methods.filter fun m => m.signature = method ∧ m.named ≠ []).getLast?.map HostMethod.named

variable {entries properties : List String} {text property : String} {cs : List Char}
  {m : HostMethod} {method : Signature}

-- ═══════════════════════════════════════════════════════════════════════
-- The text of a marker
-- ═══════════════════════════════════════════════════════════════════════

/-- Cutting the joined entries at the commas gives the pieces of the entries. -/
theorem splitOn_intercalate_eq_flatMap (hne : entries ≠ []) :
    (String.intercalate "," entries).toList.splitOn ',' =
      entries.flatMap fun entry => entry.toList.splitOn ',' := by
  induction entries with
  | nil => exact absurd rfl hne
  | cons entry rest ih =>
    rcases eq_or_ne rest [] with rfl | hrest
    · simp
    · rw [String.intercalate_cons_of_ne_nil hrest, List.flatMap_cons, ← ih hrest]
      have hjoined : (entry ++ "," ++ String.intercalate "," rest).toList =
          entry.toList ++ ',' :: (String.intercalate "," rest).toList := by
        simp
      rw [hjoined, List.splitOn_append_cons_self]

/-- What a marker names is told by its joined text. -/
theorem modifiedProperties_eq_joined (entries : List String) :
    modifiedProperties entries = modifiedProperties [String.intercalate "," entries] := by
  rcases eq_or_ne entries [] with rfl | hne
  · rfl
  · rw [modifiedProperties, ← splitOn_intercalate_eq_flatMap hne, modifiedProperties,
      List.flatMap_singleton]

-- ═══════════════════════════════════════════════════════════════════════
-- What a text lists
-- ═══════════════════════════════════════════════════════════════════════

/-- Blanks hold no comma. -/
theorem comma_not_mem_of_blank (hblank : ∀ c ∈ cs, Text.isBlank c = true) : ',' ∉ cs :=
  fun hcomma => absurd (hblank ',' hcomma) (by decide)

/-- A text without a comma names itself, once trimmed, unless nothing is left of it. -/
theorem modifiedProperties_of_comma_not_mem (hcomma : ',' ∉ cs) :
    modifiedProperties [String.ofList cs] =
      if Text.trim cs = [] then [] else [String.ofList (Text.trim cs)] := by
  have hpieces : cs.splitOn ',' = [cs] := List.splitOn_eq_singleton hcomma
  by_cases hnil : Text.trim cs = [] <;> simp [modifiedProperties, hpieces, hnil]

/-- The texts on the two sides of a comma are read apart. -/
theorem modifiedProperties_comma (before after : List Char) :
    modifiedProperties [String.ofList (before ++ ',' :: after)] =
      modifiedProperties [String.ofList before] ++ modifiedProperties [String.ofList after] := by
  simp [modifiedProperties, List.splitOn_append_cons_self]

theorem IsProperty.trim_eq (hproperty : IsProperty property) :
    Text.trim property.toList = property.toList :=
  Text.trim_eq_self_iff.2 ⟨hproperty.head_not_blank, hproperty.last_not_blank⟩

/-- What is left of a text without a comma when it is trimmed is a property. -/
theorem isProperty_trim (hcomma : ',' ∉ cs) (hne : Text.trim cs ≠ []) :
    IsProperty (String.ofList (Text.trim cs)) := by
  obtain ⟨before, after, hcs, -, -⟩ := Text.exists_trim_eq cs
  constructor
  case ne_empty => simpa using hne
  case comma_not_mem =>
    rw [String.toList_ofList]
    intro hmem
    apply hcomma
    rw [hcs]
    exact List.mem_append_left _ (List.mem_append_right _ hmem)
  case head_not_blank =>
    rw [String.toList_ofList]
    exact fun _ => Text.head?_trim
  case last_not_blank =>
    rw [String.toList_ofList]
    exact fun _ => Text.getLast?_trim

namespace Lists

/-- Only properties are listed. -/
theorem isProperty (hlists : Lists cs properties) : ∀ property ∈ properties, IsProperty property := by
  induction hlists with
  | blank => exact List.forall_mem_nil _
  | property hproperty => exact List.forall_mem_singleton.2 hproperty
  | comma _ _ ihfirst ihrest => exact List.forall_mem_append.2 ⟨ihfirst, ihrest⟩

/-- What a text lists is read from it. -/
theorem modifiedProperties_eq (hlists : Lists cs properties) :
    modifiedProperties [String.ofList cs] = properties := by
  induction hlists with
  | @blank cs hblank =>
    have hnil : Text.trim cs = [] := by
      simpa using Text.trim_surrounded hblank (List.forall_mem_nil _) (rfl : Text.trim [] = [])
    rw [modifiedProperties_of_comma_not_mem (comma_not_mem_of_blank hblank), if_pos hnil]
  | @property before after property hproperty hbefore hafter =>
    have hcomma : ',' ∉ before ++ property.toList ++ after := by
      simp [comma_not_mem_of_blank hbefore, comma_not_mem_of_blank hafter, hproperty.comma_not_mem]
    rw [modifiedProperties_of_comma_not_mem hcomma,
      Text.trim_surrounded hbefore hafter hproperty.trim_eq, if_neg (by simp [hproperty.ne_empty]),
      String.ofList_toList]
  | comma _ _ ihfirst ihrest => rw [modifiedProperties_comma, ihfirst, ihrest]

end Lists

/-- What is read from a text is listed there. -/
theorem lists_modifiedProperties (cs : List Char) :
    Lists cs (modifiedProperties [String.ofList cs]) := by
  induction hlength : cs.length using Nat.strongRecOn generalizing cs with
  | _ length ih =>
    by_cases hcomma : ',' ∈ cs
    · -- at any comma both sides are shorter
      obtain ⟨before, after, rfl⟩ := List.append_of_mem hcomma
      rw [List.length_append, List.length_cons] at hlength
      rw [modifiedProperties_comma]
      exact .comma (ih before.length (by omega) before rfl) (ih after.length (by omega) after rfl)
    · rw [modifiedProperties_of_comma_not_mem hcomma]
      obtain ⟨before, after, hcs, hbefore, hafter⟩ := Text.exists_trim_eq cs
      split
      · next hnil =>
        rw [hnil, List.append_nil] at hcs
        rw [hcs]
        exact .blank (List.forall_mem_append.2 ⟨hbefore, hafter⟩)
      · next hne =>
        have hlists := Lists.property (isProperty_trim hcomma hne) hbefore hafter
        rwa [String.toList_ofList, ← hcs] at hlists

/-- The entries of a marker name what their joined text lists. -/
theorem modifiedProperties_eq_iff_lists :
    modifiedProperties entries = properties ↔
      Lists (String.intercalate "," entries).toList properties := by
  rw [modifiedProperties_eq_joined]
  constructor
  · rintro rfl
    have hlists := lists_modifiedProperties (String.intercalate "," entries).toList
    rwa [String.ofList_toList] at hlists
  · intro hlists
    have hread := hlists.modifiedProperties_eq
    rwa [String.ofList_toList] at hread

/-- A property reads as itself. -/
theorem modifiedProperties_singleton (hproperty : IsProperty property) :
    modifiedProperties [property] = [property] := by
  have hblank : ∀ c ∈ ([] : List Char), Text.isBlank c = true := List.forall_mem_nil _
  have hlists := Lists.property hproperty hblank hblank
  rw [List.nil_append, List.append_nil] at hlists
  simpa using hlists.modifiedProperties_eq

theorem modifiedProperties_eq_self (hproperties : ∀ property ∈ properties, IsProperty property) :
    modifiedProperties properties = properties := by
  induction properties with
  | nil => rfl
  | cons property rest ih =>
    obtain ⟨hfirst, hrest⟩ := List.forall_mem_cons.1 hproperties
    rw [← List.singleton_append, modifiedProperties_append, modifiedProperties_singleton hfirst,
      ih hrest]

-- ═══════════════════════════════════════════════════════════════════════
-- What one method has to record
-- ═══════════════════════════════════════════════════════════════════════

namespace HostMethod

/-- A method has to record what it names, if it names anything. -/
theorem record?_eq (m : HostMethod) :
    m.record? = if m.named = [] then none else some (m.signature, m.named) := by
  cases hmarker : m.modifies with
  | none => simp [record?, named, hmarker]
  | some entries =>
    cases hnamed : modifiedProperties entries <;> simp [record?, named, hmarker, hnamed]

theorem record?_eq_some_iff {record : Signature × List String} :
    m.record? = some record ↔ record = (m.signature, m.named) ∧ m.named ≠ [] := by
  rw [record?_eq]
  by_cases hnamed : m.named = []
  · simp [hnamed]
  · rw [if_neg hnamed, Option.some.injEq, eq_comm, and_iff_left hnamed]

theorem named_eq_joined (m : HostMethod) :
    m.named = m.markerText?.elim [] fun text => modifiedProperties [text] := by
  unfold named markerText?
  cases m.modifies with
  | none => rfl
  | some entries => exact modifiedProperties_eq_joined entries

/-- A method names what the text of its marker lists. -/
theorem named_eq_iff (htext : m.markerText? = some text) :
    m.named = properties ↔ Lists text.toList properties := by
  obtain ⟨entries, hmarker, rfl⟩ := Option.map_eq_some_iff.1 htext
  rw [named, hmarker]
  exact modifiedProperties_eq_iff_lists

/-- Without a marker a method names nothing. -/
theorem named_eq_nil (htext : m.markerText? = none) : m.named = [] := by
  rw [named, Option.map_eq_none_iff.1 htext]
  rfl

theorem isProperty_of_mem_named (hproperty : property ∈ m.named) : IsProperty property := by
  cases htext : m.markerText? with
  | none =>
    rw [named_eq_nil htext] at hproperty
    cases hproperty
  | some text => exact ((named_eq_iff htext).1 rfl).isProperty property hproperty

end HostMethod

-- ═══════════════════════════════════════════════════════════════════════
-- The records of a schema
-- ═══════════════════════════════════════════════════════════════════════

/-- Of the records under one key the last one stands. -/
theorem getElem?_foldl_insert (records : List (Signature × List String))
    (m : ExtTreeMap Signature (List String)) (key : Signature) :
    (records.foldl (fun m record => m.insert record.1 record.2) m)[key]? =
      ((records.filter fun record => record.1 = key).getLast?.map Prod.snd).or m[key]? := by
  induction records using List.reverseRecOn with
  | nil => rfl
  | append_singleton records record ih =>
    rw [List.foldl_append, List.foldl_cons, List.foldl_nil, ExtTreeMap.getElem?_insert, ih,
      List.filter_append]
    by_cases hkey : record.1 = key
    · simp [hkey]
    · simp [hkey]

/-- The records under a signature are what its methods name, if they name anything. -/
theorem map_snd_records (methods : List HostMethod) (method : Signature) :
    ((methods.filterMap HostMethod.record?).filter fun record => record.1 = method).map Prod.snd =
      (methods.filter fun m => m.signature = method ∧ m.named ≠ []).map HostMethod.named := by
  induction methods with
  | nil => rfl
  | cons m rest ih =>
    by_cases hnamed : m.named = []
    · have hnone : m.record? = none := by rw [HostMethod.record?_eq, if_pos hnamed]
      rw [List.filterMap_cons_none hnone, ih, List.filter_cons_of_neg (by simp [hnamed])]
    · have hsome : m.record? = some (m.signature, m.named) := by
        rw [HostMethod.record?_eq, if_neg hnamed]
      rw [List.filterMap_cons_some hsome]
      by_cases hmethod : m.signature = method
      · simp [hmethod, hnamed, ih]
      · simp [hmethod, ih]

namespace Schema

/-- The records change what the methods modify, and nothing else. -/
theorem recordMethods_eq (s : Schema) (c : HostType) :
    s.recordMethods c = { s with
      modified := (c.methods.filterMap HostMethod.record?).foldl
        (fun m record => m.insert record.1 record.2) s.modified } := by
  rw [recordMethods]
  induction c.methods.filterMap HostMethod.record? generalizing s with
  | nil => rfl
  | cons record rest ih => exact ih _

/-- A signature has the record that the methods of the type leave for it, or else the one
    that it had. -/
theorem modified?_recordMethods (s : Schema) (c : HostType) (method : Signature) :
    (s.recordMethods c).modified? method = (c.recorded? method).or (s.modified? method) := by
  rw [recordMethods_eq, HostType.recorded?, ← List.getLast?_map, ← map_snd_records,
    List.getLast?_map]
  exact getElem?_foldl_insert _ s.modified method

/-- Only the signatures and the joined texts of the methods count. -/
theorem recordMethods_congr {c d : HostType}
    (hsame : d.methods.map (fun m => (m.signature, m.markerText?)) =
      c.methods.map fun m => (m.signature, m.markerText?)) (s : Schema) :
    s.recordMethods d = s.recordMethods c := by
  have hrecord : HostMethod.record? = (fun (signature, text?) =>
      let named := text?.elim [] fun text => modifiedProperties [text]
      if named = [] then none else some (signature, named)) ∘
        fun m : HostMethod => (m.signature, m.markerText?) := by
    funext m
    rw [HostMethod.record?_eq, HostMethod.named_eq_joined]
    rfl
  rw [recordMethods, recordMethods, hrecord, ← List.filterMap_map, hsame, List.filterMap_map]

end Schema

/-- What becomes of the records of a schema when the methods of a type are recorded, for
    every schema and type. Fields and header stay. Each signature gets what the last method
    names that has this signature and names anything; where there is none, what was recorded
    before stays. A method names what the text of its marker lists, and without a marker
    nothing. Each list that is recorded has a property, and only properties. It makes no
    difference how the text of a marker is cut into entries at its commas. A method whose
    marker is a list that is recorded has the same list to record. -/
theorem recordMethods_outcome (s : Schema) (c : HostType) :
    s.recordMethods c = { s with modified := (s.recordMethods c).modified } ∧
      (∀ method, (s.recordMethods c).modified? method =
        (c.recorded? method).or (s.modified? method)) ∧
      (∀ m : HostMethod, (m.markerText? = none → m.named = []) ∧
        ∀ text, m.markerText? = some text →
          ∀ properties, m.named = properties ↔ Lists text.toList properties) ∧
      (∀ record ∈ c.methods.filterMap HostMethod.record?,
        record.2 ≠ [] ∧ ∀ property ∈ record.2, IsProperty property) ∧
      (∀ d : HostType, d.methods.map (fun m => (m.signature, m.markerText?)) =
          c.methods.map (fun m => (m.signature, m.markerText?)) →
        s.recordMethods d = s.recordMethods c) ∧
      ∀ record ∈ c.methods.filterMap HostMethod.record?, ∀ m : HostMethod,
        m.signature = record.1 → m.modifies = some record.2 → m.record? = some record := by
  have hrecorded : ∀ record ∈ c.methods.filterMap HostMethod.record?,
      record.2 ≠ [] ∧ ∀ property ∈ record.2, IsProperty property := by
    intro record hrecord
    obtain ⟨m, -, hm⟩ := List.mem_filterMap.1 hrecord
    obtain ⟨rfl, hne⟩ := HostMethod.record?_eq_some_iff.1 hm
    exact ⟨hne, fun _ => HostMethod.isProperty_of_mem_named⟩
  have hnames : ∀ m : HostMethod, (m.markerText? = none → m.named = []) ∧
      ∀ text, m.markerText? = some text →
        ∀ properties, m.named = properties ↔ Lists text.toList properties :=
    fun _ => ⟨HostMethod.named_eq_nil, fun _ htext _ => HostMethod.named_eq_iff htext⟩
  refine ⟨?_, s.modified?_recordMethods c, hnames, hrecorded,
    fun _ hsame => s.recordMethods_congr hsame, ?_⟩
  · rw [s.recordMethods_eq c]
  · rintro ⟨method, properties⟩ hrecord m hsignature hmarker
    obtain ⟨hne, hproperties⟩ := hrecorded _ hrecord
    have hnamed : m.named = properties := by
      rw [HostMethod.named, hmarker]
      exact modifiedProperties_eq_self hproperties
    exact HostMethod.record?_eq_some_iff.2 ⟨by rw [hsignature, hnamed], hnamed ▸ hne⟩

/-- A later method of the signature that names nothing does not take the record away. -/
example :
    ({ name := ⟨"p.Person"⟩, methods := [
      { name := "rename", modifies := some [" name ,, nick\u00A0"] },
      { name := "rename", modifies := some [" ", ","] }] } : HostType).recorded? ⟨"rename", []⟩ =
      some ["name", "nick"] := by
  decide

end FactTypes
