import FactTypes.Registry.Table

/-! A few types belong to the engine. They are declared once, before anything
else, and are known by their exact names. -/

namespace FactTypes

/-- The engine's own declarations, by type name. -/
abbrev Builtins := Table TypeName

namespace Builtins

/-- A type whose instances only the engine makes; it is not typesafe. -/
def pseudoType (name : TypeName) : Declaration :=
  { Declaration.declared name with
    typeClass := some name
    kind := .builtin
    settings := { typesafe := .explicit false } }

/-- The trait that every trait extends. -/
def rootTrait (name : TypeName) : Declaration :=
  { Declaration.declared name with
    typeClass := some name
    kind := .asTrait }

/-- The engine's own declarations: collections, mappings, the match of a rule,
    and the root of the traits. -/
def declarations : List Declaration :=
  [pseudoType ⟨"lang.util.Collection"⟩, pseudoType ⟨"lang.util.Map"⟩,
    pseudoType ⟨"engine.rule.Match"⟩, rootTrait ⟨"engine.traits.Thing"⟩]

def enter (state : Store × Builtins) (d : Declaration) : Store × Builtins :=
  let (h, s) := state.1.alloc d
  (s, state.2.insert d.name h)

/-- Issues a handle for each of the engine's own declarations and enters it. -/
def seed (s : Store) : Store × Builtins :=
  declarations.foldl enter (s, .empty)

example : (declarations.map Declaration.name).Nodup := by decide

/-- Every entry holds one of the declarations, under its name. -/
theorem seed_spec {n : TypeName} {h : Handle} (hh : (seed .empty).2.find? n = some h) :
    (seed .empty).1.Issued h ∧ ∃ d ∈ declarations, d.name = n ∧ (seed .empty).1.get h = d := by
  have hentries : ∀ entry ∈ (seed .empty).2.toList, (seed .empty).1.Issued entry.2 ∧
      ∃ d ∈ declarations, d.name = entry.1 ∧ (seed .empty).1.get entry.2 = d := by
    decide
  exact hentries (n, h) (Table.mem_toList_iff.2 hh)

/-- Every declaration has an entry. -/
theorem exists_find?_seed {d : Declaration} (hd : d ∈ declarations) :
    ∃ h, (seed .empty).2.find? d.name = some h ∧ (seed .empty).1.get h = d := by
  have hentries : ∀ d ∈ declarations,
      ∃ h ∈ (seed .empty).2.find? d.name, (seed .empty).1.get h = d := by
    decide
  exact hentries d hd

/-- None of them comes from a resource. -/
theorem resource_of_mem {d : Declaration} (hd : d ∈ declarations) : d.resource = none := by
  have hall : ∀ d ∈ declarations, d.resource = none := by decide
  exact hall d hd

end Builtins

end FactTypes
