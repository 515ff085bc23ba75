import FactTypes.Diagnostic
import FactTypes.Layout.Structure
import FactTypes.Session.Basic

/-!
# Resolution

How a host type gets its declaration. A type that was resolved before keeps the
declaration that it got. Otherwise the declaration that is found under its name
is taken, or a new one is derived from the type; either way the structure is
laid out, the settings of the ancestors are inherited, and the declaration is
entered into the cache.

Faults in the position markers do not stop a resolution. They are reported
once the structure is laid out and before anything is inherited, so an outcome
also keeps the declarations as they stood at that moment.

## Main definitions

- `Session.provenance` — where the declaration comes from
- `Session.settle` — layout, inheritance and entry into the cache
- `Session.resolve` — the declaration of a host type
- `Session.register` — filing a resolved declaration, if it may be
- `Session.resolveAndRegister` — both
-/

namespace FactTypes

/-- Where the declaration of a host type comes from. -/
inductive Provenance where
  | cached (h : Handle)
  | found (h : Handle)
  | fresh
deriving DecidableEq

/-- The answer of a resolution. -/
structure Outcome where
  /-- The declaration; a primitive type or an array has none. -/
  declaration : Option Handle
  session : Session
  /-- What was reported, in order. -/
  diagnostics : List Diagnostic := []
  /-- The declarations as they stood when it was reported. -/
  reported : Store

/-- An answer for which nothing had to be laid out. -/
def Outcome.ready (declaration : Option Handle) (session : Session) : Outcome :=
  { declaration, session, reported := session.store }

/-- The diagnostic of a fault that was met while the declaration of `typeName`
    was built from a host type. -/
def HostType.diagnose (c : HostType) (typeName : TypeName) (fault : Fault) : Diagnostic where
  typeName := typeName
  failure :=
    { fault
      trace := some { resource := c.resource.map Resource.id, frames := [c.name.text] } }

/-- Lets the subject of a closure inherit the settings of its ancestors, the
    farthest first, so that a nearer one has the last word. -/
def Store.inheritAlong (s : Store) (c : Closure) : Store :=
  s.update c.subject fun d =>
    c.ancestors.foldr (fun ancestor d => d.inherit (s.get ancestor).settings) d

/-- Whether a declaration may be filed under a package on registration: those
    written in rule source may be filed anywhere, the others only where their
    host type lies. -/
def Declaration.mayRegister (d : Declaration) (package : String) : Bool :=
  d.nature = .declared || d.typeClass.any fun n => n.package = package

theorem Declaration.mayRegister_iff {d : Declaration} {package : String} :
    d.mayRegister package = true ↔
      d.nature = .declared ∨ ∃ n, d.typeClass = some n ∧ n.package = package := by
  simp [mayRegister, Option.any_eq_true]

namespace Session

/-- Where the declaration of a name comes from. -/
def provenance (s : Session) (n : TypeName) : Provenance :=
  match s.cached n with
  | some h => .cached h
  | none =>
    match s.lookup n with
    | some h => .found h
    | none => .fresh

/-- Lays out the structure of a declaration for a host type, lets it inherit,
    and enters it into the cache. The engine's own declarations inherit
    nothing. -/
def settle (s : Session) (p : ClassPath) (c : HostType) (h : Handle) : Outcome :=
  let laidOut := s.store.update h fun d => d.layOut p c
  let inherited :=
    if s.builtins.holds h then laidOut
    else laidOut.inheritAlong ((s.hierarchy p).closure c h)
  { declaration := some h
    session := { s with store := inherited, cache := s.cache.insert c.name h }
    diagnostics := (p.positionFaults c).map (c.diagnose (s.store.nameOf h))
    reported := laidOut }

/-- Derives a new declaration from a host type and settles it. -/
def synthesize (s : Session) (p : ClassPath) (c : HostType) : Outcome :=
  let (h, store) := s.store.alloc (.ofHostType s.policy c)
  settle { s with store } p c h

/-- The declaration of a host type. The packages are left as they are. -/
def resolve (s : Session) (p : ClassPath) (c : HostType) : Outcome :=
  if c.isPlainValue then .ready none s
  else
    match s.provenance c.name with
    | .cached h => .ready (some h) s
    | .found h => s.settle p c h
    | .fresh => s.synthesize p c

def register (s : Session) (package : String) (h : Handle) : Session :=
  if (s.store.get h).mayRegister package then s.file package h else s

/-- The declaration of a host type, which is registered under the package
    unless it was found under the name of the type. -/
def resolveAndRegister (s : Session) (p : ClassPath) (c : HostType) (package : String) :
    Outcome :=
  if c.isPlainValue then .ready none s
  else
    match s.provenance c.name with
    | .cached h => .ready (some h) (s.register package h)
    | .found h => s.settle p c h
    | .fresh =>
      let outcome := s.synthesize p c
      { outcome with
        session := outcome.declaration.elim outcome.session (outcome.session.register package) }

variable {s : Session} {p : ClassPath} {c : HostType} {h : Handle}

theorem provenance_eq_cached_iff {n : TypeName} :
    s.provenance n = .cached h ↔ s.cached n = some h := by
  unfold provenance
  split
  · simp_all
  · split <;> simp_all

theorem provenance_eq_found_iff {n : TypeName} :
    s.provenance n = .found h ↔ s.cached n = none ∧ s.lookup n = some h := by
  unfold provenance
  split
  · simp_all
  · split <;> simp_all

theorem provenance_eq_fresh_iff {n : TypeName} :
    s.provenance n = .fresh ↔ s.cached n = none ∧ s.lookup n = none := by
  unfold provenance
  split
  · simp_all
  · split <;> simp_all

/-- A primitive type or an array has no declaration. -/
theorem resolve_of_isPlainValue (hplain : c.isPlainValue = true) :
    s.resolve p c = .ready none s := by
  rw [resolve, if_pos hplain]

/-- A type that was resolved before keeps its declaration. -/
theorem resolve_of_cached (hplain : c.isPlainValue = false) (hcached : s.cached c.name = some h) :
    s.resolve p c = .ready (some h) s := by
  rw [resolve, if_neg (by simp [hplain]), provenance_eq_cached_iff.2 hcached]

/-- A declaration that is found is settled. -/
theorem resolve_of_found (hplain : c.isPlainValue = false) (hcached : s.cached c.name = none)
    (hfound : s.lookup c.name = some h) : s.resolve p c = s.settle p c h := by
  rw [resolve, if_neg (by simp [hplain]), provenance_eq_found_iff.2 ⟨hcached, hfound⟩]

/-- Where there is none, a new declaration is settled. -/
theorem resolve_of_fresh (hplain : c.isPlainValue = false) (hcached : s.cached c.name = none)
    (hfound : s.lookup c.name = none) : s.resolve p c = s.synthesize p c := by
  rw [resolve, if_neg (by simp [hplain]), provenance_eq_fresh_iff.2 ⟨hcached, hfound⟩]

end Session

end FactTypes
