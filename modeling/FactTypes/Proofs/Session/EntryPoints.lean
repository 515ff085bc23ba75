import FactTypes.Proofs.Session.Runs

/-!
# Resolving and registering

There are two ways to ask for the declaration of a type. They go through the same
tiers, and both walk over the ancestors before anything is filed, so they come to the
same end but for the packages. What registering files besides is one declaration in
one place, and only if it was not found under the name of the type.
-/

namespace FactTypes

/-- Whether two outcomes are the same, except that the packages may differ. -/
structure Outcome.SameButPackages (a b : Outcome) : Prop where
  declaration : a.declaration = b.declaration
  diagnostics : a.diagnostics = b.diagnostics
  reported : a.reported = b.reported
  cache : a.session.cache = b.session.cache
  store : a.session.store = b.session.store

namespace Session

/-- Whether registering a type files a declaration under the package: it is the one
    that the type gets, the type was resolved before or gets a new one, and it was
    written in rule source or has its host type in the package. -/
structure Files (s : Session) (p : ClassPath) (c : HostType) (package : String) (h : Handle) :
    Prop where
  declaration : (s.resolve p c).declaration = some h
  unfound : (∃ k, s.provenance c.name = .cached k) ∨ s.provenance c.name = .fresh
  eligible : ((s.resolve p c).session.store.get h).nature = .declared ∨
    ∃ n, ((s.resolve p c).session.store.get h).typeClass = some n ∧ n.package = package

/-- How registering a type compares with resolving it. Both give the same answer and
    leave the same session but for the packages. Resolving leaves those as they are;
    registering makes one entry in them, under the package and the simple name of the
    answer, if it files the answer, and leaves them as they are if it does not. -/
structure EntryPointsAgree (s : Session) (p : ClassPath) (c : HostType) (package : String) :
    Prop where
  same : (s.resolveAndRegister p c package).SameButPackages (s.resolve p c)
  resolved : (s.resolve p c).session.packages = s.packages
  filed : ∀ h, s.Files p c package h →
    (s.resolveAndRegister p c package).session.packages =
      s.packages.file (s.resolve p c).session.store package h
  entry : ∀ h, s.Files p c package h → ∀ place simpleName,
    (s.resolveAndRegister p c package).session.packages.find? place simpleName =
      if package = place ∧ ((s.resolve p c).session.store.nameOf h).simpleName = simpleName
      then some h else s.packages.find? place simpleName
  unfiled : (∀ h, ¬s.Files p c package h) →
    (s.resolveAndRegister p c package).session.packages = s.packages

variable {s : Session} {p : ClassPath} {c : HostType} {h k : Handle} {package : String}
  {q : Request}

theorem packages_register (s : Session) (package : String) (h : Handle) :
    (s.register package h).packages =
      if (s.store.get h).mayRegister package = true then s.packages.file s.store package h
      else s.packages := by
  rw [register]
  split <;> rfl

theorem sameButPackages_resolveAndRegister (s : Session) (p : ClassPath) (c : HostType)
    (package : String) : (s.resolveAndRegister p c package).SameButPackages (s.resolve p c) := by
  rcases s.resolveAndRegister_cases p c package with ⟨heq, -⟩ | ⟨h, -, -, -, heq⟩
  · rw [heq]
    exact ⟨rfl, rfl, rfl, rfl, rfl⟩
  · rw [heq]
    exact ⟨rfl, rfl, rfl, cache_register _ package h, store_register _ package h⟩

/-- Whichever way the declaration of a type is asked for, what comes of it is what
    comes of resolving the type, but for the packages. -/
theorem perform_of_hostType (s : Session) (hq : q.hostType? = some c) :
    ∃ p, (s.perform q).SameButPackages (s.resolve p c) := by
  cases q with
  | resolve p d =>
    obtain rfl : d = c := Option.some.inj hq
    exact ⟨p, rfl, rfl, rfl, rfl, rfl⟩
  | register p d package =>
    obtain rfl : d = c := Option.some.inj hq
    exact ⟨p, s.sameButPackages_resolveAndRegister p d package⟩
  | _ => cases hq

/-- A plain value has nothing to file, and what was found stays where it is. -/
theorem not_files (hcase : c.isPlainValue = true ∨ ∃ k, s.provenance c.name = .found k) :
    ¬s.Files p c package h := by
  rintro ⟨hdecl, hunfound, -⟩
  rcases hcase with hplain | ⟨k, hfound⟩
  · rw [declaration_resolve_of_plain hplain] at hdecl
    cases hdecl
  · rcases hunfound with ⟨j, hcached⟩ | hfresh
    · rw [hfound] at hcached
      cases hcached
    · rw [hfound] at hfresh
      cases hfresh

/-- Otherwise the answer is filed if it may be. -/
theorem files_iff (hprov : s.provenance c.name = .cached h ∨ s.provenance c.name = .fresh)
    (hdecl : (s.resolve p c).declaration = some h) :
    s.Files p c package k ↔
      h = k ∧ ((s.resolve p c).session.store.get h).mayRegister package = true := by
  rw [Declaration.mayRegister_iff]
  constructor
  · rintro ⟨hk, -, heligible⟩
    obtain rfl : h = k := Option.some.inj (hdecl.symm.trans hk)
    exact ⟨rfl, heligible⟩
  · rintro ⟨rfl, heligible⟩
    exact ⟨hdecl, hprov.imp_left fun hcached => ⟨h, hcached⟩, heligible⟩

theorem packages_resolveAndRegister_of_files (hfiles : s.Files p c package h) :
    (s.resolveAndRegister p c package).session.packages =
      s.packages.file (s.resolve p c).session.store package h := by
  rcases s.resolveAndRegister_cases p c package with ⟨-, hcase⟩ | ⟨k, -, hprov, hdecl, heq⟩
  · exact absurd hfiles (not_files hcase)
  · obtain ⟨rfl, hmay⟩ := (files_iff hprov hdecl).1 hfiles
    rw [heq, packages_register, if_pos hmay, (s.settles_resolve p c).packages]

theorem packages_resolveAndRegister_of_not_files (hnot : ∀ h, ¬s.Files p c package h) :
    (s.resolveAndRegister p c package).session.packages = s.packages := by
  have hkept : (s.resolve p c).session.packages = s.packages := (s.settles_resolve p c).packages
  rcases s.resolveAndRegister_cases p c package with ⟨heq, -⟩ | ⟨h, -, hprov, hdecl, heq⟩
  · rw [heq, hkept]
  · have hmay : ¬((s.resolve p c).session.store.get h).mayRegister package = true :=
      fun hmay => hnot h ((files_iff hprov hdecl).2 ⟨rfl, hmay⟩)
    rw [heq, packages_register, if_neg hmay, hkept]

/-- In every session, registering a type and resolving it agree on everything but the
    one entry that registering may make. -/
theorem entryPoints_agree (s : Session) (p : ClassPath) (c : HostType) (package : String) :
    s.EntryPointsAgree p c package := by
  constructor
  case same => exact s.sameButPackages_resolveAndRegister p c package
  case resolved => exact (s.settles_resolve p c).packages
  case filed => exact fun h hfiles => packages_resolveAndRegister_of_files hfiles
  case entry =>
    intro h hfiles place simpleName
    rw [packages_resolveAndRegister_of_files hfiles]
    exact Packages.find?_file s.packages _ package h place simpleName
  case unfiled => exact packages_resolveAndRegister_of_not_files

end Session

end FactTypes
