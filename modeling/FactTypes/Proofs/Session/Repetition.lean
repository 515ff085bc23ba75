import FactTypes.Proofs.Session.Histories
import FactTypes.Proofs.Session.Identity

/-!
# Registering a type twice

A declaration that is found under the name of a type stays where it is when the
type is registered for the first time. When it is registered once more, the type is
resolved already, and only then is the declaration filed under the package. This is
all that a second registration can add to the first.
-/

namespace FactTypes

open Std

namespace Packages

variable {ps : Packages} {s : Store} {package : String} {h : Handle}

theorem find?_file_self (ps : Packages) (s : Store) (package : String) (h : Handle) :
    (ps.file s package h).find? package (s.nameOf h).simpleName = some h := by
  rw [find?_file, if_pos ⟨rfl, rfl⟩]

/-- Filing changes nothing exactly when the declaration is filed there already. -/
theorem file_eq_self_iff :
    ps.file s package h = ps ↔ ps.find? package (s.nameOf h).simpleName = some h := by
  constructor
  · intro heq
    rw [← heq]
    exact find?_file_self ps s package h
  · intro hfiled
    obtain ⟨t, ht, hentry⟩ := Option.bind_eq_some_iff.1 hfiled
    -- neither the package gains an entry nor the packages gain a package
    have htypes : t.types.insert (s.nameOf h).simpleName h = t.types :=
      Table.insert_eq_self hentry
    have hpackage : (ps.packageOrNew package).file s h = t := by
      rw [packageOrNew, ht, Option.getD_some, Package.file, htypes]
    show Packages.mk (ps.tables.insert package ((ps.packageOrNew package).file s h)) = ps
    rw [hpackage]
    congr 1
    apply ExtTreeMap.ext_getElem?
    intro name
    rw [ExtTreeMap.getElem?_insert]
    split
    · next heq => exact LawfulEqOrd.eq_of_compare heq ▸ ht.symm
    · rfl

end Packages

namespace Session

/-- The declaration that only a second registration files: it is found under the
    name of the type, and it may be filed under the package. -/
def deferred (s : Session) (c : HostType) (package : String) : Option Handle :=
  if c.isPlainValue || (s.cached c.name).isSome then none
  else (s.lookup c.name).filter fun h => (s.store.get h).mayRegister package

variable {s : Session} {p : ClassPath} {c : HostType} {h : Handle} {package : String}

theorem deferred_eq_some_iff :
    s.deferred c package = some h ↔ c.isPlainValue = false ∧ s.cached c.name = none ∧
      s.lookup c.name = some h ∧ (s.store.get h).mayRegister package = true := by
  rw [deferred]
  split
  · next hknown =>
    have : ¬(c.isPlainValue = false ∧ s.cached c.name = none) := by
      rintro ⟨hplain, hnone⟩
      simp [hplain, hnone] at hknown
    simp_all
  · next hnew =>
    rw [Bool.or_eq_true, not_or, Bool.not_eq_true, Option.not_isSome_iff_eq_none] at hnew
    simp [hnew, Option.filter_eq_some_iff]

-- ═══════════════════════════════════════════════════════════════════════
-- Filing again
-- ═══════════════════════════════════════════════════════════════════════

theorem file_eq_self_iff :
    s.file package h = s ↔ s.packages.find? package (s.store.nameOf h).simpleName = some h := by
  rw [← Packages.file_eq_self_iff]
  constructor
  · exact congrArg Session.packages
  · intro heq
    rw [file, heq]

/-- What has been registered is not changed by registering it once more. -/
theorem register_register (s : Session) (package : String) (h : Handle) :
    (s.register package h).register package h = s.register package h := by
  by_cases hmay : (s.store.get h).mayRegister package = true
  · have hfiled : s.register package h = s.file package h := if_pos hmay
    have hagain : (s.file package h).register package h = (s.file package h).file package h :=
      if_pos hmay
    rw [hfiled, hagain, file_eq_self_iff]
    exact Packages.find?_file_self s.packages s.store package h
  · have hkept : s.register package h = s := if_neg hmay
    rw [hkept, hkept]

-- ═══════════════════════════════════════════════════════════════════════
-- Registering again
-- ═══════════════════════════════════════════════════════════════════════

/-- The second registration finds the type resolved to what the first one answered. -/
theorem resolveAndRegister_again_eq (hplain : c.isPlainValue = false)
    (hdecl : (s.resolve p c).declaration = some h) :
    (s.resolveAndRegister p c package).session.resolveAndRegister p c package =
      .ready (some h) ((s.resolveAndRegister p c package).session.register package h) := by
  refine resolveAndRegister_of_cached hplain ?_
  rw [cached_resolveAndRegister, cached_resolve_self hplain, hdecl]

/-- The second registration answers what the first one did, and reports nothing. -/
theorem answer_resolveAndRegister_again (s : Session) (p : ClassPath) (c : HostType)
    (package : String) :
    ((s.resolveAndRegister p c package).session.resolveAndRegister p c package).declaration =
        (s.resolveAndRegister p c package).declaration ∧
      ((s.resolveAndRegister p c package).session.resolveAndRegister p c package).diagnostics =
        [] := by
  cases hplain : c.isPlainValue with
  | true =>
    have hready : ∀ t : Session, t.resolveAndRegister p c package = .ready none t :=
      fun _ => resolveAndRegister_of_isPlainValue hplain
    rw [hready, hready]
    exact ⟨rfl, rfl⟩
  | false =>
    obtain ⟨h, hdecl⟩ := s.exists_declaration_resolve p hplain
    rw [resolveAndRegister_again_eq hplain hdecl, declaration_resolveAndRegister, hdecl]
    exact ⟨rfl, rfl⟩

/-- What a second registration does to the session, by the way the first one went. -/
theorem session_resolveAndRegister_again (s : Session) (p : ClassPath) (c : HostType)
    (package : String) :
    ((s.resolveAndRegister p c package).session.resolveAndRegister p c package).session =
      (s.deferred c package).elim (s.resolveAndRegister p c package).session
        ((s.resolveAndRegister p c package).session.file package) := by
  cases hplain : c.isPlainValue with
  | true =>
    have hnone : s.deferred c package = none := by simp [deferred, hplain]
    have hready : s.resolveAndRegister p c package = .ready none s :=
      resolveAndRegister_of_isPlainValue hplain
    rw [hnone, hready]
    exact congrArg Outcome.session hready
  | false =>
    obtain ⟨h, hdecl⟩ := s.exists_declaration_resolve p hplain
    rw [resolveAndRegister_again_eq hplain hdecl]
    rcases s.resolveAndRegister_cases p c package with ⟨heq, hcase⟩ | ⟨k, -, hprov, hk, heq⟩
    · obtain ⟨k, hprov⟩ := hcase.resolve_left (by simp [hplain])
      obtain ⟨hnone, hlookup⟩ := provenance_eq_found_iff.1 hprov
      have hsettle : s.resolve p c = s.settle p c k := resolve_of_found hplain hnone hlookup
      obtain rfl : k = h := Option.some.inj
        ((declaration_resolve_of_known hplain (Or.inr hprov)).symm.trans hdecl)
      -- settling leaves it open where a declaration may be filed
      have hmay := (s.becomes_settle p c k k).mayRegister_eq package
      have hdeferred : s.deferred c package =
          if (s.store.get k).mayRegister package then some k else none := by
        simp [deferred, hplain, hnone, hlookup, Option.filter_some]
      rw [heq, hsettle, hdeferred]
      show (s.settle p c k).session.register package k = _
      rw [register, hmay]
      split <;> rfl
    · obtain rfl : k = h := Option.some.inj (hk.symm.trans hdecl)
      have hdeferred : s.deferred c package = none := by
        rcases hprov with hprov | hprov
        · simp [deferred, provenance_eq_cached_iff.1 hprov]
        · simp [deferred, (provenance_eq_fresh_iff.1 hprov).2]
      rw [hdeferred, heq]
      exact register_register _ package k

/-- A second registration gives the same answer, reports nothing and writes no
    declaration. All that it can change is that it files a declaration that the first
    one has found, so it changes nothing exactly when that is filed there already. -/
theorem resolveAndRegister_again (s : Session) (p : ClassPath) (c : HostType) (package : String) :
    let once := s.resolveAndRegister p c package
    let again := once.session.resolveAndRegister p c package
    again.declaration = once.declaration ∧ again.diagnostics = [] ∧
      again.session = { once.session with
        packages := (s.deferred c package).elim once.session.packages
          (once.session.packages.file once.session.store package) } ∧
      (again.session = once.session ↔ ∀ h, s.deferred c package = some h →
        s.packages.find? package (s.store.nameOf h).simpleName = some h) := by
  intro once again
  have hsession : again.session = (s.deferred c package).elim once.session
      (once.session.file package) := s.session_resolveAndRegister_again p c package
  obtain ⟨hanswer, hreport⟩ := s.answer_resolveAndRegister_again p c package
  refine ⟨hanswer, hreport, ?_, ?_⟩
  · rw [hsession]
    cases s.deferred c package <;> rfl
  · rw [hsession]
    cases hdeferred : s.deferred c package with
    | none => simp
    | some h =>
      obtain ⟨hplain, hnone, hlookup, -⟩ := deferred_eq_some_iff.1 hdeferred
      have hprov := provenance_eq_found_iff.2 ⟨hnone, hlookup⟩
      -- the first registration has settled the declaration and filed nothing
      have honce : once = s.settle p c h := resolveAndRegister_of_found hplain hprov
      have hname : once.session.store.nameOf h = s.store.nameOf h := by
        rw [honce]
        exact (s.becomes_settle p c h h).name
      have hpackages : once.session.packages = s.packages := by
        rw [honce]
        exact (s.settles_settle p c h).packages
      rw [Option.elim_some, file_eq_self_iff, hname, hpackages]
      simp

/-- The person has been declared and is registered under another package. The first
    time nothing is filed there, the second time its declaration is. -/
theorem person_filed_at_second_registration :
    hired.Reachable ∧
      (hired.resolveAndRegister people person "org.rules").session.packages.find?
        "org.rules" "Person" = none ∧
      ((hired.resolveAndRegister people person "org.rules").session.resolveAndRegister people
        person "org.rules").session.packages.find? "org.rules" "Person" = some ⟨4⟩ := by
  have hprov : hired.provenance person.name = .found ⟨4⟩ := by decide
  have honce : hired.resolveAndRegister people person "org.rules" =
      hired.settle people person ⟨4⟩ := resolveAndRegister_of_found (by decide) hprov
  have hdeferred : hired.deferred person "org.rules" = some ⟨4⟩ := by decide
  refine ⟨reachable_run .standard _, ?_, ?_⟩
  · rw [honce, (hired.settles_settle people person ⟨4⟩).packages]
    decide
  · have hname : (hired.settle people person ⟨4⟩).session.store.nameOf ⟨4⟩ = person.name :=
      (hired.becomes_settle people person ⟨4⟩ ⟨4⟩).name.trans (by decide)
    rw [session_resolveAndRegister_again, hdeferred, Option.elim_some, honce, filed_file, hname]
    exact if_pos (by decide)

end Session

end FactTypes
