import FactTypes.Proofs.Session.Runs

/-! A registration files the declaration that a type has got. For a type that was
resolved before, whatever is filed in its place by then goes; in all other cases
nothing that is filed is lost. -/

namespace FactTypes

namespace Session

/-- The declaration that a registration carries into a package: the type was
    resolved before, and what it got then may be filed there. -/
def carried (s : Session) (c : HostType) (package : String) : Option Handle :=
  if c.isPlainValue then none
  else (s.cached c.name).filter fun h => (s.store.get h).mayRegister package

variable {s : Session} {p : ClassPath} {c : HostType} {h k : Handle}
  {registered package simpleName : String}

theorem carried_eq_some_iff :
    s.carried c package = some h ↔ c.isPlainValue = false ∧ s.cached c.name = some h ∧
      (s.store.get h).mayRegister package = true := by
  rw [carried]
  split
  · next hplain => simp [hplain]
  · next hplain => simp [hplain, Option.filter_eq_some_iff]

theorem carried_eq_none_of_uncached (hnone : s.cached c.name = none) :
    s.carried c package = none := by
  simp [carried, hnone]

/-- For a type that was resolved before, all that can change is the place of its
    declaration in the package. -/
theorem filed_resolveAndRegister_of_cached (hplain : c.isPlainValue = false)
    (hcached : s.cached c.name = some k) :
    (s.resolveAndRegister p c registered).session.packages.find? package simpleName =
      if (s.store.get k).mayRegister registered = true ∧ registered = package ∧
          (s.store.nameOf k).simpleName = simpleName then some k
      else s.packages.find? package simpleName := by
  rw [resolveAndRegister_of_cached hplain hcached]
  exact s.filed_register registered k package simpleName

/-- A new declaration is filed where nothing was. -/
theorem filed_resolveAndRegister_of_uncached (hcached : s.cached c.name = none)
    (hfiled : s.packages.find? package simpleName = some h) :
    (s.resolveAndRegister p c registered).session.packages.find? package simpleName = some h := by
  have hkept := (s.settles_resolve p c).packages
  rcases s.resolveAndRegister_cases p c registered with ⟨heq, -⟩ | ⟨k, hplain, hprov, hdecl, heq⟩
  · rw [heq, hkept, hfiled]
  · have hfresh : s.provenance c.name = .fresh := by
      rcases hprov with hprov | hprov
      · rw [provenance_eq_cached_iff, hcached] at hprov
        cases hprov
      · exact hprov
    obtain ⟨hnew, hget⟩ := resolve_of_provenance_fresh (p := p) hplain hfresh
    obtain rfl : k = ⟨s.store.next⟩ := Option.some.inj (hdecl.symm.trans hnew)
    rw [heq]
    simp only [filed_register, hkept, Store.nameOf, hget, mayRegister_derived]
    rw [if_neg ?_, hfiled]
    rintro ⟨rfl, rfl, rfl⟩
    -- the place is where the name of the type itself says, and nothing was found there
    have hnone : s.packages.lookup c.name = none :=
      (Option.or_eq_none_iff.1 (provenance_eq_fresh_iff.1 hfresh).2).2
    rw [(s.sameOrigin_derived p c).name] at hfiled
    exact absurd (hfiled.symm.trans hnone) (by simp)

/-- A filed declaration stays in its place, unless the registration carries another
    one of the same simple name into the package; that one is filed then. -/
theorem filed_resolveAndRegister (hfiled : s.packages.find? package simpleName = some h) :
    (s.resolveAndRegister p c registered).session.packages.find? package simpleName =
      match s.carried c registered with
      | some k =>
        if registered = package ∧ (s.store.nameOf k).simpleName = simpleName then some k else some h
      | none => some h := by
  cases hplain : c.isPlainValue with
  | true =>
    have hnone : s.carried c registered = none := if_pos hplain
    rw [hnone, resolveAndRegister_of_isPlainValue hplain]
    exact hfiled
  | false =>
    cases hcached : s.cached c.name with
    | none =>
      rw [carried_eq_none_of_uncached hcached]
      exact filed_resolveAndRegister_of_uncached hcached hfiled
    | some k =>
      rw [filed_resolveAndRegister_of_cached hplain hcached, hfiled]
      cases hmay : (s.store.get k).mayRegister registered with
      | true =>
        rw [carried_eq_some_iff.2 ⟨hplain, hcached, hmay⟩]
        simp only [true_and]
      | false =>
        have hnone : s.carried c registered = none := by
          rw [Option.eq_none_iff_forall_ne_some]
          intro j hj
          obtain ⟨-, hj, hmayj⟩ := carried_eq_some_iff.1 hj
          obtain rfl : k = j := Option.some.inj (hcached.symm.trans hj)
          rw [hmay] at hmayj
          cases hmayj
        rw [hnone]
        simp only [Bool.false_eq_true, false_and, if_false]

/-- A type of the package `p`. -/
def stampedType : HostType :=
  { name := ⟨"p.A"⟩ }

/-- The type has been declared twice; the first of the declarations is filed. -/
def stamped : Session :=
  (start .standard).run [.author (.declared ⟨"p.A"⟩), .author (.declared ⟨"p.A"⟩), .declare ⟨4⟩]

/-- The type is resolved, and then the second of the declarations is filed. -/
def restamped : Session :=
  stamped.run [.resolve (.ofList [stampedType]) stampedType, .declare ⟨5⟩]

private theorem restamped_eq :
    restamped = (stamped.settle (.ofList [stampedType]) stampedType ⟨4⟩).session.declare ⟨5⟩ := by
  have hresolve : stamped.resolve (.ofList [stampedType]) stampedType =
      stamped.settle (.ofList [stampedType]) stampedType ⟨4⟩ :=
    resolve_of_found (by decide) (by decide) (by decide)
  have hissued : (stamped.settle (.ofList [stampedType]) stampedType ⟨4⟩).session.store.Issued ⟨5⟩ :=
    (settles_settle _ _ _ _).toExtends.issued (by decide)
  show ((stamped.resolve _ stampedType).session.perform (.declare ⟨5⟩)).session = _
  rw [hresolve, perform_declare hissued]

private theorem restamped_cached : restamped.cached stampedType.name = some ⟨4⟩ := by
  have hsettled := stamped.cached_settle (.ofList [stampedType]) stampedType ⟨4⟩ stampedType.name
  rw [if_pos rfl] at hsettled
  rw [restamped_eq]
  exact hsettled

private theorem restamped_filed : restamped.packages.find? "p" "A" = some ⟨5⟩ := by
  have hname : (stamped.settle (.ofList [stampedType]) stampedType ⟨4⟩).session.store.nameOf ⟨5⟩ =
      ⟨"p.A"⟩ := (stamped.becomes_settle _ stampedType ⟨4⟩ ⟨5⟩).name.trans (by decide)
  rw [restamped_eq, declare, Packages.declare, Packages.find?_file, hname]
  exact if_pos (by decide)

private theorem restamped_origin :
    (Declaration.declared ⟨"p.A"⟩).SameOrigin (restamped.store.get ⟨4⟩) := by
  have hheld : stamped.store.get ⟨4⟩ = .declared ⟨"p.A"⟩ := by decide
  rw [restamped_eq, ← hheld]
  exact (stamped.becomes_settle _ stampedType ⟨4⟩ ⟨4⟩).toSameOrigin

/-- The type is registered under another package: there the first declaration is
    filed, and the second one stays where it is. -/
theorem restamped_keeps_elsewhere :
    restamped.packages.find? "p" "A" = some ⟨5⟩ ∧
      (restamped.resolveAndRegister (.ofList [stampedType]) stampedType "q").session.packages.find?
        "p" "A" = some ⟨5⟩ := by
  refine ⟨restamped_filed, ?_⟩
  have hcarried : restamped.carried stampedType "q" = some ⟨4⟩ := by
    refine carried_eq_some_iff.2 ⟨by decide, restamped_cached, ?_⟩
    rw [restamped_origin.mayRegister_eq]
    decide
  rw [filed_resolveAndRegister restamped_filed, hcarried]
  exact if_neg (by simp)

/-- The type is registered under its own package: the second declaration is lost
    there, although the client has filed it last. -/
theorem restamped_loses_filed :
    restamped.packages.find? "p" "A" = some ⟨5⟩ ∧
      (restamped.resolveAndRegister (.ofList [stampedType]) stampedType "p").session.packages.find?
        "p" "A" = some ⟨4⟩ := by
  refine ⟨restamped_filed, ?_⟩
  have hmay : (restamped.store.get ⟨4⟩).mayRegister "p" = true := by
    rw [restamped_origin.mayRegister_eq]
    decide
  have hname : restamped.store.nameOf ⟨4⟩ = ⟨"p.A"⟩ := restamped_origin.name
  rw [filed_resolveAndRegister_of_cached (by decide) restamped_cached, hmay, hname]
  exact if_pos (by decide)

end Session

end FactTypes
