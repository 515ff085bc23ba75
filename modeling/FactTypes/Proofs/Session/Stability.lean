import FactTypes.Proofs.Session.EntryPoints
import FactTypes.Proofs.Session.Forgetting

/-!
# What a name was resolved to

The first resolution under a name decides. From then on the cache answers for every
type of that name, whatever the type looks like by then and whatever is filed in the
meantime, until the resource of the declaration is invalidated. Such an answer lays
nothing out, inherits nothing and reports nothing.
-/

namespace FactTypes

/-- Whether a request does not invalidate the resource of a declaration. -/
def Request.Spares (d : Declaration) : Request → Prop
  | .invalidate r => d.isFrom r = false
  | _ => True

/-- A declaration that comes from no resource is never concerned. -/
theorem Request.spares_of_resource_eq_none {d : Declaration} (hnone : d.resource = none)
    (r : Request) : r.Spares d := by
  cases r with
  | invalidate r =>
    show d.isFrom r = false
    simp [Declaration.isFrom, hnone]
  | _ => trivial

namespace Session

variable {s t : Session} {p : ClassPath} {c e : HostType} {h : Handle} {n : TypeName}
  {q r : Request}

-- ═══════════════════════════════════════════════════════════════════════
-- The cache keeps what it has
-- ═══════════════════════════════════════════════════════════════════════

theorem cached_resolve_of_cached (hcached : s.cached n = some h) :
    (s.resolve p c).session.cached n = some h := by
  by_cases hname : c.name = n
  · subst hname
    cases hplain : c.isPlainValue with
    | true => rwa [resolve_of_isPlainValue hplain]
    | false => rwa [resolve_of_cached hplain hcached]
  · rwa [cached_resolve_of_ne hname]

/-- A request that asks about no type leaves the cache as it is, or it invalidates a
    resource. -/
theorem cached_perform_of_unasked (hasked : r.hostType? = none) (n : TypeName) :
    (s.perform r).session.cached n = s.cached n ∨
      ∃ x, r = .invalidate x ∧
        (s.perform r).session.cached n =
          (s.cached n).filter fun h => !(s.store.get h).isFrom x := by
  cases r with
  | author d => exact Or.inl rfl
  | amend k a =>
    simp only [perform, Outcome.ready]
    split <;> exact Or.inl rfl
  | declare k =>
    simp only [perform, Outcome.ready]
    split <;> exact Or.inl rfl
  | file package k =>
    simp only [perform, Outcome.ready]
    split <;> exact Or.inl rfl
  | resolve p c => cases hasked
  | register p c package => cases hasked
  | invalidate x => exact Or.inr ⟨x, rfl, s.cached_invalidate x n⟩

/-- An entry of the cache stays, unless the resource of its declaration is
    invalidated. -/
theorem cached_perform (hcached : s.cached n = some h) (hr : r.Spares (s.store.get h)) :
    (s.perform r).session.cached n = some h := by
  cases hasked : r.hostType? with
  | some c =>
    obtain ⟨p, hsame⟩ := s.perform_of_hostType hasked
    rw [cached, hsame.cache]
    exact cached_resolve_of_cached hcached
  | none =>
    rcases cached_perform_of_unasked (s := s) hasked n with hsame | ⟨x, rfl, hfilter⟩
    · rw [hsame, hcached]
    · have hother : (s.store.get h).isFrom x = false := hr
      rw [hfilter, hcached, Option.filter_some, hother]
      rfl

/-- An entry of the cache was there before, or it is what a type of that name was
    answered with. -/
theorem cached_perform_cases (hcached : (s.perform r).session.cached n = some h) :
    s.cached n = some h ∨
      ∃ c, r.hostType? = some c ∧ c.name = n ∧ c.isPlainValue = false ∧
        (s.perform r).declaration = some h := by
  cases hasked : r.hostType? with
  | some c =>
    obtain ⟨p, hsame⟩ := s.perform_of_hostType hasked
    rw [cached, hsame.cache] at hcached
    rw [hsame.declaration]
    by_cases hname : c.name = n
    · subst hname
      cases hplain : c.isPlainValue with
      | true =>
        rw [resolve_of_isPlainValue hplain] at hcached
        exact Or.inl hcached
      | false =>
        rw [← cached_resolve_self hplain]
        exact Or.inr ⟨c, rfl, rfl, hplain, hcached⟩
    · have hkept : s.cached n = some h := (cached_resolve_of_ne hname).symm.trans hcached
      exact Or.inl hkept
  | none =>
    rcases cached_perform_of_unasked (s := s) hasked n with hsame | ⟨x, rfl, hfilter⟩
    · exact Or.inl (hsame.symm.trans hcached)
    · exact Or.inl (Option.filter_eq_some_iff.1 (hfilter.symm.trans hcached)).1

theorem cached_of_leads (hcached : s.cached n = some h)
    (hst : s.Leads (fun u r => r.Spares (u.store.get h)) t) : t.cached n = some h := by
  induction hst with
  | refl => exact hcached
  | perform _ hr ih => exact cached_perform ih hr
  | upkeep _ _ ih => exact ih

-- ═══════════════════════════════════════════════════════════════════════
-- What the cache answers
-- ═══════════════════════════════════════════════════════════════════════

/-- The answer to a request about a type is cached under the name of the type. -/
theorem cached_of_answered (hq : q.hostType? = some c)
    (hanswer : (s.perform q).declaration = some h) :
    (s.perform q).session.cached c.name = some h := by
  obtain ⟨p, hsame⟩ := s.perform_of_hostType hq
  have hdecl : (s.resolve p c).declaration = some h := hsame.declaration.symm.trans hanswer
  rw [cached, hsame.cache, ← hdecl]
  apply cached_resolve_self
  by_contra hplain
  rw [declaration_resolve_of_plain (Bool.not_eq_false _ ▸ hplain)] at hdecl
  cases hdecl

/-- Under a cached name, every type but a plain value is answered with the entry.
    Nothing is reported, and the cache and all declarations are left alone. -/
theorem perform_of_cached (hr : r.hostType? = some e) (he : e.isPlainValue = false)
    (hcached : s.cached e.name = some h) :
    (s.perform r).declaration = some h ∧ (s.perform r).diagnostics = [] ∧
      (s.perform r).session.cache = s.cache ∧ (s.perform r).session.store = s.store := by
  obtain ⟨p, hsame⟩ := s.perform_of_hostType hr
  have hready : s.resolve p e = .ready (some h) s := resolve_of_cached he hcached
  rw [hsame.declaration, hsame.diagnostics, hsame.cache, hsame.store, hready]
  exact ⟨rfl, rfl, rfl, rfl⟩

/-- Once a type has got a declaration, every type of its name is answered with that
    declaration, as long as the resource of the declaration is not invalidated.
    Nothing is reported, and the cache and all declarations are left alone. -/
theorem perform_of_answered (hq : q.hostType? = some c)
    (hanswer : (s.perform q).declaration = some h)
    (hst : (s.perform q).session.Leads (fun u r => r.Spares (u.store.get h)) t)
    (hr : r.hostType? = some e) (hname : e.name = c.name) (he : e.isPlainValue = false) :
    (t.perform r).declaration = some h ∧ (t.perform r).diagnostics = [] ∧
      (t.perform r).session.cache = t.cache ∧ (t.perform r).session.store = t.store := by
  have hcached : t.cached c.name = some h := cached_of_leads (cached_of_answered hq hanswer) hst
  exact perform_of_cached hr he (hname ▸ hcached)

-- ═══════════════════════════════════════════════════════════════════════
-- A name that changed hands
-- ═══════════════════════════════════════════════════════════════════════

/-- The type of the orders has become an interface. It carries a marker, and a field
    that asks for a position out of range. -/
def orderInterface : HostType where
  name := orderType.name
  shape := .interface
  fields := [{ name := "total", type := "int", position := some 7 }]
  markers := { role := some .event }

/-- The declaration of the type is amended, and another one is filed in its place. -/
def reshuffle : List Request :=
  [.amend ⟨4⟩ (.role .fact), .author (.declared orderType.name), .declare ⟨5⟩]

/-- After all that, another resource than that of the type is invalidated. -/
def reshuffled : Session :=
  ((stocked.run reshuffle).perform (.invalidate ⟨"people.rules"⟩)).session

private theorem stocked_leads_reshuffled :
    stocked.Leads (fun u r => r.Spares (u.store.get ⟨4⟩)) reshuffled := by
  refine .perform (leads_run ?_) ?_
  · intro r hr u
    simp only [reshuffle, List.mem_cons, List.not_mem_nil, or_false] at hr
    rcases hr with rfl | rfl | rfl <;> trivial
  · -- the declaration still comes from where the type came from
    have horigin := (extends_run stocked reshuffle).origin stocked_origin.1
    have hresource := horigin.resource.trans stocked_origin.2
    show Declaration.isFrom _ _ = false
    rw [Declaration.isFrom, hresource]
    decide

/-- The interface gets the declaration of the type that it has replaced, although a
    look-up would find another one, and its fault is not reported. -/
theorem perform_of_answered_order :
    let asked := Request.register (.ofList [orderType]) orderType "shop"
    let again := Request.register (.ofList [orderInterface]) orderInterface "org.rules"
    ((start .standard).perform asked).declaration = some ⟨4⟩ ∧
      ((start .standard).perform asked).session.Leads (fun u r => r.Spares (u.store.get ⟨4⟩))
        reshuffled ∧
      (reshuffled.perform again).declaration = some ⟨4⟩ ∧
      (reshuffled.perform again).diagnostics = [] ∧
      (reshuffled.perform again).session.cache = reshuffled.cache ∧
      (reshuffled.perform again).session.store = reshuffled.store := by
  intro asked again
  have hanswer : ((start .standard).perform asked).declaration = some ⟨4⟩ := by
    show ((start .standard).resolveAndRegister _ orderType "shop").declaration = some ⟨4⟩
    rw [declaration_resolveAndRegister]
    exact (resolve_of_provenance_fresh (by decide) (by decide)).1
  exact ⟨hanswer, stocked_leads_reshuffled,
    perform_of_answered (q := asked) (c := orderType) rfl hanswer stocked_leads_reshuffled
      (r := again) (e := orderInterface) rfl rfl (by decide)⟩

end Session

end FactTypes
