import Mathlib.Data.List.Induction
import FactTypes.Proofs.Names
import FactTypes.Proofs.Session.Registration

/-!
# Whose declaration a type gets

The packages know a type by its package and its simple name, the cache knows it by
its name, and a registration may carry a declaration into a package that is not
its own. So a type is given a declaration of its simple name, and one of its very
name unless a declaration has been carried into its package before.
-/

namespace FactTypes

/-- Whether a request names types by well-formed names only and files declarations
    under the packages of their own names only. -/
def Request.ByName : Request → Prop
  | .author d => TypeName.isWellFormed d.name.text = true
  | .file _ _ => False
  | .resolve _ c => TypeName.isWellFormed c.name.text = true
  | .register _ c _ => TypeName.isWellFormed c.name.text = true
  | _ => True

namespace Session

/-- Whether one of the requests has carried a declaration into a package. -/
def CarriedIn (s : Session) (rs : List Request) (package : String) (h : Handle) : Prop :=
  ∃ before p c after, rs = before ++ .register p c package :: after ∧
    (s.run before).carried c package = some h

/-- Whether a declaration may stand under a simple name in a package: it has that
    simple name, and it is of that package or was carried there. -/
def Fits (s : Session) (carriedIn : String → Handle → Prop) (package simpleName : String)
    (h : Handle) : Prop :=
  (s.store.nameOf h).simpleName = simpleName ∧
    ((s.store.nameOf h).package = package ∨ carriedIn package h)

/-- Whether every entry fits the declaration that it holds. -/
structure Named (s : Session) (carriedIn : String → Handle → Prop) : Prop where
  wellFormed : ∀ {h}, s.store.Issued h → TypeName.isWellFormed (s.store.nameOf h).text = true
  builtin : ∀ {n h}, s.builtins.find? n = some h → s.store.nameOf h = n
  cached : ∀ {n h}, s.cached n = some h → s.Fits carriedIn n.package n.simpleName h
  filed : ∀ {package simpleName h}, s.packages.find? package simpleName = some h →
    s.Fits carriedIn package simpleName h

variable {s t : Session} {p : ClassPath} {c : HostType} {h k : Handle} {n : TypeName}
  {d : Declaration} {r : Request} {package simpleName : String}
  {carriedIn carriedIn' : String → Handle → Prop}

theorem nameOf_eq_of_extends (he : s.Extends t) (hh : s.store.Issued h) :
    t.store.nameOf h = s.store.nameOf h :=
  (he.origin hh).name

theorem Fits.of_extends (hfits : s.Fits carriedIn package simpleName h) (he : s.Extends t)
    (hh : s.store.Issued h) : t.Fits carriedIn package simpleName h := by
  rw [Fits, nameOf_eq_of_extends he hh]
  exact hfits

theorem Fits.mono (hfits : s.Fits carriedIn package simpleName h)
    (hmono : ∀ {package h}, carriedIn package h → carriedIn' package h) :
    s.Fits carriedIn' package simpleName h :=
  ⟨hfits.1, hfits.2.imp_right hmono⟩

/-- A declaration that fits a well-formed name has that name or was carried in. -/
theorem Fits.name_eq_or (hfits : s.Fits carriedIn n.package n.simpleName h)
    (hn : TypeName.isWellFormed n.text = true)
    (hh : TypeName.isWellFormed (s.store.nameOf h).text = true) :
    s.store.nameOf h = n ∨ carriedIn n.package h := by
  obtain ⟨hsimple, hpackage | hcarried⟩ := hfits
  · exact Or.inl (TypeName.eq_of_parts hh hn hpackage hsimple)
  · exact Or.inr hcarried

namespace Named

theorem mono (hn : s.Named carriedIn)
    (hmono : ∀ {package h}, carriedIn package h → carriedIn' package h) : s.Named carriedIn' :=
  ⟨hn.wellFormed, hn.builtin, fun hk => (hn.cached hk).mono hmono,
    fun hk => (hn.filed hk).mono hmono⟩

theorem lookup (hn : s.Named carriedIn) (hlookup : s.lookup n = some h) :
    s.Fits carriedIn n.package n.simpleName h := by
  rcases Option.or_eq_some_iff.1 hlookup with hbuiltin | ⟨-, hfiled⟩
  · rw [Fits, hn.builtin hbuiltin]
    exact ⟨rfl, Or.inl rfl⟩
  · exact hn.filed hfiled

/-- A later session is named as well, if its new handles have well-formed names and
    its new entries fit. -/
theorem of_extends (hn : s.Named carriedIn) (hs : s.Sound) (he : s.Extends t)
    (hissued : ∀ {h}, t.store.Issued h → ¬s.store.Issued h →
      TypeName.isWellFormed (t.store.nameOf h).text = true)
    (hcached : ∀ {n h}, t.cached n = some h → s.cached n = some h ∨
      t.Fits carriedIn n.package n.simpleName h)
    (hfiled : ∀ {package simpleName h}, t.packages.find? package simpleName = some h →
      s.packages.find? package simpleName = some h ∨ t.Fits carriedIn package simpleName h) :
    t.Named carriedIn := by
  constructor
  case wellFormed =>
    intro h hh
    by_cases hold : s.store.Issued h
    · rw [nameOf_eq_of_extends he hold]
      exact hn.wellFormed hold
    · exact hissued hh hold
  case builtin =>
    intro n h hbuiltin
    rw [he.builtins] at hbuiltin
    rw [nameOf_eq_of_extends he (hs.builtin hbuiltin)]
    exact hn.builtin hbuiltin
  case cached =>
    intro n h hentry
    rcases hcached hentry with hold | hnew
    · exact (hn.cached hold).of_extends he (hs.cached hold)
    · exact hnew
  case filed =>
    intro package simpleName h hentry
    rcases hfiled hentry with hold | hnew
    · exact (hn.filed hold).of_extends he (hs.filed hold)
    · exact hnew

end Named

theorem named_author (hn : s.Named carriedIn) (hs : s.Sound)
    (hd : TypeName.isWellFormed d.name.text = true) : (s.author d).2.Named carriedIn := by
  refine hn.of_extends hs (s.settles_author d).toExtends ?_ Or.inl Or.inl
  intro h hh hnew
  obtain rfl : h = (s.author d).1 := ((s.issued_author_iff d h).1 hh).resolve_left hnew
  rw [Store.nameOf, get_author_self]
  exact hd

theorem named_settle (hn : s.Named carriedIn) (hs : s.Sound)
    (hfits : s.Fits carriedIn c.name.package c.name.simpleName h) (hh : s.store.Issued h) :
    (s.settle p c h).session.Named carriedIn := by
  have he : s.Extends (s.settle p c h).session := (s.settles_settle p c h).toExtends
  refine hn.of_extends hs he ?_ ?_ Or.inl
  · intro k hk hnew
    rw [Store.Issued, next_settle] at hk
    exact absurd hk hnew
  · intro n k hcached
    rw [cached_settle] at hcached
    split at hcached
    · next hname =>
      obtain rfl := Option.some.inj hcached
      exact Or.inr (hname ▸ hfits.of_extends he hh)
    · exact Or.inl hcached

theorem named_resolve (hn : s.Named carriedIn) (hs : s.Sound)
    (hc : TypeName.isWellFormed c.name.text = true) :
    (s.resolve p c).session.Named carriedIn := by
  rcases s.resolve_cases p c with ⟨-, heq⟩ | ⟨h, -, -, heq⟩ | ⟨h, -, hprov, heq⟩ | ⟨-, -, heq⟩
  · rw [heq]; exact hn
  · rw [heq]; exact hn
  · have hlookup := (provenance_eq_found_iff.1 hprov).2
    rw [heq]
    exact named_settle hn hs (hn.lookup hlookup) (hs.issued_of_lookup hlookup)
  · -- the new declaration has the name of the type
    have hname : (Declaration.ofHostType s.policy c).name = c.name :=
      (Declaration.sameOrigin_ofHostType s.policy c).name
    rw [heq, synthesize_eq]
    refine named_settle (named_author hn hs (hname ▸ hc)) (sound_author hs _) ?_
      (s.issued_author _)
    rw [Fits, Store.nameOf, get_author_self, hname]
    exact ⟨rfl, Or.inl rfl⟩

theorem named_file (hn : s.Named carriedIn) (hs : s.Sound)
    (hplace : (s.store.nameOf h).package = package ∨ carriedIn package h) :
    (s.file package h).Named carriedIn := by
  refine hn.of_extends hs (s.extends_file package h) (fun hh hnew => absurd hh hnew) Or.inl ?_
  intro place simpleName k hfiled
  rw [filed_file] at hfiled
  split at hfiled
  · next hhere =>
    obtain rfl := Option.some.inj hfiled
    obtain ⟨rfl, hsimple⟩ := hhere
    exact Or.inr ⟨hsimple, hplace⟩
  · exact Or.inl hfiled

theorem named_register (hn : s.Named carriedIn) (hs : s.Sound)
    (hplace : (s.store.get h).mayRegister package = true →
      (s.store.nameOf h).package = package ∨ carriedIn package h) :
    (s.register package h).Named carriedIn := by
  rw [register]
  split
  · next hmay => exact named_file hn hs (hplace hmay)
  · exact hn

/-- What a registration files fits, if what it carries into the package counts as
    carried in. -/
theorem named_resolveAndRegister (hn : s.Named carriedIn) (hs : s.Sound)
    (hc : TypeName.isWellFormed c.name.text = true)
    (hcarry : ∀ h, s.carried c package = some h → carriedIn package h) :
    (s.resolveAndRegister p c package).session.Named carriedIn := by
  have hresolved : (s.resolve p c).session.Named carriedIn := named_resolve hn hs hc
  rcases s.resolveAndRegister_cases p c package with ⟨heq, -⟩ | ⟨h, hplain, hprov, hdecl, heq⟩
  · rw [heq]; exact hresolved
  · rw [heq]
    refine named_register hresolved (sound_resolve hs) fun hmay => ?_
    rcases hprov with hcached | hfresh
    · have hentry := provenance_eq_cached_iff.1 hcached
      rw [resolve_of_cached hplain hentry] at hmay
      exact Or.inr (hcarry h (carried_eq_some_iff.2 ⟨hplain, hentry, hmay⟩))
    · obtain ⟨hnew, hget⟩ := resolve_of_provenance_fresh (p := p) hplain hfresh
      obtain rfl := Option.some.inj (hdecl.symm.trans hnew)
      rw [hget, mayRegister_derived] at hmay
      rw [Store.nameOf, hget, (s.sameOrigin_derived p c).name]
      exact Or.inl hmay

theorem named_perform (hn : s.Named carriedIn) (hs : s.Sound) (hr : r.ByName)
    (hcarry : ∀ p c package h, r = .register p c package → s.carried c package = some h →
      carriedIn package h) :
    (s.perform r).session.Named carriedIn := by
  cases r with
  | author d => exact named_author hn hs hr
  | amend h a =>
    simp only [perform, Outcome.ready]
    split
    · exact hn.of_extends hs (s.extends_edit h a) (fun hh hnew => absurd hh hnew) Or.inl Or.inl
    · exact hn
  | declare h =>
    simp only [perform, Outcome.ready]
    split
    · exact named_file hn hs (Or.inl rfl)
    · exact hn
  | file package h => exact hr.elim
  | resolve p c => exact named_resolve hn hs hr
  | register p c package =>
    exact named_resolveAndRegister hn hs hr fun h => hcarry p c package h rfl
  | invalidate r =>
    have he : s.Extends (s.invalidate r) := s.extends_perform (.invalidate r)
    show (s.invalidate r).Named carriedIn
    exact hn.of_extends hs he (fun hh hnew => absurd hh hnew)
      (fun hcached => Or.inl (cached_of_cached_invalidate hcached))
      (fun hfiled => Or.inl (filed_of_filed_invalidate hfiled))

theorem named_start (policy : ReactivityPolicy) (carriedIn : String → Handle → Prop) :
    (start policy).Named carriedIn := by
  have hwellFormed : ∀ i < (start policy).store.next,
      TypeName.isWellFormed ((start policy).store.nameOf ⟨i⟩).text = true := by
    show ∀ i < (Builtins.seed .empty).1.next,
      TypeName.isWellFormed ((Builtins.seed .empty).1.nameOf ⟨i⟩).text = true
    decide
  refine ⟨fun {h} hh => hwellFormed h.index hh, ?_, ?_, ?_⟩
  · intro n h hbuiltin
    obtain ⟨-, d, -, rfl, hget⟩ := Builtins.seed_spec hbuiltin
    exact congrArg Declaration.name hget
  · intro n h hcached
    simp at hcached
  · intro package simpleName h hfiled
    simp at hfiled

theorem CarriedIn.append {rs : List Request} (hin : s.CarriedIn rs package h)
    (qs : List Request) : s.CarriedIn (rs ++ qs) package h := by
  obtain ⟨before, p, c, after, rfl, hcarried⟩ := hin
  exact ⟨before, p, c, after ++ qs, by rw [List.append_assoc, List.cons_append], hcarried⟩

/-- At every time, every entry fits the declaration that it holds. -/
theorem named_run (policy : ReactivityPolicy) {rs : List Request} (hrs : ∀ r ∈ rs, r.ByName) :
    ((start policy).run rs).Named ((start policy).CarriedIn rs) := by
  -- a run is extended at its end, since what has been carried in so far is its past
  induction rs using List.reverseRecOn with
  | nil => exact named_start policy _
  | append_singleton rest r ih =>
    have hnamed := ih fun q hq => hrs q (List.mem_append_left _ hq)
    have hsound : ((start policy).run rest).Sound := sound_run (sound_start policy) rest
    rw [run_concat]
    refine named_perform (hnamed.mono fun hin => hin.append [r]) hsound (hrs r (by simp)) ?_
    rintro p c package h rfl hcarried
    exact ⟨rest, p, c, [], rfl, hcarried⟩

/-- The answer to a resolution, with registration or without, is a declaration of
    the simple name of the type. It is one of its very name, unless a request before
    has carried it into the package of the type. -/
theorem nameOf_answer (policy : ReactivityPolicy) {rs : List Request} {r : Request}
    (hrs : ∀ q ∈ rs, q.ByName) (hc : TypeName.isWellFormed c.name.text = true)
    (hr : r = .resolve p c ∨ ∃ package, r = .register p c package)
    (hanswer : (((start policy).run rs).perform r).declaration = some h) :
    ((((start policy).run rs).perform r).session.store.nameOf h).simpleName = c.name.simpleName ∧
      ((((start policy).run rs).perform r).session.store.nameOf h = c.name ∨
        (start policy).CarriedIn rs c.name.package h) := by
  have hs : ((start policy).run rs).Sound := sound_run (sound_start policy) rs
  have hn := named_run policy hrs
  generalize hrun : (start policy).run rs = s at *
  -- what registration does afterwards changes neither the answer nor any declaration
  have hsame : (s.perform r).declaration = (s.resolve p c).declaration ∧
      (s.perform r).session.store = (s.resolve p c).session.store := by
    rcases hr with rfl | ⟨package, rfl⟩
    · exact ⟨rfl, rfl⟩
    · exact ⟨s.declaration_resolveAndRegister p c package, s.store_resolveAndRegister p c package⟩
  rw [hsame.1] at hanswer
  rw [hsame.2]
  have hplain : c.isPlainValue = false := by
    by_contra hplain
    rw [declaration_resolve_of_plain (by simpa using hplain)] at hanswer
    cases hanswer
  have hresolved : (s.resolve p c).session.Named ((start policy).CarriedIn rs) :=
    named_resolve hn hs hc
  have hfits := hresolved.cached ((cached_resolve_self hplain).trans hanswer)
  exact ⟨hfits.1, hfits.name_eq_or hc (hresolved.wellFormed (issued_of_resolve hs hanswer))⟩

-- ═══════════════════════════════════════════════════════════════════════
-- A namesake
-- ═══════════════════════════════════════════════════════════════════════

/-- A type that nothing was found for gets what was carried into its package under
    its simple name. -/
theorem declaration_resolve_of_carried {q : ClassPath} {e : HostType}
    (hcarried : s.carried c e.name.package = some h)
    (hsimple : (s.store.nameOf h).simpleName = e.name.simpleName) (hplain : e.isPlainValue = false)
    (hcached : s.cached e.name = none) (hbuiltin : s.builtins.find? e.name = none) :
    ((s.resolveAndRegister p c e.name.package).session.resolve q e).declaration = some h := by
  obtain ⟨hc, hentry, hmay⟩ := carried_eq_some_iff.1 hcarried
  have he : s.Extends (s.resolveAndRegister p c e.name.package).session :=
    s.extends_perform (.register p c e.name.package)
  refine declaration_resolve_of_known hplain (Or.inr (provenance_eq_found_iff.2 ⟨?_, ?_⟩))
  · rw [cached_resolveAndRegister, resolve_of_cached hc hentry]
    exact hcached
  · rw [lookup, he.builtins, hbuiltin, Option.none_or, Packages.lookup,
      filed_resolveAndRegister_of_cached hc hentry, if_pos ⟨hmay, rfl, hsimple⟩]

/-- A person, as the package `com.acme` has it. -/
def person : HostType :=
  { name := ⟨"com.acme.Person"⟩ }

/-- Another type of that simple name. -/
def namesake : HostType :=
  { name := ⟨"org.rules.Person"⟩ }

def people : ClassPath :=
  .ofList [person, namesake]

/-- The declaration of the person is filed where its name says. -/
def hired : Session :=
  (start .standard).run [.author (.declared ⟨"com.acme.Person"⟩), .declare ⟨4⟩]

/-- The person is resolved and registered under the package of its namesake. -/
def posting : List Request :=
  [.author (.declared ⟨"com.acme.Person"⟩), .declare ⟨4⟩, .resolve people person,
    .register people person "org.rules"]

private theorem posting_byName : ∀ r ∈ posting, r.ByName := by
  have hperson : TypeName.isWellFormed "com.acme.Person" = true := by decide
  intro r hr
  simp only [posting, List.mem_cons, List.not_mem_nil, or_false] at hr
  rcases hr with rfl | rfl | rfl | rfl
  · exact hperson
  · trivial
  · exact hperson
  · exact hperson

private theorem run_posting :
    (start .standard).run posting =
      ((hired.settle people person ⟨4⟩).session.resolveAndRegister people person "org.rules").session := by
  have hresolve : hired.resolve people person = hired.settle people person ⟨4⟩ :=
    resolve_of_found (by decide) (by decide) (by decide)
  rw [← hresolve]
  rfl

private theorem hired_name : (hired.settle people person ⟨4⟩).session.store.nameOf ⟨4⟩ =
    ⟨"com.acme.Person"⟩ :=
  (hired.becomes_settle people person ⟨4⟩ ⟨4⟩).name.trans (by decide)

private theorem answer_posting :
    (((start .standard).run posting).perform (.resolve people namesake)).declaration =
      some ⟨4⟩ := by
  rw [run_posting]
  refine declaration_resolve_of_carried (e := namesake) ?_ ?_ (by decide) ?_ (by decide)
  · refine carried_eq_some_iff.2 ⟨by decide, ?_, ?_⟩
    · rw [cached_settle, if_pos rfl]
    · rw [(hired.becomes_settle people person ⟨4⟩ ⟨4⟩).mayRegister_eq]
      decide
  · rw [hired_name]
    decide
  · rw [cached_settle, if_neg (by decide)]
    decide

/-- The namesake of the person is answered with a declaration of its own simple name
    that is of its very name or was carried into its package. -/
theorem nameOf_answer_namesake :
    (∀ r ∈ posting, r.ByName) ∧ TypeName.isWellFormed namesake.name.text = true ∧
      ((((start .standard).run posting).perform (.resolve people namesake)).session.store.nameOf
        ⟨4⟩).simpleName = namesake.name.simpleName ∧
      ((((start .standard).run posting).perform (.resolve people namesake)).session.store.nameOf
          ⟨4⟩ = namesake.name ∨
        (start .standard).CarriedIn posting namesake.name.package ⟨4⟩) := by
  have hnamesake : TypeName.isWellFormed namesake.name.text = true := by decide
  exact ⟨posting_byName, hnamesake,
    nameOf_answer .standard posting_byName hnamesake (Or.inl rfl) answer_posting⟩

/-- It is not of its very name: the type gets the declaration of the person. -/
theorem namesake_gets_person :
    (∀ r ∈ posting, r.ByName) ∧ TypeName.isWellFormed namesake.name.text = true ∧
      (((start .standard).run posting).perform (.resolve people namesake)).declaration =
        some ⟨4⟩ ∧
      (((start .standard).run posting).perform (.resolve people namesake)).session.store.nameOf
        ⟨4⟩ ≠ namesake.name := by
  refine ⟨posting_byName, by decide, answer_posting, ?_⟩
  have hissued : hired.store.Issued ⟨4⟩ := by decide
  have he : hired.Extends (hired.settle people person ⟨4⟩).session :=
    (hired.settles_settle people person ⟨4⟩).toExtends
  have hlater := (extends_perform _ (.register people person "org.rules")).trans
    (extends_perform ((hired.settle people person ⟨4⟩).session.resolveAndRegister people person
      "org.rules").session (.resolve people namesake))
  rw [run_posting, nameOf_eq_of_extends hlater (he.issued hissued), hired_name]
  decide

end Session

end FactTypes
