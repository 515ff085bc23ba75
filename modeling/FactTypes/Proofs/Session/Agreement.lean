import FactTypes.Proofs.Session.Histories
import FactTypes.Proofs.Session.Identity

/-!
# When the cache and the look-up agree

The cache knows a declaration by the name of its type, the packages know it by the
two parts of a name. As long as every declaration is filed where its own name says,
and none is filed over one that is resolved already, the two never answer
differently: what is cached under a name is of that name, and a look-up finds it or
nothing.
-/

namespace FactTypes

/-- Whether a request names types by well-formed names, files declarations where
    their own names say, and leaves alone what is resolved already. -/
def Request.KeepsPlace (s : Session) : Request → Prop
  | .author d => TypeName.isWellFormed d.name.text = true
  | .declare h => s.cached (s.store.nameOf h) = none
  | .file _ _ => False
  | .resolve _ c => TypeName.isWellFormed c.name.text = true
  | .register _ c package => TypeName.isWellFormed c.name.text = true ∧ package = c.package
  | _ => True

namespace Session

/-- Whether the cache and the look-up agree: every entry is in the place of its own
    name, and a name that is resolved finds what it was resolved to or nothing. -/
structure Agreeing (s : Session) : Prop where
  sound : s.Sound
  named : s.Named fun _ _ => False
  wellFormed : ∀ {n h}, s.cached n = some h → TypeName.isWellFormed n.text = true
  agree : ∀ {n h k}, s.cached n = some h → s.lookup n = some k → k = h

variable {s t : Session} {p : ClassPath} {c : HostType} {h k : Handle} {n : TypeName}
  {r : Request} {ps : Packages} {policy : ReactivityPolicy}

namespace Agreeing

/-- What is cached under a name is of that name. -/
theorem nameOf_cached (ha : s.Agreeing) (hcached : s.cached n = some h) :
    s.store.nameOf h = n :=
  ((ha.named.cached hcached).name_eq_or (ha.wellFormed hcached)
    (ha.named.wellFormed (ha.sound.cached hcached))).resolve_right id

/-- What is found for a well-formed name is of that name. -/
theorem nameOf_lookup (ha : s.Agreeing) (hn : TypeName.isWellFormed n.text = true)
    (hlookup : s.lookup n = some h) : s.store.nameOf h = n :=
  ((ha.named.lookup hlookup).name_eq_or hn
    (ha.named.wellFormed (ha.sound.issued_of_lookup hlookup))).resolve_right id

/-- After resolving a name that finds nothing else, the two still agree. -/
theorem settle (ha : s.Agreeing) (hc : TypeName.isWellFormed c.name.text = true)
    (hh : s.store.Issued h) (hname : s.store.nameOf h = c.name)
    (hlookup : ∀ {k}, s.lookup c.name = some k → k = h) :
    (s.settle p c h).session.Agreeing := by
  have hfits : s.Fits (fun _ _ => False) c.name.package c.name.simpleName h :=
    ⟨by rw [hname], Or.inl (by rw [hname])⟩
  refine ⟨sound_settle ha.sound hh, named_settle ha.named ha.sound hfits hh, ?_, ?_⟩
  · intro n k hcached
    rw [cached_settle] at hcached
    split at hcached
    · next heq => exact heq ▸ hc
    · exact ha.wellFormed hcached
  · intro n j k hcached hfound
    rw [lookup_eq_of_settles (s.settles_settle p c h)] at hfound
    rw [cached_settle] at hcached
    split at hcached
    · next heq =>
      obtain rfl := Option.some.inj hcached
      exact hlookup (heq ▸ hfound)
    · exact ha.agree hcached hfound

theorem author (ha : s.Agreeing) {d : Declaration}
    (hd : TypeName.isWellFormed d.name.text = true) : (s.author d).2.Agreeing :=
  ⟨sound_author ha.sound d, named_author ha.named ha.sound hd, ha.wellFormed, ha.agree⟩

theorem resolve (ha : s.Agreeing) (hc : TypeName.isWellFormed c.name.text = true) :
    (s.resolve p c).session.Agreeing := by
  rcases s.resolve_cases p c with ⟨-, heq⟩ | ⟨h, -, -, heq⟩ | ⟨h, -, hprov, heq⟩ |
    ⟨-, hprov, heq⟩
  · rw [heq]; exact ha
  · rw [heq]; exact ha
  · have hlookup := (provenance_eq_found_iff.1 hprov).2
    rw [heq]
    refine ha.settle hc (ha.sound.issued_of_lookup hlookup) (ha.nameOf_lookup hc hlookup)
      fun {k} hk => ?_
    exact Option.some.inj (hk.symm.trans hlookup)
  · -- nothing is found for the name, before the new declaration is made and after it
    have hnone : s.lookup c.name = none := (provenance_eq_fresh_iff.1 hprov).2
    have hname : (Declaration.ofHostType s.policy c).name = c.name :=
      (Declaration.sameOrigin_ofHostType s.policy c).name
    rw [heq, synthesize_eq]
    refine (ha.author (hname ▸ hc)).settle hc (s.issued_author _) ?_ fun {k} hk => ?_
    · rw [Store.nameOf, get_author_self, hname]
    · exact absurd (hk.symm.trans hnone) (by simp)

/-- A declaration may be filed in its own place, unless another one is resolved
    there. -/
theorem file (ha : s.Agreeing) (hh : s.store.Issued h)
    (hfree : ∀ {k}, s.cached (s.store.nameOf h) = some k → h = k) :
    (s.file (s.store.nameOf h).package h).Agreeing := by
  refine ⟨sound_file ha.sound hh, named_file ha.named ha.sound (Or.inl rfl), ha.wellFormed, ?_⟩
  intro n j k hcached hfound
  change s.cached n = some j at hcached
  rw [lookup, Option.or_eq_some_iff] at hfound
  rcases hfound with hbuiltin | ⟨hnone, hfiled⟩
  · exact ha.agree hcached (Option.or_eq_some_iff.2 (Or.inl hbuiltin))
  · rw [Packages.lookup, filed_file] at hfiled
    split at hfiled
    · next hplace =>
      -- a well-formed name is known by its place, so the declaration is of this name
      obtain rfl := Option.some.inj hfiled
      have hname : s.store.nameOf h = n :=
        TypeName.eq_of_parts (ha.named.wellFormed hh) (ha.wellFormed hcached) hplace.1 hplace.2
      exact hfree (hname ▸ hcached)
    · exact ha.agree hcached (Option.or_eq_some_iff.2 (Or.inr ⟨hnone, hfiled⟩))

/-- Registering a resolved type under its own package files it in its own place. -/
theorem register (ha : s.Agreeing) (hcached : s.cached n = some h) :
    (s.register n.package h).Agreeing := by
  have hname := ha.nameOf_cached hcached
  rw [Session.register]
  split
  · have hfiled := ha.file (ha.sound.cached hcached) fun {k} hk => by
      rw [hname, hcached] at hk
      exact Option.some.inj hk
    rwa [hname] at hfiled
  · exact ha

theorem resolveAndRegister (ha : s.Agreeing) (hc : TypeName.isWellFormed c.name.text = true) :
    (s.resolveAndRegister p c c.package).session.Agreeing := by
  have hresolved : (s.resolve p c).session.Agreeing := ha.resolve hc
  rcases s.resolveAndRegister_cases p c c.package with ⟨heq, -⟩ | ⟨h, hplain, -, hdecl, heq⟩
  · rw [heq]; exact hresolved
  · rw [heq]
    exact hresolved.register ((cached_resolve_self hplain).trans hdecl)

/-- A later session agrees as well, if it has no new handles and no new entries. -/
theorem of_kept (ha : s.Agreeing) (ht : t.Sound) (he : s.Extends t)
    (hnext : t.store.next = s.store.next)
    (hcached : ∀ {n h}, t.cached n = some h → s.cached n = some h)
    (hfiled : ∀ {package simpleName h}, t.packages.find? package simpleName = some h →
      s.packages.find? package simpleName = some h) : t.Agreeing := by
  refine ⟨ht, ?_, fun hk => ha.wellFormed (hcached hk), ?_⟩
  · refine ha.named.of_extends ha.sound he ?_ (fun hk => Or.inl (hcached hk))
      fun hk => Or.inl (hfiled hk)
    intro h hh hnew
    rw [Store.Issued, hnext] at hh
    exact absurd hh hnew
  · intro n j k hentry hfound
    exact ha.agree (hcached hentry) (lookup_of_kept he.builtins hfiled hfound)

end Agreeing

theorem agreeing_start (policy : ReactivityPolicy) : (start policy).Agreeing := by
  refine ⟨sound_start policy, named_start policy _, ?_, ?_⟩
  · intro n h hcached
    simp at hcached
  · intro n h k hcached
    simp at hcached

/-- A request that keeps declarations in their places keeps the agreement. -/
theorem agreeing_perform (ha : s.Agreeing) (hr : r.KeepsPlace s) :
    (s.perform r).session.Agreeing := by
  cases r with
  | author d => exact ha.author hr
  | amend h a =>
    simp only [perform, Outcome.ready]
    split
    · have hsound : (s.edit h a.apply).Sound := ⟨ha.sound.cached, ha.sound.builtin, ha.sound.filed⟩
      exact ha.of_kept hsound (s.extends_edit h a) rfl id id
    · exact ha
  | declare h =>
    simp only [perform, Outcome.ready]
    split
    · next hh =>
      refine ha.file hh fun {k} hk => ?_
      change s.cached (s.store.nameOf h) = none at hr
      rw [hr] at hk
      cases hk
    · exact ha
  | file package h => exact hr.elim
  | resolve p c => exact ha.resolve hr
  | register p c package =>
    obtain ⟨hc, rfl⟩ := hr
    exact ha.resolveAndRegister hc
  | invalidate r =>
    show (s.invalidate r).Agreeing
    exact ha.of_kept (sound_invalidate ha.sound r) (s.extends_perform (.invalidate r)) rfl
      cached_of_cached_invalidate filed_of_filed_invalidate

/-- The agreement lasts through every history. -/
theorem agreeing_of_leads (ha : s.Agreeing)
    (hst : s.Leads Request.KeepsPlace t) : t.Agreeing := by
  induction hst with
  | refl => exact ha
  | perform _ hr ih => exact agreeing_perform ih hr
  | upkeep _ hkept ih =>
    exact ih.of_kept (sound_upkeep ih.sound hkept) (extends_upkeep _ _) rfl id hkept

/-- From a new session on, what is cached under a name is of that name, and a
    look-up for the name finds it or nothing. -/
theorem lookup_of_cached (hst : (start policy).Leads Request.KeepsPlace s)
    (hcached : s.cached n = some h) :
    s.store.nameOf h = n ∧ (s.lookup n = none ∨ s.lookup n = some h) := by
  have ha : s.Agreeing := agreeing_of_leads (agreeing_start policy) hst
  refine ⟨ha.nameOf_cached hcached, ?_⟩
  cases hlookup : s.lookup n with
  | none => exact Or.inl rfl
  | some k => exact Or.inr (congrArg some (ha.agree hcached hlookup))

/-- The person is registered under its own package, where it has been declared. -/
def enrolled : Session :=
  (hired.perform (.register people person "com.acme")).session

/-- The declaration of the person is of its name, and a look-up finds it or nothing. -/
theorem lookup_of_cached_person :
    (start .standard).Leads Request.KeepsPlace enrolled ∧
      enrolled.cached person.name = some ⟨4⟩ ∧ enrolled.store.nameOf ⟨4⟩ = person.name ∧
      (enrolled.lookup person.name = none ∨ enrolled.lookup person.name = some ⟨4⟩) := by
  have hperson : TypeName.isWellFormed person.name.text = true := by decide
  have hdeclared : (start .standard).Leads Request.KeepsPlace hired := by
    refine .perform (.perform .refl (r := .author (.declared person.name)) hperson)
      (r := .declare ⟨4⟩) ?_
    show ((start .standard).author (.declared person.name)).2.cached _ = none
    decide
  have hst : (start .standard).Leads Request.KeepsPlace enrolled :=
    hdeclared.perform ⟨hperson, by decide⟩
  have hcached : enrolled.cached person.name = some ⟨4⟩ := by
    show (hired.resolveAndRegister people person "com.acme").session.cached person.name = some ⟨4⟩
    rw [cached_resolveAndRegister, cached_resolve_self (by decide)]
    refine declaration_resolve_of_known (by decide) (Or.inr (provenance_eq_found_iff.2 ?_))
    exact ⟨by decide, by decide⟩
  exact ⟨hst, hcached, lookup_of_cached hst hcached⟩

end Session

end FactTypes
