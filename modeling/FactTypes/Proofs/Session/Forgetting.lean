import FactTypes.Proofs.Session.Histories

/-!
# What is forgotten stays forgotten

Invalidating a resource takes what came from it out of the cache and out of every
package, wherever it stands there, and takes out nothing else. A handle that is in
no table is found by no look-up and no walk, so it can only come back through the
hands of the client.
-/

namespace FactTypes

/-- Whether a request has a declaration filed that came from the resource and was
    there when the session stood as it is given. -/
def Request.Restores (s : Session) (r : Resource) : Request → Prop
  | .declare h => s.store.Issued h ∧ (s.store.get h).isFrom r = true
  | .file _ h => s.store.Issued h ∧ (s.store.get h).isFrom r = true
  | _ => False

namespace Session

/-- Whether invalidating a resource takes out a declaration: it came from there, and
    it is resolved or filed. -/
def Drops (s : Session) (r : Resource) (h : Handle) : Prop :=
  (s.store.get h).isFrom r = true ∧ ((∃ n, s.cached n = some h) ∨
    ∃ package simpleName, s.packages.find? package simpleName = some h)

/-- Whether a handle was issued and is in none of the tables. -/
structure Gone (s : Session) (h : Handle) : Prop where
  issued : s.store.Issued h
  builtin : ∀ n, s.builtins.find? n ≠ some h
  cached : ∀ n, s.cached n ≠ some h
  filed : ∀ package simpleName, s.packages.find? package simpleName ≠ some h

/-- Whether a handle does not show any more: it is neither resolved nor filed, it
    answers no request, and it is in no closure that a resolution walks. -/
structure Forgotten (s : Session) (h : Handle) : Prop where
  cached : ∀ n, s.cached n ≠ some h
  filed : ∀ package simpleName, s.packages.find? package simpleName ≠ some h
  answer : ∀ q, (s.perform q).declaration ≠ some h
  closure : ∀ p c k, (s.resolve p c).declaration = some k →
    h ∉ ((s.hierarchy p).closure c k).members

/-- What invalidating a resource brings about. All the declarations that came from it
    go, and only they; the packages stay; the count is that of the dropped entries of
    the cache; and what was dropped is never seen again, unless the client has
    something from the resource filed that was there before. -/
structure Forgets (s : Session) (r : Resource) : Prop where
  cached : ∀ n h, (s.invalidate r).cached n = some h ↔
    s.cached n = some h ∧ (s.store.get h).isFrom r = false
  filed : ∀ package simpleName h, (s.invalidate r).packages.find? package simpleName = some h ↔
    s.packages.find? package simpleName = some h ∧ (s.store.get h).isFrom r = false
  packages : ∀ package, (s.invalidate r).packages.hasPackage package = s.packages.hasPackage package
  count : s.countFrom r + (s.invalidate r).cache.size = s.cache.size
  lasting : ∀ h t, s.Drops r h → (s.invalidate r).Leads (fun _ q => ¬q.Restores s r) t →
    t.Forgotten h

variable {s t : Session} {p : ClassPath} {c : HostType} {h k : Handle} {r : Resource}
  {q : Request}

namespace Gone

theorem lookup (hg : s.Gone h) (n : TypeName) : s.lookup n ≠ some h := by
  intro hlookup
  rcases Option.or_eq_some_iff.1 hlookup with hbuiltin | ⟨-, hfiled⟩
  · exact hg.builtin n hbuiltin
  · exact hg.filed _ _ hfiled

/-- A resolution answers with what is in a table or with a new handle. -/
theorem declaration_resolve (hg : s.Gone h) : (s.resolve p c).declaration ≠ some h := by
  rcases s.resolve_cases p c with ⟨-, heq⟩ | ⟨k, -, hprov, heq⟩ | ⟨k, -, hprov, heq⟩ | ⟨-, -, heq⟩
  · rw [heq]
    simp [Outcome.ready]
  · rw [heq]
    rintro hk
    obtain rfl : k = h := Option.some.inj hk
    exact hg.cached _ (provenance_eq_cached_iff.1 hprov)
  · rw [heq]
    rintro hk
    obtain rfl : k = h := Option.some.inj hk
    exact hg.lookup _ (provenance_eq_found_iff.1 hprov).2
  · rw [heq, synthesize_eq]
    intro hk
    obtain rfl := Option.some.inj hk
    exact s.not_issued_author _ hg.issued

theorem declaration_perform (hg : s.Gone h) (q : Request) :
    (s.perform q).declaration ≠ some h := by
  cases q with
  | author d =>
    intro hk
    obtain rfl := Option.some.inj hk
    exact s.not_issued_author d hg.issued
  | resolve p c => exact hg.declaration_resolve
  | register p c package =>
    show (s.resolveAndRegister p c package).declaration ≠ some h
    rw [declaration_resolveAndRegister]
    exact hg.declaration_resolve
  | amend _ _ => simp [perform, Outcome.ready]
  | declare _ => simp [perform, Outcome.ready]
  | file _ _ => simp [perform, Outcome.ready]
  | invalidate _ => simp [perform, Outcome.ready]

/-- A walk from another subject meets what is in a table. -/
theorem not_mem_closure (hg : s.Gone h) (hne : k ≠ h) :
    h ∉ ((s.hierarchy p).closure c k).members := by
  intro hmem
  rcases List.mem_cons.1 hmem with heq | hancestor
  · rw [Hierarchy.subject_closure] at heq
    exact hne heq.symm
  · obtain ⟨n, hbuiltin | hfiled⟩ :=
      Hierarchy.finds_iff.1 (Hierarchy.finds_of_mem_ancestors hancestor)
    · exact hg.builtin n hbuiltin
    · exact hg.filed _ _ hfiled

theorem forgotten (hg : s.Gone h) : s.Forgotten h where
  cached := hg.cached
  filed := hg.filed
  answer := hg.declaration_perform
  closure _ _ _ hk := hg.not_mem_closure fun heq => hg.declaration_resolve (heq ▸ hk)

/-- A handle stays gone as long as it gets into no new entry. -/
theorem of_extends (hg : s.Gone h) (he : s.Extends t)
    (hcached : ∀ {n k}, t.cached n = some k → s.cached n = some k ∨ k ≠ h)
    (hfiled : ∀ {package simpleName k}, t.packages.find? package simpleName = some k →
      s.packages.find? package simpleName = some k ∨ k ≠ h) : t.Gone h where
  issued := he.issued hg.issued
  builtin n := by
    rw [he.builtins]
    exact hg.builtin n
  cached n hn := (hcached hn).elim (hg.cached n) fun hne => hne rfl
  filed package simpleName hn := (hfiled hn).elim (hg.filed package simpleName) fun hne => hne rfl

theorem file (hg : s.Gone h) (hne : k ≠ h) (package : String) : (s.file package k).Gone h := by
  refine hg.of_extends (s.extends_file package k) Or.inl ?_
  intro place simpleName j hfiled
  rw [filed_file] at hfiled
  split at hfiled
  · exact Or.inr (Option.some.inj hfiled ▸ hne)
  · exact Or.inl hfiled

theorem resolve (hg : s.Gone h) : (s.resolve p c).session.Gone h := by
  have hsettles := s.settles_resolve p c
  refine hg.of_extends hsettles.toExtends ?_ fun hfiled => Or.inl (hsettles.packages ▸ hfiled)
  intro n k hcached
  cases hplain : c.isPlainValue with
  | true =>
    rw [resolve_of_isPlainValue hplain] at hcached
    exact Or.inl hcached
  | false =>
    by_cases hname : c.name = n
    · subst hname
      rw [cached_resolve_self hplain] at hcached
      exact Or.inr fun heq => hg.declaration_resolve (heq ▸ hcached)
    · rw [cached_resolve_of_ne hname] at hcached
      exact Or.inl hcached

theorem resolveAndRegister (hg : s.Gone h) (package : String) :
    (s.resolveAndRegister p c package).session.Gone h := by
  rcases s.resolveAndRegister_cases p c package with ⟨heq, -⟩ | ⟨k, -, -, hdecl, heq⟩
  · rw [heq]
    exact hg.resolve
  · rw [heq]
    show ((s.resolve p c).session.register package k).Gone h
    rw [register]
    split
    · exact hg.resolve.file (fun hkh => hg.declaration_resolve (hkh ▸ hdecl)) package
    · exact hg.resolve

theorem invalidate (hg : s.Gone h) (r : Resource) : (s.invalidate r).Gone h :=
  hg.of_extends (s.extends_perform (.invalidate r))
    (fun hcached => Or.inl (cached_of_cached_invalidate hcached))
    (fun hfiled => Or.inl (filed_of_filed_invalidate hfiled))

/-- A handle stays gone through a request, unless the request has it filed. -/
theorem perform (hg : s.Gone h) (hq : ∀ {k}, q = .declare k ∨ (∃ package, q = .file package k) →
    k ≠ h) : (s.perform q).session.Gone h := by
  cases q with
  | author d => exact hg.of_extends (s.settles_author d).toExtends Or.inl Or.inl
  | amend k a =>
    simp only [Session.perform, Outcome.ready]
    split
    · exact hg.of_extends (s.extends_edit k a) Or.inl Or.inl
    · exact hg
  | declare k =>
    simp only [Session.perform, Outcome.ready]
    split
    · exact hg.file (hq (Or.inl rfl)) _
    · exact hg
  | file package k =>
    simp only [Session.perform, Outcome.ready]
    split
    · exact hg.file (hq (Or.inr ⟨package, rfl⟩)) package
    · exact hg
  | resolve p c => exact hg.resolve
  | register p c package => exact hg.resolveAndRegister package
  | invalidate r => exact hg.invalidate r

/-- A handle stays gone through every history in which the client has nothing filed
    that was there before and came from the resource of the handle. -/
theorem of_leads {u : Session} (hg : s.Gone h) (hh : u.store.Issued h)
    (hfrom : (u.store.get h).isFrom r = true) (hst : s.Leads (fun _ q => ¬q.Restores u r) t) :
    t.Gone h := by
  induction hst with
  | refl => exact hg
  | perform _ hallowed ih =>
    refine ih.perform ?_
    rintro k hk rfl
    rcases hk with rfl | ⟨package, rfl⟩
    · exact hallowed ⟨hh, hfrom⟩
    · exact hallowed ⟨hh, hfrom⟩
  | upkeep _ hkept ih => exact ih.of_extends (extends_upkeep _ _) Or.inl fun hk => Or.inl (hkept hk)

end Gone

/-- What came from a resource is in no table once the resource is invalidated. -/
theorem gone_invalidate (hs : s.Reachable) (hh : s.store.Issued h)
    (hfrom : (s.store.get h).isFrom r = true) : (s.invalidate r).Gone h := by
  refine ⟨hh, ?_, ?_, ?_⟩
  · intro n hbuiltin
    have hnone : (s.store.get h).resource = none := hs.resource_builtin hbuiltin
    simp [Declaration.isFrom, hnone] at hfrom
  · intro n hcached
    rw [cached_invalidate, Option.filter_eq_some_iff] at hcached
    simp [hfrom] at hcached
  · intro package simpleName hfiled
    rw [filed_invalidate, Option.filter_eq_some_iff] at hfiled
    simp [hfrom] at hfiled

theorem Drops.issued (hs : s.Sound) (hdrops : s.Drops r h) : s.store.Issued h := by
  obtain ⟨-, ⟨n, hcached⟩ | ⟨package, simpleName, hfiled⟩⟩ := hdrops
  · exact hs.cached hcached
  · exact hs.filed hfiled

theorem hasPackage_invalidate (s : Session) (r : Resource) (package : String) :
    (s.invalidate r).packages.hasPackage package = s.packages.hasPackage package := by
  simp [invalidate, Packages.hasPackage, Packages.package?, Packages.dropFrom]

/-- In every session of a compilation, invalidating a resource is complete, exact and
    lasting. -/
theorem forgets_of_reachable (hs : s.Reachable) (r : Resource) : s.Forgets r := by
  constructor
  case cached =>
    intro n h
    rw [cached_invalidate, Option.filter_eq_some_iff, Bool.not_eq_true']
  case filed =>
    intro package simpleName h
    rw [filed_invalidate, Option.filter_eq_some_iff, Bool.not_eq_true']
  case packages => exact s.hasPackage_invalidate r
  case count => exact Table.countFrom_add_size_dropFrom s.cache s.store r
  case lasting =>
    intro h t hdrops hled
    have hissued : s.store.Issued h := hdrops.issued hs.sound
    exact ((gone_invalidate hs hissued hdrops.1).of_leads hissued hdrops.1 hled).forgotten

/-- A file of rules. -/
def ruleFile : Resource :=
  ⟨"orders.rules"⟩

/-- A type that comes from the file. -/
def orderType : HostType :=
  { name := ⟨"shop.Order"⟩, resource := some ruleFile }

/-- The type is registered under its own package. -/
def stocked : Session :=
  (start .standard).run [.register (.ofList [orderType]) orderType "shop"]

/-- The file has been read again: the type is registered once more. -/
def restocked : Session :=
  ((stocked.invalidate ruleFile).perform (.register (.ofList [orderType]) orderType "shop")).session

/-- The type got a new declaration, and that came from the file as well. -/
theorem stocked_origin :
    stocked.store.Issued ⟨4⟩ ∧ (stocked.store.get ⟨4⟩).resource = some ruleFile := by
  have hfresh : (start .standard).provenance orderType.name = .fresh := by decide
  obtain ⟨hdecl, hget⟩ := resolve_of_provenance_fresh (p := .ofList [orderType]) (by decide) hfresh
  have hstore : stocked.store = ((start .standard).resolve _ orderType).session.store :=
    store_resolveAndRegister _ _ orderType "shop"
  rw [hstore]
  refine ⟨issued_of_resolve (sound_start _) hdecl, ?_⟩
  exact hget ▸ (sameOrigin_derived _ _ orderType).resource

private theorem stocked_drops : stocked.Drops ruleFile ⟨4⟩ := by
  have hfresh : (start .standard).provenance orderType.name = .fresh := by decide
  refine ⟨?_, Or.inl ⟨orderType.name, ?_⟩⟩
  · simp [Declaration.isFrom, stocked_origin.2]
  · show ((start .standard).resolveAndRegister _ orderType "shop").session.cached _ = _
    rw [cached_resolveAndRegister, cached_resolve_self (by decide),
      (resolve_of_provenance_fresh (by decide) hfresh).1]
    rfl

/-- The declaration that the type had first is not seen again when the type is
    registered once more. -/
theorem stocked_forgets :
    stocked.Reachable ∧ stocked.Drops ruleFile ⟨4⟩ ∧
      (stocked.invalidate ruleFile).Leads (fun _ q => ¬q.Restores stocked ruleFile) restocked ∧
      stocked.Forgets ruleFile ∧ restocked.Forgotten ⟨4⟩ := by
  have hreachable : stocked.Reachable := reachable_run .standard _
  have hled : (stocked.invalidate ruleFile).Leads (fun _ q => ¬q.Restores stocked ruleFile)
      restocked := .perform .refl id
  have hforgets : stocked.Forgets ruleFile := forgets_of_reachable hreachable ruleFile
  exact ⟨hreachable, stocked_drops, hled, hforgets, hforgets.lasting _ _ stocked_drops hled⟩

end Session

end FactTypes
