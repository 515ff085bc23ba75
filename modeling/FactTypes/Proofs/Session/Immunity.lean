import FactTypes.Proofs.Session.Stability

/-!
# The engine's own declarations

The client may file a declaration of its own where one of the engine's would belong, file
the engine's declaration elsewhere, and resolve it there under another name. Whatever it
does, the name of the engine's declaration stands for that declaration and for no other,
and nothing but the structure is written in it: it is found before the packages are
consulted, it inherits nothing, and it comes from no resource that could be invalidated.
-/

namespace FactTypes

/-- Whether a request does not edit one of the engine's own declarations. -/
def Request.LeavesBuiltins (s : Session) : Request → Prop
  | .amend h _ => s.builtins.holds h = false
  | _ => True

/-- Whether two declarations differ at most in their structural definition. -/
def Declaration.SameButSchema (d e : Declaration) : Prop :=
  e = { d with schema := e.schema }

namespace Declaration.SameButSchema

variable {d e f : Declaration}

theorem refl (d : Declaration) : d.SameButSchema d := rfl

theorem trans (h : d.SameButSchema e) (k : e.SameButSchema f) : d.SameButSchema f := by
  rw [SameButSchema] at h k ⊢
  rw [k, h]

theorem settings (h : d.SameButSchema e) : e.settings = d.settings := by
  rw [SameButSchema] at h
  rw [h]

theorem resource (h : d.SameButSchema e) : e.resource = d.resource := by
  rw [SameButSchema] at h
  rw [h]

end Declaration.SameButSchema

namespace Session

/-- What each request preserves about one of the engine's declarations: its handle is
    entered under its name, holds it but for the structure, and is the only one that is
    ever cached under the name. -/
structure Guarded (s : Session) (d : Declaration) (h : Handle) : Prop where
  entered : s.builtins.find? d.name = some h
  held : d.SameButSchema (s.store.get h)
  cached : ∀ {k}, s.cached d.name = some k → k = h

/-- What the client can rely on about one of the engine's declarations. -/
structure Immune (s : Session) (d : Declaration) (h : Handle) : Prop where
  /-- Its handle is the answer for every type of its name. -/
  answer : ∀ q c, Request.hostType? q = some c → c.name = d.name → c.isPlainValue = false →
    (s.perform q).declaration = some h
  /-- Nothing else is cached under its name. -/
  cached : ∀ k, s.cached d.name = some k → k = h
  /-- Once cached it stays cached. -/
  kept : s.cached d.name = some h → ∀ t, s.Leads Request.LeavesBuiltins t →
    t.cached d.name = some h
  /-- Whatever was declared stays, except that the structure is laid out. -/
  held : d.SameButSchema (s.store.get h)

variable {s t : Session} {p : ClassPath} {c : HostType} {d : Declaration} {h k : Handle}
  {n : TypeName} {q r : Request} {policy : ReactivityPolicy}

-- ═══════════════════════════════════════════════════════════════════════
-- What is written in the engine's declarations
-- ═══════════════════════════════════════════════════════════════════════

/-- Settling one of the engine's declarations lays out its structure, and settling any
    other one leaves it alone. -/
theorem sameButSchema_settle (hbuiltin : s.builtins.find? n = some h) :
    (s.store.get h).SameButSchema ((s.settle p c k).session.store.get h) := by
  rw [get_settle]
  split
  · next heq =>
    subst heq
    have hholds : s.builtins.holds h = true := Table.holds_iff.2 ⟨n, hbuiltin⟩
    rw [settled, if_pos hholds]
    exact Declaration.layOut_eq _ p c
  · exact .refl _

theorem sameButSchema_resolve (hs : s.Sound) (hbuiltin : s.builtins.find? n = some h) :
    (s.store.get h).SameButSchema ((s.resolve p c).session.store.get h) := by
  rcases s.resolve_cases p c with ⟨-, heq⟩ | ⟨k, -, -, heq⟩ | ⟨k, -, -, heq⟩ | ⟨-, -, heq⟩
  · rw [heq]; exact .refl _
  · rw [heq]; exact .refl _
  · rw [heq]; exact sameButSchema_settle hbuiltin
  · rw [heq, synthesize_eq,
      ← get_author_of_issued (.ofHostType s.policy c) (hs.builtin hbuiltin)]
    exact sameButSchema_settle hbuiltin

/-- Whatever is asked for, nothing but the structure of one of the engine's declarations is
    written, unless the client edits it. -/
theorem sameButSchema_perform (hs : s.Sound) (hr : r.LeavesBuiltins s)
    (hbuiltin : s.builtins.find? n = some h) :
    (s.store.get h).SameButSchema ((s.perform r).session.store.get h) := by
  cases r with
  | author d =>
    show (s.store.get h).SameButSchema ((s.author d).2.store.get h)
    rw [get_author_of_issued d (hs.builtin hbuiltin)]
    exact .refl _
  | amend k a =>
    have hne : h ≠ k := by
      rintro rfl
      have hholds : s.builtins.holds h = true := Table.holds_iff.2 ⟨n, hbuiltin⟩
      cases hholds.symm.trans hr
    simp only [perform, Outcome.ready]
    split
    · rw [edit, Store.get_update, if_neg hne]
      exact .refl _
    · exact .refl _
  | declare k =>
    simp only [perform, Outcome.ready]
    split <;> exact .refl _
  | file package k =>
    simp only [perform, Outcome.ready]
    split <;> exact .refl _
  | resolve p c => exact sameButSchema_resolve hs hbuiltin
  | register p c package =>
    show (s.store.get h).SameButSchema ((s.resolveAndRegister p c package).session.store.get h)
    rw [store_resolveAndRegister]
    exact sameButSchema_resolve hs hbuiltin
  | invalidate r => exact .refl _

-- ═══════════════════════════════════════════════════════════════════════
-- What their names stand for
-- ═══════════════════════════════════════════════════════════════════════

/-- The name is answered from the cache, or by a look-up, which consults the engine's own
    table before the packages. -/
theorem Guarded.declaration_perform (hg : s.Guarded d h) (hq : q.hostType? = some c)
    (hname : c.name = d.name) (hplain : c.isPlainValue = false) :
    (s.perform q).declaration = some h := by
  obtain ⟨p, hsame⟩ := s.perform_of_hostType hq
  rw [hsame.declaration]
  apply declaration_resolve_of_known hplain
  rw [hname]
  cases hcached : s.cached d.name with
  | some k =>
    obtain rfl := hg.cached hcached
    exact Or.inl (provenance_eq_cached_iff.2 hcached)
  | none =>
    have hlookup : s.lookup d.name = some h := by rw [lookup, hg.entered, Option.some_or]
    exact Or.inr (provenance_eq_found_iff.2 ⟨hcached, hlookup⟩)

theorem Guarded.perform (hg : s.Guarded d h) (hs : s.Sound) (hr : r.LeavesBuiltins s) :
    (s.perform r).session.Guarded d h where
  entered := (s.extends_perform r).builtins ▸ hg.entered
  held := hg.held.trans (sameButSchema_perform hs hr hg.entered)
  cached := by
    intro k hcached
    rcases cached_perform_cases hcached with hbefore | ⟨c, hasked, hname, hplain, hanswer⟩
    · exact hg.cached hbefore
    · have hh := hg.declaration_perform hasked hname hplain
      exact Option.some.inj (hanswer.symm.trans hh)

theorem Guarded.of_leads (hg : s.Guarded d h) (hs : s.Sound)
    (hst : s.Leads Request.LeavesBuiltins t) : t.Guarded d h := by
  induction hst with
  | refl => exact hg
  | perform hst hr ih => exact ih.perform (hst.sound hs) hr
  | upkeep _ _ ih => exact ⟨ih.entered, ih.held, ih.cached⟩

theorem exists_guarded_start (policy : ReactivityPolicy) (hd : d ∈ Builtins.declarations) :
    ∃ h, (start policy).Guarded d h := by
  obtain ⟨h, hentered, hget⟩ := Builtins.exists_find?_seed hd
  refine ⟨h, hentered, ?_, ?_⟩
  · show d.SameButSchema ((Builtins.seed .empty).1.get h)
    rw [hget]
    exact .refl d
  · intro k hcached
    simp at hcached

/-- The engine's declarations come from no resource, so they are never forgotten. -/
theorem Guarded.cached_of_leads (hg : s.Guarded d h) (hs : s.Sound)
    (hd : d ∈ Builtins.declarations) (hcached : s.cached d.name = some h)
    (hst : s.Leads Request.LeavesBuiltins t) : t.cached d.name = some h := by
  refine Session.cached_of_leads hcached (hst.imp fun u r hsu _ => ?_)
  have hheld : d.SameButSchema (u.store.get h) := (hg.of_leads hs hsu).held
  exact r.spares_of_resource_eq_none (hheld.resource.trans (Builtins.resource_of_mem hd))

/-- However a session came about in which the client has edited none of the engine's
    declarations, all of these are immune. -/
theorem immune_of_leads (hst : (start policy).Leads Request.LeavesBuiltins s)
    (hd : d ∈ Builtins.declarations) :
    ∃ h, (start policy).builtins.find? d.name = some h ∧ s.Immune d h := by
  obtain ⟨h, hstart⟩ := exists_guarded_start policy hd
  have hs : s.Sound := hst.sound (sound_start policy)
  have hg : s.Guarded d h := hstart.of_leads (sound_start policy) hst
  refine ⟨h, hstart.entered, ?_, ?_, ?_, hg.held⟩
  · exact fun q c hq hname hplain => hg.declaration_perform hq hname hplain
  · exact fun k hcached => hg.cached hcached
  · exact fun hcached t hst => hg.cached_of_leads hs hd hcached hst

-- ═══════════════════════════════════════════════════════════════════════
-- A look-alike and an alias
-- ═══════════════════════════════════════════════════════════════════════

/-- The type of the mappings, which implements a type of the client. -/
def mapType : HostType where
  name := ⟨"lang.util.Map"⟩
  shape := .interface
  interfaces := [⟨"lang.util.Iterable"⟩]

/-- A type of the same simple name elsewhere. -/
def mapAlias : HostType :=
  { mapType with name := ⟨"org.rules.Map"⟩ }

def maps : ClassPath :=
  .ofList [mapType, mapAlias]

/-- The client declares the mappings anew, in their own package, and makes events of what
    they implement. Registered elsewhere, the engine's declaration gets another name. -/
def masquerade : List Request :=
  [.author (.declared mapType.name), .declare ⟨4⟩,
    .author ((Declaration.declared ⟨"lang.util.Iterable"⟩).setRole .event), .declare ⟨5⟩,
    .resolve maps mapType, .register maps mapType "org.rules", .resolve maps mapAlias,
    .invalidate ruleFile]

/-- At last the client edits its own declaration of the mappings. -/
def masqueraded : Session :=
  (((start .standard).run masquerade).perform (.amend ⟨4⟩ (.role .event))).session

private theorem leads_masqueraded :
    (start .standard).Leads Request.LeavesBuiltins masqueraded := by
  refine .perform (leads_run ?_) ?_
  · intro r hr t
    simp only [masquerade, List.mem_cons, List.not_mem_nil, or_false] at hr
    rcases hr with rfl | rfl | rfl | rfl | rfl | rfl | rfl | rfl <;> trivial
  · show ((start .standard).run masquerade).builtins.holds ⟨4⟩ = false
    rw [(extends_run _ masquerade).builtins]
    decide

/-- The mappings are those of the engine still, and no events. -/
theorem immune_of_leads_masquerade :
    (start .standard).Leads Request.LeavesBuiltins masqueraded ∧
      Builtins.pseudoType mapType.name ∈ Builtins.declarations ∧
      (masqueraded.perform (.register maps mapType "shop")).declaration = some ⟨1⟩ ∧
      (masqueraded.store.get ⟨1⟩).settings = { typesafe := .explicit false } := by
  have hd : Builtins.pseudoType mapType.name ∈ Builtins.declarations := by decide
  obtain ⟨h, hentered, himmune⟩ := immune_of_leads leads_masqueraded hd
  have hmap : (start .standard).builtins.find? mapType.name = some ⟨1⟩ := by decide
  obtain rfl : h = ⟨1⟩ := Option.some.inj (hentered.symm.trans hmap)
  exact ⟨leads_masqueraded, hd, himmune.answer _ mapType rfl rfl rfl, himmune.held.settings⟩

end Session

end FactTypes
