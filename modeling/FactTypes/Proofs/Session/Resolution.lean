import FactTypes.Proofs.Session.Settling

/-!
# One resolution

Everything that resolving one type can do to a session, and what it leaves alone:
at most one declaration is written, at most one entry of the cache is made, and
the packages stay, unless the declaration is registered as well.

## Main definitions

- `Session.Sound` — the tables hold issued handles only
- `Session.Extends` — what is never taken back
- `Session.Settles` — what resolutions never take back
- `Session.Touches`, `Session.derived` — the declaration that a resolution writes,
  and what a new one holds
- `Session.candidate` — the declaration that a resolution past the cache starts from

## Main statements

- `Session.resolve_cases`, `Session.resolveAndRegister_cases` — everything that a
  resolution can do
- `Session.resolve_of_uncached` — past the cache, a resolution settles a candidate
- `Session.settles_resolve` — a resolution only adds
- `Session.cached_resolve_of_ne`, `Session.get_resolve_of_not_touches` — what it
  leaves alone
-/

namespace FactTypes

namespace Session

/-- Whether the resolution of a type writes the declaration of a handle that is
    there already. -/
def Touches (s : Session) (c : HostType) (h : Handle) : Prop :=
  c.isPlainValue = false ∧ s.provenance c.name = .found h

/-- What a new declaration for a host type holds once it is settled. -/
def derived (s : Session) (p : ClassPath) (c : HostType) : Declaration :=
  (s.author (.ofHostType s.policy c)).2.settled p c (s.author (.ofHostType s.policy c)).1

/-- The declaration that a resolution past the cache starts from: what is found under the
    name of the type, or else what is derived from the type. -/
def candidate (s : Session) (c : HostType) : Declaration :=
  (s.lookup c.name).elim (.ofHostType s.policy c) s.store.get

/-- Whether the tables hold issued handles only. There is no other way to come by a
    handle, so this is so in every session that is reached by requests. -/
structure Sound (s : Session) : Prop where
  cached : ∀ {n h}, s.cached n = some h → s.store.Issued h
  builtin : ∀ {n h}, s.builtins.find? n = some h → s.store.Issued h
  filed : ∀ {package simpleName h}, s.packages.find? package simpleName = some h → s.store.Issued h

/-- Whether one session comes after another: it has the same policy and the same
    table of the engine, and every handle keeps the origin of its declaration. -/
structure Extends (s t : Session) : Prop where
  policy : t.policy = s.policy
  builtins : t.builtins = s.builtins
  next_le : s.store.next ≤ t.store.next
  origin : ∀ {h}, s.store.Issued h → (s.store.get h).SameOrigin (t.store.get h)

/-- Whether one session comes after another by resolutions alone: also the
    packages are the same, and what was written by hand. -/
structure Settles (s t : Session) : Prop extends s.Extends t where
  packages : t.packages = s.packages
  becomes : ∀ {h}, s.store.Issued h → (s.store.get h).Becomes (t.store.get h)

variable {s t u : Session} {p : ClassPath} {c : HostType} {h k : Handle} {n : TypeName}
  {package : String}

theorem Extends.issued (he : s.Extends t) (hh : s.store.Issued h) : t.store.Issued h :=
  Nat.lt_of_lt_of_le hh he.next_le

theorem Extends.refl (s : Session) : s.Extends s :=
  ⟨rfl, rfl, Nat.le_refl _, fun _ => .refl _⟩

theorem Extends.trans (hst : s.Extends t) (htu : t.Extends u) : s.Extends u :=
  ⟨htu.policy.trans hst.policy, htu.builtins.trans hst.builtins,
    Nat.le_trans hst.next_le htu.next_le,
    fun hh => (hst.origin hh).trans (htu.origin (hst.issued hh))⟩

theorem Settles.refl (s : Session) : s.Settles s :=
  ⟨.refl s, rfl, fun _ => .refl _⟩

theorem Settles.trans (hst : s.Settles t) (htu : t.Settles u) : s.Settles u :=
  ⟨hst.toExtends.trans htu.toExtends, htu.packages.trans hst.packages,
    fun hh => (hst.becomes hh).trans (htu.becomes (hst.toExtends.issued hh))⟩

/-- What a walk finds was issued. -/
theorem Sound.issued_of_finds (hs : s.Sound) (hfinds : (s.hierarchy p).Finds h) :
    s.store.Issued h := by
  obtain ⟨n, hbuiltin | hfiled⟩ := Hierarchy.finds_iff.1 hfinds
  · exact hs.builtin hbuiltin
  · exact hs.filed hfiled

theorem Sound.issued_of_lookup {n : TypeName} (hs : s.Sound) (hlookup : s.lookup n = some h) :
    s.store.Issued h :=
  hs.issued_of_finds (p := .empty) ⟨.enter n, hlookup⟩

theorem not_issued_author (s : Session) (d : Declaration) : ¬s.store.Issued (s.author d).1 :=
  s.store.not_issued_alloc d

theorem issued_author (s : Session) (d : Declaration) :
    (s.author d).2.store.Issued (s.author d).1 :=
  s.store.issued_alloc d

theorem issued_author_iff (s : Session) (d : Declaration) (h : Handle) :
    (s.author d).2.store.Issued h ↔ s.store.Issued h ∨ h = (s.author d).1 := by
  obtain ⟨i⟩ := h
  show i < s.store.next + 1 ↔ i < s.store.next ∨ (⟨i⟩ : Handle) = ⟨s.store.next⟩
  rw [Handle.mk.injEq]
  omega

theorem get_author_self (s : Session) (d : Declaration) :
    (s.author d).2.store.get (s.author d).1 = d :=
  (s.store.get_alloc d (s.store.alloc d).1).trans (if_pos rfl)

theorem get_author_of_ne (d : Declaration) (hne : h ≠ (s.author d).1) :
    (s.author d).2.store.get h = s.store.get h :=
  (s.store.get_alloc d h).trans (if_neg hne)

theorem get_author_of_issued (d : Declaration) (hh : s.store.Issued h) :
    (s.author d).2.store.get h = s.store.get h := by
  apply get_author_of_ne
  rintro rfl
  exact s.not_issued_author d hh

theorem settles_author (s : Session) (d : Declaration) : s.Settles (s.author d).2 := by
  refine ⟨⟨rfl, rfl, Nat.le_succ _, ?_⟩, rfl, ?_⟩
  · intro h hh
    rw [get_author_of_issued d hh]
    exact .refl _
  · intro h hh
    rw [get_author_of_issued d hh]
    exact .refl _

theorem sound_author (hs : s.Sound) (d : Declaration) : (s.author d).2.Sound := by
  have hlater := (s.settles_author d).toExtends
  exact ⟨fun hh => hlater.issued (hs.cached hh), fun hh => hlater.issued (hs.builtin hh),
    fun hh => hlater.issued (hs.filed hh)⟩

theorem settles_settle (s : Session) (p : ClassPath) (c : HostType) (h : Handle) :
    s.Settles (s.settle p c h).session :=
  ⟨⟨rfl, rfl, Nat.le_of_eq (s.next_settle p c h).symm,
    fun {k} _ => (s.becomes_settle p c h k).toSameOrigin⟩, rfl,
    fun {k} _ => s.becomes_settle p c h k⟩

theorem cached_settle (s : Session) (p : ClassPath) (c : HostType) (h : Handle) (n : TypeName) :
    (s.settle p c h).session.cached n = if c.name = n then some h else s.cached n :=
  Table.find?_insert s.cache c.name n h

theorem sound_settle (hs : s.Sound) (hh : s.store.Issued h) : (s.settle p c h).session.Sound := by
  have hlater := (s.settles_settle p c h).toExtends
  refine ⟨?_, fun hk => hlater.issued (hs.builtin hk), fun hk => hlater.issued (hs.filed hk)⟩
  intro n k hcached
  rw [cached_settle] at hcached
  split at hcached
  · obtain rfl := Option.some.inj hcached
    exact hlater.issued hh
  · exact hlater.issued (hs.cached hcached)

theorem synthesize_eq (s : Session) (p : ClassPath) (c : HostType) :
    s.synthesize p c =
      (s.author (.ofHostType s.policy c)).2.settle p c (s.author (.ofHostType s.policy c)).1 := rfl

theorem resolve_cases (s : Session) (p : ClassPath) (c : HostType) :
    (c.isPlainValue = true ∧ s.resolve p c = .ready none s) ∨
    (∃ h, c.isPlainValue = false ∧ s.provenance c.name = .cached h ∧
      s.resolve p c = .ready (some h) s) ∨
    (∃ h, c.isPlainValue = false ∧ s.provenance c.name = .found h ∧
      s.resolve p c = s.settle p c h) ∨
    (c.isPlainValue = false ∧ s.provenance c.name = .fresh ∧
      s.resolve p c = s.synthesize p c) := by
  cases hplain : c.isPlainValue with
  | true => exact Or.inl ⟨rfl, resolve_of_isPlainValue hplain⟩
  | false =>
    cases hprov : s.provenance c.name with
    | cached h =>
      have hcached := provenance_eq_cached_iff.1 hprov
      exact Or.inr (Or.inl ⟨h, rfl, rfl, resolve_of_cached hplain hcached⟩)
    | found h =>
      obtain ⟨hnone, hlookup⟩ := provenance_eq_found_iff.1 hprov
      exact Or.inr (Or.inr (Or.inl ⟨h, rfl, rfl, resolve_of_found hplain hnone hlookup⟩))
    | fresh =>
      obtain ⟨hnone, hlookup⟩ := provenance_eq_fresh_iff.1 hprov
      exact Or.inr (Or.inr (Or.inr ⟨rfl, rfl, resolve_of_fresh hplain hnone hlookup⟩))

/-- Past the cache, a resolution settles the candidate of its type, in a session that
    differs at most in the declaration that it settles. -/
theorem resolve_of_uncached (p : ClassPath) (hplain : c.isPlainValue = false)
    (hnone : s.cached c.name = none) :
    ∃ (t : Session) (h : Handle), s.resolve p c = t.settle p c h ∧ t.store.get h = s.candidate c ∧
      t.builtins = s.builtins ∧ t.hierarchy p = s.hierarchy p ∧
      ∀ k, k ≠ h → t.store.get k = s.store.get k := by
  cases hlookup : s.lookup c.name with
  | some h =>
    refine ⟨s, h, resolve_of_found hplain hnone hlookup, ?_, rfl, rfl, fun _ _ => rfl⟩
    rw [candidate, hlookup, Option.elim_some]
  | none =>
    refine ⟨(s.author (.ofHostType s.policy c)).2, _,
      (resolve_of_fresh hplain hnone hlookup).trans (s.synthesize_eq p c), ?_, rfl, rfl,
      fun _ hne => get_author_of_ne _ hne⟩
    rw [get_author_self, candidate, hlookup, Option.elim_none]

theorem resolveAndRegister_of_isPlainValue (hplain : c.isPlainValue = true) :
    s.resolveAndRegister p c package = .ready none s := by
  rw [resolveAndRegister, if_pos hplain]

/-- A type that was resolved before keeps its declaration, which is registered. -/
theorem resolveAndRegister_of_cached (hplain : c.isPlainValue = false)
    (hcached : s.cached c.name = some h) :
    s.resolveAndRegister p c package = .ready (some h) (s.register package h) := by
  rw [resolveAndRegister, if_neg (by simp [hplain]), provenance_eq_cached_iff.2 hcached]

/-- A declaration that is found is settled and not registered. -/
theorem resolveAndRegister_of_found (hplain : c.isPlainValue = false)
    (hprov : s.provenance c.name = .found h) :
    s.resolveAndRegister p c package = s.settle p c h := by
  rw [resolveAndRegister, if_neg (by simp [hplain]), hprov]

/-- A new declaration is settled and registered. -/
theorem resolveAndRegister_of_fresh (hplain : c.isPlainValue = false)
    (hfresh : s.provenance c.name = .fresh) :
    s.resolveAndRegister p c package =
      { s.resolve p c with
        session := (s.resolve p c).session.register package ⟨s.store.next⟩ } := by
  obtain ⟨hnone, hlookup⟩ := provenance_eq_fresh_iff.1 hfresh
  rw [resolve_of_fresh hplain hnone hlookup, resolveAndRegister, if_neg (by simp [hplain]), hfresh]
  rfl

/-- Registration comes after the resolution, and only where the declaration was
    not found under its name. -/
theorem resolveAndRegister_cases (s : Session) (p : ClassPath) (c : HostType) (package : String) :
    s.resolveAndRegister p c package = s.resolve p c ∧
      (c.isPlainValue = true ∨ ∃ h, s.provenance c.name = .found h) ∨
    ∃ h, c.isPlainValue = false ∧ (s.provenance c.name = .cached h ∨ s.provenance c.name = .fresh) ∧
      (s.resolve p c).declaration = some h ∧
      s.resolveAndRegister p c package =
        { s.resolve p c with session := (s.resolve p c).session.register package h } := by
  cases hplain : c.isPlainValue with
  | true =>
    refine Or.inl ⟨?_, Or.inl rfl⟩
    rw [resolve_of_isPlainValue hplain, resolveAndRegister_of_isPlainValue hplain]
  | false =>
    cases hprov : s.provenance c.name with
    | cached h =>
      have hcached := provenance_eq_cached_iff.1 hprov
      refine Or.inr ⟨h, rfl, Or.inl rfl, ?_⟩
      rw [resolve_of_cached hplain hcached, resolveAndRegister_of_cached hplain hcached]
      refine ⟨rfl, ?_⟩
      simp only [Outcome.ready, Outcome.mk.injEq, true_and]
      rw [register]
      split <;> rfl
    | found h =>
      obtain ⟨hnone, hlookup⟩ := provenance_eq_found_iff.1 hprov
      refine Or.inl ⟨?_, Or.inr ⟨h, rfl⟩⟩
      rw [resolve_of_found hplain hnone hlookup, resolveAndRegister_of_found hplain hprov]
    | fresh =>
      obtain ⟨hnone, hlookup⟩ := provenance_eq_fresh_iff.1 hprov
      refine Or.inr ⟨⟨s.store.next⟩, rfl, Or.inr rfl, ?_, resolveAndRegister_of_fresh hplain hprov⟩
      rw [resolve_of_fresh hplain hnone hlookup]
      rfl

theorem settles_resolve (s : Session) (p : ClassPath) (c : HostType) :
    s.Settles (s.resolve p c).session := by
  rcases s.resolve_cases p c with ⟨-, heq⟩ | ⟨h, -, -, heq⟩ | ⟨h, -, -, heq⟩ | ⟨-, -, heq⟩
  · rw [heq]; exact .refl s
  · rw [heq]; exact .refl s
  · rw [heq]; exact s.settles_settle p c h
  · rw [heq, synthesize_eq]
    exact (s.settles_author _).trans (settles_settle _ p c _)

theorem sound_resolve (hs : s.Sound) : (s.resolve p c).session.Sound := by
  rcases s.resolve_cases p c with ⟨-, heq⟩ | ⟨h, -, -, heq⟩ | ⟨h, -, hfound, heq⟩ | ⟨-, -, heq⟩
  · rw [heq]; exact hs
  · rw [heq]; exact hs
  · rw [heq]
    exact sound_settle hs (hs.issued_of_lookup (provenance_eq_found_iff.1 hfound).2)
  · rw [heq, synthesize_eq]
    exact sound_settle (sound_author hs _) (s.issued_author _)

/-- The declaration that a resolution answers with was issued. -/
theorem issued_of_resolve (hs : s.Sound) (hdecl : (s.resolve p c).declaration = some h) :
    (s.resolve p c).session.store.Issued h := by
  rcases s.resolve_cases p c with ⟨-, heq⟩ | ⟨k, -, hprov, heq⟩ | ⟨k, -, hprov, heq⟩ | ⟨-, -, heq⟩
  · rw [heq] at hdecl
    cases hdecl
  · rw [heq] at hdecl ⊢
    obtain rfl := Option.some.inj hdecl
    exact hs.cached (provenance_eq_cached_iff.1 hprov)
  · rw [heq] at hdecl ⊢
    obtain rfl := Option.some.inj hdecl
    exact (s.settles_settle p c k).toExtends.issued
      (hs.issued_of_lookup (provenance_eq_found_iff.1 hprov).2)
  · rw [heq, synthesize_eq] at hdecl ⊢
    obtain rfl := Option.some.inj hdecl
    exact (settles_settle _ p c _).toExtends.issued (s.issued_author _)

-- ═══════════════════════════════════════════════════════════════════════
-- What a resolution leaves alone
-- ═══════════════════════════════════════════════════════════════════════

theorem hierarchy_eq_of_settles (hst : s.Settles t) : t.hierarchy p = s.hierarchy p := by
  rw [hierarchy, hierarchy, hst.builtins, hst.packages]

theorem lookup_eq_of_settles (hst : s.Settles t) (n : TypeName) : t.lookup n = s.lookup n := by
  rw [lookup, lookup, hst.builtins, hst.packages]

theorem provenance_congr (hcached : t.cached n = s.cached n) (hlookup : t.lookup n = s.lookup n) :
    t.provenance n = s.provenance n := by
  rw [provenance, provenance, hcached, hlookup]

theorem cached_resolve_of_ne (hne : c.name ≠ n) :
    (s.resolve p c).session.cached n = s.cached n := by
  rcases s.resolve_cases p c with ⟨-, heq⟩ | ⟨h, -, -, heq⟩ | ⟨h, -, -, heq⟩ | ⟨-, -, heq⟩
  · rw [heq]; rfl
  · rw [heq]; rfl
  · rw [heq, cached_settle, if_neg hne]
  · rw [heq, synthesize_eq, cached_settle, if_neg hne]
    rfl

/-- Afterwards the answer is what is cached. -/
theorem cached_resolve_self (hplain : c.isPlainValue = false) :
    (s.resolve p c).session.cached c.name = (s.resolve p c).declaration := by
  rcases s.resolve_cases p c with ⟨htrue, -⟩ | ⟨h, -, hprov, heq⟩ | ⟨h, -, -, heq⟩ | ⟨-, -, heq⟩
  · rw [hplain] at htrue
    cases htrue
  · rw [heq]
    exact provenance_eq_cached_iff.1 hprov
  · rw [heq, cached_settle, if_pos rfl]
    rfl
  · rw [heq, synthesize_eq, cached_settle, if_pos rfl]
    rfl

theorem provenance_resolve_of_ne (hne : c.name ≠ n) :
    (s.resolve p c).session.provenance n = s.provenance n :=
  provenance_congr (cached_resolve_of_ne hne) (lookup_eq_of_settles (s.settles_resolve p c) n)

/-- A resolution writes at most the declaration that it has found. -/
theorem get_resolve_of_not_touches (hissued : s.store.Issued k) (hnot : ¬s.Touches c k) :
    (s.resolve p c).session.store.get k = s.store.get k := by
  rcases s.resolve_cases p c with ⟨-, heq⟩ | ⟨h, -, -, heq⟩ | ⟨h, hplain, hprov, heq⟩ | ⟨-, -, heq⟩
  · rw [heq]; rfl
  · rw [heq]; rfl
  · have hne : k ≠ h := fun hkh => hnot ⟨hplain, hkh ▸ hprov⟩
    rw [heq, get_settle, if_neg hne]
  · have hne : k ≠ (s.author (.ofHostType s.policy c)).1 := by
      rintro rfl
      exact s.not_issued_author _ hissued
    rw [heq, synthesize_eq, get_settle, if_neg hne, get_author_of_issued _ hissued]

theorem get_resolve_of_touches (htouch : s.Touches c k) :
    (s.resolve p c).session.store.get k = s.settled p c k := by
  obtain ⟨hplain, hprov⟩ := htouch
  obtain ⟨hnone, hlookup⟩ := provenance_eq_found_iff.1 hprov
  rw [resolve_of_found hplain hnone hlookup, get_settle, if_pos rfl]

/-- A new declaration answers for a type that none was found for. -/
theorem resolve_of_provenance_fresh (hplain : c.isPlainValue = false)
    (hfresh : s.provenance c.name = .fresh) :
    (s.resolve p c).declaration = some ⟨s.store.next⟩ ∧
      (s.resolve p c).session.store.get ⟨s.store.next⟩ = s.derived p c := by
  obtain ⟨hnone, hlookup⟩ := provenance_eq_fresh_iff.1 hfresh
  rw [resolve_of_fresh hplain hnone hlookup, synthesize_eq]
  refine ⟨rfl, ?_⟩
  rw [get_settle]
  exact if_pos rfl

theorem becomes_derived (s : Session) (p : ClassPath) (c : HostType) :
    (Declaration.ofHostType s.policy c).Becomes (s.derived p c) := by
  have hsettled := (s.author (.ofHostType s.policy c)).2.becomes_settled p c
    (s.author (.ofHostType s.policy c)).1
  rwa [get_author_self] at hsettled

/-- A new declaration has the name, the resource and the type of its host type. -/
theorem sameOrigin_derived (s : Session) (p : ClassPath) (c : HostType) :
    { Declaration.discovered c.name with resource := c.resource : Declaration }.SameOrigin
      (s.derived p c) :=
  (Declaration.sameOrigin_ofHostType s.policy c).trans (s.becomes_derived p c).toSameOrigin

theorem mayRegister_derived (s : Session) (p : ClassPath) (c : HostType) (package : String) :
    (s.derived p c).mayRegister package = true ↔ c.name.package = package := by
  rw [(s.sameOrigin_derived p c).mayRegister_eq]
  simp [Declaration.mayRegister, Declaration.discovered]

theorem declaration_resolve_of_plain (hplain : c.isPlainValue = true) :
    (s.resolve p c).declaration = none := by
  rw [resolve_of_isPlainValue hplain]
  rfl

theorem declaration_resolve_of_known (hplain : c.isPlainValue = false)
    (hprov : s.provenance c.name = .cached h ∨ s.provenance c.name = .found h) :
    (s.resolve p c).declaration = some h := by
  rcases hprov with hcached | hfound
  · rw [resolve_of_cached hplain (provenance_eq_cached_iff.1 hcached)]
    rfl
  · obtain ⟨hnone, hlookup⟩ := provenance_eq_found_iff.1 hfound
    rw [resolve_of_found hplain hnone hlookup]
    rfl

/-- Every type but the plain values gets a declaration. -/
theorem exists_declaration_resolve (s : Session) (p : ClassPath) (hplain : c.isPlainValue = false) :
    ∃ h, (s.resolve p c).declaration = some h := by
  cases hprov : s.provenance c.name with
  | cached h => exact ⟨h, declaration_resolve_of_known hplain (Or.inl hprov)⟩
  | found h => exact ⟨h, declaration_resolve_of_known hplain (Or.inr hprov)⟩
  | fresh => exact ⟨_, (resolve_of_provenance_fresh hplain hprov).1⟩

/-- The only new handle is that of a new declaration. -/
theorem issued_resolve_iff :
    (s.resolve p c).session.store.Issued h ↔ s.store.Issued h ∨
      c.isPlainValue = false ∧ s.provenance c.name = .fresh ∧ h = ⟨s.store.next⟩ := by
  rcases s.resolve_cases p c with ⟨hplain, heq⟩ | ⟨k, -, hprov, heq⟩ | ⟨k, -, hprov, heq⟩ |
    ⟨hplain, hprov, heq⟩
  · simp [heq, hplain, Outcome.ready]
  · simp [heq, hprov, Outcome.ready]
  · simp [heq, hprov, Store.Issued, next_settle]
  · rw [heq, synthesize_eq, Store.Issued, next_settle]
    refine (s.issued_author_iff _ h).trans (or_congr_right ?_)
    exact ⟨fun hnew => ⟨hplain, hprov, hnew⟩, fun hnew => hnew.2.2⟩

theorem isSome_cached_resolve (s : Session) (p : ClassPath) (c : HostType) (n : TypeName) :
    ((s.resolve p c).session.cached n).isSome = true ↔
      (s.cached n).isSome = true ∨ c.isPlainValue = false ∧ c.name = n := by
  by_cases hname : c.name = n
  · subst hname
    cases hplain : c.isPlainValue with
    | true => simp [resolve_of_isPlainValue hplain, Outcome.ready]
    | false =>
      rw [cached_resolve_self hplain]
      cases hprov : s.provenance c.name with
      | cached h => simp [declaration_resolve_of_known hplain (Or.inl hprov)]
      | found h => simp [declaration_resolve_of_known hplain (Or.inr hprov)]
      | fresh => simp [(resolve_of_provenance_fresh (p := p) hplain hprov).1]
  · simp [cached_resolve_of_ne hname, hname]

-- ═══════════════════════════════════════════════════════════════════════
-- Registration
-- ═══════════════════════════════════════════════════════════════════════

theorem filed_file (s : Session) (filed : String) (h : Handle) (package simpleName : String) :
    (s.file filed h).packages.find? package simpleName =
      if filed = package ∧ (s.store.nameOf h).simpleName = simpleName then some h
      else s.packages.find? package simpleName :=
  Packages.find?_file s.packages s.store filed h package simpleName

theorem extends_file (s : Session) (package : String) (h : Handle) :
    s.Extends (s.file package h) :=
  ⟨rfl, rfl, Nat.le_refl _, fun _ => .refl _⟩

theorem sound_file (hs : s.Sound) (hh : s.store.Issued h) : (s.file package h).Sound := by
  refine ⟨hs.cached, hs.builtin, ?_⟩
  intro place simpleName k hfiled
  rw [filed_file] at hfiled
  split at hfiled
  · obtain rfl := Option.some.inj hfiled
    exact hh
  · exact hs.filed hfiled

theorem filed_register (s : Session) (registered : String) (h : Handle)
    (package simpleName : String) :
    (s.register registered h).packages.find? package simpleName =
      if (s.store.get h).mayRegister registered = true ∧ registered = package ∧
          (s.store.nameOf h).simpleName = simpleName then some h
      else s.packages.find? package simpleName := by
  rw [register]
  split
  · next hmay => simp only [filed_file, hmay, true_and]
  · next hmay => simp only [hmay, false_and, if_false, Bool.false_eq_true]

theorem store_register (s : Session) (package : String) (h : Handle) :
    (s.register package h).store = s.store := by
  rw [register]
  split <;> rfl

theorem cache_register (s : Session) (package : String) (h : Handle) :
    (s.register package h).cache = s.cache := by
  rw [register]
  split <;> rfl

/-- Registration answers as a resolution does and writes nothing else. -/
theorem declaration_resolveAndRegister (s : Session) (p : ClassPath) (c : HostType)
    (package : String) :
    (s.resolveAndRegister p c package).declaration = (s.resolve p c).declaration := by
  rcases s.resolveAndRegister_cases p c package with ⟨heq, -⟩ | ⟨h, -, -, -, heq⟩ <;> rw [heq]

theorem store_resolveAndRegister (s : Session) (p : ClassPath) (c : HostType) (package : String) :
    (s.resolveAndRegister p c package).session.store = (s.resolve p c).session.store := by
  rcases s.resolveAndRegister_cases p c package with ⟨heq, -⟩ | ⟨h, -, -, -, heq⟩
  · rw [heq]
  · rw [heq]
    exact store_register _ package h

theorem cache_resolveAndRegister (s : Session) (p : ClassPath) (c : HostType) (package : String) :
    (s.resolveAndRegister p c package).session.cache = (s.resolve p c).session.cache := by
  rcases s.resolveAndRegister_cases p c package with ⟨heq, -⟩ | ⟨h, -, -, -, heq⟩
  · rw [heq]
  · rw [heq]
    exact cache_register _ package h

theorem cached_resolveAndRegister (s : Session) (p : ClassPath) (c : HostType)
    (package : String) (n : TypeName) :
    (s.resolveAndRegister p c package).session.cached n = (s.resolve p c).session.cached n := by
  rw [cached, cached, cache_resolveAndRegister]

theorem extends_register (s : Session) (package : String) (h : Handle) :
    s.Extends (s.register package h) := by
  rw [register]
  split
  · exact s.extends_file package h
  · exact .refl s

theorem sound_register (hs : s.Sound) (hh : s.store.Issued h) : (s.register package h).Sound := by
  rw [register]
  split
  · exact sound_file hs hh
  · exact hs

end Session

end FactTypes
