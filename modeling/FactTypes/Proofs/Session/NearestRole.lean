import FactTypes.Proofs.Ancestry.Chain
import FactTypes.Proofs.Session.Agreement
import FactTypes.Proofs.Session.Inheritance
import FactTypes.Proofs.Session.Repetition

/-!
# The role of a class

Where classes extend one another and nothing else, and each is registered after its
superclasses, a class has the role that it is marked with, or else that of the
nearest marked superclass. What a superclass has only inherited is not passed on.
-/

namespace FactTypes

namespace ClassPath

/-- Whether all types are classes that implement no interface, have well-formed names
    and are not the engine's own. -/
structure OfClasses (p : ClassPath) : Prop where
  concrete : ∀ {n c}, p.find? n = some c → c.shape = .concrete
  bare : ∀ {n c}, p.find? n = some c → c.interfaces = []
  wellFormed : ∀ {n c}, p.find? n = some c → TypeName.isWellFormed n.text = true
  foreign : ∀ {n c}, p.find? n = some c → n ∉ Builtins.declarations.map Declaration.name

/-- The listings of known classes in which every class comes after its superclasses.
    A class may be listed again. -/
inductive TopDown (p : ClassPath) : List HostType → Prop where
  | nil : TopDown p []
  | concat {cs : List HostType} {c : HostType} (hcs : TopDown p cs)
      (hknown : p.find? c.name = some c) (habove : ∀ d ∈ p.superclasses c, d ∈ cs) :
    TopDown p (cs ++ [c])

/-- The role that a class should have: it is explicit if the class carries the marker,
    and inherited if a superclass does, from the nearest of them. -/
def nearestRole (p : ClassPath) (c : HostType) : Setting Role :=
  match c.markers.role with
  | some role => .explicit role
  | none =>
    match (p.superclasses c).findSome? fun d => d.markers.role with
    | some role => .inherited role
    | none => .unset

variable {p : ClassPath} {c d : HostType} {cs : List HostType}

theorem TopDown.find?_of_mem (hcs : p.TopDown cs) (hc : c ∈ cs) : p.find? c.name = some c := by
  induction hcs with
  | nil => cases hc
  | concat _ hknown _ ih =>
    rcases List.mem_append.1 hc with hold | hlast
    · exact ih hold
    · rw [List.mem_singleton.1 hlast]
      exact hknown

/-- Different known types have different names. -/
theorem name_ne_of_ne (hc : p.find? c.name = some c) (hd : p.find? d.name = some d)
    (hne : c ≠ d) : c.name ≠ d.name := by
  intro hname
  rw [← hname, hc] at hd
  exact hne (Option.some.inj hd)

/-- The role of a class is explicit exactly when the class itself carries the
    marker. -/
theorem explicit?_nearestRole (p : ClassPath) (c : HostType) :
    (p.nearestRole c).explicit? = c.markers.role := by
  unfold nearestRole
  split
  · next hrole => exact hrole.symm
  · next hrole =>
    rw [hrole]
    split <;> rfl

/-- A class that starts from its marker and consults superclasses that have their
    roles ends with its own. -/
theorem inheritAll_nearestRole (p : ClassPath) (c : HostType) :
    { role := c.markers.role.elim .unset .explicit : Settings }.inheritAll
        ((p.superclasses c).map fun d => { role := p.nearestRole d }) =
      { role := p.nearestRole c } := by
  have hrole : (c.markers.role.elim .unset .explicit : Setting Role).inheritAll
      ((p.superclasses c).map p.nearestRole) = p.nearestRole c := by
    have hwritten : Setting.explicit? ∘ p.nearestRole = fun d => d.markers.role :=
      funext fun d => p.explicit?_nearestRole d
    rw [Setting.inheritAll_eq, Setting.fromNearest, List.findSome?_map, hwritten, nearestRole]
    cases c.markers.role with
    | some role => rfl
    | none => cases (p.superclasses c).findSome? fun d => d.markers.role <;> rfl
  -- nothing but roles is marked, so there is nothing else to inherit
  have hunset : ∀ {α : Type}, (Setting.unset : Setting α).inheritAll
      ((p.superclasses c).map fun _ => .unset) = .unset := by
    intro α
    have hnone : ((p.superclasses c).map fun _ => (Setting.unset : Setting α)).findSome?
        Setting.explicit? = none := by
      simp [Setting.explicit?]
    rw [Setting.inheritAll_eq, Setting.fromNearest, hnone]
    rfl
  rw [Settings.inheritAll_eq, List.map_map, List.map_map, List.map_map, Settings.mk.injEq]
  exact ⟨hrole, hunset, hunset⟩

end ClassPath

namespace Session

/-- The requests to register the classes of a listing, each under its own package. -/
def registrations (p : ClassPath) (cs : List HostType) : List Request :=
  cs.map fun c => .register p c c.package

/-- Whether the classes of a listing are registered, and none of the class path beside
    them: each has its settings, and a look-up finds what the cache holds. -/
structure Covers (s : Session) (p : ClassPath) (cs : List HostType) : Prop where
  agreeing : s.Agreeing
  foreign : ∀ {n c}, p.find? n = some c → s.builtins.find? n = none
  fresh : ∀ {c}, p.find? c.name = some c → c ∉ cs → s.provenance c.name = .fresh
  registered : ∀ {c}, c ∈ cs → ∃ h, s.cached c.name = some h ∧ s.lookup c.name = some h ∧
    (s.store.get h).settings = { role := p.nearestRole c }

variable {s : Session} {p : ClassPath} {c d : HostType} {cs : List HostType} {h : Handle}
  {n : TypeName}

-- ═══════════════════════════════════════════════════════════════════════
-- One registration
-- ═══════════════════════════════════════════════════════════════════════

/-- Registering a type changes nothing if it is resolved and filed already. -/
theorem session_resolveAndRegister_of_filed {package : String} (hplain : c.isPlainValue = false)
    (hcached : s.cached c.name = some h)
    (hfiled : s.packages.find? package (s.store.nameOf h).simpleName = some h) :
    (s.resolveAndRegister p c package).session = s := by
  rw [resolveAndRegister_of_cached hplain hcached]
  show s.register package h = s
  rw [register]
  split
  · exact file_eq_self_iff.2 hfiled
  · rfl

/-- A new declaration is filed under the package of its type. -/
theorem session_resolveAndRegister_of_fresh (hplain : c.isPlainValue = false)
    (hfresh : s.provenance c.name = .fresh) :
    (s.resolveAndRegister p c c.package).session =
      (s.resolve p c).session.file c.package ⟨s.store.next⟩ := by
  rw [resolveAndRegister_of_fresh hplain hfresh]
  show (s.resolve p c).session.register c.package ⟨s.store.next⟩ = _
  rw [register, (resolve_of_provenance_fresh hplain hfresh).2,
    if_pos ((s.mayRegister_derived p c c.package).2 rfl)]

/-- From then on the new declaration is cached for its type, and for no other. -/
theorem cached_resolveAndRegister_of_fresh (hplain : c.isPlainValue = false)
    (hfresh : s.provenance c.name = .fresh) :
    (s.resolveAndRegister p c c.package).session.cached n =
      if c.name = n then some ⟨s.store.next⟩ else s.cached n := by
  rw [cached_resolveAndRegister]
  split
  · next heq =>
    rw [← heq, cached_resolve_self hplain]
    exact (resolve_of_provenance_fresh hplain hfresh).1
  · next hne => exact cached_resolve_of_ne hne

/-- It is also found for the name of its type, and for no other. -/
theorem lookup_resolveAndRegister_of_fresh (hplain : c.isPlainValue = false)
    (hfresh : s.provenance c.name = .fresh) (hc : TypeName.isWellFormed c.name.text = true)
    (hn : TypeName.isWellFormed n.text = true) :
    (s.resolveAndRegister p c c.package).session.lookup n =
      if c.name = n then some ⟨s.store.next⟩ else s.lookup n := by
  have hst := s.settles_resolve p c
  have hname : (s.resolve p c).session.store.nameOf ⟨s.store.next⟩ = c.name := by
    rw [Store.nameOf, (resolve_of_provenance_fresh hplain hfresh).2,
      (s.sameOrigin_derived p c).name]
    rfl
  rw [session_resolveAndRegister_of_fresh hplain hfresh, lookup, Packages.lookup, filed_file, hname]
  show (((s.resolve p c).session.builtins.find? n).or _) = _
  rw [hst.builtins, hst.packages]
  by_cases heq : c.name = n
  · subst heq
    have hnone : s.lookup c.name = none := (provenance_eq_fresh_iff.1 hfresh).2
    rw [if_pos rfl, if_pos ⟨rfl, rfl⟩, (Option.or_eq_none_iff.1 hnone).1, Option.none_or]
  · have hplace : ¬(c.package = n.package ∧ c.name.simpleName = n.simpleName) :=
      fun hsame => heq (TypeName.eq_of_parts hc hn hsame.1 hsame.2)
    rw [if_neg heq, if_neg hplace]
    rfl

/-- The declarations that were there before are not written. -/
theorem get_resolveAndRegister_of_fresh (hfresh : s.provenance c.name = .fresh)
    (hh : s.store.Issued h) :
    (s.resolveAndRegister p c c.package).session.store.get h = s.store.get h := by
  have hnot : ¬s.Touches c h := by
    rintro ⟨-, hfound⟩
    cases hfresh.symm.trans hfound
  rw [store_resolveAndRegister, get_resolve_of_not_touches hh hnot]

-- ═══════════════════════════════════════════════════════════════════════
-- Registering the classes from the top down
-- ═══════════════════════════════════════════════════════════════════════

theorem covers_start (policy : ReactivityPolicy) (hp : p.OfClasses) :
    (start policy).Covers p [] := by
  have hbuiltin : ∀ {n c}, p.find? n = some c → (start policy).builtins.find? n = none := by
    intro n c hknown
    rw [Option.eq_none_iff_forall_ne_some]
    intro h hh
    obtain ⟨-, d, hd, rfl, -⟩ := Builtins.seed_spec hh
    exact hp.foreign hknown (List.mem_map_of_mem hd)
  refine ⟨agreeing_start policy, hbuiltin, ?_, fun hc => absurd hc List.not_mem_nil⟩
  intro c hknown _
  refine provenance_eq_fresh_iff.2 ⟨cached_start policy c.name, ?_⟩
  rw [lookup, hbuiltin hknown, Option.none_or]
  exact filed_start policy _ _

/-- A class that is new inherits from its superclasses in their order. -/
theorem settings_derived_of_covers (hv : s.Covers p cs) (hp : p.OfClasses)
    (hknown : p.find? c.name = some c) (habove : ∀ d ∈ p.superclasses c, d ∈ cs) :
    (s.derived p c).settings = { role := p.nearestRole c } := by
  have hsuper : ∀ d ∈ p.superclasses c, p.find? d.name = some d :=
    fun d hd => (ClassPath.find?_of_mem_superclasses hd).1
  have hof : ∀ {d h}, d ∈ p.superclasses c → s.lookup d.name = some h → s.store.nameOf h = d.name :=
    fun hd hlookup => hv.agreeing.nameOf_lookup (hp.wellFormed (hsuper _ hd)) hlookup
  -- different superclasses find different declarations, and none finds the new one
  have hnodup : (⟨s.store.next⟩ ::
      (p.superclasses c).filterMap fun d => s.lookup d.name).Nodup := by
    refine List.nodup_cons.2 ⟨fun hmem => ?_, ?_⟩
    · obtain ⟨d, -, hlookup⟩ := List.mem_filterMap.1 hmem
      exact Nat.lt_irrefl _ (hv.agreeing.sound.issued_of_lookup hlookup)
    · refine List.pairwise_filterMap.2 ?_
      refine (List.pairwise_map.1 (p.nodup_map_name_superclasses c)).imp_of_mem ?_
      intro d e hd he hne h hh k hk heq
      exact hne ((hof hd hh).symm.trans (heq ▸ hof he hk))
  have hsources : ((s.hierarchy p).closure c ⟨s.store.next⟩).ancestors.map
      (fun a => (s.store.get a).settings) =
      (p.superclasses c).map fun d => { role := p.nearestRole d } := by
    rw [Hierarchy.ancestors_closure_of_bare (hp.bare hknown) (fun d hd => hp.bare (hsuper d hd))
      hnodup, List.map_filterMap, ← List.filterMap_eq_map]
    refine List.filterMap_congr fun d hd => ?_
    obtain ⟨h, -, hlookup, hsettings⟩ := hv.registered (habove d hd)
    show (s.lookup d.name).map _ = _
    rw [hlookup, Option.map_some, hsettings]
    rfl
  rw [settings_derived hv.agreeing.sound, hsources, Declaration.settings_ofHostType]
  exact p.inheritAll_nearestRole c

/-- A class that is new gets its settings, and those before it keep theirs. -/
theorem covers_resolveAndRegister_of_new (hv : s.Covers p cs) (hp : p.OfClasses)
    (hcs : p.TopDown cs) (hknown : p.find? c.name = some c)
    (habove : ∀ d ∈ p.superclasses c, d ∈ cs) (hnew : c ∉ cs) :
    (s.resolveAndRegister p c c.package).session.Covers p (cs ++ [c]) := by
  have hplain : c.isPlainValue = false := by simp [HostType.isPlainValue, hp.concrete hknown]
  have hfresh : s.provenance c.name = .fresh := hv.fresh hknown hnew
  have hc : TypeName.isWellFormed c.name.text = true := hp.wellFormed hknown
  constructor
  case agreeing => exact hv.agreeing.resolveAndRegister hc
  case foreign =>
    intro n d hd
    have he : s.Extends (s.resolveAndRegister p c c.package).session :=
      s.extends_perform (.register p c c.package)
    rw [he.builtins]
    exact hv.foreign hd
  case fresh =>
    intro d hd hnot
    rw [List.mem_append, List.mem_singleton, not_or] at hnot
    have hname : c.name ≠ d.name := ClassPath.name_ne_of_ne hknown hd (Ne.symm hnot.2)
    refine (provenance_congr ?_ ?_).trans (hv.fresh hd hnot.1)
    · rw [cached_resolveAndRegister_of_fresh hplain hfresh, if_neg hname]
    · rw [lookup_resolveAndRegister_of_fresh hplain hfresh hc (hp.wellFormed hd), if_neg hname]
  case registered =>
    intro d hd
    rcases List.mem_append.1 hd with hold | hlast
    · obtain ⟨h, hcached, hlookup, hsettings⟩ := hv.registered hold
      have hdknown : p.find? d.name = some d := hcs.find?_of_mem hold
      have hname : c.name ≠ d.name :=
        ClassPath.name_ne_of_ne hknown hdknown fun heq => hnew (heq ▸ hold)
      refine ⟨h, ?_, ?_, ?_⟩
      · rw [cached_resolveAndRegister_of_fresh hplain hfresh, if_neg hname, hcached]
      · rw [lookup_resolveAndRegister_of_fresh hplain hfresh hc (hp.wellFormed hdknown),
          if_neg hname, hlookup]
      · rw [get_resolveAndRegister_of_fresh hfresh (hv.agreeing.sound.cached hcached), hsettings]
    · rw [List.mem_singleton.1 hlast]
      refine ⟨⟨s.store.next⟩, ?_, ?_, ?_⟩
      · rw [cached_resolveAndRegister_of_fresh hplain hfresh, if_pos rfl]
      · rw [lookup_resolveAndRegister_of_fresh hplain hfresh hc hc, if_pos rfl]
      · rw [store_resolveAndRegister, (resolve_of_provenance_fresh hplain hfresh).2,
          settings_derived_of_covers hv hp hknown habove]

/-- After one more class has been registered, it is covered as well. -/
theorem covers_resolveAndRegister (hv : s.Covers p cs) (hp : p.OfClasses) (hcs : p.TopDown cs)
    (hknown : p.find? c.name = some c) (habove : ∀ d ∈ p.superclasses c, d ∈ cs) :
    (s.resolveAndRegister p c c.package).session.Covers p (cs ++ [c]) := by
  by_cases hold : c ∈ cs
  · obtain ⟨h, hcached, hlookup, -⟩ := hv.registered hold
    have hplain : c.isPlainValue = false := by simp [HostType.isPlainValue, hp.concrete hknown]
    have hfiled : s.packages.find? c.package (s.store.nameOf h).simpleName = some h := by
      rw [lookup, hv.foreign hknown, Option.none_or] at hlookup
      rw [hv.agreeing.nameOf_cached hcached]
      exact hlookup
    rw [session_resolveAndRegister_of_filed hplain hcached hfiled]
    have hsame : ∀ {e}, e ∈ cs ++ [c] ↔ e ∈ cs := by
      intro e
      rw [List.mem_append, List.mem_singleton, or_iff_left_of_imp fun heq => heq ▸ hold]
    exact ⟨hv.agreeing, hv.foreign, fun he hnot => hv.fresh he (mt hsame.2 hnot),
      fun he => hv.registered (hsame.1 he)⟩
  · exact covers_resolveAndRegister_of_new hv hp hcs hknown habove hold

theorem covers_run (policy : ReactivityPolicy) (hp : p.OfClasses) (hcs : p.TopDown cs) :
    ((start policy).run (registrations p cs)).Covers p cs := by
  induction hcs with
  | nil => exact covers_start policy hp
  | concat hcs hknown habove ih =>
    rw [registrations, List.map_append, List.map_singleton, run_concat]
    exact covers_resolveAndRegister ih hp hcs hknown habove

/-- When classes are registered from the top down, each ends with the role that it is
    marked with or else with that of the nearest marked superclass, and with nothing
    else set. -/
theorem settings_of_topDown (policy : ReactivityPolicy) (hp : p.OfClasses) (hcs : p.TopDown cs)
    (hc : c ∈ cs) :
    ∃ h, ((start policy).run (registrations p cs)).cached c.name = some h ∧
      ((start policy).run (registrations p cs)).lookup c.name = some h ∧
      (((start policy).run (registrations p cs)).store.get h).settings =
        { role := p.nearestRole c, format := .unset, typesafe := .unset } :=
  (covers_run policy hp hcs).registered hc

-- ═══════════════════════════════════════════════════════════════════════
-- Alarms
-- ═══════════════════════════════════════════════════════════════════════

/-- Signals are events. -/
def signal : HostType :=
  { name := ⟨"com.acme.Signal"⟩, markers := { role := some .event } }

/-- An alarm is a signal, without a marker of its own. -/
def alarm : HostType :=
  { name := ⟨"com.acme.Alarm"⟩, superclass := some ⟨"com.acme.Signal"⟩ }

/-- A fire alarm is an alarm. -/
def fireAlarm : HostType :=
  { name := ⟨"com.acme.FireAlarm"⟩, superclass := some ⟨"com.acme.Alarm"⟩ }

def alarms : ClassPath :=
  .ofList [signal, alarm, fireAlarm]

private theorem alarms_ofClasses : alarms.OfClasses := by
  have hall : ∀ n ∈ alarms.names, ∀ c ∈ alarms.find? n, c.shape = .concrete ∧
      c.interfaces = [] ∧ TypeName.isWellFormed n.text = true ∧
      n ∉ Builtins.declarations.map Declaration.name := by
    decide
  have hknown : ∀ {n c}, alarms.find? n = some c → _ :=
    fun {n c} hc => hall n (ClassPath.mem_names_iff.2 ⟨c, hc⟩) c hc
  exact ⟨fun hc => (hknown hc).1, fun hc => (hknown hc).2.1, fun hc => (hknown hc).2.2.1,
    fun hc => (hknown hc).2.2.2⟩

private theorem superclasses_signal : alarms.superclasses signal = [] :=
  alarms.chainFrom_none _

private theorem superclasses_alarm : alarms.superclasses alarm = [signal] := by
  have hsignal : alarms.find? signal.name = some signal := by decide
  show alarms.chainFrom [alarm.name] (some signal.name) = _
  rw [ClassPath.chainFrom_some, if_neg (by decide), hsignal]
  exact congrArg (List.cons signal) (alarms.chainFrom_none _)

private theorem superclasses_fireAlarm : alarms.superclasses fireAlarm = [alarm, signal] := by
  have halarm : alarms.find? alarm.name = some alarm := by decide
  have hsignal : alarms.find? signal.name = some signal := by decide
  show alarms.chainFrom [fireAlarm.name] (some alarm.name) = _
  rw [ClassPath.chainFrom_some, if_neg (by decide), halarm]
  show alarm :: alarms.chainFrom _ (some signal.name) = _
  rw [ClassPath.chainFrom_some, if_neg (by decide), hsignal]
  exact congrArg (fun rest => alarm :: signal :: rest) (alarms.chainFrom_none _)

private theorem alarms_topDown : alarms.TopDown [signal, alarm, signal, fireAlarm] := by
  have hsignal : alarms.TopDown ([] ++ [signal]) :=
    .concat .nil (by decide) (by simp [superclasses_signal])
  have halarm : alarms.TopDown ([signal] ++ [alarm]) :=
    .concat hsignal (by decide) (by simp [superclasses_alarm])
  have hagain : alarms.TopDown ([signal, alarm] ++ [signal]) :=
    .concat halarm (by decide) (by simp [superclasses_signal])
  show alarms.TopDown ([signal, alarm, signal] ++ [fireAlarm])
  exact .concat hagain (by decide) (by simp [superclasses_fireAlarm])

/-- A fire alarm is an event like the signal above the alarm, which carries no marker
    itself. The signal is registered twice. -/
theorem settings_of_topDown_fireAlarm :
    alarms.OfClasses ∧ alarms.TopDown [signal, alarm, signal, fireAlarm] ∧
      alarms.nearestRole fireAlarm = .inherited .event ∧
      let t := (start .standard).run (registrations alarms [signal, alarm, signal, fireAlarm])
      ∃ h, t.cached fireAlarm.name = some h ∧ t.lookup fireAlarm.name = some h ∧
        (t.store.get h).settings =
          { role := alarms.nearestRole fireAlarm, format := .unset, typesafe := .unset } := by
  refine ⟨alarms_ofClasses, alarms_topDown, ?_,
    settings_of_topDown .standard alarms_ofClasses alarms_topDown (by simp)⟩
  show (match (alarms.superclasses fireAlarm).findSome? fun d => d.markers.role with
    | some role => Setting.inherited role
    | none => .unset) = _
  rw [superclasses_fireAlarm]
  rfl

end Session

end FactTypes
