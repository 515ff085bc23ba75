import FactTypes.Proofs.Session.EntryPoints
import FactTypes.Proofs.Session.Order

/-!
# What is written by hand

A setting is explicit on a declaration because it was written there: by the client, or
by the role marker of the host type that the declaration was derived from. Resolving
and registering types and invalidating resources write no setting by hand and take none
back, however often a declaration is settled or inherited from on the way.
-/

namespace FactTypes

/-- Whether a request is to resolve, to register or to invalidate. -/
def Request.ToResolver : Request → Prop
  | .resolve _ _ => True
  | .register _ _ _ => True
  | .invalidate _ => True
  | _ => False

namespace Settings

/-- Whether the same settings are explicit, with the same values. -/
structure SameExplicit (s t : Settings) : Prop where
  role : ∀ v, t.role = .explicit v ↔ s.role = .explicit v
  format : ∀ v, t.format = .explicit v ↔ s.format = .explicit v
  typesafe : ∀ v, t.typesafe = .explicit v ↔ s.typesafe = .explicit v

/-- Whether the role is explicit exactly as the marker says, and nothing else is. -/
structure ExplicitAsMarked (s : Settings) (m : Markers) : Prop where
  role : ∀ v, s.role = .explicit v ↔ m.role = some v
  format : ∀ v, s.format ≠ .explicit v
  typesafe : ∀ v, s.typesafe ≠ .explicit v

variable {s t : Settings} {m : Markers}

theorem authored_eq_iff {role : Option Role} {format : Option Format} {typesafe : Option Bool} :
    s.authored = (role, format, typesafe) ↔
      s.role.explicit? = role ∧ s.format.explicit? = format ∧ s.typesafe.explicit? = typesafe := by
  simp [authored]

theorem sameExplicit_of_authored (h : t.authored = s.authored) : s.SameExplicit t := by
  obtain ⟨hrole, hformat, htypesafe⟩ := authored_eq_iff.1 h
  constructor <;> intro v <;> rw [← Setting.explicit?_eq_some_iff, ← Setting.explicit?_eq_some_iff]
  · rw [hrole]
  · rw [hformat]
  · rw [htypesafe]

theorem explicitAsMarked_of_authored (h : s.authored = (m.role, none, none)) :
    s.ExplicitAsMarked m := by
  obtain ⟨hrole, hformat, htypesafe⟩ := authored_eq_iff.1 h
  refine ⟨fun v => ?_, ?_, ?_⟩
  · rw [← Setting.explicit?_eq_some_iff, hrole]
  · rintro v hv
    simp [hv, Setting.explicit?] at hformat
  · rintro v hv
    simp [hv, Setting.explicit?] at htypesafe

end Settings

namespace Session

/-- Whether a request derives a new declaration from a type. -/
structure Derives (s : Session) (q : Request) (c : HostType) (h : Handle) : Prop where
  asked : q.hostType? = some c
  plain : c.isPlainValue = false
  fresh : s.provenance c.name = .fresh
  answer : (s.perform q).declaration = some h

/-- Whether one of the requests derives a new declaration from a type. -/
def DerivedIn (s : Session) (rs : List Request) (c : HostType) (h : Handle) : Prop :=
  ∃ before q after, rs = before ++ q :: after ∧ (s.run before).Derives q c h

variable {s t : Session} {p : ClassPath} {c : HostType} {h : Handle} {q r : Request}
  {rs : List Request}

-- ═══════════════════════════════════════════════════════════════════════
-- One request
-- ═══════════════════════════════════════════════════════════════════════

/-- What a handle holds that was issued before keeps all that was written by hand. -/
theorem becomes_perform (hr : r.ToResolver) (hh : s.store.Issued h) :
    (s.store.get h).Becomes ((s.perform r).session.store.get h) := by
  cases r with
  | resolve p c => exact (s.settles_resolve p c).becomes hh
  | register p c package =>
    show (s.store.get h).Becomes ((s.resolveAndRegister p c package).session.store.get h)
    rw [store_resolveAndRegister]
    exact (s.settles_resolve p c).becomes hh
  | invalidate r => exact .refl _
  | _ => exact hr.elim

theorem derives_iff (hq : q.hostType? = some c) :
    s.Derives q c h ↔
      c.isPlainValue = false ∧ s.provenance c.name = .fresh ∧ h = ⟨s.store.next⟩ := by
  obtain ⟨p, hsame⟩ := s.perform_of_hostType hq
  constructor
  · rintro ⟨-, hplain, hfresh, hanswer⟩
    obtain ⟨hnew, -⟩ := resolve_of_provenance_fresh (p := p) hplain hfresh
    rw [hsame.declaration, hnew] at hanswer
    exact ⟨hplain, hfresh, (Option.some.inj hanswer).symm⟩
  · rintro ⟨hplain, hfresh, rfl⟩
    obtain ⟨hnew, -⟩ := resolve_of_provenance_fresh (p := p) hplain hfresh
    exact ⟨hq, hplain, hfresh, hsame.declaration.trans hnew⟩

/-- What is written on a new declaration is what the marker of its type says. -/
theorem Derives.authored (hd : s.Derives q c h) :
    ((s.perform q).session.store.get h).settings.authored = (c.markers.role, none, none) := by
  obtain ⟨p, hsame⟩ := s.perform_of_hostType hd.asked
  obtain ⟨hplain, hfresh, rfl⟩ := (derives_iff hd.asked).1 hd
  rw [hsame.store, (resolve_of_provenance_fresh hplain hfresh).2,
    (s.becomes_derived p c).authored, Declaration.authored_ofHostType]

/-- The handles that a request issues are those of derived declarations. -/
theorem issued_perform_iff (hr : r.ToResolver) :
    (s.perform r).session.store.Issued h ↔ s.store.Issued h ∨ ∃ c, s.Derives r c h := by
  cases hasked : r.hostType? with
  | none =>
    have hnot : ¬∃ c, s.Derives r c h := by
      rintro ⟨c, hd⟩
      cases hasked.symm.trans hd.asked
    rw [or_iff_left hnot]
    cases r with
    | invalidate x => exact Iff.rfl
    | resolve p c => cases hasked
    | register p c package => cases hasked
    | _ => exact hr.elim
  | some c =>
    obtain ⟨p, hsame⟩ := s.perform_of_hostType hasked
    rw [hsame.store, issued_resolve_iff, ← derives_iff hasked]
    refine or_congr_right ⟨fun hd => ⟨c, hd⟩, ?_⟩
    rintro ⟨d, hd⟩
    obtain rfl : c = d := Option.some.inj (hasked.symm.trans hd.asked)
    exact hd

-- ═══════════════════════════════════════════════════════════════════════
-- A run of requests
-- ═══════════════════════════════════════════════════════════════════════

theorem derivedIn_cons_iff :
    s.DerivedIn (r :: rs) c h ↔ s.Derives r c h ∨ (s.perform r).session.DerivedIn rs c h := by
  constructor
  · rintro ⟨before, q, after, heq, hd⟩
    cases before with
    | nil =>
      obtain ⟨rfl, rfl⟩ := List.cons.inj heq
      exact Or.inl hd
    | cons first before =>
      obtain ⟨rfl, rfl⟩ := List.cons.inj heq
      exact Or.inr ⟨before, q, after, rfl, hd⟩
  · rintro (hd | ⟨before, q, after, rfl, hd⟩)
    · exact ⟨[], r, rs, rfl, hd⟩
    · exact ⟨r :: before, q, after, rfl, hd⟩

/-- What was written by hand stays on every declaration, and nothing is added. -/
theorem becomes_run (hrs : ∀ r ∈ rs, r.ToResolver) (hh : s.store.Issued h) :
    (s.store.get h).Becomes ((s.run rs).store.get h) := by
  induction rs generalizing s with
  | nil => exact .refl _
  | cons r rest ih =>
    obtain ⟨hr, hrest⟩ := List.forall_mem_cons.1 hrs
    exact (becomes_perform hr hh).trans (ih hrest ((s.extends_perform r).issued hh))

/-- The handles that a run issues are those of the declarations derived in it. -/
theorem issued_run_iff (hrs : ∀ r ∈ rs, r.ToResolver) :
    (s.run rs).store.Issued h ↔ s.store.Issued h ∨ ∃ c, s.DerivedIn rs c h := by
  induction rs generalizing s with
  | nil => simp [run, DerivedIn]
  | cons r rest ih =>
    obtain ⟨hr, hrest⟩ := List.forall_mem_cons.1 hrs
    show ((s.perform r).session.run rest).store.Issued h ↔ _
    simp only [ih hrest, issued_perform_iff hr, derivedIn_cons_iff, exists_or, or_assoc]

theorem authored_of_derivedIn (hrs : ∀ r ∈ rs, r.ToResolver) (hd : s.DerivedIn rs c h) :
    ((s.run rs).store.get h).settings.authored = (c.markers.role, none, none) := by
  obtain ⟨before, q, after, rfl, hd⟩ := hd
  have hq : q.ToResolver := hrs q (by simp)
  have hafter : ∀ r ∈ after, r.ToResolver := fun r hr => hrs r (by simp [hr])
  have hissued := (issued_perform_iff hq).2 (Or.inr ⟨c, hd⟩)
  rw [run_append]
  exact (becomes_run hafter hissued).authored.trans hd.authored

/-- A declaration that is derived in a run was not there at the start. -/
theorem not_issued_of_derivedIn (hd : s.DerivedIn rs c h) : ¬s.store.Issued h := by
  obtain ⟨before, q, after, rfl, hd⟩ := hd
  obtain ⟨-, -, rfl⟩ := (derives_iff hd.asked).1 hd
  have hnext : s.store.next ≤ (s.run before).store.next := (s.extends_run before).next_le
  exact Nat.not_lt.2 hnext

/-- In a run of requests to resolve, to register and to invalidate, every declaration
    that was there keeps its explicit settings and gets no others. The declarations that
    come in are those derived from the types that the run asks for; their roles are
    explicit as the markers of the types say, and nothing else is explicit on them. -/
theorem explicit_run (hrs : ∀ r ∈ rs, r.ToResolver) :
    (∀ h, s.store.Issued h →
        (s.store.get h).settings.SameExplicit ((s.run rs).store.get h).settings) ∧
      (∀ h, (s.run rs).store.Issued h ∧ ¬s.store.Issued h ↔ ∃ c, s.DerivedIn rs c h) ∧
      ∀ c h, s.DerivedIn rs c h →
        ((s.run rs).store.get h).settings.ExplicitAsMarked c.markers := by
  refine ⟨?_, ?_, ?_⟩
  · intro h hh
    exact Settings.sameExplicit_of_authored (becomes_run hrs hh).authored
  · intro h
    rw [issued_run_iff hrs]
    constructor
    · rintro ⟨hold | hd, hnew⟩
      · exact absurd hold hnew
      · exact hd
    · rintro ⟨c, hd⟩
      exact ⟨Or.inr ⟨c, hd⟩, not_issued_of_derivedIn hd⟩
  · intro c h hd
    exact Settings.explicitAsMarked_of_authored (authored_of_derivedIn hrs hd)

/-- A type that implements the event type and is marked as a plain fact itself. -/
def siren : HostType :=
  { name := ⟨"p.Siren"⟩, interfaces := [event.name], markers := { role := some .fact } }

def sirens : ClassPath :=
  .ofList [siren, alert, event]

/-- The event type is inherited from twice, settled and registered. -/
def sounding : List Request :=
  [.register sirens siren "p", .resolve sirens alert, .register sirens event "p",
    .invalidate ⟨"alerts.rules"⟩, .register sirens event "q"]

/-- The event type stays an event by its own word, and the siren a plain fact by its
    marker. -/
theorem explicit_run_sounding :
    (∀ r ∈ sounding, r.ToResolver) ∧ alerting.store.Issued ⟨4⟩ ∧
      ((alerting.run sounding).store.get ⟨4⟩).settings.role = .explicit .event ∧
      alerting.DerivedIn sounding siren ⟨5⟩ ∧
      ((alerting.run sounding).store.get ⟨5⟩).settings.role = .explicit .fact := by
  have hrs : ∀ r ∈ sounding, r.ToResolver := by
    simp [sounding, Request.ToResolver]
  have hissued : alerting.store.Issued ⟨4⟩ := by decide
  have hderived : alerting.DerivedIn sounding siren ⟨5⟩ :=
    ⟨[], _, _, rfl, (derives_iff rfl).2 ⟨by decide, by decide, by decide⟩⟩
  obtain ⟨hkept, -, hmarked⟩ := explicit_run (s := alerting) hrs
  exact ⟨hrs, hissued, ((hkept ⟨4⟩ hissued).role .event).2 (by decide), hderived,
    ((hmarked siren ⟨5⟩ hderived).role .fact).2 rfl⟩

end Session

end FactTypes
