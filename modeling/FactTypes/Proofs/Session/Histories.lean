import Mathlib.Data.List.Induction
import FactTypes.Proofs.Session.Runs

/-! What a session can come to when each request has to be allowed at its time. Between
two requests the client may also make packages and take declarations out of them;
that alone never files anything. -/

namespace FactTypes

namespace Session

/-- Whether a session leads to another one. Every request on the way is allowed in
    the session that it meets; the client's upkeep of the packages leaves no
    declaration filed that was not filed there before. -/
inductive Leads (allowed : Session → Request → Prop) (s : Session) : Session → Prop where
  | refl : Leads allowed s s
  | perform {t : Session} {r : Request} (hst : Leads allowed s t) (hr : allowed t r) :
    Leads allowed s (t.perform r).session
  | upkeep {t : Session} {ps : Packages} (hst : Leads allowed s t)
    (hkept : ∀ {package simpleName h}, ps.find? package simpleName = some h →
      t.packages.find? package simpleName = some h) :
    Leads allowed s { t with packages := ps }

/-- Whether a compilation can come to a session. -/
def Reachable (s : Session) : Prop :=
  ∃ policy, (start policy).Leads (fun _ _ => True) s

variable {s t : Session} {allowed : Session → Request → Prop} {rs : List Request} {n : TypeName}
  {h : Handle} {ps : Packages}

theorem extends_upkeep (s : Session) (ps : Packages) : s.Extends { s with packages := ps } :=
  ⟨rfl, rfl, Nat.le_refl _, fun _ => .refl _⟩

theorem sound_upkeep (hs : s.Sound)
    (hkept : ∀ {package simpleName h}, ps.find? package simpleName = some h →
      s.packages.find? package simpleName = some h) :
    { s with packages := ps }.Sound :=
  ⟨hs.cached, hs.builtin, fun hfiled => hs.filed (hkept hfiled)⟩

/-- Where fewer declarations are filed, none is found that was not found before. -/
theorem lookup_of_kept (hbuiltins : t.builtins = s.builtins)
    (hkept : t.packages.lookup n = some h → s.packages.lookup n = some h)
    (hlookup : t.lookup n = some h) : s.lookup n = some h := by
  rw [lookup, hbuiltins, Option.or_eq_some_iff] at hlookup
  rw [lookup, Option.or_eq_some_iff]
  exact hlookup.imp_right fun hfiled => ⟨hfiled.1, hkept hfiled.2⟩

theorem Leads.extends (hst : s.Leads allowed t) : s.Extends t := by
  induction hst with
  | refl => exact .refl s
  | perform _ _ ih => exact ih.trans (extends_perform _ _)
  | upkeep _ _ ih => exact ih.trans (extends_upkeep _ _)

theorem Leads.sound (hst : s.Leads allowed t) (hs : s.Sound) : t.Sound := by
  induction hst with
  | refl => exact hs
  | perform _ _ ih => exact sound_perform ih _
  | upkeep _ hkept ih => exact sound_upkeep ih hkept

/-- A history is also one in which more is allowed at each of its times. -/
theorem Leads.imp {allowed' : Session → Request → Prop}
    (himp : ∀ u r, s.Leads allowed u → allowed u r → allowed' u r) (hst : s.Leads allowed t) :
    s.Leads allowed' t := by
  induction hst with
  | refl => exact .refl
  | perform hst hr ih => exact .perform ih (himp _ _ hst hr)
  | upkeep _ hkept ih => exact .upkeep ih hkept

/-- What is asked for in a run may be asked for one by one. -/
theorem leads_run (hrs : ∀ r ∈ rs, ∀ t, allowed t r) : s.Leads allowed (s.run rs) := by
  induction rs using List.reverseRecOn with
  | nil => exact .refl
  | append_singleton rest r ih =>
    rw [run_concat]
    exact .perform (ih fun q hq => hrs q (List.mem_append_left _ hq)) (hrs r (by simp) _)

theorem reachable_run (policy : ReactivityPolicy) (rs : List Request) :
    ((start policy).run rs).Reachable :=
  ⟨policy, leads_run fun _ _ _ => trivial⟩

namespace Reachable

theorem sound (hs : s.Reachable) : s.Sound := by
  obtain ⟨policy, hled⟩ := hs
  exact hled.sound (sound_start policy)

/-- The engine's own declarations come from no resource. -/
theorem resource_builtin (hs : s.Reachable) (hbuiltin : s.builtins.find? n = some h) :
    (s.store.get h).resource = none := by
  obtain ⟨policy, hled⟩ := hs
  have he := hled.extends
  rw [he.builtins] at hbuiltin
  obtain ⟨hissued, d, hd, -, hget⟩ := Builtins.seed_spec hbuiltin
  have hseeded : (start policy).store.get h = d := hget
  rw [(he.origin hissued).resource, hseeded]
  exact Builtins.resource_of_mem hd

end Reachable

end Session

end FactTypes
