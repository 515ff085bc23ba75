import FactTypes.Proofs.Session.Resolution

/-!
# Runs of a session

What may be asked of a session, one request after the other. A client holds no handles but
those that were issued to it, so a request with any other handle is void. Every handle in
use was issued, and every handle keeps the origin of its declaration.
-/

namespace FactTypes

/-- A change that the client makes to a declaration. -/
inductive Amendment where
  | role (role : Role)
  | format (format : Format)
  | typesafe (typesafe : Bool)
  | propertyReactive (on : Bool)
  | schema (schema : Schema)
  | inherit (ancestor : Settings)

/-- What may be asked of a session. -/
inductive Request where
  | author (d : Declaration)
  | amend (h : Handle) (a : Amendment)
  | declare (h : Handle)
  | file (package : String) (h : Handle)
  | resolve (p : ClassPath) (c : HostType)
  | register (p : ClassPath) (c : HostType) (package : String)
  | invalidate (r : Resource)

/-- The host type whose declaration a request asks for. -/
def Request.hostType? : Request → Option HostType
  | .resolve _ c => some c
  | .register _ c _ => some c
  | _ => none

namespace Amendment

/-- The declaration after the change. -/
def apply (a : Amendment) (d : Declaration) : Declaration :=
  match a with
  | .role r => d.setRole r
  | .format f => d.setFormat f
  | .typesafe on => d.setTypesafe on
  | .propertyReactive on => d.setPropertyReactive on
  | .schema definition => { d with schema := some definition }
  | .inherit ancestor => d.inherit ancestor

theorem sameOrigin_apply (a : Amendment) (d : Declaration) : d.SameOrigin (a.apply d) := by
  cases a <;> constructor <;> rfl

end Amendment

namespace Session

/-- Answers one request. -/
def perform (s : Session) : Request → Outcome
  | .author d => .ready (some (s.author d).1) (s.author d).2
  | .amend h a => .ready none (if s.store.Issued h then s.edit h a.apply else s)
  | .declare h => .ready none (if s.store.Issued h then s.declare h else s)
  | .file package h => .ready none (if s.store.Issued h then s.file package h else s)
  | .resolve p c => s.resolve p c
  | .register p c package => s.resolveAndRegister p c package
  | .invalidate r => .ready none (s.invalidate r)

/-- The session after several requests. -/
def run (s : Session) (rs : List Request) : Session :=
  rs.foldl (fun s r => (s.perform r).session) s

variable {s : Session}

theorem run_append (rs qs : List Request) : s.run (rs ++ qs) = (s.run rs).run qs :=
  List.foldl_append

theorem run_concat (rs : List Request) (r : Request) :
    s.run (rs ++ [r]) = ((s.run rs).perform r).session :=
  run_append rs [r]

theorem perform_declare {h : Handle} (hh : s.store.Issued h) :
    (s.perform (.declare h)).session = s.declare h := by
  simp only [perform, Outcome.ready, if_pos hh]

theorem extends_edit (s : Session) (h : Handle) (a : Amendment) :
    s.Extends (s.edit h a.apply) := by
  refine ⟨rfl, rfl, Nat.le_refl _, fun {k} _ => ?_⟩
  have hget : (s.edit h a.apply).store.get k = if k = h then a.apply (s.store.get h)
      else s.store.get k := Store.get_update s.store h k a.apply
  rw [hget]
  split
  · next heq => rw [heq]; exact a.sameOrigin_apply _
  · exact .refl _

theorem sound_invalidate (hs : s.Sound) (r : Resource) : (s.invalidate r).Sound := by
  refine ⟨?_, hs.builtin, ?_⟩
  · intro n h hcached
    exact hs.cached (cached_of_cached_invalidate hcached)
  · intro package simpleName h hfiled
    exact hs.filed (filed_of_filed_invalidate hfiled)

theorem extends_perform (s : Session) (r : Request) : s.Extends (s.perform r).session := by
  cases r with
  | author d => exact (s.settles_author d).toExtends
  | amend h a =>
    simp only [perform, Outcome.ready]
    split
    · exact s.extends_edit h a
    · exact .refl s
  | declare h =>
    simp only [perform, Outcome.ready]
    split
    · exact s.extends_file _ h
    · exact .refl s
  | file package h =>
    simp only [perform, Outcome.ready]
    split
    · exact s.extends_file package h
    · exact .refl s
  | resolve p c => exact (s.settles_resolve p c).toExtends
  | register p c package =>
    have hresolve := (s.settles_resolve p c).toExtends
    show s.Extends (s.resolveAndRegister p c package).session
    rcases s.resolveAndRegister_cases p c package with ⟨heq, -⟩ | ⟨h, -, -, -, heq⟩
    · rw [heq]; exact hresolve
    · rw [heq]; exact hresolve.trans (extends_register _ package h)
  | invalidate r => exact ⟨rfl, rfl, Nat.le_refl _, fun _ => .refl _⟩

theorem sound_perform (hs : s.Sound) (r : Request) : (s.perform r).session.Sound := by
  cases r with
  | author d => exact sound_author hs d
  | amend h a =>
    simp only [perform, Outcome.ready]
    split
    · exact ⟨hs.cached, hs.builtin, hs.filed⟩
    · exact hs
  | declare h =>
    simp only [perform, Outcome.ready]
    split
    · next hh => exact sound_file hs hh
    · exact hs
  | file package h =>
    simp only [perform, Outcome.ready]
    split
    · next hh => exact sound_file hs hh
    · exact hs
  | resolve p c => exact sound_resolve hs
  | register p c package =>
    show (s.resolveAndRegister p c package).session.Sound
    rcases s.resolveAndRegister_cases p c package with ⟨heq, -⟩ | ⟨h, -, -, hdecl, heq⟩
    · rw [heq]; exact sound_resolve hs
    · rw [heq]; exact sound_register (sound_resolve hs) (issued_of_resolve hs hdecl)
  | invalidate r => exact sound_invalidate hs r

theorem sound_start (policy : ReactivityPolicy) : (start policy).Sound := by
  refine ⟨?_, ?_, ?_⟩
  · intro n h hcached
    simp at hcached
  · intro n h hbuiltin
    exact (Builtins.seed_spec hbuiltin).1
  · intro package simpleName h hfiled
    simp at hfiled

theorem extends_run (s : Session) (rs : List Request) : s.Extends (s.run rs) := by
  induction rs generalizing s with
  | nil => exact .refl s
  | cons r rest ih => exact (s.extends_perform r).trans (ih _)

theorem sound_run (hs : s.Sound) (rs : List Request) : (s.run rs).Sound := by
  induction rs generalizing s with
  | nil => exact hs
  | cons r rest ih => exact ih (sound_perform hs r)

end Session

end FactTypes
