import CrateAudit.Session.Invoke
import Mathlib.Tactic.SplitIfs

/-!
# Routine steps

Some steps of a session always succeed and do nothing but print and log. A relation of sessions under which printing
and logging are routine (`Step.Routine`) holds between the session before such a step and the session after it: telling
about a command that cannot be found (`Run.leads_preflight`), and telling a notice of an audit (`Run.leads_tell`).
Other steps may fail; one that has succeeded is taken apart into its parts by `Step.exists_of_run_bind`.
-/

namespace CrateAudit

open Bytes

variable {α β : Type}

/-! ### What has succeeded -/

theorem exists_of_bind_eq_ok {ε α β : Type} {x : Except ε α} {f : α → Except ε β} {b : β}
    (h : x >>= f = .ok b) : ∃ a, x = .ok a ∧ f a = .ok b := by
  cases x with
  | error e => contradiction
  | ok a => exact ⟨a, rfl, h⟩

theorem eq_ok_of_mapError {ε ε' α : Type} {x : Except ε α} {f : ε → ε'} {a : α} (h : x.mapError f = .ok a) :
    x = .ok a := by
  cases x with
  | error e => contradiction
  | ok b => exact congrArg Except.ok (Except.ok.inj h)

namespace Step

theorem run_bind (x : Step α) (f : α → Step β) (s : Session) :
    (x >>= f).run s = match x.run s with
      | (.ok a, s) => (f a).run s
      | (.error fault, s) => (.error fault, s) := by
  show (ExceptT.bindCont f (x.run s).1 (x.run s).2) = _
  cases x.run s with
  | mk r s => cases r <;> rfl

/-- Where both steps succeed, the second one goes on from what the first one has left. -/
theorem exists_of_run_bind {x : Step α} {f : α → Step β} {s u : Session} {b : β} (h : (x >>= f).run s = (.ok b, u)) :
    ∃ a v, x.run s = (.ok a, v) ∧ (f a).run v = (.ok b, u) := by
  rw [run_bind] at h
  cases hx : x.run s with
  | mk r v =>
    rw [hx] at h
    cases r with
    | error fault => cases h
    | ok a => exact ⟨a, v, rfl, h⟩

theorem of_run_during {context : Bytes} {r : Except Fault α} {s u : Session} {a : α}
    (h : (during context r).run s = (.ok a, u)) : r = .ok a ∧ u = s := by
  cases r with
  | error fault => cases h
  | ok b =>
    obtain ⟨hb, rfl⟩ := Prod.mk.inj h
    exact ⟨congrArg Except.ok (Except.ok.inj hb), rfl⟩

theorem run_get_bind (f : Session → Step β) (s : Session) : (get >>= f).run s = (f s).run s := rfl

theorem run_ok_bind (a : α) (f : α → Step β) (s : Session) :
    ((liftM (Except.ok a : Except Fault α) : Step α) >>= f).run s = (f a).run s := rfl

/-- A step that always succeeds and leads to a related session. -/
def Leads (R : Session → Session → Prop) (x : Step α) : Prop := ∀ s, ∃ a s', x.run s = (.ok a, s') ∧ R s s'

/-- A relation under which printing and logging are routine. -/
structure Routine (R : Session → Session → Prop) : Prop where
  refl : ∀ s, R s s
  trans : ∀ {s s' s''}, R s s' → R s' s'' → R s s''
  write : ∀ s stream w, R s (s.write stream w)
  logged : ∀ s context record, R s (s.logged context record)

namespace Routine

variable {R : Session → Session → Prop} {x : Step α} {f : α → Step β}

theorem leads_pure (hR : Routine R) (a : α) : Leads R (pure a) := fun s => ⟨a, s, rfl, hR.refl s⟩

theorem leads_get (hR : Routine R) : Leads R get := fun s => ⟨s, s, rfl, hR.refl s⟩

theorem leads_bind (hR : Routine R) (hx : Leads R x) (hf : ∀ a, Leads R (f a)) : Leads R (x >>= f) := by
  intro s
  obtain ⟨a, s', hrun, hs'⟩ := hx s
  obtain ⟨b, s'', hrun', hs''⟩ := hf a s'
  refine ⟨b, s'', ?_, hR.trans hs' hs''⟩
  rw [run_bind, hrun]
  exact hrun'

/-- A loop that does something for each element of a list. -/
theorem leads_forEach (hR : Routine R) (as : List α) {g : α → Step Unit} (h : ∀ a, Leads R (g a)) :
    Leads R (forIn as PUnit.unit fun a _ => do g a; return .yield PUnit.unit) := by
  induction as with
  | nil => exact hR.leads_pure _
  | cons a as ih =>
    rw [List.forIn_cons]
    refine hR.leads_bind (hR.leads_bind (h a) fun _ => hR.leads_pure _) fun r => ?_
    cases r with
    | done b => exact hR.leads_pure b
    | yield b => exact ih

theorem leads_print (hR : Routine R) (bs : Bytes) : Leads R (print bs) := fun s => ⟨(), _, rfl, hR.write s _ _⟩

theorem leads_log (hR : Routine R) (context : Log.Context) (record : Log.Record) : Leads R (log context record) :=
  fun s => ⟨(), _, rfl, hR.logged s context record⟩

end Routine

end Step

namespace Run

open Step

variable {R : Session → Session → Prop}

theorem leads_preflight (hR : Routine R) (path : Bytes) : Leads R (preflight path) := by
  refine hR.leads_bind hR.leads_get fun s => ?_
  split_ifs
  · exact hR.leads_bind (hR.leads_print _) fun _ => hR.leads_log _ _
  · exact hR.leads_pure ()

theorem leads_tell (hR : Routine R) (context : Log.Context) (evaluated : List Evaluated) (n : Notice) :
    Leads R (tell context evaluated n) := by
  -- whatever else is told, the record of the notice comes last
  have hrecord : Leads R (do
      forIn n.record?.toList PUnit.unit fun r _ => do
        log context r
        return ForInStep.yield PUnit.unit
      return ()) := hR.leads_bind (hR.leads_forEach _ fun r => hR.leads_log context r) fun _ => hR.leads_pure ()
  unfold tell
  cases n with
  | started job =>
    refine hR.leads_bind (hR.leads_print _) fun _ => ?_
    exact hR.leads_bind (hR.leads_forEach _ fun r => hR.leads_log (Evaluator.context context job) r) fun _ => hrecord
  | finished time result progress => exact hR.leads_bind (hR.leads_print _) fun _ => hrecord
  | warned id warning => exact hrecord
  | unclassified id mode fault => exact hrecord
  | refused id fault => exact hrecord

end Run

end CrateAudit
