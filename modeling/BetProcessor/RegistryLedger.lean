import BetProcessor.ConcurrentRuns
import BetProcessor.Replay

namespace BetProcessor
set_option autoImplicit true
open Txn

/-- What a service makes of the columns of an original. -/
def ExistingAction.read (svc : Service) (e : ExistingAction) : ExistingAction :=
  { e with
    amount := e.amount.map svc.load
    balanceDelta := svc.load e.balanceDelta
    createdAt := svc.date e.createdAt }

theorem filter_of_unique {l : List α} {f : α → β} [DecidableEq β] {x : α}
    (h : (l.map f).Nodup) (hx : x ∈ l) : l.filter (fun y => f y = f x) = [x] := by
  have hmem : ∀ y ∈ l.filter (fun y => f y = f x), y = x := by
    intro y hy
    obtain ⟨hy, hfy⟩ := List.mem_filter.1 hy
    exact List.inj_on_of_nodup_map h hy hx (of_decide_eq_true hfy)
  have hnodup : (l.filter (fun y => f y = f x)).Nodup := h.of_map.filter _
  apply List.perm_singleton.1
  rw [List.perm_ext_iff_of_nodup hnodup (List.nodup_singleton x)]
  intro y
  rw [List.mem_singleton]
  constructor
  · exact hmem y
  · rintro rfl
    exact List.mem_filter.2 ⟨hx, decide_eq_true rfl⟩

namespace Db.Consistent
variable {db : Db} {x : Uuid}

theorem actions_nodup (h : db.Consistent) : (db.actions.map (·.actionId)).Nodup := by
  have hledger := h.ledger_nodup
  rw [Db.ledger, List.map_map] at hledger
  exact hledger

theorem action_registered (h : db.Consistent) {r : ActionRow} (hr : r ∈ db.actions) :
    r.registry ∈ db.actionRegistry := h.registered r.core (db.mem_ledger hr)

theorem action_recorded (h : db.Consistent) {g : RegistryRow} (hg : g ∈ db.actionRegistry) :
    ∃ r, r.registry = g ∧ db.actions.filter (·.actionId = g.actionId) = [r] := by
  obtain ⟨r', hr', rfl⟩ := h.recorded g hg
  obtain ⟨r, hr, rfl⟩ := db.exists_of_mem_ledger hr'
  exact ⟨r, rfl, filter_of_unique h.actions_nodup hr⟩

theorem action?_of_mem (h : db.Consistent) {r : ActionRow} (hr : r ∈ db.actions) :
    db.action? r.actionId = some r := by
  have hfind : db.actionRegistry.find? (·.actionId = r.actionId) = some r.registry := by
    apply find?_of_unique (h.action_registered hr) (decide_eq_true rfl)
    intro g hg hid
    exact List.inj_on_of_nodup_map h.registry_nodup hg (h.action_registered hr)
      (of_decide_eq_true hid)
  rw [Db.action?, hfind]
  apply find?_of_unique hr (by simp [ActionRow.registry])
  intro r' hr' hid
  exact List.inj_on_of_nodup_map h.actions_nodup hr' hr (of_decide_eq_true hid).1

theorem action?_eq_none (hx : ¬ db.Registered x) : db.action? x = none := by
  have hfind : db.actionRegistry.find? (·.actionId = x) = none :=
    List.find?_eq_none.2 fun g hg hid => hx ⟨g, hg, of_decide_eq_true hid⟩
  rw [Db.action?, hfind]
  rfl

end Db.Consistent

theorem exec_findActionForUpdate (svc : Service) (x : Uuid) (db : Db) :
    postgres.exec (findActionForUpdate svc x) db =
      .ok ((db.action? x).map fun r => r.existing.read svc, db) := by
  have heval : (Stmt.selectActionForUpdate x).eval db db =
      .ok ((db.action? x).map (·.existing), []) := by
    rw [Stmt.eval]
    cases db.action? x <;> rfl
  rw [findActionForUpdate]
  apply (exec_query heval).trans
  cases db.action? x <;> rfl

/-- Registry and ledger are in bijection in every committed state of any concurrent requests, and
the lookup of an original finds the one ledger row of every processed id. -/
theorem registry_ledger_bijection {ι : Type} [Fintype ι] [DecidableEq ι] (calls : ι → Call)
    {db₀ : Db} (h₀ : db₀.Initial) {ls : List (Label ι Stmt Err)} {c : Requests ι}
    (hr : postgres.Run (fun _ _ => True) (.init (fun i => (calls i).body) db₀) ls c) :
    (∀ g ∈ c.db.actionRegistry, c.db.actionRegistry.filter (·.actionId = g.actionId) = [g] ∧
      ∃ r, r.registry = g ∧ c.db.actions.filter (·.actionId = g.actionId) = [r]) ∧
    (∀ r ∈ c.db.actions, r.registry ∈ c.db.actionRegistry) ∧
    ∀ svc x, (c.db.Registered x → ∃ r, c.db.actions.filter (·.actionId = x) = [r] ∧
        postgres.exec (findActionForUpdate svc x) c.db =
          .ok (some (r.existing.read svc), c.db)) ∧
      (¬ c.db.Registered x →
        postgres.exec (findActionForUpdate svc x) c.db = .ok (none, c.db)) := by
  have hcons : c.db.Consistent :=
    Agreement.keeping_inv (fun h hp hc => h.commit hp hc) h₀.consistent hr
  refine ⟨?_, fun r hrow => hcons.action_registered hrow, fun svc x => ⟨?_, ?_⟩⟩
  · intro g hg
    exact ⟨filter_of_unique hcons.registry_nodup hg, hcons.action_recorded hg⟩
  · rintro ⟨g, hg, rfl⟩
    obtain ⟨r, rfl, hfilter⟩ := hcons.action_recorded hg
    have hrow : r ∈ c.db.actions := (List.mem_filter.1 (hfilter ▸ List.mem_cons_self ..)).1
    refine ⟨r, hfilter, ?_⟩
    rw [exec_findActionForUpdate]
    rw [show r.registry.actionId = r.actionId from rfl, hcons.action?_of_mem hrow]
    rfl
  · intro hx
    rw [exec_findActionForUpdate, Db.Consistent.action?_eq_none hx]
    rfl

/-- A bet, a win of another account under the same id and the rollback of the bet. -/
def sharedId (i : Fin 3) : Call :=
  if i.val = 0 then dollars typescript "a" [.bet 1 60]
  else if i.val = 1 then dollars rust "b" [.win 1 5]
  else dollars rust "a" [.rollback 2 1]

theorem sharedId_bijection : ∃ ls c,
    postgres.Run (fun _ _ => True) (.init (fun i => (sharedId i).body) twoUsers) ls c ∧
    c.db.actionRegistry.length = 2 ∧ ∀ r ∈ c.db.actions, r.registry ∈ c.db.actionRegistry := by
  obtain ⟨ls, c, hr, hlength⟩ := Engine.Run.exists_of_drive postgres
    (c := .init (fun i => (sharedId i).body) twoUsers)
    ([0, 1, 2] ++ List.replicate 16 0 ++ List.replicate 8 1 ++ List.replicate 24 2)
    (p := fun r => decide (r.2.db.actionRegistry.length = 2)) (by decide +kernel)
  exact ⟨ls, c, hr, of_decide_eq_true hlength,
    (registry_ledger_bijection sharedId twoUsers_initial hr).2.1⟩

end BetProcessor
