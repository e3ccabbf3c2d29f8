import BetProcessor.Rows
import BetProcessor.Processor

namespace BetProcessor
set_option autoImplicit true
open Txn

/-- The ids that an action names. -/
def ProcessAction.ids : ProcessAction → List Uuid
  | .bet x _ | .win x _ => [x]
  | .rollback r o => [r, o]

def ProcessRequest.ids (request : ProcessRequest) : List Uuid :=
  (request.actions.getD []).flatMap ProcessAction.ids

/-- The two databases have the same row of the account and the same rows under the ids. -/
structure Agree (a : Account) (X : List Uuid) (db db' : Db) : Prop where
  account : db.account? a = db'.account? a
  registry : ∀ x ∈ X, db.actionRegistry.filter (·.actionId = x) =
    db'.actionRegistry.filter (·.actionId = x)
  ledger : ∀ x ∈ X, db.ledger.filter (·.actionId = x) = db'.ledger.filter (·.actionId = x)
  intents : ∀ x ∈ X, db.rollbackIntents.filter (·.originalActionId = x) =
    db'.rollbackIntents.filter (·.originalActionId = x)
  intentsBy : ∀ x ∈ X, db.rollbackIntents.filter (·.rollbackActionId = x) =
    db'.rollbackIntents.filter (·.rollbackActionId = x)

/-- A statement about the account and the ids only. -/
def Stmt.Within (a : Account) (X : List Uuid) : Stmt → Prop
  | .insertAccount b | .selectAccountForUpdate b | .updateBalance b _ => b = a
  | .claim input => input.actionId ∈ X
  | .selectIntent x | .selectActionForUpdate x | .updateRolledBack x _ _ _ => x ∈ X
  | .insertAction row => row.actionId ∈ X
  | .insertIntent row => row.originalActionId ∈ X ∧ row.rollbackActionId ∈ X
  | .ensureActionsMonthPartition _ | .insertOutbox _ => True

def Write.Within (a : Account) (X : List Uuid) : Write → Prop
  | .insertAccount row => row.account = a
  | .updateBalance b _ => b = a
  | .insertRegistry row => row.actionId ∈ X
  | .insertAction row => row.actionId ∈ X
  | .insertIntent row => row.originalActionId ∈ X ∧ row.rollbackActionId ∈ X
  | .insertOutbox _ | .updateRolledBack _ _ _ _ => True

/-- The row that a lookup returns has the id looked up. -/
def Answers : (s : Stmt) → s.Reply → Prop
  | .selectActionForUpdate x, r => ∀ e, r = some e → e.actionId = x
  | .insertAccount _, _ | .selectAccountForUpdate _, _ | .claim _, _ | .selectIntent _, _
  | .ensureActionsMonthPartition _, _ | .insertAction _, _ | .insertIntent _, _
  | .updateRolledBack _ _ _ _, _ | .insertOutbox _, _ | .updateBalance _ _, _ => True

theorem exists_mem_iff_filter {l l' : List α} {p : α → Prop} [DecidablePred p]
    (h : l.filter p = l'.filter p) : (∃ x ∈ l, p x) ↔ ∃ x ∈ l', p x := by
  constructor
  · rintro ⟨x, hx, hp⟩
    have hmem : x ∈ l'.filter p := h ▸ List.mem_filter.2 ⟨hx, by simpa using hp⟩
    exact ⟨x, (List.mem_filter.1 hmem).1, hp⟩
  · rintro ⟨x, hx, hp⟩
    have hmem : x ∈ l.filter p := h ▸ List.mem_filter.2 ⟨hx, by simpa using hp⟩
    exact ⟨x, (List.mem_filter.1 hmem).1, hp⟩

namespace Agree
variable {a : Account} {X : List Uuid} {db db' : Db}

theorem refl (a : Account) (X : List Uuid) (db : Db) : Agree a X db db :=
  ⟨rfl, fun _ _ => rfl, fun _ _ => rfl, fun _ _ => rfl, fun _ _ => rfl⟩

theorem trans {db'' : Db} (h : Agree a X db db') (h' : Agree a X db' db'') :
    Agree a X db db'' :=
  ⟨h.account.trans h'.account, fun x hx => (h.registry x hx).trans (h'.registry x hx),
    fun x hx => (h.ledger x hx).trans (h'.ledger x hx),
    fun x hx => (h.intents x hx).trans (h'.intents x hx),
    fun x hx => (h.intentsBy x hx).trans (h'.intentsBy x hx)⟩

theorem apply (w : Write) (h : Agree a X db db') : Agree a X (db.apply w) (db'.apply w) := by
  refine ⟨?_, fun x hx => ?_, fun x hx => ?_, fun x hx => ?_, fun x hx => ?_⟩
  · simp only [Db.apply_account?, h.account]
  · simp only [Db.apply_actionRegistry, List.filter_append, h.registry x hx]
  · simp only [Db.apply_ledger, List.filter_append, h.ledger x hx]
  · simp only [Db.apply_rollbackIntents, List.filter_append, h.intents x hx]
  · simp only [Db.apply_rollbackIntents, List.filter_append, h.intentsBy x hx]

theorem foreign {b : Account} {Y : List Uuid} {w : Write} (db : Db) (hab : a ≠ b)
    (hXY : ∀ x ∈ X, x ∉ Y) (hw : w.Within b Y) : Agree a X db (db.apply w) := by
  have hne : ∀ {x y : Uuid}, x ∈ X → y ∈ Y → y ≠ x := fun hx hy h => hXY _ hx (h ▸ hy)
  refine ⟨?_, fun x hx => ?_, fun x hx => ?_, fun x hx => ?_, fun x hx => ?_⟩
  · rw [Db.apply_account?]
    cases w with
    | insertAccount row =>
      obtain rfl : row.account = b := hw
      simp [Write.onAccount, Ne.symm hab]
    | updateBalance b' v =>
      obtain rfl : b' = b := hw
      have hset : ∀ row ∈ db.account? a, row = row.setBalance b' v := by
        intro row hrow
        have hacc : row.account = a := by simpa using List.find?_some hrow
        rw [AccountRow.setBalance, if_neg (by rw [hacc]; exact hab)]
      cases hrow : db.account? a with
      | none => rfl
      | some row => exact congrArg some (hset row hrow)
    | _ => rfl
  · cases w <;> simp_all [Write.registryRows, Write.Within]
  · cases w <;> simp_all [Write.ledgerRows, Write.Within]
  · cases w <;> simp_all [Write.intentRows, Write.Within]
  · cases w <;> simp_all [Write.intentRows, Write.Within]

theorem registered (h : Agree a X db db') {x : Uuid} (hx : x ∈ X) :
    db.Registered x ↔ db'.Registered x := exists_mem_iff_filter (h.registry x hx)

theorem hasIntent (h : Agree a X db db') {x : Uuid} (hx : x ∈ X) :
    db.HasIntent x ↔ db'.HasIntent x := exists_mem_iff_filter (h.intents x hx)

theorem hasIntentBy (h : Agree a X db db') {x : Uuid} (hx : x ∈ X) :
    db.HasIntentBy x ↔ db'.HasIntentBy x := exists_mem_iff_filter (h.intentsBy x hx)

theorem original? (h : Agree a X db db') {x : Uuid} (hx : x ∈ X) :
    db.original? x = db'.original? x := by
  have hreg : db.actionRegistry.find? (·.actionId = x) =
      db'.actionRegistry.find? (·.actionId = x) := by
    rw [← List.head?_filter, ← List.head?_filter, h.registry x hx]
  have hled : ∀ t, (db.ledger.find? fun r => r.actionId = x ∧ r.createdAt = t) =
      db'.ledger.find? fun r => r.actionId = x ∧ r.createdAt = t := by
    intro t
    have hf := congrArg (List.find? fun r => r.createdAt = t) (h.ledger x hx)
    simpa only [List.find?_filter, Bool.decide_and, decide_eq_true_eq] using hf
  simp only [Db.original?, hreg, hled]

theorem marked (h : Agree a X db db') {x : Uuid} (hx : x ∈ X) (t : Int) :
    (∃ row ∈ db.actions, row.actionId = x ∧ row.createdAt = t) ↔
      ∃ row ∈ db'.actions, row.actionId = x ∧ row.createdAt = t := by
  have hcore : ∀ db : Db, (∃ row ∈ db.actions, row.actionId = x ∧ row.createdAt = t) ↔
      ∃ row ∈ db.ledger, row.actionId = x ∧ row.createdAt = t := by
    intro db
    simp [Db.ledger]
  rw [hcore, hcore]
  apply exists_mem_iff_filter
  have hf := congrArg (List.filter fun r => decide (r.createdAt = t)) (h.ledger x hx)
  simpa only [List.filter_filter, Bool.decide_and, Bool.and_comm] using hf

end Agree

theorem Db.action?_actionId {db : Db} {x : Uuid} {r : ActionRow} (h : db.action? x = some r) :
    r.actionId = x := by
  obtain ⟨g, _, hr⟩ := Option.bind_eq_some_iff.1 h
  have hp := List.find?_some hr
  simp only [decide_eq_true_eq] at hp
  exact hp.1

theorem Stmt.eval_agree {a : Account} {X : List Uuid} {s : Stmt} {snap cur snap' cur' : Db}
    (hs : s.Within a X) (h : Agree a X snap snap') (h' : Agree a X cur cur') :
    s.eval snap cur = s.eval snap' cur' := by
  cases s with
  | insertAccount b =>
    obtain rfl : b = a := hs
    simp only [Stmt.eval, h'.account]
  | selectAccountForUpdate b =>
    obtain rfl : b = a := hs
    simp only [Stmt.eval, h.account, h'.account]
  | claim input =>
    simp only [Stmt.eval, h'.registered hs, h.registry _ hs]
  | selectIntent x =>
    simp only [Stmt.eval, h.intents _ hs]
  | selectActionForUpdate x =>
    simp only [Stmt.eval, Db.action?_isSome, Db.action?_existing, h.original? hs,
      h'.original? hs]
  | ensureActionsMonthPartition t => rfl
  | insertAction row =>
    simp only [Stmt.eval, h'.registered hs]
  | insertIntent row =>
    simp only [Stmt.eval, h'.hasIntent hs.1, h'.hasIntentBy hs.2, h'.registered hs.2]
  | updateRolledBack x t r now =>
    simp only [Stmt.eval, h.marked hs]
  | insertOutbox row => rfl
  | updateBalance b v =>
    obtain rfl : b = a := hs
    simp only [Stmt.eval, h.account]

theorem Stmt.eval_within {a : Account} {X : List Uuid} {s : Stmt} {snap cur : Db}
    {r : s.Reply} {ws : List Write} (hs : s.Within a X) (h : s.eval snap cur = .ok (r, ws)) :
    Answers s r ∧ ∀ w ∈ ws, w.Within a X := by
  cases s with
  | selectActionForUpdate x =>
    simp only [Stmt.eval] at h
    split at h
    · cases h
      refine ⟨?_, by simp⟩
      intro e he
      obtain ⟨row, hrow, rfl⟩ := Option.map_eq_some_iff.1 he
      exact Db.action?_actionId hrow
    · cases h
      exact ⟨by simp [Answers], by simp⟩
  | insertAccount | selectAccountForUpdate | claim | selectIntent | ensureActionsMonthPartition
  | insertAction | insertIntent | updateRolledBack | insertOutbox | updateBalance =>
    simp only [Stmt.eval] at h
    refine ⟨trivial, ?_⟩
    repeat' split at h
    all_goals cases h
    all_goals simp_all [Stmt.Within, Write.Within, ClaimInput.registryRow]

end BetProcessor
