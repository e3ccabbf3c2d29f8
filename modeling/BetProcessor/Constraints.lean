import BetProcessor.Txn.Issued
import BetProcessor.Batches

namespace BetProcessor
set_option autoImplicit true
open Txn

/-- The constraints of the schema on the tables of the requests.  The columns that may not be
`NULL` and the `CHECK`s that list values are in the types of the rows. -/
structure Db.Constraints (db : Db) : Prop where
  accounts_pkey : (db.accounts.map (·.account)).Nodup
  accounts_balance_check : ∀ row ∈ db.accounts, 0 ≤ row.balance
  action_registry_pkey : (db.actionRegistry.map (·.actionId)).Nodup
  action_registry_tx_id_key : (db.actionRegistry.map (·.txId)).Nodup
  actions_action_id_fkey : ∀ row ∈ db.actions, db.Registered row.actionId
  actions_check : ∀ row ∈ db.actions, row.Check
  rollback_intents_pkey : (db.rollbackIntents.map (·.originalActionId)).Nodup
  rollback_intents_rollback_action_id_key : (db.rollbackIntents.map (·.rollbackActionId)).Nodup
  rollback_intents_rollback_action_id_fkey : ∀ t ∈ db.rollbackIntents,
    db.Registered t.rollbackActionId

/-- The texts of the statement are those of the request. -/
def Stmt.Carries (request : ProcessRequest) : Stmt → Prop
  | .insertAccount a => a = request.account
  | .claim input => input.account = request.account
  | .insertAction row =>
    row.account = request.account ∧ row.game = request.game ∧ row.gameId = request.gameId
  | _ => True

/-- The statement carries the texts of the request, succeeds and leaves every constraint
satisfied. -/
def Stmt.Obeys (request : ProcessRequest) (s : Stmt) (db : Db) : Prop :=
  s.Carries request ∧ ∃ r ws, s.eval db db = .ok (r, ws) ∧ (postgres.view db ws).Constraints

/-- The ways in which a request may fail: the answer about the funds, or a number that no column
holds. -/
def Service.Fails (svc : Service) (e : Err) : Prop :=
  e = .insufficientFunds ∨ e = .outOfRange ∧ ∃ x, svc.bind x = none

/-- Alone on the tables `V`, every statement of the body obeys the constraints, and the body fails
in no other way. -/
abbrev Clean (svc : Service) (request : ProcessRequest) (p : Tx α) (V : Db) : Prop :=
  postgres.Issues (Stmt.Obeys request) svc.Fails p V

namespace Db.Constraints
variable {V : Db}

theorem insertOutbox (h : V.Constraints) (out : OutboxRow) :
    (postgres.view V [.insertOutbox out]).Constraints :=
  ⟨h.accounts_pkey, h.accounts_balance_check, h.action_registry_pkey, h.action_registry_tx_id_key,
    h.actions_action_id_fkey, h.actions_check, h.rollback_intents_pkey,
    h.rollback_intents_rollback_action_id_key, h.rollback_intents_rollback_action_id_fkey⟩

theorem insertAccount (h : V.Constraints) {a : Account} (hnew : ¬ (V.account? a).isSome) :
    (postgres.view V [.insertAccount ⟨a, 0⟩]).Constraints where
  accounts_pkey := by
    apply nodup_map_snoc h.accounts_pkey
    intro row hrow he
    apply hnew
    rw [Db.account?, List.find?_isSome]
    exact ⟨row, hrow, decide_eq_true he⟩
  accounts_balance_check row hrow := by
    rcases List.mem_append.1 hrow with hrow | hrow
    · exact h.accounts_balance_check row hrow
    · rw [List.mem_singleton.1 hrow]
  action_registry_pkey := h.action_registry_pkey
  action_registry_tx_id_key := h.action_registry_tx_id_key
  actions_action_id_fkey := h.actions_action_id_fkey
  actions_check := h.actions_check
  rollback_intents_pkey := h.rollback_intents_pkey
  rollback_intents_rollback_action_id_key := h.rollback_intents_rollback_action_id_key
  rollback_intents_rollback_action_id_fkey := h.rollback_intents_rollback_action_id_fkey

theorem insertRegistry (h : V.Constraints) {g : RegistryRow} (hnew : ¬ V.Registered g.actionId)
    (htx : ∀ g' ∈ V.actionRegistry, g'.txId ≠ g.txId) :
    (postgres.view V [.insertRegistry g]).Constraints := by
  have hgrow : ∀ {x}, V.Registered x → (postgres.view V [.insertRegistry g]).Registered x := by
    rintro x ⟨g', hg', hid⟩
    exact ⟨g', List.mem_append_left _ hg', hid⟩
  exact ⟨h.accounts_pkey, h.accounts_balance_check,
    nodup_map_snoc h.action_registry_pkey fun g' hg' hid => hnew ⟨g', hg', hid⟩,
    nodup_map_snoc h.action_registry_tx_id_key htx,
    fun row hrow => hgrow (h.actions_action_id_fkey row hrow), h.actions_check,
    h.rollback_intents_pkey, h.rollback_intents_rollback_action_id_key,
    fun t ht => hgrow (h.rollback_intents_rollback_action_id_fkey t ht)⟩

theorem insertAction (h : V.Constraints) {row : ActionRow} (hreg : V.Registered row.actionId)
    (hcheck : row.Check) : (postgres.view V [.insertAction row]).Constraints where
  accounts_pkey := h.accounts_pkey
  accounts_balance_check := h.accounts_balance_check
  action_registry_pkey := h.action_registry_pkey
  action_registry_tx_id_key := h.action_registry_tx_id_key
  actions_action_id_fkey row' hrow' := by
    rcases List.mem_append.1 hrow' with hrow' | hrow'
    · exact h.actions_action_id_fkey row' hrow'
    · rw [List.mem_singleton.1 hrow']
      exact hreg
  actions_check row' hrow' := by
    rcases List.mem_append.1 hrow' with hrow' | hrow'
    · exact h.actions_check row' hrow'
    · rw [List.mem_singleton.1 hrow']
      exact hcheck
  rollback_intents_pkey := h.rollback_intents_pkey
  rollback_intents_rollback_action_id_key := h.rollback_intents_rollback_action_id_key
  rollback_intents_rollback_action_id_fkey := h.rollback_intents_rollback_action_id_fkey

theorem insertIntent (h : V.Constraints) {t : IntentRow} (hno : ¬ V.HasIntent t.originalActionId)
    (hby : ¬ V.HasIntentBy t.rollbackActionId) (hreg : V.Registered t.rollbackActionId) :
    (postgres.view V [.insertIntent t]).Constraints where
  accounts_pkey := h.accounts_pkey
  accounts_balance_check := h.accounts_balance_check
  action_registry_pkey := h.action_registry_pkey
  action_registry_tx_id_key := h.action_registry_tx_id_key
  actions_action_id_fkey := h.actions_action_id_fkey
  actions_check := h.actions_check
  rollback_intents_pkey := nodup_map_snoc h.rollback_intents_pkey fun t' ht' hid =>
    hno ⟨t', ht', hid⟩
  rollback_intents_rollback_action_id_key :=
    nodup_map_snoc h.rollback_intents_rollback_action_id_key fun t' ht' hid => hby ⟨t', ht', hid⟩
  rollback_intents_rollback_action_id_fkey t' ht' := by
    rcases List.mem_append.1 ht' with ht' | ht'
    · exact h.rollback_intents_rollback_action_id_fkey t' ht'
    · rw [List.mem_singleton.1 ht']
      exact hreg

theorem updateRolledBack (h : V.Constraints) (x : Uuid) (t : Int) (r : Uuid) (now : Int) :
    (postgres.view V [.updateRolledBack x t r now]).Constraints where
  accounts_pkey := h.accounts_pkey
  accounts_balance_check := h.accounts_balance_check
  action_registry_pkey := h.action_registry_pkey
  action_registry_tx_id_key := h.action_registry_tx_id_key
  actions_action_id_fkey row' hrow' := by
    obtain ⟨row, hrow, rfl⟩ := List.mem_map.1 hrow'
    rw [ActionRow.setRolledBack]
    split
    · exact h.actions_action_id_fkey row hrow
    · exact h.actions_action_id_fkey row hrow
  actions_check row' hrow' := by
    obtain ⟨row, hrow, rfl⟩ := List.mem_map.1 hrow'
    rw [ActionRow.setRolledBack]
    split
    · exact h.actions_check row hrow
    · exact h.actions_check row hrow
  rollback_intents_pkey := h.rollback_intents_pkey
  rollback_intents_rollback_action_id_key := h.rollback_intents_rollback_action_id_key
  rollback_intents_rollback_action_id_fkey := h.rollback_intents_rollback_action_id_fkey

theorem updateBalance (h : V.Constraints) (a : Account) {b : Int} (hb : 0 ≤ b) :
    (postgres.view V [.updateBalance a b]).Constraints where
  accounts_pkey := by
    rw [Db.view_accounts]
    simpa [Write.newAccounts] using h.accounts_pkey
  accounts_balance_check row' hrow' := by
    obtain ⟨row, hrow, rfl⟩ := List.mem_map.1 hrow'
    rw [AccountRow.setBalance]
    split
    · exact hb
    · exact h.accounts_balance_check row hrow
  action_registry_pkey := h.action_registry_pkey
  action_registry_tx_id_key := h.action_registry_tx_id_key
  actions_action_id_fkey := h.actions_action_id_fkey
  actions_check := h.actions_check
  rollback_intents_pkey := h.rollback_intents_pkey
  rollback_intents_rollback_action_id_key := h.rollback_intents_rollback_action_id_key
  rollback_intents_rollback_action_id_fkey := h.rollback_intents_rollback_action_id_fkey

theorem balance_nonneg (h : V.Constraints) (a : Account) : 0 ≤ V.balance a := by
  rw [Db.balance]
  cases hrow : V.account? a with
  | none => exact le_refl _
  | some row => exact h.accounts_balance_check row (List.mem_of_find?_eq_some hrow)

end Db.Constraints

namespace Clean
variable {c : Call} {V : Db} {b : Int} {svc : Service} {request : ProcessRequest}

/-- A statement that succeeds, obeys the constraints, and after which the rest is clean. -/
theorem query {s : Stmt} {r : s.Reply} {ws : List Write} {f : s.Reply → Tx α}
    (hs : s.Carries request) (he : s.eval V V = .ok (r, ws)) (h : (postgres.view V ws).Constraints)
    (hf : Clean svc request (f r) (postgres.view V ws)) : Clean svc request (query s >>= f) V := by
  constructor
  · exact ⟨hs, r, ws, he, h⟩
  · intro r' ws' he'
    cases he.symm.trans he'
    exact hf

theorem constraints {p : Tx α} {a : α} {V' : Db} (h : Clean svc request p V) (hV : V.Constraints)
    (he : postgres.exec p V = .ok (a, V')) : V'.Constraints := by
  apply Engine.Issues.keeps (J := Db.Constraints) h hV _ he
  intro s V r ws hs _ heval
  obtain ⟨_, r', ws', heval', hview⟩ := hs
  cases heval'.symm.trans heval
  exact hview

theorem bigint {x : Int} {f : Int → Tx α}
    (hf : ∀ v, svc.bind x = some v → Clean svc request (f v) V) :
    Clean svc request (bigint svc x >>= f) V := by
  unfold BetProcessor.bigint
  cases hx : svc.bind x with
  | none => exact Or.inr ⟨rfl, x, hx⟩
  | some v => exact hf v hx

theorem enqueueRtpDelta (h : V.Constraints) (delta : RtpOutboxDelta) {f : Unit → Tx α}
    (hf : ∀ out, Clean svc request (f ()) (postgres.view V [.insertOutbox out])) :
    Clean svc request (enqueueRtpDelta svc delta >>= f) V := by
  unfold BetProcessor.enqueueRtpDelta
  simp only [Prog.bind_assoc]
  apply bigint
  intro totalBetDelta _
  apply bigint
  intro totalWinDelta _
  apply bigint
  intro roundsDelta _
  apply bigint
  intro rollbackCountDelta _
  apply bigint
  intro rolledBackBetDelta _
  apply bigint
  intro rolledBackWinDelta _
  exact query trivial rfl (h.insertOutbox _) (hf _)

theorem enqueueRemoveAppliedOriginal (h : V.Constraints) {t : Int} {a : Account}
    {type : ActionType} {amount : Int} {f : Unit → Tx α}
    (hf : ∀ {W : Db}, W.Constraints → Clean svc request (f ()) W) :
    Clean svc request (enqueueRemoveAppliedOriginal svc t a type amount >>= f) V := by
  unfold BetProcessor.enqueueRemoveAppliedOriginal
  split
  · exact hf h
  · exact enqueueRtpDelta h _ fun out => hf (h.insertOutbox out)

theorem ensureActionPartition (h : V.Constraints) (t : Int) {f : Unit → Tx α}
    (hf : Clean svc request (f ()) V) : Clean svc request (ensureActionPartition t >>= f) V :=
  query trivial rfl h hf

theorem insertAction (h : V.Constraints) {row : ActionRow}
    (hs : (Stmt.insertAction row).Carries request) (hreg : V.Registered row.actionId)
    (hcheck : row.Check) {f : Int → Tx α}
    (hf : Clean svc request (f row.createdAt) (postgres.view V [.insertAction row])) :
    Clean svc request (BetProcessor.query (.insertAction row) >>= f) V :=
  query hs (by rw [Stmt.eval, if_neg (not_not.2 hreg), if_neg (not_not.2 hcheck)])
    (h.insertAction hreg hcheck) hf

theorem updateRolledBack (h : V.Constraints) {x : Uuid} {t : Int} {r : Uuid} {now : Int}
    {f : Unit → Tx α} (hf : ∀ {W : Db}, W.Constraints → Clean svc request (f ()) W) :
    Clean svc request (BetProcessor.query (.updateRolledBack x t r now) >>= f) V := by
  by_cases hrow : ∃ row ∈ V.actions, row.actionId = x ∧ row.createdAt = t
  · exact query trivial (if_pos hrow) (h.updateRolledBack x t r now)
      (hf (h.updateRolledBack x t r now))
  · exact query trivial (if_neg hrow) h (hf h)

theorem findActionForUpdate (h : V.Constraints) {x : Uuid} {f : Option ExistingAction → Tx α}
    (hf : ∀ found, Clean svc request (f found) V) :
    Clean svc request (findActionForUpdate svc x >>= f) V := by
  have heval : ∃ found, (Stmt.selectActionForUpdate x).eval V V = .ok (found, []) := by
    rw [Stmt.eval]
    split
    · exact ⟨_, rfl⟩
    · exact ⟨_, rfl⟩
  obtain ⟨found, heval⟩ := heval
  unfold BetProcessor.findActionForUpdate
  rw [Prog.bind_assoc]
  apply query (s := .selectActionForUpdate x) trivial heval h
  cases found with
  | none => exact hf none
  | some row => exact hf (some _)

theorem selectIntent (h : V.Constraints) {o : Uuid} {f : List Uuid → Tx α}
    (hf : ∀ rows : List Uuid, (0 < rows.length ↔ V.HasIntent o) → Clean svc request (f rows) V) :
    Clean svc request (BetProcessor.query (.selectIntent o) >>= f) V := by
  have heval : (Stmt.selectIntent o).eval V V = .ok ((V.rollbackIntents.filter
      (·.originalActionId = o)).map (·.rollbackActionId), []) := rfl
  exact query trivial heval h (hf _ length_selectIntent)

theorem insertOriginal {type : ActionType} {x : Uuid} {amount delta : Int} {status : Status}
    (h : V.Constraints) (enqueue : Int → Tx Unit) (result : ProcessedAction)
    (htype : type ≠ .rollback) (hreg : V.Registered x) (hpos : 0 < amount)
    (hf : ∀ {W : Db}, W.Constraints → ∀ t,
      Clean c.svc c.request (enqueue t >>= fun _ => pure result) W) :
    Clean c.svc c.request (do
      BetProcessor.ensureActionPartition (c.claimedAt x)
      let v ← BetProcessor.bigint c.svc amount
      let d ← BetProcessor.bigint c.svc delta
      let insertedAt ← BetProcessor.query (.insertAction (c.originalRow type x v d status))
      enqueue insertedAt
      pure result) V := by
  apply ensureActionPartition h
  apply bigint
  intro v hv
  apply bigint
  intro d _
  have hcheck : (c.originalRow type x v d status).Check :=
    (originalRow_check htype).2 (c.svc.bind_pos hpos hv)
  exact insertAction h ⟨rfl, rfl, rfl⟩ hreg hcheck (hf (h.insertAction hreg hcheck) _)

theorem processBetOrWin {type : ActionType} {x : Uuid} {amount : Int} (h : V.Constraints)
    (htype : type ≠ .rollback) (hreg : V.Registered x) (hpos : 0 < amount)
    (hrefuses : c.svc.refuses amount = false) :
    Clean c.svc c.request (processBetOrWin c.svc c.request x type amount (c.claimed x) b) V := by
  have hno : ¬ c.svc.refuses amount = true := by
    rw [hrefuses]
    exact Bool.false_ne_true
  rw [BetProcessor.processBetOrWin, if_neg hno]
  dsimp only
  apply selectIntent h
  intro rows _
  by_cases hseen : 0 < rows.length
  · simp only [if_pos hseen]
    split
    · exact Or.inl rfl
    · apply insertOriginal h (fun t => enqueueRolledBackOriginal c.svc (c.svc.date t) c.account
        type amount) ⟨_, c.draws.txId x⟩ htype hreg hpos
      intro W hW t
      exact enqueueRtpDelta hW _ fun _ => trivial
  · simp only [if_neg hseen]
    split
    · exact Or.inl rfl
    · apply insertOriginal h (fun t => enqueueAppliedOriginal c.svc (c.svc.date t) c.account
        type amount) ⟨_, c.draws.txId x⟩ htype hreg hpos
      intro W hW t
      exact enqueueRtpDelta hW _ fun _ => trivial

theorem insertRolbackAction {r o : Uuid} {delta : Int} {status : Status}
    {f : InsertedRollback → Tx α} (h : V.Constraints) (hreg : V.Registered r)
    (hf : ∀ d inserted, (postgres.view V [.insertAction (c.rollbackRow r o d status)]).Constraints →
      Clean c.svc c.request (f inserted)
        (postgres.view V [.insertAction (c.rollbackRow r o d status)])) :
    Clean c.svc c.request
      (insertRolbackAction c.svc c.request r o (c.claimed r) delta status >>= f) V := by
  unfold BetProcessor.insertRolbackAction
  simp only [Prog.bind_assoc]
  apply ensureActionPartition h
  apply bigint
  intro d _
  have hreg' : V.Registered (c.rollbackRow r o d status).actionId := hreg
  have hcheck : (c.rollbackRow r o d status).Check := trivial
  exact insertAction h ⟨rfl, rfl, rfl⟩ hreg' hcheck (hf d _ (h.insertAction hreg' hcheck))

theorem insertRecorded {r o : Uuid} {delta : Int} {status : Status}
    {f : InsertedRollback → Tx α} (h : V.Constraints) (hreg : V.Registered r)
    (hno : ¬ V.HasIntent o) (hby : ¬ V.HasIntentBy r)
    (hf : ∀ {W : Db}, W.Constraints → ∀ inserted, Clean c.svc c.request (f inserted) W) :
    Clean c.svc c.request (do
      let inserted ← BetProcessor.insertRolbackAction c.svc c.request r o (c.claimed r) delta status
      insertRollbackIntent o r c.request.account
      f inserted) V := by
  apply insertRolbackAction h hreg
  intro d inserted hW
  have hconstraints := hW.insertIntent (t := ⟨o, r, c.account⟩) hno hby hreg
  exact query trivial (if_neg (not_or.2 ⟨hno, hby⟩) |>.trans (if_neg (not_not.2 hreg))) hconstraints
    (hf hconstraints inserted)

theorem enqueueRollbackCount (h : V.Constraints) (t : Int) {r : α} :
    Clean svc request (enqueueRollbackCount svc t c.account >>= fun _ => (pure r : Tx α)) V :=
  enqueueRtpDelta h _ fun _ => trivial

theorem processRolback {r o : Uuid} (h : V.Constraints) (hreg : V.Registered r)
    (hby : ¬ V.HasIntentBy r) :
    Clean c.svc c.request (processRolback c.svc c.draws c.request r o (c.claimed r) b) V := by
  unfold BetProcessor.processRolback
  apply selectIntent h
  intro rows hrows
  split
  · exact insertRolbackAction h hreg fun _ _ _ => trivial
  · rename_i hneg
    have hno : ¬ V.HasIntent o := hrows.not.1 hneg
    apply findActionForUpdate h
    intro found
    cases found with
    | none => exact insertRecorded h hreg hno hby fun hW _ => enqueueRollbackCount hW _
    | some original =>
      dsimp only
      split
      · exact insertRecorded h hreg hno hby fun hW _ => enqueueRollbackCount hW _
      split
      · exact Or.inl rfl
      · apply insertRecorded h hreg hno hby
        intro W hW inserted
        apply updateRolledBack hW
        intro W hW
        apply enqueueRemoveAppliedOriginal hW
        intro W hW
        exact enqueueRollbackCount hW _

end Clean
end BetProcessor
