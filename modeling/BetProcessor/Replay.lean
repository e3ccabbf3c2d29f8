import BetProcessor.SerialRuns

namespace BetProcessor
set_option autoImplicit true
open Txn

/-- The first occurrences of the ids that are not in `seen`. -/
def freshActions (seen : List Uuid) : List ProcessAction → List ProcessAction
  | [] => []
  | action :: rest =>
    if action.actionId ∈ seen then freshActions seen rest
    else action :: freshActions (action.actionId :: seen) rest

/-- What is left of some actions without those registered already and without repetitions. -/
def Db.newActions (db : Db) (actions : List ProcessAction) : List ProcessAction :=
  freshActions (db.actionRegistry.map (·.actionId)) actions

/-- The same request with other actions. -/
def Call.withActions (c : Call) (actions : List ProcessAction) : Call :=
  { c with request := { c.request with actions := some actions } }

theorem mem_registered {db : Db} {x : Uuid} :
    x ∈ db.actionRegistry.map (·.actionId) ↔ db.Registered x := List.mem_map

theorem exec_query {s : Stmt} {f : s.Reply → Tx α} {db : Db} {r : s.Reply} {ws : List Write}
    (h : s.eval db db = .ok (r, ws)) :
    postgres.exec (query s >>= f) db = postgres.exec (f r) (postgres.view db ws) :=
  postgres.exec_exec h

section
variable {c : Call} {db : Db} {x : Uuid} {α : Type} {g : ClaimResult → Tx α}

theorem exec_claim_registered (hx : db.Registered x) :
    ∃ t, postgres.exec (claimAtcion c.svc c.draws x c.account >>= g) db =
      postgres.exec (g (.duplicate t)) db := by
  obtain ⟨g', hg', hid⟩ := hx
  have hmem : g' ∈ db.actionRegistry.filter (·.actionId = x) :=
    List.mem_filter.2 ⟨hg', by simpa using hid⟩
  cases hrows : db.actionRegistry.filter (·.actionId = x) with
  | nil =>
    rw [hrows] at hmem
    cases hmem
  | cons row rest =>
    refine ⟨row.txId, ?_⟩
    rw [claimAtcion]
    rw [Prog.bind_assoc, exec_query (by rw [Stmt.eval, if_pos ⟨g', hg', hid⟩, hrows])]
    rfl

theorem exec_claim_new (hx : ¬ db.Registered x) :
    postgres.exec (claimAtcion c.svc c.draws x c.account >>= g) db =
      postgres.exec (g (.claimed (c.claimed x)))
        (postgres.view db [.insertRegistry (c.registryRow x)]) := by
  have hdate : c.claimed x = ⟨x, c.draws.txId x, c.svc.date (c.claimedAt x), c.accountHash⟩ := by
    rw [Call.claimedAt, c.svc.date_stamp]
    rfl
  rw [claimAtcion]
  rw [Prog.bind_assoc, exec_query (by rw [Stmt.eval, if_neg hx]), hdate]
  rfl

theorem Outcome.registryRows {past : Moment → Prop} {ws new : List Write} {b b' : Int}
    {action : ProcessAction} (h : Outcome past c ws b action new b') :
    new.flatMap Write.registryRows = [] := by
  cases h with
  | reversed hrow hst hne hb hd hfree hmarks hremoval =>
    rw [List.flatMap_eq_nil_iff]
    intro w hw
    simp only [List.mem_cons, List.mem_append, List.mem_map, List.not_mem_nil, or_false] at hw
    rcases hw with rfl | rfl | (hw | ⟨out, _, rfl⟩) | rfl
    · rfl
    · rfl
    · obtain ⟨_, _, _, _, rfl⟩ := isMark_iff.1 (hmarks w hw)
      rfl
    · rfl
    · rfl
  | _ => rfl

theorem exec_processAction_registry {action : ProcessAction} {b : Int} {res : ProcessedAction}
    {db' : Db} (h : postgres.exec (processAction c.svc c.draws c.request action
      (c.claimed action.actionId) b)
      (postgres.view db [.insertRegistry (c.registryRow action.actionId)]) = .ok (res, db')) :
    ∀ x, db'.Registered x ↔ db.Registered x ∨ action.actionId = x := by
  let st : Sess Stmt Write Key := ⟨[], [.insertRegistry (c.registryRow action.actionId)],
    [.registry action.actionId, .account c.account]⟩
  have hkey : Key.registry action.actionId ∈ st.held := List.mem_cons_self ..
  have hacc : Key.account c.account ∈ st.held := List.mem_cons_of_mem _ (List.mem_cons_self ..)
  obtain ⟨st', _, hdb', _, new, hnew, ho⟩ :=
    Engine.exec_of_wp (wp_processAction c b hkey hacc) h
  have hrows : (st.writes ++ new).flatMap Write.registryRows =
      [c.registryRow action.actionId] := by
    rw [List.flatMap_append, ho.registryRows]
    rfl
  intro x
  rw [hdb', hnew, Db.view_registered, hrows]
  simp [Call.registryRow]

section
variable {action : ProcessAction} {rest : List ProcessAction} {b : Int} {txs : List Transaction}

theorem exec_processActions_registered (rest : List ProcessAction) (b : Int)
    (txs : List Transaction) (hx : db.Registered action.actionId) :
    ∃ t, postgres.exec (processActions c.svc c.draws c.request (action :: rest) b txs) db =
      postgres.exec (processActions c.svc c.draws c.request rest b
        (txs ++ [⟨action.actionId, t⟩])) db :=
  exec_claim_registered hx

theorem exec_processActions_new (hx : ¬ db.Registered action.actionId) :
    postgres.exec (processActions c.svc c.draws c.request (action :: rest) b txs) db =
      postgres.exec (processAction c.svc c.draws c.request action (c.claimed action.actionId) b)
        (postgres.view db [.insertRegistry (c.registryRow action.actionId)]) >>= fun r =>
          postgres.exec (processActions c.svc c.draws c.request rest r.1.balance
            (txs ++ [⟨action.actionId, r.1.txId⟩])) r.2 :=
  (exec_claim_new hx).trans (postgres.exec_bind ..)

end

/-- The loop comes to the same without the actions that it only repeats. -/
theorem exec_processActions_fresh {actions : List ProcessAction} {seen : List Uuid} {b : Int}
    {txs : List Transaction} (txs' : List Transaction) (hseen : ∀ x, x ∈ seen ↔ db.Registered x) :
    (postgres.exec (processActions c.svc c.draws c.request actions b txs) db).map
        (fun r => (r.1.1, r.2)) =
      (postgres.exec (processActions c.svc c.draws c.request (freshActions seen actions) b txs')
        db).map (fun r => (r.1.1, r.2)) := by
  induction actions generalizing seen b txs txs' db with
  | nil => rfl
  | cons action rest ih =>
    by_cases hmem : action.actionId ∈ seen
    · obtain ⟨t, ht⟩ := exec_processActions_registered (c := c) rest b txs
        ((hseen action.actionId).1 hmem)
      rw [freshActions, if_pos hmem, ht]
      exact ih txs' hseen
    · have hnew := (hseen action.actionId).not.1 hmem
      rw [freshActions, if_neg hmem, exec_processActions_new hnew, exec_processActions_new hnew]
      cases hres : postgres.exec (processAction c.svc c.draws c.request action
          (c.claimed action.actionId) b)
          (postgres.view db [.insertRegistry (c.registryRow action.actionId)]) with
      | error e => rfl
      | ok r =>
        apply ih
        intro x
        rw [exec_processAction_registry hres x, ← hseen x, List.mem_cons, or_comm, eq_comm]

/-- The database once the account of a request is there. -/
def Db.opened (db : Db) (a : Account) : Db :=
  if (db.account? a).isSome then db else db.apply (.insertAccount ⟨a, 0⟩)

theorem Db.opened_actionRegistry (a : Account) :
    (db.opened a).actionRegistry = db.actionRegistry := by
  rw [Db.opened]
  split <;> rfl

theorem Db.opened_account? (a : Account) :
    (db.opened a).account? a = some ⟨a, db.balance a⟩ := by
  rw [Db.opened]
  split
  · rename_i hsome
    obtain ⟨row, hrow⟩ := Option.isSome_iff_exists.1 hsome
    have hacc : row.account = a := by simpa using List.find?_some hrow
    rw [Db.balance, hrow, ← hacc]
    rfl
  · rename_i hnone
    rw [Option.not_isSome_iff_eq_none] at hnone
    rw [Db.apply_account?, Db.balance, hnone]
    simp [Write.onAccount]

theorem eval_insertAccount (a : Account) : (Stmt.insertAccount a).eval db db =
    .ok ((), if (db.account? a).isSome then [] else [.insertAccount ⟨a, 0⟩]) := by
  rw [Stmt.eval]
  split <;> rfl

theorem Db.view_insertAccount (a : Account) : postgres.view db
    (if (db.account? a).isSome then [] else [.insertAccount ⟨a, 0⟩]) = db.opened a := by
  rw [Db.opened]
  split <;> rfl

theorem eval_selectAccountForUpdate (a : Account) :
    (Stmt.selectAccountForUpdate a).eval (db.opened a) (db.opened a) =
      .ok (some (db.balance a), []) := by
  rw [Stmt.eval, db.opened_account? a]
  rfl

theorem exec_lockAccount {svc : Service} {a : Account} {f : Int → Tx α} :
    postgres.exec (lockAccount svc a >>= f) db =
      postgres.exec (f (svc.load (db.balance a))) (db.opened a) := by
  rw [lockAccount, Prog.bind_assoc, exec_query (eval_insertAccount a), Db.view_insertAccount,
    Prog.bind_assoc, exec_query (eval_selectAccountForUpdate a)]
  rfl

/-- The balance that a request stores in the end. -/
def Call.store (c : Call) (b : Int) (db : Db) : Except Err Db :=
  (postgres.exec (bigint c.svc b >>= fun stored => query (.updateBalance c.account stored))
    db).map Prod.snd

theorem exec_store (b : Int) (f : Unit → ProcessResponse) :
    (postgres.exec (bigint c.svc b >>= fun stored =>
      query (.updateBalance c.account stored) >>= fun u => pure (f u)) db).map Prod.snd =
        c.store b db := by
  unfold Call.store bigint
  cases c.svc.bind b with
  | none => rfl
  | some stored =>
    simp only [Prog.pure_bind]
    rw [postgres.exec_bind]
    cases postgres.exec (query (.updateBalance c.account stored)) db with
    | error e => rfl
    | ok r => rfl

theorem exec_body_nil (h : c.actions = []) :
    (postgres.exec c.body db).map Prod.snd = .ok (db.opened c.account) := by
  have hlength : (c.request.actions.getD []).length = 0 := List.length_eq_zero_iff.2 h
  rw [Call.body, processAggregatorRequest_eq]
  apply (congrArg (Except.map Prod.snd) exec_lockAccount).trans
  rw [afterLock]
  rw [if_pos hlength]
  rfl

theorem exec_body_actions (h : c.actions ≠ []) :
    (postgres.exec c.body db).map Prod.snd =
      (postgres.exec (processActions c.svc c.draws c.request c.actions
        (c.svc.load (db.balance c.account)) []) (db.opened c.account)).map
          (fun r => (r.1.1, r.2)) >>= fun r => c.store r.1 r.2 := by
  have hlength : ¬ (c.request.actions.getD []).length = 0 :=
    fun h' => h (List.length_eq_zero_iff.1 h')
  rw [Call.body, processAggregatorRequest_eq]
  apply (congrArg (Except.map Prod.snd) exec_lockAccount).trans
  rw [afterLock]
  rw [if_neg hlength, postgres.exec_bind]
  change Except.map Prod.snd (postgres.exec (processActions c.svc c.draws c.request c.actions
    (c.svc.load (db.balance c.account)) []) (db.opened c.account) >>= _) = _
  cases postgres.exec (processActions c.svc c.draws c.request c.actions
    (c.svc.load (db.balance c.account)) []) (db.opened c.account) with
  | error e => rfl
  | ok r =>
    obtain ⟨⟨b, txs⟩, db'⟩ := r
    exact exec_store b _

theorem processActions_withActions (c : Call) (new actions : List ProcessAction) (b : Int)
    (txs : List Transaction) :
    processActions c.svc c.draws (c.withActions new).request actions b txs =
      processActions c.svc c.draws c.request actions b txs := by
  induction actions generalizing b txs with
  | nil => rfl
  | cons action rest ih =>
    rw [processActions]
    simp only [ih]
    rfl

theorem Db.apply_updateBalance_same {a : Account} {v : Int}
    (hnodup : (db.accounts.map (·.account)).Nodup) (h : db.account? a = some ⟨a, v⟩) :
    db.apply (.updateBalance a v) = db := by
  have hmap : db.accounts.map (·.setBalance a v) = db.accounts := by
    conv_rhs => rw [← List.map_id db.accounts]
    apply List.map_congr_left
    intro row hrow
    rw [AccountRow.setBalance]
    split
    · rename_i hacc
      have hsame : row = ⟨a, v⟩ := List.inj_on_of_nodup_map hnodup hrow
        (List.mem_of_find?_eq_some h) hacc
      rw [hsame]
      rfl
    · rfl
  rw [Db.apply, hmap]

theorem store_roundTrips {v : Int} (hnodup : (db.accounts.map (·.account)).Nodup)
    (h : db.account? c.account = some ⟨c.account, v⟩) (hv : c.svc.RoundTrips v) (hpos : 0 ≤ v) :
    c.store (c.svc.load v) db = .ok db := by
  have hupdate : postgres.eval (.updateBalance c.account v) db db =
      .ok ((), [.updateBalance c.account v]) := by
    simp only [postgres_eval, Stmt.eval, h, Option.isSome_some, if_true, if_neg (not_lt.2 hpos)]
  have hexec : postgres.exec (query (.updateBalance c.account v)) db = .ok ((), db) := by
    apply (postgres.exec_exec hupdate).trans
    rw [postgres.view_cons, postgres.view_nil, postgres_apply,
      Db.apply_updateBalance_same hnodup h]
    rfl
  unfold Call.store bigint
  rw [hv]
  simp only [Prog.pure_bind]
  rw [hexec]
  rfl

theorem Db.opened_nodup (a : Account) (h : (db.accounts.map (·.account)).Nodup) :
    ((db.opened a).accounts.map (·.account)).Nodup := by
  rw [Db.opened]
  split
  · exact h
  · rename_i hnone
    rw [Option.not_isSome_iff_eq_none, Db.account?_eq_none] at hnone
    exact nodup_map_snoc h hnone

/-- A request comes to the same without the actions that it only repeats. When nothing is left
of it, the service must be able to store the balance that it has read. -/
theorem exec_newActions (hnodup : (db.accounts.map (·.account)).Nodup)
    (hpos : 0 ≤ db.balance c.account) (h : db.newActions c.actions ≠ [] ∨ c.actions = [] ∨
      c.svc.RoundTrips (db.balance c.account)) :
    (postgres.exec c.body db).map Prod.snd =
      (postgres.exec (c.withActions (db.newActions c.actions)).body db).map Prod.snd := by
  by_cases hnil : c.actions = []
  · rw [exec_body_nil hnil, exec_body_nil (by rw [hnil]; rfl)]
    rfl
  · have hseen : ∀ x, x ∈ db.actionRegistry.map (·.actionId) ↔
        (db.opened c.account).Registered x := by
      intro x
      rw [mem_registered, Db.Registered, Db.Registered, Db.opened_actionRegistry]
    rw [exec_body_actions hnil, exec_processActions_fresh [] hseen]
    by_cases hnew : db.newActions c.actions = []
    · have hround := (h.resolve_left (not_not.2 hnew)).resolve_left hnil
      refine Eq.trans ?_ (exec_body_nil (c := c.withActions (db.newActions c.actions)) hnew).symm
      change (postgres.exec (processActions c.svc c.draws c.request (db.newActions c.actions)
        _ []) _).map _ >>= _ = _
      rw [hnew]
      exact store_roundTrips (db.opened_nodup c.account hnodup) (db.opened_account? c.account)
        hround hpos
    · refine Eq.trans ?_
        (exec_body_actions (c := c.withActions (db.newActions c.actions)) hnew).symm
      rw [← processActions_withActions c (db.newActions c.actions)]
      rfl

end

theorem Call.serve_congr {c c' : Call} {db : Db}
    (h : (postgres.exec c.body db).map Prod.snd = (postgres.exec c'.body db).map Prod.snd) :
    (c.serve db).2 = (c'.serve db).2 ∧ (c.Succeeds db ↔ c'.Succeeds db) := by
  unfold Call.Succeeds Call.serve Engine.transact
  cases hc : postgres.exec c.body db with
  | error e =>
    cases hc' : postgres.exec c'.body db with
    | error e' => simp
    | ok r' =>
      rw [hc, hc'] at h
      cases h
  | ok r =>
    cases hc' : postgres.exec c'.body db with
    | error e' =>
      rw [hc, hc'] at h
      cases h
    | ok r' =>
      rw [hc, hc'] at h
      exact ⟨Except.ok.inj h, by simp⟩

theorem freshActions_known {seen : List Uuid} {actions : List ProcessAction}
    (h : ∀ action ∈ actions, action.actionId ∈ seen) : freshActions seen actions = [] := by
  induction actions with
  | nil => rfl
  | cons action rest ih =>
    rw [freshActions, if_pos (h action (List.mem_cons_self ..))]
    exact ih fun action' h' => h action' (List.mem_cons_of_mem _ h')

theorem Call.serve_known {c : Call} {db : Db} (hnodup : (db.accounts.map (·.account)).Nodup)
    (hpos : 0 ≤ db.balance c.account) (hacc : (db.account? c.account).isSome)
    (hknown : ∀ action ∈ c.actions, db.Registered action.actionId)
    (hround : c.actions = [] ∨ c.svc.RoundTrips (db.balance c.account)) :
    c.Succeeds db ∧ (c.serve db).2 = db := by
  have hnew : db.newActions c.actions = [] :=
    freshActions_known fun action haction => mem_registered.2 (hknown action haction)
  have hexec := (exec_newActions hnodup hpos (Or.inr hround)).trans
    (exec_body_nil (c := c.withActions (db.newActions c.actions)) hnew)
  have hsame : db.opened c.account = db := if_pos hacc
  unfold Call.Succeeds Call.serve Engine.transact
  cases hc : postgres.exec c.body db with
  | error e =>
    rw [hc] at hexec
    cases hexec
  | ok r =>
    rw [hc] at hexec
    have hr : r.2 = db.opened c.account := Except.ok.inj hexec
    exact ⟨⟨r.1, rfl⟩, hr.trans hsame⟩

end BetProcessor
