import BetProcessor.CleanRequests
import BetProcessor.Indexes
import BetProcessor.RollupRuns
import BetProcessor.Runner

namespace BetProcessor
set_option autoImplicit true
open Txn

/-- The constraints of the schema on the tables of the report. -/
structure RtpDb.Constraints (db : RtpDb) : Prop where
  rtp_outbox_pkey : (db.rtpOutbox.map (·.id)).Nodup
  rtp_user_minute_pkey : (db.rtpUserMinute.map (·.key)).Nodup

theorem RtpDb.Constraints.view {db : RtpDb} (h : db.Constraints) (ws : List RtpWrite) :
    (postgresRtp.view db ws).Constraints where
  rtp_outbox_pkey := by
    rw [rtpOutbox_view, List.map_map]
    simpa only [Function.comp_def, onRow_id] using h.rtp_outbox_pkey
  rtp_user_minute_pkey := view_minute_keys ws h.rtp_user_minute_pkey

/-- The ways in which a request may fail: those of the service, or a text of it that no index
takes. -/
def Indexes.Fails (ix : Indexes) (c : Call) (e : Err) : Prop :=
  c.svc.Fails e ∨ e = .textRefused ∧ ¬ ix.Takes c.request

/-- The statement leaves every constraint satisfied, or is refused for a text of the request. -/
def Indexes.Obeys (ix : Indexes) (request : ProcessRequest) (s : Stmt) (db : Db) : Prop :=
  (∃ r ws, ix.postgres.eval s db db = .ok (r, ws) ∧ (ix.postgres.view db ws).Constraints) ∨
    ix.postgres.eval s db db = .error .textRefused ∧ ¬ ix.Takes request

/-- The ways in which a call of the worker may fail: a sum that no column holds, a `LIMIT` that
PostgreSQL turns down, or an account of the outbox that the report has no room for. -/
def Indexes.FailsRtp (ix : Indexes) (rtp : RtpDb) (job : RtpJob) (e : RtpErr) : Prop :=
  e = .outOfRange ∨
    (e = .negativeLimit ∧ ∃ batchSize now, job = .drain batchSize now ∧ batchSize < 0) ∨
    (e = .textRefused ∧ ∃ row ∈ rtp.rtpOutbox, ¬ ix.userMinute row.delta.account)

/-- The statement leaves every constraint satisfied, or fails in a way of `F`. -/
def Indexes.ObeysRtp (ix : Indexes) (F : RtpErr → Prop) (s : RtpStmt) (db : RtpDb) : Prop :=
  (∀ r ws, ix.postgresRtpAlone.eval s db db = .ok (r, ws) →
    (ix.postgresRtpAlone.view db ws).Constraints) ∧
    ∀ e, ix.postgresRtpAlone.eval s db db = .error e → F e

section
variable {ix : Indexes} {request : ProcessRequest} {s : Stmt} {db : Db}

theorem Stmt.Carries.taken {snap : Db} (h : s.Carries request) (htakes : ix.Takes request) :
    ix.refuses s snap db = none := by
  obtain ⟨haccounts, hregistry, hactions, hrounds⟩ := htakes
  cases s with
  | insertAccount a =>
    obtain rfl : a = request.account := h
    exact if_pos (Or.inr haccounts)
  | claim input =>
    have ha : input.account = request.account := h
    exact if_pos (Or.inr (ha ▸ hregistry))
  | insertAction row =>
    obtain ⟨ha, hgame, hgameId⟩ := h
    rw [Indexes.refuses, ha, hgame, hgameId]
    exact if_pos ⟨hactions, hrounds⟩
  | _ => rfl

theorem Stmt.Obeys.indexed (h : s.Obeys request db) : ix.Obeys request s db := by
  obtain ⟨hcarries, r, ws, hr, hview⟩ := h
  cases hrefuses : ix.refuses s db db with
  | none => exact Or.inl ⟨r, ws, Engine.refusing_eq_ok.2 ⟨hr, hrefuses⟩, hview⟩
  | some e =>
    obtain rfl := Indexes.refuses_eq_some hrefuses
    refine Or.inr ⟨Engine.refusing_of_some hr hrefuses, fun htakes => ?_⟩
    cases (hcarries.taken htakes).symm.trans hrefuses

theorem Clean.indexed {c : Call} (h : Clean c.svc c.request c.body db) (ix : Indexes) :
    ix.postgres.Issues (ix.Obeys c.request) (ix.Fails c) c.body db ∧
      ∀ e, (ix.serve c db).1 = .error e → ix.Fails c e := by
  have hissues : ix.postgres.Issues (ix.Obeys c.request) (ix.Fails c) c.body db :=
    h.refusing (fun hs => hs.indexed) Or.inl
  refine ⟨hissues, fun e he => hissues.error ?_ he⟩
  rintro s db e (⟨r, ws, hok, _⟩ | ⟨herror, htakes⟩) heval
  · cases hok.symm.trans heval
  · cases herror.symm.trans heval
    exact Or.inr ⟨rfl, htakes⟩

/-- A new account that `accounts_pkey` does not take is refused. -/
theorem Indexes.serve_new {c : Call} (hnew : ¬ (db.account? c.account).isSome)
    (htake : ¬ ix.accounts c.account) : ix.serve c db = (.error .textRefused, db) := by
  have hinsert : BetProcessor.postgres.eval (.insertAccount c.account) db db =
      .ok ((), [.insertAccount ⟨c.account, 0⟩]) := by
    rw [postgres_eval, Stmt.eval, if_neg hnew]
  have hrefuses : ix.refuses (.insertAccount c.account) db db = some .textRefused := by
    rw [refuses, if_neg (not_or.2 ⟨hnew, htake⟩)]
  have herror : ix.postgres.eval (.insertAccount c.account) db db = .error .textRefused :=
    Engine.refusing_of_some hinsert hrefuses
  have hexec : ix.postgres.exec c.body db = .error .textRefused := by
    rw [Call.body, processAggregatorRequest_insert]
    exact ix.postgres.exec_error herror
  rw [serve, Engine.transact, hexec]

/-- Requests next to each other commit nothing that violates a constraint, whichever of them are
refused or aborted. -/
theorem Indexes.run_constraints {ι : Type} [Fintype ι] [DecidableEq ι] {calls : ι → Call} {db₀ : Db}
    (h₀ : db₀.Initial)
    (hfresh : ∀ i j x y, (calls i).draws.txId x = (calls j).draws.txId y → x = y)
    {ls : List (Label ι Stmt Err)} {c : Requests ι}
    (hr : ix.postgres.Run (fun _ _ => True) (.init (fun i => (calls i).body) db₀) ls c) :
    c.db.Constraints := by
  obtain ⟨ls', c', hr', hdb, _⟩ := run_postgres hr
  have hmem : ∀ i, calls i ∈ Finset.univ.toList.map calls := fun i =>
    List.mem_map_of_mem (Finset.mem_toList.2 (Finset.mem_univ i))
  have hall := Agreement.keeping_inv (J := fun db => db.Consistent ∧ (∀ a, 0 ≤ db.balance a) ∧
    db.Drawn (Finset.univ.toList.map calls)) ?_
    ⟨h₀.consistent, h₀.balance_at_nonneg, by simp [Db.Drawn, h₀.actionRegistry]⟩ hr'
  · obtain ⟨hV, hb, hdrawn⟩ := hall
    rw [← hdb]
    apply hV.constraints hb hdrawn
    intro c hc c' hc' x y
    obtain ⟨i, _, rfl⟩ := List.mem_map.1 hc
    obtain ⟨j, _, rfl⟩ := List.mem_map.1 hc'
    exact hfresh i j x y
  · rintro i past db ws resp ⟨hV, hb, hdrawn⟩ hp hc
    refine ⟨hV.commit hp hc, fun a => ?_, hdrawn.commit hV (hmem i) hp hc⟩
    rcases hc.balance_cases hp hV a with heq | ⟨_, _, hpos⟩
    · rw [heq]
      exact hb a
    · exact hpos

end

section
variable {ix : Indexes} {db : RtpDb} {F : RtpErr → Prop}

theorem RtpDb.Constraints.viewIndexed (h : db.Constraints) (ix : Indexes) (ws : List RtpWrite) :
    (ix.postgresRtpAlone.view db ws).Constraints := by
  change (postgresRtpAlone.view db ws).Constraints
  rw [SkipEngine.engine_view]
  exact h.view ws

theorem Indexes.obeysRtp (s : RtpStmt) (h : db.Constraints) (hrange : F .outOfRange)
    (hlimit : ∀ batchSize now, s = .claimPending batchSize now → batchSize < 0 → F .negativeLimit)
    (htext : ∀ ids, s = .upsertAggregated ids →
      (∃ row ∈ db.aggregated ids, ¬ ix.userMinute row.key.account) → F .textRefused) :
    ix.ObeysRtp F s db := by
  constructor
  · intro r ws _
    exact h.viewIndexed ix ws
  · intro e he
    rcases Engine.refusing_eq_error he with he | he
    · change s.eval (fun _ => false) db db = .error e at he
      cases s with
      | claimPending batchSize now =>
        rw [RtpStmt.eval] at he
        split at he
        · cases he
          exact hlimit batchSize now rfl ‹_›
        · cases he
      | upsertAggregated ids =>
        rw [RtpStmt.eval] at he
        split at he
        · cases he
          exact hrange
        split at he
        · exact absurd (aggregated_nodup db ids) ‹_›
        split at he
        · cases he
          exact hrange
        · cases he
      | markProcessed ids now => cases he
      | recoverStale staleAfterMs now => cases he
    · cases s with
      | claimPending batchSize now =>
        rw [Indexes.refusesRtp] at he
        split at he
        · cases he
          exact hrange
        · cases he
      | upsertAggregated ids =>
        rw [Indexes.refusesRtp] at he
        split at he
        · next hrow =>
          cases he
          obtain ⟨row, hrow, _, hno⟩ := hrow
          exact htext ids rfl ⟨row, hrow, hno⟩
        · cases he
      | markProcessed ids now => cases he
      | recoverStale staleAfterMs now => cases he

theorem aggregated_account {ids : List Nat} {new : RtpUserMinuteRow} (ws : List RtpWrite)
    (h : new ∈ (postgresRtp.view db ws).aggregated ids) :
    ∃ row ∈ db.rtpOutbox, row.delta.account = new.key.account := by
  have hkey : new.key ∈ ((postgresRtp.view db ws).aggregated ids).map (·.key) :=
    List.mem_map_of_mem h
  rw [aggregated_keys, List.mem_dedup] at hkey
  obtain ⟨row', hrow', hdelta⟩ := List.mem_map.1 hkey
  obtain ⟨hrow', _⟩ := List.mem_filter.1 hrow'
  rw [rtpOutbox_view] at hrow'
  obtain ⟨row, hrow, rfl⟩ := List.mem_map.1 hrow'
  rw [onRow_delta] at hdelta
  exact ⟨row, hrow, congrArg RtpKey.account hdelta⟩

theorem Indexes.job_obeys (job : RtpJob) (h : db.Constraints) :
    ix.postgresRtpAlone.Issues (ix.ObeysRtp (ix.FailsRtp db job)) (ix.FailsRtp db job)
      job.body db := by
  have hrange : ix.FailsRtp db job .outOfRange := Or.inl rfl
  cases job with
  | drain batchSize now =>
    rw [RtpJob.body, drainRtpOutbox_eq]
    constructor
    · apply obeysRtp _ h hrange
      · intro batchSize' now' hs hneg
        cases hs
        exact Or.inr (Or.inl ⟨rfl, batchSize, now, rfl, hneg⟩)
      · intro ids hs
        cases hs
    · intro ids ws _
      dsimp only
      split
      · trivial
      · have hclaimed := h.viewIndexed ix ws
        constructor
        · apply obeysRtp _ hclaimed hrange
          · intro _ _ hs
            cases hs
          · rintro ids' _ ⟨new, hnew, hno⟩
            change new ∈ (BetProcessor.postgresRtpAlone.view db ws).aggregated ids' at hnew
            rw [SkipEngine.engine_view] at hnew
            obtain ⟨row, hrow, haccount⟩ := aggregated_account ws hnew
            exact Or.inr (Or.inr ⟨rfl, row, hrow, haccount ▸ hno⟩)
        · intro _ ws' _
          constructor
          · apply obeysRtp _ (hclaimed.viewIndexed ix ws') hrange
            · intro _ _ hs
              cases hs
            · intro _ hs
              cases hs
          · intro _ _ _
            trivial
  | recover staleAfterMs now =>
    constructor
    · apply obeysRtp _ h hrange
      · intro _ _ hs
        cases hs
      · intro _ hs
        cases hs
    · intro _ _ _
      trivial

end

/-- The whole database between two calls, with the sequence of the ids of `rtp_outbox`. -/
structure Store where
  db : Db
  rtp : RtpDb
  nextId : Nat
  deriving DecidableEq, Repr

inductive Task where
  | request (c : Call)
  | report (job : RtpJob)

def Task.requests : List Task → List Call
  | [] => []
  | .request c :: tasks => c :: requests tasks
  | .report _ :: tasks => requests tasks

/-- A call of the worker, or a request to one of the services that the schema accepts. -/
def Task.Accepted : Task → Prop
  | .request c => c.svc.Runs ∧ c.request.Accepted
  | .report _ => True

namespace Store
variable (ix : Indexes)

/-- The rows of `rtp_outbox` that a request inserts, even if it fails in the end. -/
def inserts (s : Store) (c : Call) : List RtpOutboxRow :=
  (((ix.postgres.written c.body s.db).flatMap Write.outboxRows).zipIdx s.nextId).map fun out =>
    { id := out.2, delta := out.1 }

def perform (s : Store) : Task → Store
  | .request c => {
      db := (ix.serve c s.db).2
      rtp := match (ix.serve c s.db).1 with
        | .ok _ => s.rtp.enqueue (s.inserts ix c)
        | .error _ => s.rtp
      -- a sequence does not go back when the transaction does
      nextId := s.nextId + (s.inserts ix c).length }
  | .report job => { s with rtp := (ix.run job s.rtp).2 }

def start (db : Db) : Store := ⟨db, ⟨[], []⟩, 1⟩

/-- The calls one after the other. -/
def after (s : Store) (tasks : List Task) : Store := tasks.foldl (perform ix) s

/-- No constraint of the schema is violated. -/
structure Constraints (s : Store) : Prop where
  db : s.db.Constraints
  rtp : s.rtp.Constraints

/-- Every statement of the call obeys the constraints or is refused, and it fails in no other
way. -/
def Passes (s : Store) : Task → Prop
  | .request c => ix.postgres.Issues (ix.Obeys c.request) (ix.Fails c) c.body s.db ∧
      (s.rtp.enqueue (s.inserts ix c)).Constraints ∧
      ∀ e, (ix.serve c s.db).1 = .error e → ix.Fails c e
  | .report job => ix.postgresRtpAlone.Issues (ix.ObeysRtp (ix.FailsRtp s.rtp job))
        (ix.FailsRtp s.rtp job) job.body s.rtp ∧
      ∀ e, (ix.run job s.rtp).1 = .error e → ix.FailsRtp s.rtp job e

variable {ix} {s : Store}

/-- The requests that are not refused have done what they do. -/
theorem after_db (tasks : List Task) : ∃ calls, calls.Sublist (Task.requests tasks) ∧
    (s.after ix tasks).db = s.db.after calls := by
  induction tasks generalizing s with
  | nil => exact ⟨[], .refl _, rfl⟩
  | cons t tasks ih =>
    obtain ⟨calls, hsub, hdb⟩ := ih (s := s.perform ix t)
    cases t with
    | request c =>
      change (s.after ix (.request c :: tasks)).db = Db.after (ix.serve c s.db).2 calls at hdb
      rcases ix.serve_cases c s.db with h | ⟨e, h⟩
      · rw [h] at hdb
        exact ⟨c :: calls, hsub.cons_cons c, hdb⟩
      · rw [h] at hdb
        exact ⟨calls, hsub.cons c, hdb⟩
    | report job => exact ⟨calls, hsub, hdb⟩

theorem inserts_id (c : Call) :
    (s.inserts ix c).map (·.id) = List.range' s.nextId (s.inserts ix c).length := by
  rw [inserts, List.map_map, List.length_map, List.length_zipIdx]
  exact List.zipIdx_map_snd _ _

theorem inserts_delta (c : Call) : (s.inserts ix c).map (·.delta) =
    (ix.postgres.written c.body s.db).flatMap Write.outboxRows := by
  rw [inserts, List.map_map]
  exact List.zipIdx_map_fst _ _

theorem run_view (ix : Indexes) (job : RtpJob) (rtp : RtpDb) :
    ∃ ws, (ix.run job rtp).2 = postgresRtp.view rtp ws := by
  obtain ⟨ws, hws⟩ := ix.postgresRtpAlone.transact_view job.body rtp
  exact ⟨ws, hws.trans (postgresRtp.engine_view (fun _ => false) rtp ws)⟩

/-- The ids of the outbox come from the sequence. -/
structure Numbered (s : Store) : Prop where
  constraints : s.rtp.Constraints
  below : ∀ row ∈ s.rtp.rtpOutbox, row.id < s.nextId

theorem Numbered.inserts (h : s.Numbered) (ix : Indexes) (c : Call) : Numbered {
    db := (ix.serve c s.db).2
    rtp := s.rtp.enqueue (s.inserts ix c)
    nextId := s.nextId + (s.inserts ix c).length } where
  constraints := {
    rtp_outbox_pkey := by
      rw [RtpDb.enqueue, List.map_append, inserts_id]
      apply h.constraints.rtp_outbox_pkey.append List.nodup_range'
      intro id hid hid'
      obtain ⟨row, hrow, rfl⟩ := List.mem_map.1 hid
      exact absurd (h.below row hrow) (not_lt.2 (List.mem_range'_1.1 hid').1)
    rtp_user_minute_pkey := h.constraints.rtp_user_minute_pkey }
  below row hrow := by
    rcases List.mem_append.1 hrow with hrow | hrow
    · exact Nat.lt_add_right _ (h.below row hrow)
    · have hid : row.id ∈ (s.inserts ix c).map (·.id) := List.mem_map_of_mem hrow
      rw [inserts_id] at hid
      exact (List.mem_range'_1.1 hid).2

theorem Numbered.perform (h : s.Numbered) (t : Task) : (s.perform ix t).Numbered := by
  cases t with
  | request c =>
    rw [Store.perform]
    split
    · exact h.inserts ix c
    · exact ⟨h.constraints, fun row hrow => Nat.lt_add_right _ (h.below row hrow)⟩
  | report job =>
    obtain ⟨ws, hws⟩ := run_view ix job s.rtp
    rw [Store.perform, hws]
    constructor
    · exact h.constraints.view ws
    · intro row hrow
      rw [rtpOutbox_view] at hrow
      obtain ⟨row', hrow', rfl⟩ := List.mem_map.1 hrow
      rw [onRow_id]
      exact h.below row' hrow'

theorem Numbered.after (h : s.Numbered) (ix : Indexes) (tasks : List Task) :
    (s.after ix tasks).Numbered := by
  induction tasks generalizing s with
  | nil => exact h
  | cons t tasks ih => exact ih (h.perform t)

theorem start_numbered (db : Db) : (start db).Numbered where
  constraints := ⟨List.nodup_nil, List.nodup_nil⟩
  below _ hrow := by cases hrow

/-- The worker finds in its outbox what the requests have committed to theirs. -/
theorem after_outbox (tasks : List Task) (h : s.rtp.rtpOutbox.map (·.delta) = s.db.rtpOutbox) :
    (s.after ix tasks).rtp.rtpOutbox.map (·.delta) = (s.after ix tasks).db.rtpOutbox := by
  induction tasks generalizing s with
  | nil => exact h
  | cons t tasks ih =>
    apply ih
    cases t with
    | request c =>
      rw [perform]
      split
      · rename_i resp hresp
        have hview : (ix.serve c s.db).2 = postgres.view s.db (ix.postgres.written c.body s.db) :=
          ix.postgres.transact_written hresp
        rw [hview, Db.view_rtpOutbox, RtpDb.enqueue, List.map_append, h, inserts_delta]
      · rename_i e he
        have hdb : (ix.serve c s.db).2 = s.db := ix.postgres.transact_failed he
        rw [hdb]
        exact h
    | report job =>
      obtain ⟨ws, hws⟩ := run_view ix job s.rtp
      rw [perform, hws, rtpOutbox_view, List.map_map]
      simpa only [Function.comp_def, onRow_delta] using h

end Store

theorem Task.requests_append (tasks tasks' : List Task) :
    requests (tasks ++ tasks') = requests tasks ++ requests tasks' := by
  induction tasks with
  | nil => rfl
  | cons t tasks ih =>
    cases t with
    | request c => exact congrArg (c :: ·) ih
    | report job => exact ih

/-- Whatever requests and calls of the worker came before, one after the other: no constraint of
the schema is violated, every statement of the next call satisfies all of them, and an accepted
request fails for the funds only, or for a text that no index takes. -/
theorem no_constraint_trips (ix : Indexes) {db₀ : Db} (h₀ : db₀.Initial) (tasks : List Task)
    (t : Task) (hfresh : FreshTxIds (Task.requests (tasks ++ [t]))) (ht : t.Accepted) :
    ((Store.start db₀).after ix tasks).Constraints ∧
      ((Store.start db₀).after ix tasks).Passes ix t := by
  obtain ⟨calls, hsub, hdb⟩ : ∃ calls, calls.Sublist (Task.requests tasks) ∧
    ((Store.start db₀).after ix tasks).db = db₀.after calls := Store.after_db tasks
  have hnumbered := (Store.start_numbered db₀).after ix tasks
  have hV : ((Store.start db₀).after ix tasks).db.Consistent := by
    rw [hdb]
    exact h₀.consistent.after _
  have hb : ∀ a, 0 ≤ ((Store.start db₀).after ix tasks).db.balance a := by
    rw [hdb]
    exact Db.after_balance_nonneg h₀ _
  have hdrawn : ((Store.start db₀).after ix tasks).db.Drawn (Task.requests (tasks ++ [t])) := by
    intro g hg
    rw [hdb] at hg
    obtain ⟨c, hc, htx⟩ := Db.txId_drawn h₀ _ g hg
    rw [Task.requests_append]
    exact ⟨c, List.mem_append_left _ (hsub.subset hc), htx⟩
  have hconstraints := hV.constraints hb hdrawn hfresh
  constructor
  · exact ⟨hconstraints, hnumbered.constraints⟩
  · cases t with
    | request c =>
      have hc : c ∈ Task.requests (tasks ++ [.request c]) := by
        rw [Task.requests_append]
        exact List.mem_append_right _ (List.mem_singleton.2 rfl)
      have hclean := Clean.body ht.1 hc hfresh hconstraints hV hdrawn ht.2
      obtain ⟨hissues, hfails⟩ := hclean.indexed ix
      exact ⟨hissues, (hnumbered.inserts ix c).constraints, hfails⟩
    | report job =>
      have hobeys := ix.job_obeys job hnumbered.constraints
      exact ⟨hobeys, fun e he => hobeys.error (fun hs heval => hs.2 _ heval) he⟩

/-- The limit on texts of single bytes that do not compress: 2704 bytes for an index row, of which
40 are for its other columns and the headers. -/
def asciiIndexes : Indexes where
  accounts a := (a.userId ++ a.currency).length + 40 ≤ 2704
  actionRegistry a := (a.userId ++ a.currency).length + 40 ≤ 2704
  actions a := (a.userId ++ a.currency).length + 40 ≤ 2704
  rounds game gameId := (game ++ gameId.getD "").length + 40 ≤ 2704
  userMinute a := (a.userId ++ a.currency).length + 40 ≤ 2704

/-- Some letters in no order. -/
def drawnLetters : (n seed : Nat) → List Char
  | 0, _ => []
  | n + 1, seed =>
    Char.ofNat (97 + (mulberry32 seed).1.toNat % 26) :: drawnLetters n (mulberry32 seed).2

theorem drawnLetters_length (n seed : Nat) : (drawnLetters n seed).length = n := by
  induction n generalizing seed with
  | zero => rfl
  | succ n ih => exact congrArg (· + 1) (ih _)

/-- A request for the balance of a user with a long name. -/
def longUser (n : Nat) : Call := dollars typescript (.ofList (drawnLetters n 42)) []

theorem longUser_length (n : Nat) : (longUser n).request.userId.length = n := by
  rw [longUser, dollars, String.length_ofList, drawnLetters_length]

theorem longUser_accepted {n : Nat} (h : 0 < n) : (Task.request (longUser n)).Accepted := by
  have hcurrency : "USD" ≠ "" := by decide
  have hgame : "g" ≠ "" := by decide
  refine ⟨Or.inl (Or.inl rfl), ?_, hcurrency, hgame, ?_, ?_⟩
  · intro hempty
    have hlength := longUser_length n
    rw [hempty] at hlength
    exact h.ne hlength
  · intro gameId hgameId
    cases hgameId
  · intro actions hactions
    cases hactions
    intro action haction
    cases haction

theorem longUser_not_taken {n : Nat} (h : 2704 < n) :
    ¬ asciiIndexes.accounts (longUser n).account = true := by
  change ¬ decide (((longUser n).request.userId ++ "USD").length + 40 ≤ 2704) = true
  rw [decide_eq_true_eq, String.length_append, longUser_length]
  omega

/-- A user name of 6000 letters is accepted, and the request fails, but neither for the funds nor
for a number. -/
theorem long_user_refused : (Task.request (longUser 6000)).Accepted ∧
    (asciiIndexes.serve (longUser 6000) ⟨[], [], [], [], []⟩).1 = .error .textRefused ∧
    ¬ (longUser 6000).svc.Fails .textRefused := by
  refine ⟨longUser_accepted (by omega), ?_, by rintro (h | ⟨h, _⟩) <;> cases h⟩
  rw [Indexes.serve_new (by rintro ⟨⟩) (longUser_not_taken (by omega))]

/-- Rollbacks before their originals, of themselves and of rollbacks, with drains of any size
between the requests. -/
def mixedTasks : List Task :=
  [.request (dollars typescript "a" [.rollback 2 1, .bet 1 60, .rollback 3 3, .bet 3 5]),
    .report (.drain 2 0), .request (dollars rust "b" [.win 4 7, .rollback 5 4, .rollback 6 5]),
    .report (.drain (-1) 1), .report (.recover 0 2), .report (.drain 5000 3)]

theorem mixed_tasks_pass : ((Store.start twoUsers).after asciiIndexes mixedTasks).Constraints ∧
    ((Store.start twoUsers).after asciiIndexes mixedTasks).Passes asciiIndexes
      (.request (dollars typescript.exact "a" [.bet 7 40, .rollback 8 7, .bet 9 1000])) := by
  apply no_constraint_trips asciiIndexes twoUsers_initial
  · intro c hc c' hc' x y h
    have hplain : ∀ c ∈ Task.requests (mixedTasks ++ [.request (dollars typescript.exact "a"
        [.bet 7 40, .rollback 8 7, .bet 9 1000])]), c.draws = plainDraws := by
      simp [mixedTasks, Task.requests, dollars]
    rw [hplain c hc, hplain c' hc'] at h
    exact Nat.add_right_cancel h
  · refine ⟨Or.inr ⟨typescript, Or.inl rfl, rfl⟩, by decide, by decide, by decide, ?_, ?_⟩
    · intro gameId h
      cases h
    · intro actions h
      cases h
      simp [ProcessAction.Accepted]

end BetProcessor
