import BetProcessor.Txn.Refusals
import BetProcessor.Processor
import BetProcessor.RtpOutbox

namespace BetProcessor
set_option autoImplicit true
open Txn

/-- PostgreSQL for the worker when no other transaction is open. -/
abbrev postgresRtpAlone : Engine RtpStmt RtpStmt.Reply RtpErr RtpDb RtpWrite RtpLock :=
  postgresRtp.engine fun _ => false

/-- The texts that the indexes of the schema take: no index has room for every text, how long one
may be depends on how well it compresses, and none may have a NUL. -/
structure Indexes where
  /-- `accounts_pkey` -/
  accounts : Account → Bool
  /-- `action_registry_user_created_idx` -/
  actionRegistry : Account → Bool
  /-- `actions_user_currency_created_idx` -/
  actions : Account → Bool
  /-- `actions_game_round_idx` -/
  rounds : String → Option String → Bool
  /-- `rtp_user_minute_pkey` and `rtp_user_minute_page_idx` -/
  userMinute : Account → Bool

namespace Indexes
variable (ix : Indexes)

/-- A statement is refused for an entry that an index does not take. -/
def refuses : Stmt → (snap cur : Db) → Option Err
  | .insertAccount a, _, cur =>
    if (cur.account? a).isSome ∨ ix.accounts a then none else some .textRefused
  | .claim input, _, cur =>
    if cur.Registered input.actionId ∨ ix.actionRegistry input.account then none
    else some .textRefused
  | .insertAction row, _, _ =>
    if ix.actions row.account ∧ ix.rounds row.game row.gameId then none else some .textRefused
  | _, _, _ => none

/-- The same for the worker, whose claim moreover counts in an `integer`. -/
def refusesRtp : RtpStmt → (snap cur : RtpDb) → Option RtpErr
  | .claimPending batchSize _, snap, cur =>
    if ∃ row ∈ cur.rtpOutbox, row.id ∈ snap.claimable (fun _ => false) cur batchSize ∧
      2 ^ 31 - 1 ≤ row.attempts then some .outOfRange
    else none
  | .upsertAggregated ids, snap, cur =>
    if ∃ row ∈ snap.aggregated ids, ¬ (cur.minute? row.key).isSome ∧
      ¬ ix.userMinute row.key.account then some .textRefused
    else none
  | _, _, _ => none

/-- PostgreSQL with these indexes. -/
def postgres : Engine Stmt Stmt.Reply Err Db Write Key :=
  BetProcessor.postgres.refusing ix.refuses

def postgresRtpAlone : Engine RtpStmt RtpStmt.Reply RtpErr RtpDb RtpWrite RtpLock :=
  BetProcessor.postgresRtpAlone.refusing ix.refusesRtp

/-- The texts of a request fit. -/
def Takes (request : ProcessRequest) : Prop :=
  ix.accounts request.account ∧ ix.actionRegistry request.account ∧
    ix.actions request.account ∧ ix.rounds request.game request.gameId

instance (request : ProcessRequest) : Decidable (ix.Takes request) :=
  inferInstanceAs (Decidable (_ ∧ _ ∧ _ ∧ _))

/-- A request alone on the database with these indexes. -/
def serve (c : Call) (db : Db) : Except Err ProcessResponse × Db := ix.postgres.transact c.body db

/-- A call of the worker with no other transaction next to it. -/
def run (job : RtpJob) (rtp : RtpDb) : Except RtpErr Nat × RtpDb :=
  ix.postgresRtpAlone.transact job.body rtp

/-- Alone, a request does what it does on `postgres`, or fails and leaves nothing. -/
theorem serve_cases (c : Call) (db : Db) :
    ix.serve c db = c.serve db ∨ ∃ e, ix.serve c db = (.error e, db) :=
  Engine.transact_refusing c.body db

variable {ix} {db : Db}

theorem refuses_eq_some {s : Stmt} {snap cur : Db} {e : Err} (h : ix.refuses s snap cur = some e) :
    e = .textRefused := by
  cases s <;> simp only [refuses] at h <;> (try split at h) <;> cases h <;> rfl

/-- Next to each other, requests do what they do on `postgres`, where the refused ones are
aborted. -/
theorem run_postgres {ι : Type} [Fintype ι] [DecidableEq ι] {calls : ι → Call}
    {ls : List (Label ι Stmt Err)}
    {c : Config ι Stmt Stmt.Reply Err Db Write Key ProcessResponse}
    (hr : ix.postgres.Run (fun _ _ => True) (.init (fun i => (calls i).body) db) ls c) :
    ∃ ls' c', BetProcessor.postgres.Run (fun _ _ => True)
        (.init (fun i => (calls i).body) db) ls' c' ∧
      c'.db = c.db ∧ ∀ i r, c.sess i = .done r → c'.sess i = .done r := hr.of_refusing

end Indexes

end BetProcessor
