import BetProcessor.MonthPartitions
import BetProcessor.PartitionFirst
import BetProcessor.SerialRuns

namespace BetProcessor
set_option autoImplicit true
open Txn
open Sql

/-- The tables of a request, and the partitions in which the rows of `actions` are stored. -/
structure Storage where
  db : Db
  actions : Partitioned Int ActionRow
  deriving DecidableEq, Repr

/-- A change of one row, or a partition that comes to the ledger. -/
inductive StorageWrite where
  | attach (new : Option (Partition Int ActionRow))
  | row (w : Write)

/-- What a change of a row means for the partitions. -/
def Write.onPartitions (actions : Partitioned Int ActionRow) : Write → Partitioned Int ActionRow
  | .insertAction row => actions.insert (·.createdAt) row
  | .updateRolledBack x t r at_ => actions.update (·.setRolledBack x t r at_)
  | _ => actions

def Storage.apply (st : Storage) : StorageWrite → Storage
  | .attach new => { st with actions := st.actions.attach new }
  | .row w => ⟨st.db.apply w, w.onPartitions st.actions⟩

/-- A statement on the partitioned ledger: a partition that is not created ends the transaction. -/
def Stmt.evalPartitioned : (s : Stmt) → (snap cur : Storage) →
    Except Err (s.Reply × List StorageWrite)
  | .ensureActionsMonthPartition at_, _, cur =>
    match BetProcessor.ensureActionsMonthPartition cur.actions at_ with
    | .ok new => .ok ((), [.attach new])
    | .error _ => .error .aborted
  | s, snap, cur =>
    match s.eval snap.db cur.db with
    | .ok (r, ws) => .ok (r, ws.map .row)
    | .error e => .error e

def StorageWrite.keys : StorageWrite → List Key
  | .attach _ => []
  | .row w => w.keys

/-- A statement other than `ensure_actions_month_partition` does what it does without partitions. -/
theorem Stmt.evalPartitioned_eq {s : Stmt} {snap cur : Storage}
    (h : ∀ at_, s ≠ .ensureActionsMonthPartition at_) : s.evalPartitioned snap cur =
      match s.eval snap.db cur.db with
      | .ok (r, ws) => .ok (r, ws.map .row)
      | .error e => .error e := by
  cases s with
  | ensureActionsMonthPartition at_ => exact absurd rfl (h at_)
  | _ => rfl

theorem Stmt.evalPartitioned_ensure {at_ : Int} {snap cur : Storage} {r : Unit}
    {ws : List StorageWrite}
    (h : (Stmt.ensureActionsMonthPartition at_).evalPartitioned snap cur = .ok (r, ws)) :
    ∃ new, BetProcessor.ensureActionsMonthPartition cur.actions at_ = .ok new ∧
      ws = [.attach new] := by
  change (match BetProcessor.ensureActionsMonthPartition cur.actions at_ with
    | .ok new => Except.ok ((), [StorageWrite.attach new])
    | .error _ => Except.error Err.aborted) = .ok (r, ws) at h
  cases hnew : BetProcessor.ensureActionsMonthPartition cur.actions at_ with
  | error e =>
    rw [hnew] at h
    cases h
  | ok new =>
    rw [hnew] at h
    exact ⟨new, rfl, (congrArg Prod.snd (Except.ok.inj h)).symm⟩

theorem Stmt.evalPartitioned_ok {s : Stmt} {snap cur : Storage} {r : s.Reply}
    {ws : List StorageWrite} (h : s.evalPartitioned snap cur = .ok (r, ws)) :
    ((∀ at_, s ≠ .ensureActionsMonthPartition at_) ∧
        ∃ ws', s.eval snap.db cur.db = .ok (r, ws') ∧ ws = ws'.map .row) ∨
      ∃ at_ new, s = .ensureActionsMonthPartition at_ ∧
        BetProcessor.ensureActionsMonthPartition cur.actions at_ = .ok new ∧
        ws = [.attach new] := by
  by_cases hs : ∃ at_, s = .ensureActionsMonthPartition at_
  · obtain ⟨at_, rfl⟩ := hs
    obtain ⟨new, hnew, rfl⟩ := Stmt.evalPartitioned_ensure h
    exact Or.inr ⟨at_, new, rfl, hnew, rfl⟩
  · left
    have hne : ∀ at_, s ≠ .ensureActionsMonthPartition at_ := fun at_ hat => hs ⟨at_, hat⟩
    rw [Stmt.evalPartitioned_eq hne] at h
    cases heval : s.eval snap.db cur.db with
    | error e =>
      rw [heval] at h
      cases h
    | ok result =>
      rw [heval] at h
      cases h
      exact ⟨hne, result.2, rfl, rfl⟩

theorem Stmt.coveredPartitioned {s : Stmt} {snap cur : Storage} {r : s.Reply}
    {ws : List StorageWrite} (h : s.evalPartitioned snap cur = .ok (r, ws)) :
    ∀ w ∈ ws, ∀ k ∈ w.keys, k ∈ s.locks snap.db cur.db := by
  rcases Stmt.evalPartitioned_ok h with ⟨_, ws', heval, rfl⟩ | ⟨at_, new, _, _, rfl⟩
  · intro w hw
    obtain ⟨w', hw', rfl⟩ := List.mem_map.1 hw
    exact Stmt.covered heval w' hw'
  · intro w hw k hk
    cases List.mem_singleton.1 hw
    cases hk

/-- PostgreSQL with the partitions of the ledger. -/
def partitioned : Engine Stmt Stmt.Reply Err Storage StorageWrite Key where
  eval := Stmt.evalPartitioned
  locks s snap cur := s.locks snap.db cur.db
  apply := Storage.apply
  keys := StorageWrite.keys
  covered := Stmt.coveredPartitioned

theorem partitioned_view_rows (st : Storage) (ws : List Write) :
    partitioned.view st (ws.map .row) =
      ⟨postgres.view st.db ws, ws.foldl Write.onPartitions st.actions⟩ := by
  induction ws generalizing st with
  | nil => rfl
  | cons w ws ih => exact ih _

/-- The partitions are months of some instants, they have the rows of the ledger, and the default
partition has none. -/
structure Storage.Sound (instants : Set Int) (st : Storage) : Prop where
  partitions : SoundPartitions instants st.actions
  ledger : st.actions.rows.Perm st.db.actions

/-- The partitions are disjoint half-open months under their own names, every row of the ledger is
in the one of its month, and the default partition is empty. -/
structure Storage.Monthly (st : Storage) : Prop where
  months : ∀ p ∈ st.actions.partitions, ∃ m : Calendar.Month, p.name = months.name m ∧
    p.lower = m.start * dayLength ∧ p.upper = m.next.start * dayLength
  disjoint : st.actions.partitions.Pairwise fun p q => ∀ at_, ¬(p.Covers at_ ∧ q.Covers at_)
  ledger : ∀ row ∈ st.db.actions, ∃ p ∈ st.actions.partitions,
    p.name = BetProcessor.months.name (monthOf row.createdAt) ∧ p.Covers row.createdAt ∧
      row ∈ p.rows
  default : st.actions.default = []

/-- `ensure_actions_month_partition` is not refused, and whether it creates a partition or not, the
instant has the one of its month. -/
def Storage.Ensured (st : Storage) (at_ : Int) : Prop :=
  (∀ refusal, ensureActionsMonthPartition st.actions at_ ≠ .error (.refused refusal)) ∧
    ∀ new, ensureActionsMonthPartition st.actions at_ = .ok new →
      ∃ p ∈ (st.actions.attach new).partitions, p.name = months.name (monthOf at_) ∧ p.Covers at_

section
variable {instants : Set Int} {st : Storage} {at_ : Int} {s : Stmt} {snap cur : Db}

theorem Storage.Sound.monthly (h : st.Sound instants) : st.Monthly where
  months p hp := by
    obtain ⟨m, _, hof⟩ := h.partitions.isOf p hp
    exact ⟨m, hof.name, hof.lower, hof.upper⟩
  disjoint := h.partitions.disjoint
  ledger row hrow := by
    obtain ⟨p, hp, hof, hmem⟩ := h.partitions.mem_rows (h.ledger.mem_iff.2 hrow)
    exact ⟨p, hp, hof.name, hof.covers.2 rfl, hmem⟩
  default := h.partitions.default

theorem Storage.Sound.ensured (h : st.Sound instants) (hone : OneEra instants)
    (hat : at_ ∈ instants) : st.Ensured at_ := by
  by_cases hrep : Representable at_
  · obtain ⟨new, hnew, _, _, p, hp, hof⟩ := h.partitions.ensure hone hat hrep
    constructor
    · intro refusal hrefusal
      cases hnew.symm.trans hrefusal
    · intro new' hnew'
      cases hnew.symm.trans hnew'
      exact ⟨p, hp, hof.name, hof.covers.2 rfl⟩
  · constructor
    · intro refusal hrefusal
      cases (ensure_unrepresentable st.actions hrep).symm.trans hrefusal
    · intro new hnew
      cases (ensure_unrepresentable st.actions hrep).symm.trans hnew

theorem setRolledBack_createdAt (x : Uuid) (t : Int) (r : Uuid) (at_ : Int) (row : ActionRow) :
    (row.setRolledBack x t r at_).createdAt = row.createdAt := by
  rw [ActionRow.setRolledBack]
  split <;> rfl

theorem Write.onPartitions_covers {w : Write} {actions : Partitioned Int ActionRow} :
    (w.onPartitions actions).Covers at_ ↔ actions.Covers at_ := by
  cases w with
  | insertAction row => exact Partitioned.covers_insert
  | updateRolledBack x t r u => exact Partitioned.covers_update
  | _ => exact Iff.rfl

/-- A change keeps the partitions sound if the partition of a new row is there. -/
theorem Storage.Sound.apply (h : st.Sound instants) {w : Write}
    (hw : ∀ row, w = .insertAction row → st.actions.Covers row.createdAt) :
    (st.apply (.row w)).Sound instants := by
  cases w with
  | insertAction row =>
    constructor
    · exact h.partitions.insert (hw row rfl)
    · exact (Partitioned.rows_insert _ _ row).trans (h.ledger.append_right [row])
  | updateRolledBack x t r u =>
    constructor
    · exact h.partitions.update (setRolledBack_createdAt x t r u)
    · change (st.actions.update _).rows.Perm (st.db.actions.map _)
      rw [Partitioned.rows_update]
      exact h.ledger.map _
  | _ => exact ⟨h.partitions, h.ledger⟩

theorem Storage.Sound.view (h : st.Sound instants) {ws : List Write}
    (hws : ∀ row, .insertAction row ∈ ws → st.actions.Covers row.createdAt) :
    (partitioned.view st (ws.map .row)).Sound instants := by
  induction ws generalizing st with
  | nil => exact h
  | cons w ws ih =>
    apply ih (h.apply fun row hrow => hws row (hrow ▸ List.mem_cons_self ..))
    intro row hrow
    exact Write.onPartitions_covers.2 (hws row (List.mem_cons_of_mem _ hrow))

theorem covers_view {ws : List Write} :
    (partitioned.view st (ws.map .row)).actions.Covers at_ ↔ st.actions.Covers at_ := by
  induction ws generalizing st with
  | nil => exact Iff.rfl
  | cons w ws ih => exact ih.trans Write.onPartitions_covers

theorem Stmt.eval_insertAction {r : s.Reply} {ws : List Write}
    (h : s.eval snap cur = .ok (r, ws)) {row : ActionRow} (hrow : .insertAction row ∈ ws) :
    s = .insertAction row := by
  cases s with
  | insertAction row' =>
    rw [Stmt.eval] at h
    split at h
    · cases h
    · split at h
      · cases h
      · cases h
        cases List.mem_singleton.1 hrow
        rfl
  | _ =>
    simp only [Stmt.eval] at h
    (try split at h) <;> (try split at h) <;> cases h <;> simp at hrow

theorem claimAnswer_eval {r : s.Reply} {ws : List Write} (h : s.eval snap cur = .ok (r, ws)) :
    ClaimAnswer s r := by
  cases s with
  | claim input =>
    rw [Stmt.eval] at h
    split at h
    · cases h
      intro row hrow hclaimed
      obtain ⟨g, _, rfl⟩ := List.mem_map.1 hrow
      cases hclaimed
    · cases h
      intro row hrow _
      cases List.mem_singleton.1 hrow
      rfl
  | _ => trivial

/-- The partitions are sound, and the ensured instants have theirs. -/
structure Storage.Ready (instants : Set Int) (sent : List Stmt) (st : Storage) : Prop where
  sound : st.Sound instants
  covers : ∀ at_, .ensureActionsMonthPartition at_ ∈ sent → st.actions.Covers at_

/-- Every statement that is sent as it should be keeps the partitions ready for the next. -/
theorem Storage.Ready.step (hone : OneEra instants) {sent : List Stmt} {r : s.Reply}
    {ws : List StorageWrite} (hs : PartitionFirst instants sent s) (h : st.Ready instants sent)
    (heval : partitioned.eval s st st = .ok (r, ws)) :
    ClaimAnswer s r ∧ (partitioned.view st ws).Ready instants (s :: sent) := by
  rcases Stmt.evalPartitioned_ok heval with ⟨hne, ws', heval', rfl⟩ |
    ⟨at_, new, rfl, hnew, rfl⟩
  · constructor
    · exact claimAnswer_eval heval'
    · have hcovers : ∀ {at_}, .ensureActionsMonthPartition at_ ∈ sent →
          (partitioned.view st (ws'.map .row)).actions.Covers at_ :=
        fun hat => covers_view.2 (h.covers _ hat)
      constructor
      · apply h.sound.view
        intro row hrow
        cases Stmt.eval_insertAction heval' hrow
        exact h.covers _ hs
      · intro at_ hat
        rcases List.mem_cons.1 hat with hat | hat
        · exact absurd hat.symm (hne at_)
        · exact hcovers hat
  · have hrep : Representable at_ := by
      by_contra hrep
      cases (ensure_unrepresentable st.actions hrep).symm.trans hnew
    obtain ⟨new', hnew', hsound, hrows, p, hp, hof⟩ := h.sound.partitions.ensure hone hs hrep
    cases hnew.symm.trans hnew'
    constructor
    · trivial
    · constructor
      · exact ⟨hsound, hrows ▸ h.sound.ledger⟩
      · intro at' hat
        rcases List.mem_cons.1 hat with hat | hat
        · cases hat
          exact ⟨p, hp, hof.covers.2 rfl⟩
        · exact Partitioned.covers_attach new (h.covers at' hat)

/-- What a program that ensures partitions first does on sound partitions. -/
theorem Ensures.issues {p : Tx α} {Q : α → Prop} (hp : Ensures instants [] Q p)
    (hone : OneEra instants) (h : st.Sound instants) :
    partitioned.Issues (fun s st => st.Monthly ∧
      ∀ at_, s = .ensureActionsMonthPartition at_ → st.Ensured at_) (fun _ => True) p st := by
  have hready : st.Ready instants [] := ⟨h, fun _ hat => by cases hat⟩
  apply (Engine.issues_of_follows (Storage.Ready.step hone) hp hready).mono
  rintro s st ⟨sent, hs, hst⟩
  constructor
  · exact hst.sound.monthly
  · rintro at_ rfl
    exact hst.sound.ensured hone hs

theorem Ensures.sound {p : Tx α} {Q : α → Prop} (hp : Ensures instants [] Q p)
    (hone : OneEra instants) (h : st.Sound instants) :
    ((partitioned.transact p st).2).Sound instants := by
  rw [Engine.transact]
  cases hexec : partitioned.exec p st with
  | error e => exact h
  | ok result =>
    have hready : st.Ready instants [] := ⟨h, fun _ hat => by cases hat⟩
    obtain ⟨_, sent, hst⟩ :=
      Engine.exec_of_follows (Storage.Ready.step hone) hp hready hexec
    exact hst.sound

/-- Where every month can be represented, the partitions change nothing else. -/
theorem Ensures.exec_eq {p : Tx α} {Q : α → Prop} {sent : List Stmt}
    (hp : Ensures instants sent Q p) (hone : OneEra instants)
    (hrep : ∀ at_ ∈ instants, Representable at_) (h : st.Ready instants sent) :
    (partitioned.exec p st).map (fun r => (r.1, r.2.db)) = postgres.exec p st.db := by
  induction p generalizing st sent with
  | pure a => rfl
  | throw e => rfl
  | exec s k ih =>
    by_cases hs : ∃ at_, s = .ensureActionsMonthPartition at_
    · obtain ⟨at_, rfl⟩ := hs
      obtain ⟨new, hnew, _⟩ := h.sound.partitions.ensure hone hp.1 (hrep at_ hp.1)
      have heval : partitioned.eval (.ensureActionsMonthPartition at_) st st =
          .ok ((), [.attach new]) := by
        change (match ensureActionsMonthPartition st.actions at_ with
          | .ok new => Except.ok ((), [StorageWrite.attach new])
          | .error _ => Except.error Err.aborted) = _
        rw [hnew]
      rw [partitioned.exec_exec heval]
      exact ih () (hp.2 () trivial) (Storage.Ready.step hone hp.1 h heval).2
    · have heq := @Stmt.evalPartitioned_eq s st st fun at_ hat => hs ⟨at_, hat⟩
      cases heval : s.eval st.db st.db with
      | error e =>
        rw [heval] at heq
        rw [partitioned.exec_error heq, postgres.exec_error heval]
        rfl
      | ok result =>
        obtain ⟨r, ws⟩ := result
        rw [heval] at heq
        obtain ⟨hr, hready⟩ := Storage.Ready.step hone hp.1 h heq
        rw [partitioned.exec_exec heq, postgres.exec_exec heval, ih r (hp.2 r hr) hready,
          partitioned_view_rows]

end

/-- What runs on the database: the migration at an instant, or a request. -/
inductive Job where
  | migrate (now : Int)
  | request (c : Call)

namespace Job

/-- The migration ensures this month and the next. -/
def body : Job → Tx Unit
  | .migrate now => do
    query (.ensureActionsMonthPartition now)
    query (.ensureActionsMonthPartition (plusMonth now))
  | .request c => do
    let _ ← c.body
    pure ()

def instants : Job → Set Int
  | .migrate now => {now, plusMonth now}
  | .request c => c.instants

theorem ensures {job : Job} {instants : Set Int} (h : job.instants ⊆ instants) :
    Ensures instants [] (fun _ => True) job.body := by
  cases job with
  | migrate now =>
    refine Ensures.query (h (Or.inl rfl)) fun _ => ?_
    exact ⟨h (Or.inr rfl), fun _ _ => trivial⟩
  | request c => exact Ensures.bind (body_ensures c h) fun _ => trivial

end Job

/-- The tables and an empty ledger, without months yet. -/
def Storage.fresh (db : Db) : Storage := ⟨db, ⟨[], []⟩⟩

/-- The jobs one after the other. -/
def Storage.after (st : Storage) (jobs : List Job) : Storage :=
  jobs.foldl (fun st job => (partitioned.transact job.body st).2) st

/-- The instants for which some jobs ensure partitions. -/
def instantsOf (jobs : List Job) : Set Int := { at_ | ∃ job ∈ jobs, at_ ∈ job.instants }

theorem Storage.fresh_sound {db : Db} (h : db.Initial) (instants : Set Int) :
    (Storage.fresh db).Sound instants := by
  constructor
  · constructor
    · intro p hp
      cases hp
    · exact List.Pairwise.nil
    · rfl
  · change List.Perm [] db.actions
    rw [h.actions]

theorem Storage.Sound.after {st : Storage} {instants : Set Int} (h : st.Sound instants)
    (hone : OneEra instants) {jobs : List Job} (hjobs : instantsOf jobs ⊆ instants) :
    (st.after jobs).Sound instants := by
  induction jobs generalizing st with
  | nil => exact h
  | cons job jobs ih =>
    have hjob : job.instants ⊆ instants :=
      fun at_ hat => hjobs ⟨job, List.mem_cons_self .., hat⟩
    apply ih ((Job.ensures hjob).sound hone h)
    rintro at_ ⟨job', hjob', hat⟩
    exact hjobs ⟨job', List.mem_cons_of_mem _ hjob', hat⟩

/-- In every run of migrations and requests whose instants are of one era, every partition that is
ensured is created or there, and the ledger lies in disjoint months before every statement and in
the end. -/
theorem month_partitions {db₀ : Db} (h₀ : db₀.Initial) (jobs : List Job)
    (hone : OneEra (instantsOf jobs)) :
    ((Storage.fresh db₀).after jobs).Monthly ∧
      ∀ pre job post, jobs = pre ++ job :: post →
        partitioned.Issues (fun s st => st.Monthly ∧
          ∀ at_, s = .ensureActionsMonthPartition at_ → st.Ensured at_) (fun _ => True) job.body
          ((Storage.fresh db₀).after pre) := by
  have hfresh := Storage.fresh_sound h₀ (instantsOf jobs)
  constructor
  · exact (hfresh.after hone (subset_refl _)).monthly
  · rintro pre job post rfl
    apply (Job.ensures _).issues hone (hfresh.after hone _)
    · intro at_ hat
      exact ⟨job, List.mem_append_right _ (List.mem_cons_self ..), hat⟩
    · rintro at_ ⟨job', hjob', hat⟩
      exact ⟨job', List.mem_append_left _ hjob', hat⟩

/-- Requests do with the partitions what they do without. -/
theorem Storage.after_requests {st : Storage} {instants : Set Int} (h : st.Sound instants)
    (hone : OneEra instants) (hrep : ∀ at_ ∈ instants, Representable at_) {calls : List Call}
    (hcalls : ∀ c ∈ calls, c.instants ⊆ instants) :
    (st.after (calls.map .request)).db = st.db.after calls := by
  induction calls generalizing st with
  | nil => rfl
  | cons c calls ih =>
    have hc : c.instants ⊆ instants := hcalls c (List.mem_cons_self ..)
    have hexec := (body_ensures c hc).exec_eq hone hrep ⟨h, fun _ hat => by cases hat⟩
    have hdb : ((partitioned.transact (Job.request c).body st).2).db = (c.serve st.db).2 := by
      have hbody : partitioned.exec (Job.request c).body st =
          partitioned.exec c.body st >>= fun r => .ok ((), r.2) := partitioned.exec_bind _ _ _
      rw [Call.serve, Engine.transact, Engine.transact, hbody, ← hexec]
      cases partitioned.exec c.body st with
      | error e => rfl
      | ok r => rfl
    rw [Db.after_cons, ← hdb]
    apply ih
    · exact (@Job.ensures (.request c) instants hc).sound hone h
    · intro c' hc'
      exact hcalls c' (List.mem_cons_of_mem _ hc')

/-- A bet in June and its rollback in July. -/
def juneBet : Call :=
  ⟨rust, { plainDraws with clock := fun x => 1781000000000000000 + x * 2000000000000000 },
    ⟨"a", "USD", "g", none, some [.bet 0 60, .rollback 1 0]⟩⟩

def juneAndJuly : List Job := [.migrate 1781000000000000, .request juneBet]

theorem juneAndJuly_oneEra : OneEra (instantsOf juneAndJuly) := by
  apply oneEra_of_le
  rintro at_ ⟨job, hjob, hat⟩
  rcases List.mem_cons.1 hjob with rfl | hjob
  · obtain rfl | rfl := hat
    · decide
    · decide +kernel
  · cases List.mem_singleton.1 hjob
    obtain ⟨action, haction, rfl⟩ := hat
    revert action
    decide +kernel

theorem juneAndJuly_partitions :
    ((Storage.fresh twoUsers).after juneAndJuly).actions.partitions.map
        (fun p => (p.name, p.rows.length)) = [("actions_2026_06", 1), ("actions_2026_07", 1)] ∧
      ((Storage.fresh twoUsers).after juneAndJuly).Monthly := by
  constructor
  · decide +kernel
  · exact (month_partitions twoUsers_initial juneAndJuly juneAndJuly_oneEra).1

end BetProcessor
