import BetProcessor.Txn.Follows
import BetProcessor.Outcomes

namespace BetProcessor
set_option autoImplicit true
open Txn

/-- A row of the ledger is inserted after its partition has been ensured, and partitions are ensured
for certain instants only. -/
def PartitionFirst (instants : Set Int) (sent : List Stmt) : Stmt → Prop
  | .ensureActionsMonthPartition at_ => at_ ∈ instants
  | .insertAction row => .ensureActionsMonthPartition row.createdAt ∈ sent
  | _ => True

/-- A claim answers with the instant that it was sent. -/
def ClaimAnswer : (s : Stmt) → s.Reply → Prop
  | .claim input, rows => ∀ row ∈ rows, row.claimed = true →
    row.ledgerCreatedAt = input.ledgerCreatedAt
  | _, _ => True

theorem PartitionFirst.mono {instants : Set Int} (sent sent' : List Stmt) (s : Stmt)
    (hsub : sent ⊆ sent') (h : PartitionFirst instants sent s) :
    PartitionFirst instants sent' s := by
  cases s with
  | insertAction row => exact hsub h
  | _ => exact h

/-- The program ensures partitions before it inserts, and its result satisfies `Q`. -/
abbrev Ensures (instants : Set Int) (sent : List Stmt) (Q : α → Prop) (p : Tx α) : Prop :=
  p.Follows (PartitionFirst instants) ClaimAnswer Q sent

namespace Ensures
variable {instants : Set Int} {sent : List Stmt} {svc : Service} {α β : Type} {Q : β → Prop}

theorem bind {p : Tx α} {f : α → Tx β} (hp : Ensures instants sent (fun _ => True) p)
    (hf : ∀ a, Ensures instants sent Q (f a)) : Ensures instants sent Q (p >>= f) :=
  Prog.Follows.bind PartitionFirst.mono hp fun a _ => hf a

theorem query {s : Stmt} {f : s.Reply → Tx β} (h : PartitionFirst instants sent s)
    (hf : ∀ r, Ensures instants (s :: sent) Q (f r)) :
    Ensures instants sent Q (BetProcessor.query s >>= f) :=
  ⟨h, fun r _ => hf r⟩

theorem bigint (x : Int) : Ensures instants sent (fun _ => True) (BetProcessor.bigint svc x) := by
  rw [BetProcessor.bigint]
  cases svc.bind x with
  | none => trivial
  | some v => trivial

theorem enqueueRtpDelta (delta : RtpOutboxDelta) :
    Ensures instants sent (fun _ => True) (BetProcessor.enqueueRtpDelta svc delta) := by
  rw [BetProcessor.enqueueRtpDelta]
  apply bind (bigint _)
  intro _
  apply bind (bigint _)
  intro _
  apply bind (bigint _)
  intro _
  apply bind (bigint _)
  intro _
  apply bind (bigint _)
  intro _
  apply bind (bigint _)
  intro _
  exact ⟨trivial, fun _ _ => trivial⟩

theorem lockAccount (account : Account) :
    Ensures instants sent (fun _ => True) (BetProcessor.lockAccount svc account) := by
  refine query trivial fun _ => ?_
  refine query trivial fun balance => ?_
  cases balance with
  | none => trivial
  | some balance => trivial

theorem findActionForUpdate (x : Uuid) :
    Ensures instants sent (fun _ => True) (BetProcessor.findActionForUpdate svc x) := by
  refine query trivial fun row => ?_
  cases row with
  | none => trivial
  | some row => trivial

theorem claimAtcion (draws : Draws) (x : Uuid) (account : Account) :
    Ensures instants sent
      (fun r => ∀ claimed, r = .claimed claimed → claimed.createdAt = svc.stamp (draws.clock x))
      (BetProcessor.claimAtcion svc draws x account) := by
  constructor
  · trivial
  · intro rows hrows
    cases rows with
    | nil => trivial
    | cons row rest =>
      change Prog.Follows _ _ _ (if row.claimed then _ else _) _
      by_cases hclaimed : row.claimed = true
      · rw [if_pos hclaimed]
        rintro claimed ⟨rfl⟩
        change svc.date row.ledgerCreatedAt = _
        rw [hrows row (List.mem_cons_self ..) hclaimed, svc.date_stamp]
      · rw [if_neg hclaimed]
        rintro claimed ⟨⟩

variable {draws : Draws} {request : ProcessRequest} {claimed : ClaimedAction}

theorem insertOriginal {createdAt : Int} {row : Int → Int → ActionRow}
    {amount delta : Int} {result : ProcessedAction} (enqueue : Int → Tx Unit)
    (h : createdAt ∈ instants) (hrow : ∀ v d, (row v d).createdAt = createdAt)
    (henqueue : ∀ sent t, Ensures instants sent (fun _ => True) (enqueue t)) :
    Ensures instants sent (fun _ => True) (do
      ensureActionPartition createdAt
      let v ← BetProcessor.bigint svc amount
      let d ← BetProcessor.bigint svc delta
      let insertedAt ← BetProcessor.query (.insertAction (row v d))
      enqueue insertedAt
      pure result) := by
  refine query h fun _ => ?_
  apply bind (bigint _)
  intro v
  apply bind (bigint _)
  intro d
  apply query
  · change Stmt.ensureActionsMonthPartition (row v d).createdAt ∈ _
    rw [hrow]
    exact List.mem_cons_self ..
  · intro t
    exact bind (henqueue _ t) fun _ => trivial

theorem processBetOrWin (h : claimed.createdAt ∈ instants) (x : Uuid) (type : ActionType)
    (amount balance : Int) : Ensures instants sent (fun _ => True)
      (BetProcessor.processBetOrWin svc request x type amount claimed balance) := by
  rw [BetProcessor.processBetOrWin]
  by_cases hrefuses : svc.refuses amount = true
  · rw [if_pos hrefuses]
    trivial
  · rw [if_neg hrefuses]
    dsimp only
    refine query trivial fun rows => ?_
    by_cases hseen : 0 < rows.length
    · simp only [if_pos hseen]
      split
      · trivial
      · apply insertOriginal (fun t =>
          enqueueRolledBackOriginal svc (svc.date t) request.account type amount) h
        · exact fun _ _ => rfl
        · exact fun _ _ => enqueueRtpDelta _
    · simp only [if_neg hseen]
      split
      · trivial
      · apply insertOriginal (fun t =>
          enqueueAppliedOriginal svc (svc.date t) request.account type amount) h
        · exact fun _ _ => rfl
        · exact fun _ _ => enqueueRtpDelta _

theorem insertRolbackAction (h : claimed.createdAt ∈ instants) (x o : Uuid) (delta : Int)
    (status : Status) : Ensures instants sent (fun _ => True)
      (BetProcessor.insertRolbackAction svc request x o claimed delta status) := by
  constructor
  · exact h
  · intro _ _
    apply bind (bigint _)
    intro _
    exact query (List.mem_cons_self ..) fun _ => trivial

theorem enqueueRemoveAppliedOriginal (createdAt : Int) (account : Account) (type : ActionType)
    (amount : Int) : Ensures instants sent (fun _ => True)
      (BetProcessor.enqueueRemoveAppliedOriginal svc createdAt account type amount) := by
  rw [BetProcessor.enqueueRemoveAppliedOriginal]
  split
  · trivial
  · exact enqueueRtpDelta _

theorem insertRecorded {x o : Uuid} {delta : Int} {status : Status}
    {f : InsertedRollback → Tx α} (h : claimed.createdAt ∈ instants)
    (hf : ∀ sent inserted, Ensures instants sent (fun _ => True) (f inserted)) :
    Ensures instants sent (fun _ => True) (do
      let inserted ← BetProcessor.insertRolbackAction svc request x o claimed delta status
      insertRollbackIntent o x request.account
      f inserted) := by
  apply bind (insertRolbackAction h x o _ _)
  intro inserted
  exact query trivial fun _ => hf _ inserted

theorem enqueueRollbackCount (t : Int) (account : Account) {r : α} :
    Ensures instants sent (fun _ => True)
      (BetProcessor.enqueueRollbackCount svc t account >>= fun _ => (pure r : Tx α)) :=
  bind (enqueueRtpDelta _) fun _ => trivial

theorem processRolback (h : claimed.createdAt ∈ instants) (x o : Uuid) (balance : Int) :
    Ensures instants sent (fun _ => True)
      (BetProcessor.processRolback svc draws request x o claimed balance) := by
  refine query trivial fun rows => ?_
  split
  · exact bind (insertRolbackAction h x o _ _) fun _ => trivial
  · apply bind (findActionForUpdate o)
    intro original
    cases original with
    | none => exact insertRecorded h fun _ _ => enqueueRollbackCount _ _
    | some original =>
      dsimp only
      split
      · exact insertRecorded h fun _ _ => enqueueRollbackCount _ _
      · split
        · trivial
        · apply insertRecorded h
          intro _ inserted
          refine query trivial fun _ => ?_
          apply bind (enqueueRemoveAppliedOriginal _ _ _ _)
          intro _
          exact enqueueRollbackCount _ _

theorem processAction (h : claimed.createdAt ∈ instants) (action : ProcessAction) (balance : Int) :
    Ensures instants sent (fun _ => True)
      (BetProcessor.processAction svc draws request action claimed balance) := by
  cases action with
  | bet x amount => exact processBetOrWin h x .bet amount balance
  | win x amount => exact processBetOrWin h x .win amount balance
  | rollback x o => exact processRolback h x o balance

theorem processActions {actions : List ProcessAction}
    (h : ∀ action ∈ actions, svc.stamp (draws.clock action.actionId) ∈ instants) (balance : Int)
    (transactions : List Transaction) : Ensures instants sent (fun _ => True)
      (BetProcessor.processActions svc draws request actions balance transactions) := by
  induction actions generalizing balance transactions with
  | nil => trivial
  | cons action rest ih =>
    have hrest := ih fun action' h' => h action' (List.mem_cons_of_mem _ h')
    apply Prog.Follows.bind PartitionFirst.mono (claimAtcion draws action.actionId request.account)
    intro r hr
    cases r with
    | duplicate txId => exact hrest balance _
    | claimed claimed =>
      have hinstant : claimed.createdAt ∈ instants := by
        rw [hr claimed rfl]
        exact h action (List.mem_cons_self ..)
      exact bind (processAction hinstant action balance) fun result => hrest result.balance _

end Ensures

/-- The instants of the actions of a request. -/
def Call.instants (c : Call) : Set Int :=
  { at_ | ∃ action ∈ c.actions, at_ = c.claimedAt action.actionId }

/-- Both services ensure the partition of every row before they insert it, whatever the database
answers. -/
theorem body_ensures (c : Call) {instants : Set Int} (h : c.instants ⊆ instants) :
    Ensures instants [] (fun _ => True) c.body := by
  apply Ensures.bind (Ensures.lockAccount _)
  intro balance
  dsimp only
  split
  · trivial
  · apply Ensures.bind
    · apply Ensures.processActions
      intro action haction
      exact h ⟨action, haction, rfl⟩
    · intro r
      apply Ensures.bind (Ensures.bigint _)
      intro _
      exact Ensures.query trivial fun _ => trivial

end BetProcessor
