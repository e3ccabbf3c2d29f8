import BetProcessor.Footprint
import BetProcessor.Txn.Serializability

namespace BetProcessor
set_option autoImplicit true
open Txn

/-- Which answers a request gets, and with which exceptions it may end: without a row only where
the claim may return none. -/
structure Regime where
  answers : (s : Stmt) → s.Reply → Prop
  raises : Err → Prop
  original : ∀ {s r}, answers s r → Answers s r
  missing : ∀ {input}, answers (.claim input) [] → raises .rowMissing
  other : ∀ {e}, e ≠ .rowMissing → raises e

def Regime.any : Regime := ⟨Answers, fun _ => True, id, fun _ => trivial, fun _ => trivial⟩

section Within
variable {svc : Service} {draws : Draws} {request : ProcessRequest} {X : List Uuid}
variable {T : Regime}

/-- The body keeps to the account and the ids. -/
def Keeps (T : Regime) (a : Account) (X : List Uuid) (p : Tx α) : Prop :=
  p.Within (Stmt.Within a X) T.answers (fun _ => True) T.raises

namespace Keeps
variable {a : Account}

theorem pure (x : α) : Keeps T a X (Pure.pure x) := trivial

theorem throw {e : Err} (h : e ≠ .rowMissing) : Keeps (α := α) T a X (.throw e) := T.other h

theorem bind {p : Tx α} {f : α → Tx β} (hp : Keeps T a X p) (hf : ∀ x, Keeps T a X (f x)) :
    Keeps T a X (p >>= f) := Prog.Within.bind hp fun x _ => hf x

theorem query {s : Stmt} {f : s.Reply → Tx α} (h : s.Within a X)
    (hf : ∀ r, Keeps T a X (f r)) : Keeps T a X (query s >>= f) := ⟨h, fun r _ => hf r⟩

theorem bigint {f : Int → Tx α} {x : Int} (hf : ∀ v, Keeps T a X (f v)) :
    Keeps T a X (bigint svc x >>= f) := by
  rw [BetProcessor.bigint]
  split
  · exact hf _
  · exact throw nofun

theorem enqueueRtpDelta (delta : RtpOutboxDelta) : Keeps T a X (enqueueRtpDelta svc delta) := by
  refine bigint fun _ => bigint fun _ => bigint fun _ => bigint fun _ => bigint fun _ =>
    bigint fun _ => ?_
  exact ⟨trivial, fun _ _ => trivial⟩

theorem enqueueRemoveAppliedOriginal (b : Account) (t : Int) (type : ActionType)
    (amount : Int) : Keeps T a X (enqueueRemoveAppliedOriginal svc t b type amount) := by
  rw [BetProcessor.enqueueRemoveAppliedOriginal]
  split
  · exact pure _
  · exact enqueueRtpDelta _

theorem processBetOrWin {actionId : Uuid} (type : ActionType) (amount : Int)
    (claimed : ClaimedAction) (balance : Int) (h : actionId ∈ X) :
    Keeps T request.account X
      (processBetOrWin svc request actionId type amount claimed balance) := by
  rw [BetProcessor.processBetOrWin]
  split
  · exact throw nofun
  · refine query h fun rows => ?_
    dsimp only
    split
    · split
      · exact throw nofun
      · exact query trivial fun _ => bigint fun _ => bigint fun _ => query h fun _ =>
          bind (enqueueRtpDelta _) fun _ => pure _
    · split
      · exact throw nofun
      · exact query trivial fun _ => bigint fun _ => bigint fun _ => query h fun _ =>
          bind (enqueueRtpDelta _) fun _ => pure _

theorem insertRolbackAction {actionId : Uuid} (originalActionId : Uuid)
    (claimed : ClaimedAction) (delta : Int) (status : Status) (h : actionId ∈ X) :
    Keeps T request.account X
      (insertRolbackAction svc request actionId originalActionId claimed delta status) :=
  query trivial fun _ => bigint fun _ => query h fun _ => pure _

theorem findActionForUpdate {actionId : Uuid} (h : actionId ∈ X) :
    (findActionForUpdate svc actionId).Within (Stmt.Within a X) T.answers
      (fun r => ∀ e, r = some e → e.actionId = actionId) T.raises := by
  refine ⟨h, fun r hr => ?_⟩
  cases r with
  | none => exact fun e he => by cases he
  | some row => exact fun e he => by cases he; exact T.original hr row rfl

theorem processRolback {actionId originalActionId : Uuid} (claimed : ClaimedAction)
    (balance : Int) (h : actionId ∈ X) (ho : originalActionId ∈ X) :
    Keeps T request.account X
      (processRolback svc draws request actionId originalActionId claimed balance) := by
  rw [BetProcessor.processRolback]
  refine query ho fun rows => ?_
  split
  · exact bind (insertRolbackAction _ _ _ _ h) fun _ => pure _
  · refine Prog.Within.bind (findActionForUpdate ho) fun original horiginal => ?_
    split
    · exact bind (insertRolbackAction _ _ _ _ h) fun _ => query ⟨ho, h⟩ fun _ =>
        bind (enqueueRtpDelta _) fun _ => pure _
    · rename_i original
      have he : original.actionId ∈ X := horiginal original rfl ▸ ho
      split
      · exact bind (insertRolbackAction _ _ _ _ h) fun _ => query ⟨ho, h⟩ fun _ =>
          bind (enqueueRtpDelta _) fun _ => pure _
      · dsimp only
        split
        · exact throw nofun
        · exact bind (insertRolbackAction _ _ _ _ h) fun _ => query ⟨ho, h⟩ fun _ =>
            query he fun _ => bind (enqueueRemoveAppliedOriginal _ _ _ _) fun _ =>
            bind (enqueueRtpDelta _) fun _ => pure _

theorem processAction {action : ProcessAction} (claimed : ClaimedAction) (balance : Int)
    (h : ∀ x ∈ action.ids, x ∈ X) :
    Keeps T request.account X (processAction svc draws request action claimed balance) := by
  cases action with
  | bet x amount => exact processBetOrWin _ _ _ _ (h x (by simp [ProcessAction.ids]))
  | win x amount => exact processBetOrWin _ _ _ _ (h x (by simp [ProcessAction.ids]))
  | rollback r o =>
    exact processRolback _ _ (h r (by simp [ProcessAction.ids]))
      (h o (by simp [ProcessAction.ids]))

theorem claimAtcion {actionId : Uuid} (account : Account) (h : actionId ∈ X) :
    Keeps T a X (claimAtcion svc draws actionId account) := by
  refine ⟨h, fun rows hrows => ?_⟩
  cases rows with
  | nil => exact T.missing hrows
  | cons row =>
    change Keeps T a X (if row.claimed = true then _ else _)
    split
    · exact pure _
    · exact pure _

theorem actionId_mem_ids (action : ProcessAction) : action.actionId ∈ action.ids := by
  cases action <;> simp [ProcessAction.ids, ProcessAction.actionId]

theorem processActions {actions : List ProcessAction} (balance : Int)
    (transactions : List Transaction) (h : ∀ x ∈ actions.flatMap ProcessAction.ids, x ∈ X) :
    Keeps T request.account X
      (processActions svc draws request actions balance transactions) := by
  induction actions generalizing balance transactions with
  | nil => exact pure _
  | cons action rest ih =>
    have hids : ∀ x ∈ action.ids, x ∈ X := fun x hx => h x (List.mem_append_left _ hx)
    have hrest : ∀ x ∈ rest.flatMap ProcessAction.ids, x ∈ X :=
      fun x hx => h x (List.mem_append_right _ hx)
    refine bind (claimAtcion _ (hids _ (actionId_mem_ids action))) fun result => ?_
    cases result with
    | duplicate txId => exact ih _ _ hrest
    | claimed claimed => exact bind (processAction _ _ hids) fun _ => ih _ _ hrest

end Keeps
end Within

variable (svc : Service) (draws : Draws) (request : ProcessRequest)

/-- What a request does once it knows the balance of its locked account. -/
def afterLock (balance : Int) : Tx ProcessResponse :=
  if (request.actions.getD []).length = 0 then pure (.balance balance)
  else do
    let (balance, transactions) ←
      processActions svc draws request (request.actions.getD []) balance []
    let stored ← bigint svc balance
    query (.updateBalance request.account stored)
    pure (.actions request.gameId transactions balance)

theorem processAggregatorRequest_eq : processAggregatorRequest svc draws request =
    lockAccount svc request.account >>= afterLock svc draws request := rfl

theorem Keeps.afterLock {T : Regime} (balance : Int) :
    Keeps T request.account request.ids (afterLock svc draws request balance) := by
  rw [BetProcessor.afterLock]
  split
  · exact pure _
  · exact bind (processActions _ _ fun _ hx => hx) fun _ => bigint fun _ =>
      query rfl fun _ => pure _

/-- A request whose account row is known to exist. -/
def afterInsert : Tx ProcessResponse :=
  query (.selectAccountForUpdate request.account) >>= fun row =>
    (match row with
      | some balance => pure (svc.load balance)
      | none => .throw .rowMissing : Tx Int) >>= afterLock svc draws request

theorem processAggregatorRequest_insert : processAggregatorRequest svc draws request =
    .exec (.insertAccount request.account) fun _ => afterInsert svc draws request := by
  rw [processAggregatorRequest_eq]
  simp only [lockAccount, afterInsert, query, Prog.call_bind, Prog.exec_bind]
  congr
  funext _
  congr
  funext row
  cases row <;> rfl

theorem Keeps.afterInsert :
    Keeps .any request.account request.ids (afterInsert svc draws request) := by
  refine query rfl fun row => ?_
  cases row with
  | some balance => exact Keeps.afterLock svc draws request (svc.load balance)
  | none => exact True.intro

/-- A request that holds no lock is at one of its first two statements. -/
inductive Waiting : Tx ProcessResponse → Db → Prop where
  | insert {db} : Waiting (processAggregatorRequest svc draws request) db
  | select {db} (h : (db.account? request.account).isSome) :
    Waiting (afterInsert svc draws request) db

theorem exec_insert_some {db : Db} (h : (db.account? request.account).isSome) :
    postgres.exec (processAggregatorRequest svc draws request) db =
      postgres.exec (afterInsert svc draws request) db := by
  have hs : postgres.eval (.insertAccount request.account) db db = .ok ((), []) := by
    simp only [postgres_eval, Stmt.eval, if_pos h]
  rw [processAggregatorRequest_insert, postgres.exec_exec hs]
  rfl

theorem exec_insert_none {db : Db} (h : ¬ (db.account? request.account).isSome) :
    postgres.exec (processAggregatorRequest svc draws request) db =
      postgres.exec (afterInsert svc draws request)
        (postgres.view db [.insertAccount ⟨request.account, 0⟩]) := by
  have hs : postgres.eval (.insertAccount request.account) db db =
      .ok ((), [.insertAccount ⟨request.account, 0⟩]) := by
    simp only [postgres_eval, Stmt.eval, if_neg h]
  rw [processAggregatorRequest_insert, postgres.exec_exec hs]

variable {svc draws request}

theorem Waiting.next {s : Stmt} {k : s.Reply → Tx ProcessResponse} {snap cur : Db}
    {r : s.Reply} {ws : List Write} (h : Waiting svc draws request (.exec s k) snap)
    (hl : ∀ a, (snap.account? a).isSome → (cur.account? a).isSome)
    (he : s.eval snap cur = .ok (r, ws)) :
    (ws = [] ∧ Waiting svc draws request (k r) cur) ∨
      (.account request.account ∈ s.locks snap cur ∧
        (∀ w ∈ ws, w.Within request.account request.ids) ∧
        Keeps .any request.account request.ids (k r) ∧
        ∀ db', Agree request.account request.ids cur db' →
          postgres.exec (processAggregatorRequest svc draws request) db' =
            postgres.exec (k r) (postgres.view db' ws)) := by
  generalize hp : Prog.exec s k = p at h
  cases h with
  | insert =>
    rw [processAggregatorRequest_insert] at hp
    cases hp
    simp only [Stmt.eval] at he
    split at he
    · cases he
      exact Or.inl ⟨rfl, .select ‹_›⟩
    · cases he
      refine Or.inr ⟨?_, ?_, Keeps.afterInsert svc draws request, fun db' hdb' => ?_⟩
      · simp only [Stmt.locks, if_neg ‹¬ _›, List.mem_singleton]
      · simp [Write.Within]
      · exact exec_insert_none svc draws request (by rwa [← hdb'.account])
  | select hsome =>
    cases hp
    simp only [Stmt.eval, if_pos hsome] at he
    cases he
    refine Or.inr ⟨?_, ?_, ?_, fun db' hdb' => ?_⟩
    · simp only [Stmt.locks, if_pos hsome, List.mem_singleton]
    · simp
    · exact (Keeps.afterInsert svc draws request).2 _ trivial
    · have hsome' : (db'.account? request.account).isSome := hdb'.account ▸ hl _ hsome
      rw [exec_insert_some svc draws request hsome', afterInsert]
      apply postgres.exec_exec
      simp only [postgres_eval, Stmt.eval, if_pos hsome', hdb'.account]

theorem Waiting.error {s : Stmt} {k : s.Reply → Tx ProcessResponse} {snap cur : Db} {e : Err}
    (h : Waiting svc draws request (.exec s k) snap) : s.eval snap cur ≠ .error e := by
  generalize hp : Prog.exec s k = p at h
  cases h with
  | insert =>
    rw [processAggregatorRequest_insert] at hp
    cases hp
    simp only [Stmt.eval]
    split <;> simp
  | select hsome =>
    cases hp
    simp only [Stmt.eval, if_pos hsome]
    simp

theorem Waiting.later {p : Tx ProcessResponse} {db db' : Db}
    (h : Waiting svc draws request p db)
    (hl : ∀ a, (db.account? a).isSome → (db'.account? a).isSome) :
    Waiting svc draws request p db' := by
  cases h with
  | insert => exact .insert
  | select hsome => exact .select (hl _ hsome)

theorem Waiting.exec {p : Tx ProcessResponse} {db : Db} (h : Waiting svc draws request p db) :
    ∃ s k, p = .exec s k := by
  cases h with
  | insert => exact ⟨_, _, rfl⟩
  | select => exact ⟨_, _, rfl⟩

section
variable {ι : Type} (calls : ι → Call)

/-- The account row is the lock of a request; its footprint is the account and the ids that it
names. -/
def accountDiscipline (hids : ∀ i j, (calls i).account ≠ (calls j).account →
    ∀ x ∈ (calls i).request.ids, x ∉ (calls j).request.ids) :
    Discipline postgres ι ProcessResponse where
  progs i := (calls i).body
  lock i := .account (calls i).account
  agree i := Agree (calls i).account (calls i).request.ids
  later db db' := ∀ a, (db.account? a).isSome → (db'.account? a).isSome
  reads i := Stmt.Within (calls i).account (calls i).request.ids
  writes i := Write.Within (calls i).account (calls i).request.ids
  answers := Answers
  waiting i := Waiting (calls i).svc (calls i).draws (calls i).request
  agree_refl _ _ := Agree.refl _ _ _
  agree_trans := Agree.trans
  agree_apply w h := h.apply w
  agree_foreign db hij hw := Agree.foreign db (fun h => hij (by rw [h]))
    (hids _ _ fun h => hij (by rw [h])) hw
  eval_agree := Stmt.eval_agree
  eval_within := Stmt.eval_within
  later_refl _ _ h := h
  later_trans h h' a ha := h' a (h a ha)
  later_apply db _ _ ha := db.account?_isSome_apply _ ha
  waiting_start _ _ := .insert
  waiting_exec := Waiting.exec
  waiting_later := Waiting.later
  waiting_error h _ := h.error
  waiting_next := Waiting.next

theorem locked_of_select [DecidableEq ι] (hids : ∀ i j,
    (calls i).account ≠ (calls j).account →
    ∀ x ∈ (calls i).request.ids, x ∉ (calls j).request.ids)
    (i : ι) {c c' : Config ι Stmt Stmt.Reply Err Db Write Key ProcessResponse}
    (h : (accountDiscipline calls hids).Inv c)
    (hm : postgres.Moves c (.finish i (.selectAccountForUpdate (calls i).account)) c') :
    Key.account (calls i).account ∈ (c'.sess i).held := by
  cases hm with
  | @finish _ st snap _ k r ws hi hf he =>
    have hp := h.phase i
    rw [hi] at hp
    rw [Config.set_self]
    rcases hp with ⟨hp, _⟩ | ⟨h₀, hp, hl⟩
    · exact List.mem_append_left _ hp.1
    · apply List.mem_append_right
      rw [h₀]
      generalize hq : Prog.exec _ k = p at hp
      cases hp with
      | insert =>
        rw [processAggregatorRequest_insert] at hq
        cases hq
      | select hsome =>
        simp only [Call.account, postgres_locks, Engine.view_nil, Stmt.locks, if_pos hsome,
          List.mem_singleton]
  | fail hi hf he =>
    simp only [postgres_eval, Stmt.eval] at he
    split at he <;> cases he

variable [Fintype ι] [DecidableEq ι]

/-- Serializability per account: the requests that nobody aborted answer and write as in a
serial order that follows the locks of the account rows. -/
theorem requests_serializable (hids : ∀ i j, (calls i).account ≠ (calls j).account →
    ∀ x ∈ (calls i).request.ids, x ∉ (calls j).request.ids) (db₀ : Db)
    {ls : List (Label ι Stmt Err)}
    {c : Config ι Stmt Stmt.Reply Err Db Write Key ProcessResponse}
    (hr : postgres.Run (fun _ _ => True) (.init (fun i => (calls i).body) db₀) ls c)
    (hdone : ∀ i, ∃ r, c.sess i = .done r) :
    ∃ order : List ι, order.Nodup ∧ (∀ i, i ∈ order ↔ ∀ e, Label.abort i e ∉ ls) ∧
      (∀ i ∈ order, ∀ j ∈ order, i ≠ j → (calls i).account = (calls j).account →
        [Label.finish i (Stmt.selectAccountForUpdate (calls i).account),
          Label.finish j (Stmt.selectAccountForUpdate (calls j).account)].Sublist ls →
        [i, j].Sublist order) ∧
      c.db = db₀.after (order.map calls) ∧
      ∀ pre i post, order = pre ++ i :: post →
        c.sess i = .done ((calls i).serve (db₀.after (pre.map calls))).1 := by
  have hrep := Discipline.replayed (P := accountDiscipline calls hids) hr
  have hserial : ∀ order, (accountDiscipline calls hids).serial order db₀ =
      db₀.after (order.map calls) := by
    intro order
    rw [Db.after, List.foldl_map]
    rfl
  refine ⟨ended ls, hrep.nodup, fun i => ⟨fun hi e he => ?_, fun hi => ?_⟩, ?_, ?_, ?_⟩
  · exact (hrep.aborted i e he).1 hi
  · obtain ⟨r, hir⟩ := hdone i
    rcases hrep.done i r hir with h | ⟨e, h⟩
    · exact h
    · exact absurd h (hi e)
  · intro i hi j hj hij hacc hsub
    refine Discipline.lock_order (P := accountDiscipline calls hids) hr
      (locked_of_select _ hids i) (locked_of_select _ hids j) hij ?_ hsub hi hj
    exact congrArg Key.account hacc
  · rw [← hserial]
    exact hrep.db
  · intro pre i post heq
    rw [← hserial]
    exact hrep.result pre i post heq

end

/-- Two concurrent bets of 60 on a balance of 100. -/
def twoBets (i : Fin 2) : Call :=
  ⟨typescript, plainDraws, ⟨"u", "USD", "g", none, some [.bet i.val 60]⟩⟩

theorem two_bets_serializable : ∃ ls c,
    postgres.Run (fun _ _ => True) (.init (fun i => (twoBets i).body)
      ⟨[⟨⟨"u", "USD"⟩, 100⟩], [], [], [], []⟩) ls c ∧ ∃ order : List (Fin 2), order.Nodup ∧
      c.db = Db.after ⟨[⟨⟨"u", "USD"⟩, 100⟩], [], [], [], []⟩ (order.map twoBets) := by
  obtain ⟨ls, c, hr, hdone⟩ := Engine.Run.exists_of_drive postgres
    (c := .init (fun i => (twoBets i).body) ⟨[⟨⟨"u", "USD"⟩, 100⟩], [], [], [], []⟩)
    ([0, 0, 1, 1, 0, 0, 1] ++ List.replicate 13 0 ++ List.replicate 6 1)
    (p := fun r => decide (∀ i, (r.2.sess i).result?.isSome)) (by decide +kernel)
  obtain ⟨order, hnodup, _, _, hdb, _⟩ := requests_serializable twoBets
    (fun i j hij => absurd rfl hij) _ hr
    fun i => Session.done_of_result? (of_decide_eq_true hdone i)
  exact ⟨ls, c, hr, order, hnodup, hdb⟩

end BetProcessor
