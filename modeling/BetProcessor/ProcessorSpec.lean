import BetProcessor.Stability
import BetProcessor.Serializable

namespace BetProcessor
set_option autoImplicit true
open Txn

theorem Service.bind_zero (svc : Service) : svc.bind 0 = some 0 := svc.bind_small (by decide)

theorem Service.bind_one (svc : Service) : svc.bind 1 = some 1 := svc.bind_small (by decide)

theorem Service.bind_neg_one (svc : Service) : svc.bind (-1) = some (-1) :=
  svc.bind_small (by decide)

theorem Service.bind_ite {svc : Service} {p : Prop} [Decidable p] {x y v w u : Int}
    (hx : svc.bind x = some v) (hy : svc.bind y = some w)
    (h : svc.bind (if p then x else y) = some u) : u = if p then v else w := by
  by_cases hp : p
  · rw [if_pos hp] at h ⊢
    exact Option.some.inj (h.symm.trans hx)
  · rw [if_neg hp] at h ⊢
    exact Option.some.inj (h.symm.trans hy)

section Rules
variable {I : Db → Prop} {R : Rely I Stmt Write Key} {st : Sess Stmt Write Key} {db : Db}
variable {Q : α → Sess Stmt Write Key → Db → Prop} {svc : Service}

theorem wp_bigint {f : Int → Tx α} {x : Int}
    (h : ∀ v, svc.bind x = some v → postgres.wp R (f v) Q st db) :
    postgres.wp R (bigint svc x >>= f) Q st db := by
  rw [bigint]
  split
  · exact h _ ‹_›
  · exact Engine.wp_throw

theorem wp_selectIntent {f : List Uuid → Tx α} {o : Uuid}
    (h : ∀ rows st' db', st'.writes = st.writes → st ≤ st' →
      (0 < rows.length → R.Past st' db' fun _ db => (postgres.view db st.writes).HasIntent o) →
      (¬ 0 < rows.length → R.Past st' db' fun st₀ db => Stmt.selectIntent o ∈ st₀.hist ∧
        st.held ⊆ st₀.held ∧ ¬ (postgres.view db st.writes).HasIntent o) →
      postgres.wp R (f rows) Q st' db') :
    postgres.wp R (query (.selectIntent o) >>= f) Q st db := by
  intro snap cur rows ws hsnap hcur he
  cases he
  refine h _ _ _ (List.append_nil _) (Sess.le_run _ _ _ _)
    (fun hpos => ?_) (fun hneg => ?_)
  · refine ⟨st.start (.selectIntent o), snap, ?_, Sess.le_finish _ _ _, hcur⟩
    obtain ⟨r, hr⟩ := List.exists_mem_of_length_pos hpos
    obtain ⟨t, ht, _⟩ := List.mem_map.1 hr
    obtain ⟨ht, hto⟩ := List.mem_filter.1 ht
    exact ⟨t, ht, by simpa using hto⟩
  · refine ⟨st.start (.selectIntent o), snap, ⟨?_, List.Subset.refl _, ?_⟩,
      Sess.le_finish _ _ _, hcur⟩
    · exact List.mem_append_right _ (List.mem_singleton.2 rfl)
    · rintro ⟨t, ht, hto⟩
      apply hneg
      rw [List.length_map]
      exact List.length_pos_of_mem (List.mem_filter.2 ⟨ht, by simpa using hto⟩)

theorem wp_selectActionForUpdate {f : Option ExistingAction → Tx α} {o : Uuid}
    (h : ∀ r st' db', st'.writes = st.writes → st ≤ st' →
      (r = none → R.Past st' db' fun st₀ db => Stmt.selectActionForUpdate o ∈ st₀.hist ∧
        st.held ⊆ st₀.held ∧ (postgres.view db st.writes).original? o = none) →
      (∀ e, r = some e → ∃ row, e = row.existing ∧
        R.Past st' db' fun _ db => (postgres.view db st.writes).original? o = some row) →
      postgres.wp R (f r) Q st' db') :
    postgres.wp R (query (.selectActionForUpdate o) >>= f) Q st db := by
  intro snap cur r ws hsnap hcur he
  have hhist : Stmt.selectActionForUpdate o ∈ (st.start (.selectActionForUpdate o)).hist :=
    List.mem_append_right _ (List.mem_singleton.2 rfl)
  have hI : I cur := R.keeps hcur
  simp only [postgres_eval, Stmt.eval, Db.action?_isSome, Db.action?_existing] at he
  split at he
  · cases he
    refine h _ _ _ (List.append_nil _) (Sess.le_run _ _ _ _)
      (fun hnone => ?_) (fun e he => ?_)
    · exact ⟨st.start _, cur, ⟨hhist, List.Subset.refl _, Option.map_eq_none_iff.1 hnone⟩,
        Sess.le_finish _ _ _, R.refl hI⟩
    · obtain ⟨row, hrow, rfl⟩ := Option.map_eq_some_iff.1 he
      exact ⟨row, rfl, st.start _, cur, hrow, Sess.le_finish _ _ _, R.refl hI⟩
  · rename_i hsome
    cases he
    refine h _ _ _ (List.append_nil _) (Sess.le_run _ _ _ _)
      (fun _ => ?_) (fun e he => by cases he)
    exact ⟨st.start _, snap, ⟨hhist, List.Subset.refl _,
      Option.not_isSome_iff_eq_none.1 hsome⟩, Sess.le_finish _ _ _, hcur⟩

theorem wp_ensureActionPartition {f : Unit → Tx α} {t : Int}
    (h : ∀ st' db', st'.writes = st.writes → st ≤ st' → R.rel st db db' →
      postgres.wp R (f ()) Q st' db') :
    postgres.wp R (ensureActionPartition t >>= f) Q st db := by
  intro snap cur r ws hsnap hcur he
  cases he
  exact h _ _ (List.append_nil _) (Sess.le_run _ _ _ _)
    (R.trans hsnap (R.anti (Sess.le_start _ _) hcur))

theorem wp_insertAction {f : Int → Tx α} {row : ActionRow}
    (h : ∀ st' db', st'.writes = st.writes ++ [.insertAction row] → st ≤ st' → row.Check →
      postgres.wp R (f row.createdAt) Q st' db') :
    postgres.wp R (query (.insertAction row) >>= f) Q st db := by
  intro snap cur r ws hsnap hcur he
  simp only [postgres_eval, Stmt.eval] at he
  split at he
  · cases he
  · split at he
    · cases he
    · rename_i hcheck
      cases he
      exact h _ _ rfl (Sess.le_run _ _ _ _) (not_not.1 hcheck)

theorem wp_insertRollbackIntent {f : Unit → Tx α} {o r : Uuid} {a : Account}
    (h : ∀ st' db', st'.writes = st.writes ++ [.insertIntent ⟨o, r, a⟩] → st ≤ st' →
      (R.Past st' db' fun st₀ db => (¬ (postgres.view db st.writes).HasIntent o ∧
        ¬ (postgres.view db st.writes).HasIntentBy r) ∧
        .intent o ∈ st₀.held ∧ .intentBy r ∈ st₀.held) → postgres.wp R (f ()) Q st' db') :
    postgres.wp R (insertRollbackIntent o r a >>= f) Q st db := by
  intro snap cur reply ws hsnap hcur he
  simp only [postgres_eval, Stmt.eval] at he
  split at he
  · cases he
  · rename_i hfree
    split at he
    · cases he
    · cases he
      apply h _ _ rfl (Sess.le_run _ _ _ _)
      refine ⟨_, cur, ⟨not_or.1 hfree, ?_, ?_⟩, le_refl _, R.refl (R.keeps hcur)⟩
      · simp only [Sess.finish_held, postgres_locks, Stmt.locks, if_neg hfree]
        simp
      · simp only [Sess.finish_held, postgres_locks, Stmt.locks, if_neg hfree]
        simp

theorem wp_updateRolledBack {f : Unit → Tx α} {x r : Uuid} {t now : Int}
    (h : ∀ st' db' marks, st'.writes = st.writes ++ marks → (∀ w ∈ marks, w.IsMark) →
      st ≤ st' → postgres.wp R (f ()) Q st' db') :
    postgres.wp R (query (.updateRolledBack x t r now) >>= f) Q st db := by
  intro snap cur reply ws hsnap hcur he
  simp only [postgres_eval, Stmt.eval] at he
  split at he
  · cases he
    refine h _ _ _ rfl (fun w hw => ?_) (Sess.le_run _ _ _ _)
    obtain rfl := List.mem_singleton.1 hw
    trivial
  · cases he
    exact h _ _ _ rfl (fun w hw => by cases hw) (Sess.le_run _ _ _ _)

theorem wp_insertOutbox {f : Unit → Tx α} {row : OutboxRow}
    (h : ∀ st' db', st'.writes = st.writes ++ [.insertOutbox row] → st ≤ st' →
      postgres.wp R (f ()) Q st' db') :
    postgres.wp R (query (.insertOutbox row) >>= f) Q st db := by
  intro snap cur r ws hsnap hcur he
  cases he
  exact h _ _ rfl (Sess.le_run _ _ _ _)

theorem wp_insertAccount {f : Unit → Tx α} {a : Account} (h₀ : st.writes = [])
    (h : ∀ st' db', st ≤ st' → (st'.writes = [] ∨ (st'.writes = [.insertAccount ⟨a, 0⟩] ∧
      R.Past st' db' fun st₀ db => db.account? a = none ∧ Key.account a ∈ st₀.held)) →
      postgres.wp R (f ()) Q st' db') :
    postgres.wp R (query (.insertAccount a) >>= f) Q st db := by
  intro snap cur r ws hsnap hcur he
  simp only [postgres_eval, Stmt.eval, h₀, Engine.view_nil] at he
  split at he
  · cases he
    apply h _ _ (Sess.le_run _ _ _ _) (Or.inl _)
    rw [Sess.finish_writes, Sess.start_writes, h₀]
    rfl
  · rename_i hnone
    cases he
    refine h _ _ (Sess.le_run _ _ _ _) (Or.inr ⟨?_, ?_⟩)
    · rw [Sess.finish_writes, Sess.start_writes, h₀]
      rfl
    · refine ⟨_, cur, ⟨Option.not_isSome_iff_eq_none.1 hnone, List.mem_append_right _ ?_⟩,
        le_refl _, R.refl (R.keeps hcur)⟩
      simp only [postgres_locks, Stmt.locks, h₀, Engine.view_nil, if_neg hnone,
        List.mem_singleton]

theorem wp_selectAccountForUpdate {f : Option Int → Tx α} {a : Account}
    (hnone : ∀ st' db', postgres.wp R (f none) Q st' db')
    (h : ∀ v st' db', st'.writes = st.writes → st ≤ st' → Key.account a ∈ st'.held →
      R.rel st db db' →
      (R.Past st' db' fun st₀ db => Key.account a ∈ st₀.held ∧
        ((postgres.view db st.writes).account? a).map (·.balance) = some v) →
      postgres.wp R (f (some v)) Q st' db') :
    postgres.wp R (query (.selectAccountForUpdate a) >>= f) Q st db := by
  intro snap cur r ws hsnap hcur he
  simp only [postgres_eval, Stmt.eval] at he
  split at he
  · rename_i hsome
    cases he
    have hheld : Key.account a ∈ postgres.locks (.selectAccountForUpdate a)
        (postgres.view snap st.writes) (postgres.view cur st.writes) := by
      simp only [postgres_locks, Stmt.locks, if_pos hsome, List.mem_singleton]
    cases hv : ((postgres.view cur st.writes).account? a).map (·.balance) with
    | none => exact hnone _ _
    | some v =>
      exact h v _ _ (List.append_nil _) (Sess.le_run _ _ _ _) (List.mem_append_right _ hheld)
        (R.trans hsnap (R.anti (Sess.le_start _ _) hcur))
        ⟨_, cur, ⟨List.mem_append_right _ hheld, hv⟩, le_refl _, R.refl (R.keeps hcur)⟩
  · cases he
    exact hnone _ _

theorem wp_updateBalance {f : Unit → Tx α} {a : Account} {b : Int}
    (hsome : ∀ snap, R.rel st db snap →
      ((postgres.view snap st.writes).account? a).isSome)
    (h : ∀ st' db', st'.writes = st.writes ++ [.updateBalance a b] → st ≤ st' →
      R.rel st db db' → 0 ≤ b → postgres.wp R (f ()) Q st' db') :
    postgres.wp R (query (.updateBalance a b) >>= f) Q st db := by
  intro snap cur r ws hsnap hcur he
  simp only [postgres_eval, Stmt.eval, if_pos (hsome snap hsnap)] at he
  split at he
  · cases he
  · cases he
    exact h _ _ rfl (Sess.le_run _ _ _ _) (R.trans hsnap (R.anti (Sess.le_start _ _) hcur))
      (not_lt.1 ‹_›)

/-- The outbox row that a delta is stored in. -/
structure RtpOutboxDelta.Stored (svc : Service) (delta : RtpOutboxDelta) (row : OutboxRow) :
    Prop where
  bucketMinute : row.bucketMinute = minute delta.bucketAt
  account : row.account = delta.account
  totalBet : svc.bind delta.totalBet = some row.totalBetDelta
  totalWin : svc.bind delta.totalWin = some row.totalWinDelta
  rounds : svc.bind delta.rounds = some row.roundsDelta
  rollbackCount : svc.bind delta.rollbackCount = some row.rollbackCountDelta
  rolledBackBet : svc.bind delta.rolledBackBet = some row.rolledBackBetDelta
  rolledBackWin : svc.bind delta.rolledBackWin = some row.rolledBackWinDelta

theorem RtpOutboxDelta.Stored.unique {delta : RtpOutboxDelta} {row : OutboxRow}
    (h : delta.Stored svc row) (row' : OutboxRow) (h' : delta.Stored svc row') : row = row' := by
  cases row
  cases row'
  have h₁ := h.bucketMinute.trans h'.bucketMinute.symm
  have h₂ := h.account.trans h'.account.symm
  have h₃ := Option.some.inj (h.totalBet.symm.trans h'.totalBet)
  have h₄ := Option.some.inj (h.totalWin.symm.trans h'.totalWin)
  have h₅ := Option.some.inj (h.rounds.symm.trans h'.rounds)
  have h₆ := Option.some.inj (h.rollbackCount.symm.trans h'.rollbackCount)
  have h₇ := Option.some.inj (h.rolledBackBet.symm.trans h'.rolledBackBet)
  have h₈ := Option.some.inj (h.rolledBackWin.symm.trans h'.rolledBackWin)
  simp_all

theorem wp_enqueueRtpDelta {f : Unit → Tx α} {delta : RtpOutboxDelta}
    (h : ∀ row st' db', delta.Stored svc row →
      st'.writes = st.writes ++ [.insertOutbox row] → st ≤ st' →
      postgres.wp R (f ()) Q st' db') :
    postgres.wp R (enqueueRtpDelta svc delta >>= f) Q st db := by
  rw [enqueueRtpDelta]
  simp only [Prog.bind_assoc]
  refine wp_bigint fun b hb => wp_bigint fun w hw => wp_bigint fun rn hrn =>
    wp_bigint fun rc hrc => wp_bigint fun rb hrb => wp_bigint fun rw hrw =>
    wp_insertOutbox fun st' db' hwr hle => h _ st' db' ?_ hwr hle
  exact ⟨rfl, rfl, hb, hw, hrn, hrc, hrb, hrw⟩

end Rules

theorem bind_originalDelta {svc : Service} {type : ActionType} {amount v d : Int}
    (hv : svc.bind amount = some v) (hpos : 0 < v)
    (hd : svc.bind (originalDelta svc type amount) = some d) : d = signed type v := by
  unfold originalDelta at hd
  rw [signed]
  exact Service.bind_ite (svc.bind_neg hv hpos) hv hd

section Functions
variable {I : Db → Prop} {R : Rely I Stmt Write Key} {st : Sess Stmt Write Key} {db : Db}
variable {Q : α → Sess Stmt Write Key → Db → Prop} {f : Unit → Tx α} (c : Call)

theorem bind_some_ite {svc : Service} {p : Prop} [Decidable p] {x y v w : Int}
    (hx : p → svc.bind x = some v) (hy : ¬ p → svc.bind y = some w) :
    svc.bind (if p then x else y) = some (if p then v else w) := by
  split
  · exact hx ‹_›
  · exact hy ‹_›

theorem wp_enqueueAppliedOriginal {type : ActionType} {amount v t : Int}
    (hv : c.svc.bind amount = some v)
    (h : ∀ st' db', st'.writes = st.writes ++ [.insertOutbox (appliedDelta t c.account type v)] →
      st ≤ st' → postgres.wp R (f ()) Q st' db') :
    postgres.wp R (enqueueAppliedOriginal c.svc t c.account type amount >>= f) Q st db := by
  refine wp_enqueueRtpDelta fun row st' db' hrow hw hle => h st' db' ?_ hle
  rw [hw, hrow.unique (appliedDelta t c.account type v)]
  exact ⟨rfl, rfl, bind_some_ite (fun _ => hv) fun _ => c.svc.bind_zero,
    bind_some_ite (fun _ => hv) fun _ => c.svc.bind_zero,
    bind_some_ite (fun _ => c.svc.bind_one) fun _ => c.svc.bind_zero,
    c.svc.bind_zero, c.svc.bind_zero, c.svc.bind_zero⟩

theorem wp_enqueueRolledBackOriginal {type : ActionType} {amount v t : Int}
    (hv : c.svc.bind amount = some v)
    (h : ∀ st' db', st'.writes = st.writes ++
        [.insertOutbox (rolledBackDelta t c.account type v)] →
      st ≤ st' → postgres.wp R (f ()) Q st' db') :
    postgres.wp R (enqueueRolledBackOriginal c.svc t c.account type amount >>= f) Q st db := by
  refine wp_enqueueRtpDelta fun row st' db' hrow hw hle => h st' db' ?_ hle
  rw [hw, hrow.unique (rolledBackDelta t c.account type v)]
  exact ⟨rfl, rfl, c.svc.bind_zero, c.svc.bind_zero, c.svc.bind_zero, c.svc.bind_zero,
    bind_some_ite (fun _ => hv) fun _ => c.svc.bind_zero,
    bind_some_ite (fun _ => hv) fun _ => c.svc.bind_zero⟩

theorem wp_enqueueRollbackCount {t : Int}
    (h : ∀ st' db', st'.writes = st.writes ++
        [.insertOutbox (rollbackCountDelta t c.account)] →
      st ≤ st' → postgres.wp R (f ()) Q st' db') :
    postgres.wp R (enqueueRollbackCount c.svc t c.account >>= f) Q st db := by
  refine wp_enqueueRtpDelta fun row st' db' hrow hw hle => h st' db' ?_ hle
  rw [hw, hrow.unique (rollbackCountDelta t c.account)]
  exact ⟨rfl, rfl, c.svc.bind_zero, c.svc.bind_zero, c.svc.bind_zero, c.svc.bind_one,
    c.svc.bind_zero, c.svc.bind_zero⟩

theorem wp_enqueueRemoveAppliedOriginal {row : ActionRow}
    (h : ∀ st' db' outs, st'.writes = st.writes ++ outs.map .insertOutbox →
      Removal c.svc row outs → st ≤ st' → postgres.wp R (f ()) Q st' db') :
    postgres.wp R (enqueueRemoveAppliedOriginal c.svc (c.svc.date row.createdAt) row.account
      row.actionType ((row.amount.map c.svc.load).getD 0) >>= f) Q st db := by
  rw [enqueueRemoveAppliedOriginal]
  split
  · exact h st db [] (List.append_nil _).symm (.rollback ‹_›) (le_refl _)
  · rename_i hne
    apply wp_enqueueRtpDelta
    intro out st' db' hout hw hle
    obtain ⟨n, v, hn, hv⟩ : ∃ n v,
        c.svc.bind (c.svc.neg ((row.amount.map c.svc.load).getD 0)) = some n ∧
          c.svc.bind ((row.amount.map c.svc.load).getD 0) = some v := by
      cases htype : row.actionType with
      | bet =>
        simp only [htype, if_true] at hout
        exact ⟨_, _, hout.totalBet, hout.rolledBackBet⟩
      | win =>
        simp only [htype, if_true] at hout
        exact ⟨_, _, hout.totalWin, hout.rolledBackWin⟩
      | rollback => exact absurd htype hne
    have hrow : out = removedDelta row.createdAt row.account row.actionType n v :=
      hout.unique _ ⟨(c.svc.minute_date _).symm, rfl,
        bind_some_ite (fun _ => hn) fun _ => c.svc.bind_zero,
        bind_some_ite (fun _ => hn) fun _ => c.svc.bind_zero,
        bind_some_ite (fun _ => c.svc.bind_neg_one) fun _ => c.svc.bind_zero,
        c.svc.bind_zero, bind_some_ite (fun _ => hv) fun _ => c.svc.bind_zero,
        bind_some_ite (fun _ => hv) fun _ => c.svc.bind_zero⟩
    exact h st' db' [out] hw (hrow ▸ .original hne hn hv) hle

theorem wp_processBetOrWin {action : ProcessAction} {type : ActionType} {x : Uuid}
    {amount : Int} (ha : action.IsOriginal type x amount) (b : Int)
    (hkey : Key.registry x ∈ st.held) (hacc : Key.account c.account ∈ st.held) :
    postgres.wp R (processBetOrWin c.svc c.request x type amount (c.claimed x) b)
      (fun res st' db' => res.txId = c.draws.txId x ∧ ∃ new, st'.writes = st.writes ++ new ∧
        Outcome (R.Past st' db') c st.writes b action new res.balance) st db := by
  have hdate : c.svc.date (c.claimedAt x) = c.claimedAt x := c.svc.date_stamp _
  rw [processBetOrWin]
  split
  · exact Engine.wp_throw
  · apply wp_selectIntent
    intro rows st₁ db₁ hw₁ hle₁ hseen hunseen
    dsimp only
    by_cases hrows : 0 < rows.length
    · apply Engine.wp_past (hseen hrows)
      simp only [if_pos hrows]
      split
      · exact Engine.wp_throw
      · rename_i hb
        refine wp_ensureActionPartition fun st₂ db₂ hw₂ hle₂ _ => wp_bigint fun v hv =>
          wp_bigint fun d hd => wp_insertAction fun st₃ db₃ hw₃ hle₃ hcheck => ?_
        obtain rfl : 0 = d := Option.some.inj (c.svc.bind_zero.symm.trans hd)
        have hpos : 0 < v := by cases ha <;> exact hcheck
        rw [show (c.claimed x).createdAt = c.claimedAt x from rfl, hdate]
        refine wp_enqueueRolledBackOriginal c hv fun st₄ db₄ hw₄ hle₄ =>
          Engine.wp_pure fun db₅ hrel hlook => ⟨rfl, _, ?_,
            .prerolled ha hlook hv hpos (not_lt.1 hb)⟩
        rw [hw₄, hw₃, hw₂, hw₁, List.append_assoc, if_pos hrows]
        rfl
    · apply Engine.wp_past (hunseen hrows)
      simp only [if_neg hrows]
      split
      · exact Engine.wp_throw
      · rename_i hb
        refine wp_ensureActionPartition fun st₂ db₂ hw₂ hle₂ _ => wp_bigint fun v hv =>
          wp_bigint fun d hd => wp_insertAction fun st₃ db₃ hw₃ hle₃ hcheck => ?_
        have hpos : 0 < v := by cases ha <;> exact hcheck
        obtain rfl : d = signed type v := bind_originalDelta hv hpos hd
        rw [show (c.claimed x).createdAt = c.claimedAt x from rfl, hdate]
        refine wp_enqueueAppliedOriginal c hv fun st₄ db₄ hw₄ hle₄ =>
          Engine.wp_pure fun db₅ hrel hlook => ⟨rfl, _, ?_, .applied ha ?_ hv hpos (not_lt.1 hb)⟩
        · rw [hw₄, hw₃, hw₂, hw₁, List.append_assoc, if_neg hrows]
          rfl
        · exact hlook.mono fun h => ⟨h.1, h.2.1 hkey, h.2.1 hacc, h.2.2⟩

theorem wp_insertRolbackAction {g : InsertedRollback → Tx α} {r o : Uuid} {delta : Int}
    {status : Status}
    (h : ∀ d st' db', c.svc.bind delta = some d →
      st'.writes = st.writes ++ [.insertAction (c.rollbackRow r o d status)] → st ≤ st' →
      postgres.wp R (g ⟨c.draws.txId r, c.claimedAt r⟩) Q st' db') :
    postgres.wp R (insertRolbackAction c.svc c.request r o (c.claimed r) delta status >>= g)
      Q st db := by
  have hdate : c.svc.date (c.claimedAt r) = c.claimedAt r := c.svc.date_stamp _
  rw [insertRolbackAction]
  simp only [Prog.bind_assoc]
  refine wp_ensureActionPartition fun st₁ db₁ hw₁ hle₁ _ => wp_bigint fun d hd =>
    wp_insertAction fun st₂ db₂ hw₂ hle₂ _ => ?_
  rw [show (c.claimed r).createdAt = c.claimedAt r from rfl, hdate]
  exact h d st₂ db₂ hd (by rw [hw₂, hw₁]; rfl) (le_trans hle₁ hle₂)

theorem wp_recordedNoop {r o : Uuid} {b : Int} {status : Status} :
    postgres.wp R (do
      let inserted ← insertRolbackAction c.svc c.request r o (c.claimed r) 0 status
      insertRollbackIntent o r c.request.account
      enqueueRollbackCount c.svc inserted.createdAt c.request.account
      pure (⟨b, inserted.txId⟩ : ProcessedAction))
      (fun res st' db' => res = ⟨b, c.draws.txId r⟩ ∧ st'.writes = st.writes ++
        [.insertAction (c.rollbackRow r o 0 status), .insertIntent ⟨o, r, c.account⟩,
          .insertOutbox (rollbackCountDelta (c.claimedAt r) c.account)] ∧
        Unrecorded (R.Past st' db') st.writes r o) st db := by
  refine wp_insertRolbackAction c fun d st₁ db₁ hd hw₁ hle₁ =>
    wp_insertRollbackIntent fun st₂ db₂ hw₂ hle₂ hfree => Engine.wp_past hfree ?_
  obtain rfl : 0 = d := Option.some.inj (c.svc.bind_zero.symm.trans hd)
  refine wp_enqueueRollbackCount c fun st₃ db₃ hw₃ hle₃ =>
    Engine.wp_pure fun db₄ hrel hfree => ⟨rfl, ?_, ?_⟩
  · rw [hw₃, hw₂, hw₁, List.append_assoc, List.append_assoc]
    rfl
  · rw [hw₁] at hfree
    simp only [Engine.view_append, Engine.view_cons, Engine.view_nil] at hfree
    exact hfree

theorem wp_processRolback {r o : Uuid} (b : Int)
    (hacc : Key.account c.account ∈ st.held) :
    postgres.wp R (processRolback c.svc c.draws c.request r o (c.claimed r) b)
      (fun res st' db' => res.txId = c.draws.txId r ∧ ∃ new, st'.writes = st.writes ++ new ∧
        Outcome (R.Past st' db') c st.writes b (.rollback r o) new res.balance) st db := by
  rw [processRolback]
  apply wp_selectIntent
  intro rows st₁ db₁ hw₁ hle₁ hseen _
  split
  · refine Engine.wp_past (hseen ‹_›) (wp_insertRolbackAction c fun d st₂ db₂ hd hw₂ hle₂ =>
      Engine.wp_pure fun db₃ hrel hlook => ?_)
    obtain rfl : 0 = d := Option.some.inj (c.svc.bind_zero.symm.trans hd)
    exact ⟨rfl, _, by rw [hw₂, hw₁],
      .already hlook⟩
  · rw [findActionForUpdate]
    simp only [Prog.bind_assoc]
    apply wp_selectActionForUpdate
    intro e st₂ db₂ hw₂ hle₂ hnone hsome
    cases e with
    | none =>
      refine Engine.wp_past (hnone rfl) (Engine.wp_mono (wp_recordedNoop c) ?_)
      rintro res st₃ db₃ hle₃ hrel ⟨rfl, hw₃, hfree⟩ hlook
      refine ⟨rfl, _, by rw [hw₃, hw₂, hw₁], .tombstone (o := o) (hlook.mono fun h => ?_) ?_⟩
      · rw [← hw₁]
        exact ⟨h.1, h.2.1 (hle₁.2.2 hacc), h.2.2⟩
      · rwa [hw₂, hw₁] at hfree
    | some e =>
      obtain ⟨row, rfl, hrow⟩ := hsome e rfl
      apply Engine.wp_past hrow
      dsimp only [ActionRow.existing, Prog.pure_bind]
      split
      · apply Engine.wp_mono (wp_recordedNoop c)
        rintro res st₃ db₃ hle₃ hrel ⟨rfl, hw₃, hfree⟩ hlook
        refine ⟨rfl, _, by rw [hw₃, hw₂, hw₁],
          .notApplied (show FoundOriginal _ _ o row from ?_) ‹_› ?_⟩
        · rwa [hw₁] at hlook
        · rwa [hw₂, hw₁] at hfree
      · rename_i happlied
        split
        · exact Engine.wp_throw
        · rename_i hb
          obtain ⟨hst, hne⟩ := not_or.1 happlied
          refine wp_insertRolbackAction c fun d st₃ db₃ hd hw₃ hle₃ =>
            wp_insertRollbackIntent fun st₄ db₄ hw₄ hle₄ hfree => Engine.wp_past hfree ?_
          refine wp_updateRolledBack fun st₅ db₅ marks hw₅ hmarks hle₅ =>
            wp_enqueueRemoveAppliedOriginal c fun st₆ db₆ outs hw₆ houts hle₆ =>
            wp_enqueueRollbackCount c fun st₇ db₇ hw₇ hle₇ =>
            Engine.wp_pure fun db₈ hrel hfree hlook => ⟨rfl, _, ?_, .reversed
              (show FoundOriginal _ _ o row from ?_) (not_not.1 hst) hne (not_lt.1 hb) hd ?_ hmarks
              houts⟩
          · rw [hw₇, hw₆, hw₅, hw₄, hw₃, hw₂, hw₁]
            simp only [List.append_assoc, List.cons_append, List.nil_append]
            rfl
          · rwa [hw₁] at hlook
          · rw [hw₃, hw₂, hw₁] at hfree
            simp only [Engine.view_append, Engine.view_cons, Engine.view_nil] at hfree
            exact hfree

theorem wp_processAction {action : ProcessAction} (b : Int)
    (hkey : Key.registry action.actionId ∈ st.held) (hacc : Key.account c.account ∈ st.held) :
    postgres.wp R (processAction c.svc c.draws c.request action (c.claimed action.actionId) b)
      (fun res st' db' => res.txId = c.draws.txId action.actionId ∧
        ∃ new, st'.writes = st.writes ++ new ∧
          Outcome (R.Past st' db') c st.writes b action new res.balance) st db := by
  cases action with
  | bet x amount => exact wp_processBetOrWin c .bet b hkey hacc
  | win x amount => exact wp_processBetOrWin c .win b hkey hacc
  | rollback r o => exact wp_processRolback c b hacc

theorem wp_claimAtcion {g : ClaimResult → Tx α} {x : Uuid}
    (hdup : ∀ row st' db', row.actionId = x → st'.writes = st.writes → st ≤ st' →
      (R.Past st' db' fun _ db => row ∈ (postgres.view db st.writes).actionRegistry) →
      postgres.wp R (g (.duplicate row.txId)) Q st' db')
    (hnew : ∀ st' db', st'.writes = st.writes ++ [.insertRegistry (c.registryRow x)] →
      st ≤ st' → Key.registry x ∈ st'.held →
      (R.Past st' db' fun st₀ db => ¬ (postgres.view db st.writes).Registered x ∧
        Key.registry x ∈ st₀.held) →
      postgres.wp R (g (.claimed (c.claimed x))) Q st' db') :
    postgres.wp R (claimAtcion c.svc c.draws x c.account >>= g) Q st db := by
  rw [claimAtcion]
  simp only [Prog.bind_assoc]
  intro snap cur rows ws hsnap hcur he
  simp only [postgres_eval, Stmt.eval] at he
  split at he
  · cases he
    cases hrows : (postgres.view snap st.writes).actionRegistry.filter (·.actionId = x) with
    | nil => exact Engine.wp_throw
    | cons row rest =>
      obtain ⟨hmem, hid⟩ := List.mem_filter.1 (hrows ▸ List.mem_cons_self ..)
      exact hdup row _ _ (by simpa using hid) (List.append_nil _) (Sess.le_run _ _ _ _)
        ⟨st.start _, snap, hmem, Sess.le_finish _ _ _, hcur⟩
  · rename_i hfree
    cases he
    have hdate : c.svc.date (c.claimedAt x) = c.claimedAt x := c.svc.date_stamp _
    have hheld : Key.registry x ∈ postgres.locks (.claim ⟨x, c.account, c.claimedAt x,
        c.accountHash, c.draws.txId x⟩) (postgres.view snap st.writes)
        (postgres.view cur st.writes) := by
      simp only [postgres_locks, Stmt.locks, if_neg hfree]
      exact List.mem_singleton.2 rfl
    have hdone := hnew ((st.start (.claim ⟨x, c.account, c.claimedAt x, c.accountHash,
        c.draws.txId x⟩)).finish [.insertRegistry (c.registryRow x)] _) cur rfl
      (Sess.le_run _ _ _ _) (List.mem_append_right _ hheld)
      ⟨_, cur, ⟨hfree, List.mem_append_right _ hheld⟩, le_refl _, R.refl (R.keeps hcur)⟩
    have hclaimed : c.claimed x =
        ⟨x, c.draws.txId x, c.svc.date (c.claimedAt x), c.accountHash⟩ := by rw [hdate]; rfl
    rw [hclaimed] at hdone
    exact hdone

theorem wp_processActions {actions : List ProcessAction} (b : Int) (txs₀ : List Transaction)
    (hI : I db) (hacc : Key.account c.account ∈ st.held) :
    postgres.wp R (processActions c.svc c.draws c.request actions b txs₀)
      (fun res st' db' => ∃ txs, res.2 = txs₀ ++ txs ∧
        Steps (R.Past st' db') c st.writes b actions st'.writes res.1 txs) st db := by
  induction actions generalizing b txs₀ st db with
  | nil => exact Engine.wp_pure fun _ _ => ⟨[], (List.append_nil _).symm, .nil⟩
  | cons action rest ih =>
    refine wp_claimAtcion c (fun row st₁ db₁ hid hw₁ hle₁ hrow => ?_)
      (fun st₁ db₁ hw₁ hle₁ hkey hfree => ?_)
    · refine Engine.wp_past hrow (Engine.wp_mono (ih b _ hrow.inv (hle₁.2.2 hacc)) ?_)
      rintro res st₂ db₂ hle₂ hrel ⟨txs, hres, hs⟩ hrow
      refine ⟨⟨action.actionId, row.txId⟩ :: txs, ?_, .cons (.duplicate hid hrow) ?_⟩
      · rw [hres, List.append_assoc]
        rfl
      · rwa [List.append_nil, ← hw₁]
    · refine Engine.wp_past hfree (Engine.wp_seq hfree.inv
        (wp_processAction c b hkey (hle₁.2.2 hacc)) ?_)
      rintro result st₂ db₂ hle₂ hrel ⟨htx, new, hw₂, ho⟩
      apply Engine.wp_mono (ih _ _ (R.keeps hrel) (hle₂.2.2 (hle₁.2.2 hacc)))
      rintro res st₃ db₃ hle₃ hrel₃ ⟨txs, hres, hs⟩ hfree
      have hstep : Step (R.Past st₃ db₃) c st.writes b action
          (.insertRegistry (c.registryRow action.actionId) :: new) result.balance
          (c.draws.txId action.actionId) :=
        .fresh hfree (hw₁ ▸ ho.mono fun P hP => hP.later hle₃ hrel₃)
      refine ⟨⟨action.actionId, c.draws.txId action.actionId⟩ :: txs, ?_, .cons hstep ?_⟩
      · rw [hres, htx, List.append_assoc]
        rfl
      · rw [hw₂, hw₁, List.append_assoc] at hs
        exact hs

theorem wp_lockAccount {g : Int → Tx α} (h₀ : st.writes = [])
    (h : ∀ v st' db', st ≤ st' → Key.account c.account ∈ st'.held →
      Opened (R.Past st' db') c st'.writes v → postgres.wp R (g (c.svc.load v)) Q st' db') :
    postgres.wp R (lockAccount c.svc c.account >>= g) Q st db := by
  rw [lockAccount]
  simp only [Prog.bind_assoc]
  apply wp_insertAccount h₀
  intro st₁ db₁ hle₁ hinsert
  refine wp_selectAccountForUpdate (fun _ _ => Engine.wp_throw) fun v st₂ db₂ hw₂ hle₂ hheld
    hrel hbalance => h v st₂ db₂ (le_trans hle₁ hle₂) hheld ⟨?_, ?_⟩
  · rw [hw₂]
    rcases hinsert with hinsert | ⟨hinsert, hnone⟩
    · exact Or.inl hinsert
    · exact Or.inr ⟨hinsert, hnone.later hle₂ hrel⟩
  · rwa [hw₂]

theorem Opened.account_isSome (hR : Sound R) {ws ws' : List Write} {v : Int}
    (h : Opened (R.Past st db) c ws v) (hws : ws <+: ws') :
    ((postgres.view db ws').account? c.account).isSome := by
  obtain ⟨ws₂, rfl⟩ := hws
  rw [Engine.view_append]
  apply Db.account?_isSome_view
  have hb := (hR.stable st db).balance h.balance
  obtain ⟨row, hrow, _⟩ := Option.map_eq_some_iff.1 hb
  rw [hrow]
  rfl

/-- Every commit of a request, next to any others, is `Committed`. -/
theorem wp_body (hR : Sound R) : postgres.wp R c.body (fun resp st db =>
    Key.account c.account ∈ st.held ∧ Committed (R.Past st db) c st.writes resp) .fresh db := by
  rw [Call.body, processAggregatorRequest_eq]
  apply wp_lockAccount c rfl
  intro v st₁ db₁ hle₁ hacc hopened
  rw [afterLock]
  split
  · rename_i hnil
    refine Engine.wp_pure fun db₂ hrel => ⟨hacc, .balance (List.length_eq_zero_iff.1 hnil) ?_⟩
    exact hopened.mono fun P hP => hP.later (le_refl _) hrel
  · rename_i hne
    refine Engine.wp_seq hopened.balance.inv
      (wp_processActions c _ [] hopened.balance.inv hacc) ?_
    rintro ⟨b, txs⟩ st₂ db₂ hle₂ hrel₂ ⟨txs', rfl, hs⟩
    have hsome : ∀ snap, R.rel st₂ db₂ snap →
        ((postgres.view snap st₂.writes).account? c.request.account).isSome := by
      intro snap hsnap
      have hopened' : Opened (R.Past st₂ snap) c _ _ := hopened.mono fun P hP =>
        (hP.later hle₂ hrel₂).later (le_refl _) hsnap
      exact hopened'.account_isSome c hR hs.extends_writes
    refine wp_bigint fun stored hstored => wp_updateBalance hsome
      fun st₃ db₃ hw₃ hle₃ hrel₃ hpos => Engine.wp_pure fun db₄ hrel₄ => ⟨?_, ?_⟩
    · exact hle₃.2.2 (hle₂.2.2 hacc)
    · have hlater : ∀ {P}, R.Past st₂ db₂ P → R.Past st₃ db₄ P := fun hP =>
        (hP.later hle₃ hrel₃).later (le_refl _) hrel₄
      rw [hw₃]
      exact .actions (fun h => hne (List.length_eq_zero_iff.2 h))
        (hopened.mono fun P hP => hlater (hP.later hle₂ hrel₂)) (hs.mono fun P hP => hlater hP)
        hstored hpos

end Functions
end BetProcessor
