import Mathlib.Algebra.BigOperators.Group.Finset.Basic
import BetProcessor.RollupRuns
import BetProcessor.Drains

namespace BetProcessor
set_option autoImplicit true
open Txn

def RtpWrite.claim? : RtpWrite → Option (Nat × Int)
  | .claim id now => some (id, now)
  | _ => none

/-- The rows that some writes claim, with the times. -/
def claimedIn (ws : List RtpWrite) : List (Nat × Int) := ws.filterMap RtpWrite.claim?

/-- The most rows that a call of the worker can answer. -/
def RtpJob.limit : RtpJob → Nat
  | .drain batchSize _ => batchSize.toNat
  | .recover _ _ => 0

/-- What a call of the worker has in work, by its own settings. -/
inductive Works (st : Sess RtpStmt RtpWrite RtpLock) :
    RtpJob → Option RtpDb → RtpTx Nat → Prop where
  | begun {snap} (job : RtpJob) (hs : ∀ s ∈ snap, (s.rtpOutbox.map (·.id)).Nodup)
    (hw : st.writes = []) : Works st job snap job.body
  | nothing {job snap} (hw : st.writes = []) : Works st job snap (.pure 0)
  | failed {job snap e} : Works st job snap (.throw e)
  | claimed {batchSize now snap} {ids : List Nat} (hnodup : ids.Nodup)
    (hle : ids.length ≤ batchSize.toNat) (hw : claimedIn st.writes = ids.map (·, now)) :
    Works st (.drain batchSize now) snap (rollUp ids now)
  | upserted {batchSize now snap} {ids : List Nat} (hnodup : ids.Nodup)
    (hle : ids.length ≤ batchSize.toNat) (hw : claimedIn st.writes = ids.map (·, now)) :
    Works st (.drain batchSize now) snap
      (.exec (.markProcessed ids now) fun _ => .pure ids.length)
  | drained {batchSize now snap} {ids : List Nat} (hnodup : ids.Nodup)
    (hle : ids.length ≤ batchSize.toNat) (hw : claimedIn st.writes = ids.map (·, now)) :
    Works st (.drain batchSize now) snap (.pure ids.length)

section
variable {st : Sess RtpStmt RtpWrite RtpLock} {job : RtpJob} {snap : Option RtpDb}
variable {p : RtpTx Nat} {ids : List Nat} {now : Int} {db : RtpDb}

theorem claimedIn_claims : claimedIn (claims ids now) = ids.map (·, now) := by
  rw [claimedIn, claims, List.filterMap_map]
  exact congrFun List.filterMap_eq_map ids

theorem claimedIn_append_none {ws ws' : List RtpWrite} (h : ∀ w ∈ ws', w.claim? = none) :
    claimedIn (ws ++ ws') = claimedIn ws := by
  rw [claimedIn, List.filterMap_append, List.filterMap_eq_nil_iff.2 h, List.append_nil]
  rfl

theorem claimedIn_drained : claimedIn (db.drained ids now) = ids.map (·, now) := by
  rw [RtpDb.drained, claimedIn_append_none, claimedIn_append_none, claimedIn_claims]
  · intro w hw
    obtain ⟨row, _, rfl⟩ := List.mem_map.1 hw
    rfl
  · intro w hw
    obtain ⟨id, _, rfl⟩ := List.mem_map.1 hw
    rfl

theorem claimable_nodup {locked : RtpLock → Bool} {snap cur : RtpDb} {batchSize : Int}
    (h : (snap.rtpOutbox.map (·.id)).Nodup) :
    (snap.claimable locked cur batchSize).Nodup := by
  have hpending : ((snap.rtpOutbox.filter (·.status = .pending)).map (·.id)).Nodup :=
    h.sublist (List.filter_sublist.map _)
  have hsorted := (List.perm_insertionSort (· ≤ ·) _).nodup_iff.2 hpending
  exact (hsorted.filter _).sublist (List.take_sublist _ _)

theorem Works.start {s : RtpStmt} {k : s.Reply → RtpTx Nat} (hdb : db.RolledUp)
    (h : Works st job none (.exec s k)) : Works (st.start s) job (some db) (.exec s k) := by
  generalize hp : Prog.exec s k = p at h ⊢
  cases h with
  | begun job _ hw =>
    refine .begun job ?_ hw
    rintro _ ⟨⟩
    exact hdb.ids
  | nothing hw => exact .nothing hw
  | failed => exact .failed
  | claimed hnodup hle hw => exact .claimed hnodup hle hw
  | upserted hnodup hle hw => exact .upserted hnodup hle hw
  | drained hnodup hle hw => exact .drained hnodup hle hw

theorem Works.finish {locked : RtpLock → Bool} {s : RtpStmt} {k : s.Reply → RtpTx Nat}
    {snap : RtpDb} {r : s.Reply} {ws : List RtpWrite} {ls : List RtpLock} (hdb : db.RolledUp)
    (h : Works st job (some snap) (.exec s k))
    (he : s.eval locked (postgresRtp.view snap st.writes) (postgresRtp.view db st.writes) =
      .ok (r, ws)) : Works (st.finish ws ls) job none (k r) := by
  generalize hp : Prog.exec s k = p at h
  generalize hsnap : some snap = snap' at h
  cases h with
  | begun job hs hw =>
    subst hsnap
    rw [hw, SkipEngine.view_nil, SkipEngine.view_nil] at he
    cases job with
    | drain batchSize now =>
      rw [RtpJob.body, drainRtpOutbox_eq] at hp
      cases hp
      rw [RtpStmt.eval] at he
      split at he
      · cases he
      · cases he
        dsimp only
        split
        · next hnil =>
          apply Works.nothing
          rw [Sess.finish_writes, hw, List.length_eq_zero_iff.1 hnil]
          rfl
        · refine .claimed (claimable_nodup (hs snap rfl)) (List.length_take_le _ _) ?_
          rw [Sess.finish_writes, hw, List.nil_append]
          exact claimedIn_claims
    | recover staleAfterMs now =>
      cases hp
      have hnil : snap.stale db staleAfterMs now = [] := stale_eq_nil hdb.settled
      rw [RtpStmt.eval, hnil] at he
      cases he
      apply Works.nothing
      rw [Sess.finish_writes, hw]
      rfl
  | nothing => cases hp
  | failed => cases hp
  | @claimed batchSize now _ ids hnodup hle hw =>
    cases hp
    rw [RtpStmt.eval] at he
    split at he
    · cases he
    split at he
    · cases he
    split at he
    · cases he
    cases he
    refine .upserted hnodup hle ?_
    rw [Sess.finish_writes, claimedIn_append_none, hw]
    intro w hw
    obtain ⟨row, _, rfl⟩ := List.mem_map.1 hw
    rfl
  | @upserted batchSize now _ ids hnodup hle hw =>
    cases hp
    cases he
    refine .drained hnodup hle ?_
    rw [Sess.finish_writes, claimedIn_append_none, hw]
    intro w hw
    obtain ⟨id, _, rfl⟩ := List.mem_map.1 hw
    rfl
  | drained => cases hp

/-- A call that commits has processed as many rows as it answers: none, or a batch with the time of
the call. -/
theorem Works.committing {a : Nat} (h : Works st job none (.pure a))
    (hs : Stands db st none (.pure a)) : a ≤ job.limit ∧ (a = 0 ∧ st.writes = [] ∨
      ∃ batchSize now ids, job = .drain batchSize now ∧ ids.Nodup ∧
        a = ids.length ∧ Claimed st.held ids db ∧ st.writes = db.drained ids now) := by
  have hwrites := hs.committing
  generalize hp : Prog.pure a = p at h
  generalize hsnap : (none : Option RtpDb) = snap at h
  cases h with
  | begun job => cases job <;> cases hp
  | nothing hw =>
    cases hp
    exact ⟨Nat.zero_le _, Or.inl ⟨rfl, hw⟩⟩
  | failed => cases hp
  | claimed => cases hp
  | upserted => cases hp
  | @drained batchSize now _ ids hnodup hle hw =>
    cases hp
    refine ⟨hle, ?_⟩
    rcases hwrites with hnil | ⟨ids', now', hc, hdrained⟩
    · rw [hnil] at hw
      have hids : ids = [] := List.map_eq_nil_iff.1 hw.symm
      exact Or.inl ⟨by rw [hids]; rfl, hnil⟩
    · rw [hdrained, claimedIn_drained] at hw
      have hids : ids' = ids := by
        have hfst := congrArg (List.map Prod.fst) hw
        simpa [List.map_map, Function.comp_def] using hfst
      have hnow : now' = now := by
        obtain ⟨id, hid⟩ := List.exists_mem_of_ne_nil _ hc.nonempty
        have hmem : (id, now') ∈ ids.map (·, now) := hw ▸ List.mem_map_of_mem hid
        obtain ⟨_, _, heq⟩ := List.mem_map.1 hmem
        exact (congrArg Prod.snd heq).symm
      subst hids hnow
      exact Or.inr ⟨batchSize, now', ids', rfl, hnodup, rfl, hc, hdrained⟩

end
/-- The calls of the worker with what they have in work and what they have answered. -/
structure Busy (jobs : κ → RtpJob) (c : Reports κ) : Prop where
  works : ∀ k st snap p, c.sess k = .active st snap p → Works st (jobs k) snap p
  answers : ∀ k n, c.sess k = .done (.ok n) → n ≤ (jobs k).limit

/-- The number of rows that a call has answered. -/
def answered : Session RtpStmt RtpStmt.Reply RtpErr RtpDb RtpWrite RtpLock Nat → Nat
  | .done (.ok n) => n
  | _ => 0

section
variable {κ : Type} [Fintype κ] [DecidableEq κ] {jobs : κ → RtpJob} {c c' : Reports κ}
variable {l : Label κ RtpStmt RtpErr}

omit [Fintype κ] in
theorem Busy.set (h : Busy jobs c) {k : κ}
    {x : Session RtpStmt RtpStmt.Reply RtpErr RtpDb RtpWrite RtpLock Nat}
    (hworks : ∀ st snap p, x = .active st snap p → Works st (jobs k) snap p)
    (hanswer : ∀ n, x = .done (.ok n) → n ≤ (jobs k).limit) : Busy jobs (c.set k x) where
  works k' st snap p hk' := by
    by_cases hk : k' = k
    · subst hk
      rw [Config.set_self] at hk'
      exact hworks st snap p hk'
    · rw [Config.set_other _ hk] at hk'
      exact h.works k' st snap p hk'
  answers k' n hk' := by
    by_cases hk : k' = k
    · subst hk
      rw [Config.set_self] at hk'
      exact hanswer n hk'
    · rw [Config.set_other _ hk] at hk'
      exact h.answers k' n hk'

theorem Busy.moves (h : Busy jobs c)
    (hg : postgresRtp.Guarded (fun _ st snap p db => Stands db st snap p) RtpDb.RolledUp c)
    (hm : postgresRtp.Moves c l c') : Busy jobs c' := by
  cases hm with
  | @start k st s p hk =>
    apply h.set
    · rintro _ _ _ ⟨⟩
      exact (h.works k _ _ _ hk).start hg.database
    · nofun
  | @finish k st snap s p r ws hk hf he =>
    apply h.set
    · rintro _ _ _ ⟨⟩
      rw [SkipEngine.engine_view, SkipEngine.engine_view] at he
      exact (h.works k _ _ _ hk).finish hg.database he
    · nofun
  | @fail k st snap s p e hk hf he =>
    apply h.set
    · rintro _ _ _ ⟨⟩
      exact .failed
    · nofun
  | @commit k st a hk =>
    have hset : Busy jobs (c.set k (.done (.ok a))) := by
      apply h.set
      · nofun
      · rintro _ ⟨⟩
        exact ((h.works k _ _ _ hk).committing (hg.sessions k _ _ _ hk)).1
    exact ⟨hset.works, hset.answers⟩
  | rollback | abort =>
    apply h.set
    · nofun
    · nofun

omit [Fintype κ] in
theorem done_set {k k' : κ} {st : Sess RtpStmt RtpWrite RtpLock} {snap : Option RtpDb}
    {p : RtpTx Nat} {x : Session RtpStmt RtpStmt.Reply RtpErr RtpDb RtpWrite RtpLock Nat}
    {r : Except RtpErr Nat} (hk : c.sess k = .active st snap p) (hk' : c.sess k' = .done r) :
    (c.set k x).sess k' = .done r := by
  rw [Config.set_other, hk']
  rintro rfl
  rw [hk] at hk'
  cases hk'

theorem sum_answered_set {k : κ}
    {x : Session RtpStmt RtpStmt.Reply RtpErr RtpDb RtpWrite RtpLock Nat}
    (hk : answered (c.sess k) = 0) :
    ∑ j, answered ((c.set k x).sess j) = ∑ j, answered (c.sess j) + answered x := by
  rw [← Finset.add_sum_erase _ _ (Finset.mem_univ k), Config.set_self, add_comm,
    ← Finset.add_sum_erase _ (fun j => answered (c.sess j)) (Finset.mem_univ k), hk, zero_add]
  congr 1
  apply Finset.sum_congr rfl
  intro j hj
  rw [Config.set_other _ (Finset.ne_of_mem_erase hj)]

end

namespace RtpDb

/-- The number of rows of the outbox that have been processed. -/
def processedCount (db : RtpDb) : Nat := db.rtpOutbox.countP (·.status = .processed)

theorem processedCount_enqueue {db : RtpDb} {rows : List RtpOutboxRow}
    (h : ∀ row ∈ rows, row.status = .pending) :
    (db.enqueue rows).processedCount = db.processedCount := by
  have hnone : rows.countP (·.status = .processed) = 0 := by
    rw [List.countP_eq_zero]
    intro row hrow
    rw [h row hrow]
    decide
  rw [processedCount, enqueue, List.countP_append, hnone]
  rfl

theorem countP_either {p q : α → Bool} {l : List α} (h : ∀ x ∈ l, p x = true → q x = false) :
    l.countP (fun x => p x || q x) = l.countP p + l.countP q := by
  induction l with
  | nil => rfl
  | cons x l ih =>
    have hx := h x (List.mem_cons_self ..)
    rw [List.countP_cons, List.countP_cons, List.countP_cons,
      ih fun y hy => h y (List.mem_cons_of_mem _ hy)]
    by_cases hp : p x = true
    · simp only [hp, hx hp, Bool.true_or, if_true, Bool.false_eq_true, if_false]
      omega
    · simp only [hp, Bool.false_or, Bool.false_eq_true, if_false]
      omega

theorem processedCount_drained {db : RtpDb} {ids : List Nat} {held : List RtpLock} {now : Int}
    (hdb : db.RolledUp) (hnodup : ids.Nodup) (hc : Claimed held ids db) :
    (postgresRtp.view db (db.drained ids now)).processedCount = db.processedCount + ids.length := by
  have hbatch : db.rtpOutbox.countP (fun row => decide (row.id ∈ ids)) = ids.length := by
    have hperm : ((db.rtpOutbox.filter fun row => decide (row.id ∈ ids)).map (·.id)).Perm ids := by
      refine (List.perm_ext_iff_of_nodup (hdb.ids.sublist (List.filter_sublist.map _)) hnodup).2 ?_
      intro id
      rw [List.mem_map]
      constructor
      · rintro ⟨row, hrow, rfl⟩
        exact of_decide_eq_true (List.mem_filter.1 hrow).2
      · intro hid
        obtain ⟨row, hrow, rfl⟩ := hc.present id hid
        exact ⟨row, List.mem_filter.2 ⟨hrow, decide_eq_true hid⟩, rfl⟩
    rw [List.countP_eq_length_filter, ← hperm.length_eq, List.length_map]
  have hapart : ∀ row ∈ db.rtpOutbox, decide (row.id ∈ ids) = true →
      decide (row.status = .processed) = false := by
    intro row hrow hid
    rw [hc.pending row hrow (of_decide_eq_true hid)]
    rfl
  rw [← hbatch, processedCount, RtpDb.drained_rtpOutbox hnodup, List.countP_map, processedCount,
    Nat.add_comm, ← countP_either hapart]
  apply List.countP_congr
  intro row _
  rw [Function.comp_apply]
  by_cases hid : row.id ∈ ids
  · simp [hid, RtpOutboxRow.drained]
  · simp [hid]

end RtpDb
/-- As a request has inserted it, or as it was at the start. -/
def RtpOutboxRow.AsEnqueued (rtp₀ : RtpDb) (row : RtpOutboxRow) : Prop :=
  row ∈ rtp₀.rtpOutbox ∨ row = { id := row.id, delta := row.delta }

section
variable {ι κ : Type}

/-- A call has taken the row when it was pending and finished it at its own time. -/
def RtpOutboxRow.DrainedBy (rtp₀ : RtpDb) (jobs : κ → RtpJob) (c : Reports κ) (row : RtpOutboxRow)
    (k : κ) : Prop :=
  ∃ batchSize now n, ∃ row₀ : RtpOutboxRow, jobs k = .drain batchSize now ∧
    c.sess k = .done (.ok n) ∧ row₀.AsEnqueued rtp₀ ∧ row₀.status = .pending ∧
      row = row₀.drained now

variable [Fintype κ]

/-- Every row of the outbox is as it was inserted or drained by one call, and the answers of the
calls count the drained ones. -/
structure System.Accounted (rtp₀ : RtpDb) (jobs : κ → RtpJob) (sys : System ι κ) : Prop where
  inOrder : sys.InOrder
  busy : Busy jobs sys.reports
  inserted : ∀ i, ∀ row ∈ sys.inserted i, row = { id := row.id, delta := row.delta }
  rows : ∀ row ∈ sys.reports.db.rtpOutbox,
    row.AsEnqueued rtp₀ ∨ ∃ k, row.DrainedBy rtp₀ jobs sys.reports k
  count : sys.reports.db.processedCount =
    rtp₀.processedCount + ∑ k, answered (sys.reports.sess k)

variable [Fintype ι] [DecidableEq ι] [DecidableEq κ] {jobs : κ → RtpJob} {rtp₀ : RtpDb}
variable {sys sys' : System ι κ}

omit [Fintype ι] [DecidableEq κ] in
theorem System.Accounted.record (h : sys.Accounted rtp₀ jobs) {requests : Requests ι}
    {l : Label ι Stmt Err} (hin : (sys.record requests l).InOrder) :
    (sys.record requests l).Accounted rtp₀ jobs := by
  obtain ⟨i, delta, rfl⟩ | ⟨i, rfl⟩ | hrecord := sys.record_cases requests l
  · refine ⟨hin, h.busy, fun j row hrow => ?_, h.rows, h.count⟩
    change row ∈ Function.update sys.inserted i _ j at hrow
    by_cases hji : j = i
    · subst hji
      rw [Function.update_self] at hrow
      rcases List.mem_append.1 hrow with hrow | hrow
      · exact h.inserted j row hrow
      · rw [List.mem_singleton.1 hrow]
    · rw [Function.update_of_ne hji] at hrow
      exact h.inserted j row hrow
  · refine ⟨hin, ⟨h.busy.works, h.busy.answers⟩, fun j row hrow => ?_, ?_, ?_⟩
    · change row ∈ Function.update sys.inserted i [] j at hrow
      by_cases hji : j = i
      · subst hji
        rw [Function.update_self] at hrow
        cases hrow
      · rw [Function.update_of_ne hji] at hrow
        exact h.inserted j row hrow
    · intro row hrow
      rcases List.mem_append.1 hrow with hrow | hrow
      · exact (h.rows row hrow).imp_right id
      · exact Or.inl (Or.inr (h.inserted i row hrow))
    · refine Eq.trans (RtpDb.processedCount_enqueue ?_) h.count
      intro row hrow
      rw [h.inserted i row hrow]
  · rw [hrecord] at hin ⊢
    exact ⟨hin, h.busy, h.inserted, h.rows, h.count⟩

omit [Fintype ι] [DecidableEq ι] in
theorem System.Accounted.report (h : sys.Accounted rtp₀ jobs) {reports : Reports κ}
    {l : Label κ RtpStmt RtpErr} (hm : postgresRtp.Moves sys.reports l reports)
    (hin : ({ sys with reports } : System ι κ).InOrder) :
    ({ sys with reports } : System ι κ).Accounted rtp₀ jobs := by
  have hbusy := h.busy.moves h.inOrder.guarded hm
  have hkeeps : ∀ {k st snap p x db}, sys.reports.sess k = .active st snap p →
      ∀ row : RtpOutboxRow, (∃ k', row.DrainedBy rtp₀ jobs sys.reports k') →
        ∃ k', row.DrainedBy rtp₀ jobs ((sys.reports.set k x).install db) k' := by
    rintro k st snap p x db hk row ⟨k', batchSize, now, n, row₀, hjob, hk', hrow₀⟩
    exact ⟨k', batchSize, now, n, row₀, hjob, done_set hk hk', hrow₀⟩
  have hopen : ∀ {k st snap p x}, sys.reports.sess k = .active st snap p → answered x = 0 →
      reports = sys.reports.set k x → ({ sys with reports } : System ι κ).Accounted rtp₀ jobs := by
    rintro k st snap p x hk hx rfl
    refine ⟨hin, hbusy, h.inserted, fun row hrow => (h.rows row hrow).imp_right (hkeeps hk row), ?_⟩
    change _ = _ + ∑ j, answered ((sys.reports.set k x).sess j)
    rw [sum_answered_set (by rw [hk]; rfl), hx, add_zero]
    exact h.count
  cases hm with
  | start hk => exact hopen hk rfl rfl
  | finish hk => exact hopen hk rfl rfl
  | fail hk => exact hopen hk rfl rfl
  | rollback hk => exact hopen hk rfl rfl
  | abort hk => exact hopen hk rfl rfl
  | @commit k st a hk =>
    obtain ⟨_, hwrites⟩ :=
      (h.busy.works k _ _ _ hk).committing (h.inOrder.guarded.sessions k _ _ _ hk)
    have hsum : ∑ j, answered ((sys.reports.set k (.done (.ok a))).sess j) =
        ∑ j, answered (sys.reports.sess j) + a := sum_answered_set (by rw [hk]; rfl)
    rw [SkipEngine.engine_view] at hin hbusy ⊢
    rcases hwrites with ⟨rfl, hnil⟩ | ⟨batchSize, now, ids, hjob, hnodup, rfl, hc, hdrained⟩
    · rw [hnil, SkipEngine.view_nil] at hin hbusy ⊢
      refine ⟨hin, hbusy, h.inserted,
        fun row hrow => (h.rows row hrow).imp_right (hkeeps hk row), ?_⟩
      change _ = _ + ∑ j, answered ((sys.reports.set k (.done (.ok 0))).sess j)
      rw [hsum]
      exact h.count
    · rw [hdrained] at hin hbusy ⊢
      refine ⟨hin, hbusy, h.inserted, ?_, ?_⟩
      · intro row hrow
        change row ∈ (postgresRtp.view _ _).rtpOutbox at hrow
        rw [RtpDb.drained_rtpOutbox hnodup] at hrow
        obtain ⟨row₀, hrow₀, rfl⟩ := List.mem_map.1 hrow
        by_cases hid : row₀.id ∈ ids
        · rw [if_pos hid]
          have hpending := hc.pending row₀ hrow₀ hid
          rcases h.rows row₀ hrow₀ with henqueued | ⟨_, _, _, _, _, _, _, _, _, rfl⟩
          · exact Or.inr ⟨k, batchSize, now, ids.length, row₀, hjob, Config.set_self .., henqueued,
              hpending, rfl⟩
          · cases hpending
        · rw [if_neg hid]
          exact (h.rows row₀ hrow₀).imp_right (hkeeps hk row₀)
      · change (postgresRtp.view _ _).processedCount =
          _ + ∑ j, answered ((sys.reports.set k (.done (.ok ids.length))).sess j)
        rw [RtpDb.processedCount_drained h.inOrder.guarded.database hnodup hc, hsum, h.count,
          add_assoc]

theorem System.Accounted.step {e : Event ι κ} (h : sys.Accounted rtp₀ jobs)
    (hs : sys.step e = some sys') : sys'.Accounted rtp₀ jobs := by
  have hin := h.inOrder.step hs
  obtain ⟨l, requests, rfl, _, rfl⟩ | ⟨l, reports, rfl, hm, rfl⟩ := System.step_cases hs
  · exact h.record hin
  · exact h.report hm hin

omit [Fintype ι] [DecidableEq ι] [DecidableEq κ] in
theorem System.Accounted.start {calls : ι → Call} {db : Db} {nextId : Nat} (h : rtp₀.RolledUp)
    (hid : ∀ row ∈ rtp₀.rtpOutbox, row.id < nextId) :
    (System.start calls jobs db rtp₀ nextId).Accounted rtp₀ jobs where
  inOrder := .start h hid
  busy := by
    constructor
    · intro k st snap p hk
      obtain ⟨rfl, rfl, rfl⟩ := Session.active.inj hk
      exact .begun (jobs k) nofun rfl
    · intro k n hk
      cases hk
  inserted := by
    intro i row hrow
    cases hrow
  rows row hrow := Or.inl (Or.inl hrow)
  count := by
    have hsum : ∑ k, answered ((System.start calls jobs db rtp₀ nextId).reports.sess k) = 0 :=
      Finset.sum_eq_zero fun k _ => rfl
    rw [hsum]
    rfl

/-- Every row goes through the outbox once: in every state of every run it is as a request has
inserted it, or one drain that has committed took it while it was pending, with one attempt and the
times of that drain; the drains answer at most their batch size and together as many rows as have
been processed; a recovery finds nothing. -/
theorem rows_drained_once (calls : ι → Call) (jobs : κ → RtpJob) (db₀ : Db) {rtp₀ : RtpDb}
    (h₀ : rtp₀.RolledUp) {nextId : Nat} (hid : ∀ row ∈ rtp₀.rtpOutbox, row.id < nextId)
    {es : List (Event ι κ)} {sys : System ι κ}
    (hr : System.Run (fun _ _ => True) (.start calls jobs db₀ rtp₀ nextId) es sys) :
    (∀ row ∈ sys.reports.db.rtpOutbox,
      row.AsEnqueued rtp₀ ∨ ∃ k, row.DrainedBy rtp₀ jobs sys.reports k) ∧
    (∀ k n, sys.reports.sess k = .done (.ok n) → n ≤ (jobs k).limit) ∧
    sys.reports.db.processedCount = rtp₀.processedCount + ∑ k, answered (sys.reports.sess k) := by
  have h : sys.Accounted rtp₀ jobs :=
    hr.invariant (P := System.Accounted rtp₀ jobs) (.start h₀ hid) fun h _ hs => h.step hs
  exact ⟨h.rows, h.busy.answers, h.count⟩

end

/-- The second drain overtakes the first one, and each of them has its own rows. -/
theorem twoDrains_counted : ∃ es sys,
    System.Run (fun _ _ => True) (.start betTakenBack twoDrains twoUsers ⟨[], []⟩ 1) es sys ∧
    (∀ k, 0 < answered (sys.reports.sess k)) ∧
    sys.reports.db.processedCount = ∑ k, answered (sys.reports.sess k) := by
  obtain ⟨es, sys, hr, _, hsys⟩ := System.Run.exists_of_drive (fun _ _ => True)
    (.start betTakenBack twoDrains twoUsers ⟨[], []⟩ 1)
    (List.replicate 17 (.inl 0) ++ List.replicate 2 (.inr 0) ++ List.replicate 25 (.inl 1) ++
      List.replicate 7 (.inr 1) ++ List.replicate 5 (.inr 0))
    (p := fun sys => ∀ k, 0 < answered (sys.reports.sess k)) (by decide +kernel)
  obtain ⟨_, _, hcount⟩ := rows_drained_once betTakenBack twoDrains twoUsers .empty
    (fun row hrow => by cases hrow) hr
  exact ⟨es, sys, hr, of_decide_eq_true hsys, hcount.trans (Nat.zero_add _)⟩

end BetProcessor
