import BetProcessor.Entries
import BetProcessor.RollupRuns

namespace BetProcessor
set_option autoImplicit true
open Txn

def Column.all : List Column :=
  [.totalBet, .totalWin, .rounds, .rollbackCount, .rolledBackBet, .rolledBackWin]

/-- The row takes out of the report something, and nothing but what the earlier one of the same
key has put in. -/
def OutboxRow.TakesBack (row earlier : OutboxRow) : Prop :=
  row.key = earlier.key ∧ (∃ col ∈ Column.all, row.column col < 0) ∧
    ∀ col ∈ Column.all, row.column col < 0 → earlier.column col = -row.column col

instance (row earlier : OutboxRow) : Decidable (row.TakesBack earlier) :=
  inferInstanceAs (Decidable (_ ∧ (∃ col ∈ Column.all, _) ∧ ∀ col ∈ Column.all, _ → _))

/-- Nothing has been taken back before it was put in. -/
def RtpDb.TakenInOrder (db : RtpDb) : Prop :=
  db.rtpOutbox.Pairwise fun earlier row => row.status = .processed →
    row.delta.TakesBack earlier.delta → earlier.status = .processed

theorem removed_takesBack {orig : ActionRow} (h : orig.IsPlay) :
    (Entry.removed orig).row.TakesBack (Entry.applied orig).row := by
  obtain ⟨htype, _, v, hv, hamount⟩ := h
  refine ⟨rfl, ?_, ?_⟩
  · cases horig : orig.actionType with
    | bet =>
      refine ⟨.totalBet, by simp [Column.all], ?_⟩
      simp [Entry.row, removedDelta, OutboxRow.column, horig, hamount, hv]
    | win =>
      refine ⟨.totalWin, by simp [Column.all], ?_⟩
      simp [Entry.row, removedDelta, OutboxRow.column, horig, hamount, hv]
    | rollback => exact absurd horig htype
  · intro col _ hneg
    cases horig : orig.actionType with
    | bet =>
      cases col <;>
        simp [Entry.row, appliedDelta, removedDelta, OutboxRow.column, horig, hamount] at hneg ⊢
      omega
    | win =>
      cases col <;>
        simp [Entry.row, appliedDelta, removedDelta, OutboxRow.column, horig, hamount] at hneg ⊢
      omega
    | rollback => exact absurd horig htype

section
variable {db : RtpDb} {V : Db} {es : List Entry}

theorem Db.Entered.zip (h : V.Entered es) (hm : db.rtpOutbox.map (·.delta) = V.rtpOutbox) :
    (es.zip db.rtpOutbox).map Prod.fst = es ∧ (es.zip db.rtpOutbox).map Prod.snd = db.rtpOutbox ∧
      ∀ x ∈ es.zip db.rtpOutbox, x.2.delta = x.1.row := by
  rw [h.rows] at hm
  have hlen : es.length = db.rtpOutbox.length := by
    have := congrArg List.length hm
    simpa using this.symm
  have hfst := List.map_fst_zip hlen.le
  have hsnd := List.map_snd_zip hlen.ge
  refine ⟨hfst, hsnd, ?_⟩
  generalize es.zip db.rtpOutbox = zs at hfst hsnd
  rw [← hfst, ← hsnd, List.map_map, List.map_map] at hm
  exact List.map_inj_left.1 hm

theorem Db.Entered.pair (h : V.Entered es) {zs : List (Entry × RtpOutboxRow)}
    (hfst : zs.map Prod.fst = es) {orig : ActionRow} {row : RtpOutboxRow}
    (hmem : (.removed orig, row) ∈ zs) :
    ∃ earlier, List.Sublist [(.applied orig, earlier), (.removed orig, row)] zs := by
  have hremoved : .removed orig ∈ es := by
    rw [← hfst]
    exact List.mem_map_of_mem hmem
  have horder := h.order orig hremoved
  rw [← hfst, List.sublist_map_iff] at horder
  obtain ⟨pair, hpair, heq⟩ := horder
  obtain ⟨x, y, rfl⟩ := List.length_eq_two.1 (by simpa using (congrArg List.length heq).symm)
  obtain ⟨hx, hy⟩ : .applied orig = x.1 ∧ .removed orig = y.1 := by simpa using heq
  have honce := h.once
  rw [← hfst, List.filter_map] at honce
  have hyrow : y = (.removed orig, row) := by
    apply List.inj_on_of_nodup_map honce
    · exact List.mem_filter.2 ⟨hpair.subset (by simp), by simp [← hy, Entry.isRemoved]⟩
    · exact List.mem_filter.2 ⟨hmem, by simp [Entry.isRemoved]⟩
    · exact hy.symm
  rw [← hyrow, hx]
  exact ⟨x.2, hpair⟩

theorem processed_nonneg (h : V.Entered es) (hm : db.rtpOutbox.map (·.delta) = V.rtpOutbox)
    (hc : db.TakenInOrder) (key : RtpKey) (col : Column) : 0 ≤ db.processed key col := by
  obtain ⟨hfst, hsnd, hrow⟩ := h.zip hm
  generalize es.zip db.rtpOutbox = zs at hfst hsnd hrow
  have hsum : db.processed key col =
      (((zs.filter fun x => x.2.status = .processed ∧ x.2.delta.key = key).map Prod.fst).map
        fun e => e.row.column col).sum := by
    rw [RtpDb.processed, ← hsnd, sumOf_map, List.map_map]
    apply sumOf_congr
    intro x hx _
    rw [hrow x hx]
    rfl
  rw [hsum]
  have hes : ∀ {e}, e ∈ (zs.filter fun x => x.2.status = .processed ∧ x.2.delta.key = key).map
      Prod.fst → e ∈ es := by
    intro e he
    obtain ⟨x, hx, rfl⟩ := List.mem_map.1 he
    rw [← hfst]
    exact List.mem_map_of_mem (List.mem_filter.1 hx).1
  have hpartner : ∀ e ∈ (zs.filter fun x => x.2.status = .processed ∧ x.2.delta.key = key).map
      Prod.fst, e.isRemoved = true → e.partner ∈ (zs.filter fun x =>
        x.2.status = .processed ∧ x.2.delta.key = key).map Prod.fst := by
    intro e he hneg
    obtain ⟨orig, rfl⟩ := Entry.isRemoved_iff.1 hneg
    have hback := removed_takesBack (h.play orig (Or.inr (hes he)))
    obtain ⟨⟨_, row⟩, hx, rfl⟩ := List.mem_map.1 he
    obtain ⟨hx, hsel⟩ := List.mem_filter.1 hx
    obtain ⟨hst, hkey⟩ := of_decide_eq_true hsel
    obtain ⟨earlier, hpair⟩ := h.pair hfst hx
    have hearlier : (.applied orig, earlier) ∈ zs := hpair.subset (List.mem_cons_self ..)
    have hrows := hpair.map Prod.snd
    rw [hsnd] at hrows
    have htaken := List.rel_of_pairwise_cons (hc.sublist hrows) (List.mem_singleton.2 rfl) hst
    rw [hrow _ hx, hrow _ hearlier] at htaken
    refine List.mem_map.2 ⟨_, List.mem_filter.2 ⟨hearlier, decide_eq_true ⟨htaken hback, ?_⟩⟩, rfl⟩
    rw [hrow _ hx] at hkey
    rw [hrow _ hearlier]
    exact hback.1.symm.trans hkey
  apply sum_nonneg_of_partners Entry.isRemoved Entry.partner
  · intro e he hneg
    cases e with
    | applied orig => exact applied_nonneg (h.play orig (Or.inl (hes he))) col
    | removed orig => cases hneg
    | other row => exact h.other row (hes he) col
  · intro e he hneg
    refine ⟨hpartner e he hneg, ?_⟩
    obtain ⟨orig, rfl⟩ := Entry.isRemoved_iff.1 hneg
    rfl
  · apply List.Nodup.map_on
    · intro e he e' he' heq
      obtain ⟨orig, rfl⟩ := Entry.isRemoved_iff.1 (List.mem_filter.1 he).2
      obtain ⟨orig', rfl⟩ := Entry.isRemoved_iff.1 (List.mem_filter.1 he').2
      exact congrArg Entry.removed (Entry.applied.inj heq)
    · have hsub := ((List.filter_sublist (p := fun x : Entry × RtpOutboxRow =>
        decide (x.2.status = .processed ∧ x.2.delta.key = key)) (l := zs)).map Prod.fst).filter
          Entry.isRemoved
      rw [hfst] at hsub
      exact h.once.sublist hsub
  · intro e he hneg
    obtain ⟨orig, rfl⟩ := Entry.isRemoved_iff.1 hneg
    exact applied_add_removed (h.play orig (Or.inr (hes he))) col

end

/-- The ids of the batch of a drain. -/
def claimedIds (ws : List RtpWrite) : List Nat :=
  ws.filterMap fun
    | .claim id _ => some id
    | _ => none

theorem claimedIds_drained (db : RtpDb) (ids : List Nat) (now : Int) :
    claimedIds (db.drained ids now) = ids := by
  have hups : claimedIds (upserts db ids) = [] := by
    rw [claimedIds, List.filterMap_eq_nil_iff]
    intro w hw
    obtain ⟨_, _, rfl⟩ := List.mem_map.1 hw
    rfl
  have hmarks : claimedIds (marks db ids now) = [] := by
    rw [claimedIds, List.filterMap_eq_nil_iff]
    intro w hw
    obtain ⟨_, _, rfl⟩ := List.mem_map.1 hw
    rfl
  have hclaims : claimedIds (claims ids now) = ids := by
    rw [claimedIds, claims, List.filterMap_map]
    exact List.filterMap_some
  rw [claimedIds, RtpDb.drained, List.filterMap_append, List.filterMap_append, ← claimedIds,
    ← claimedIds, ← claimedIds, hclaims, hups, hmarks, List.append_nil, List.append_nil]

/-- Every earlier row that a row of the batch takes back is in the batch or has been processed. -/
def RtpDb.BatchInOrder (db : RtpDb) (ids : List Nat) : Prop :=
  db.rtpOutbox.Pairwise fun earlier row => row.id ∈ ids → row.delta.TakesBack earlier.delta →
    earlier.status = .processed ∨ earlier.id ∈ ids

instance (db : RtpDb) (ids : List Nat) : Decidable (db.BatchInOrder ids) :=
  inferInstanceAs (Decidable (db.rtpOutbox.Pairwise _))

/-- A drain that commits leaves nothing behind that its batch takes back. -/
def System.CommitsInOrder (sys : System ι κ) : Event ι κ → Prop
  | .report (.commit k) => sys.reports.db.BatchInOrder (claimedIds (sys.reports.sess k).writes)
  | _ => True

instance (sys : System ι κ) : (e : Event ι κ) → Decidable (sys.CommitsInOrder e)
  | .report (.commit _) => inferInstanceAs (Decidable (RtpDb.BatchInOrder _ _))
  | .report (.start _) | .report (.finish _ _) | .report (.rollback _) | .report (.abort _ _)
  | .request _ => instDecidableTrue

theorem RtpDb.TakenInOrder.enqueue {db : RtpDb} (h : db.TakenInOrder) {rows : List RtpOutboxRow}
    (hrows : ∀ row ∈ rows, row.status = .pending) : (db.enqueue rows).TakenInOrder := by
  have hnot : ∀ row ∈ rows, row.status ≠ .processed := by
    intro row hrow hst
    rw [hrows row hrow] at hst
    cases hst
  refine List.pairwise_append.2 ⟨h, ?_, ?_⟩
  · exact List.pairwise_of_forall_mem_list fun _ _ row hrow hst => absurd hst (hnot row hrow)
  · exact fun _ _ row hrow hst => absurd hst (hnot row hrow)

theorem RtpDb.TakenInOrder.drained {db : RtpDb} (h : db.TakenInOrder) {ids : List Nat}
    (hids : db.BatchInOrder ids) (now : Int) :
    (postgresRtp.view db (db.drained ids now)).TakenInOrder := by
  rw [TakenInOrder, rtpOutbox_view, List.pairwise_map]
  apply (h.and hids).imp_of_mem
  rintro earlier row hearlier hrow ⟨hprocessed, hbatch⟩ hst htakes
  rw [onRow_delta, onRow_delta] at htakes
  rw [onRow_drained_status hrow] at hst
  rw [onRow_drained_status hearlier]
  by_cases hid : earlier.id ∈ ids
  · rw [if_pos hid]
  · rw [if_neg hid]
    by_cases hrid : row.id ∈ ids
    · exact (hbatch hrid htakes).resolve_right hid
    · rw [if_neg hrid] at hst
      exact hprocessed hst htakes

/-- The outbox of the requests and the outbox of the worker are one table. -/
structure System.Mirrored (sys : System ι κ) : Prop where
  committed : sys.reports.db.rtpOutbox.map (·.delta) = sys.requests.db.rtpOutbox
  inserted : ∀ i st snap p, sys.requests.sess i = .active st snap p →
    (sys.inserted i).map (·.delta) = st.writes.flatMap Write.outboxRows

theorem Stmt.eval_outboxRows {s : Stmt} {snap cur : Db} {r : s.Reply} {ws : List Write}
    (h : s.eval snap cur = .ok (r, ws)) :
    ws.flatMap Write.outboxRows = match s with | .insertOutbox row => [row] | _ => [] := by
  cases s <;> simp only [Stmt.eval] at h <;> (try split at h) <;> (try split at h) <;> cases h <;>
    rfl

section
variable {ι κ : Type} [Fintype ι] [DecidableEq ι] [Fintype κ] [DecidableEq κ]
variable {sys sys' : System ι κ}

omit [Fintype ι] [Fintype κ] [DecidableEq κ] in
theorem System.Mirrored.set (h : sys.Mirrored) {i : ι}
    {x : Session Stmt Stmt.Reply Err Db Write Key ProcessResponse} {rows : List RtpOutboxRow}
    (hx : ∀ st snap p, x = .active st snap p →
      rows.map (·.delta) = st.writes.flatMap Write.outboxRows) (j : ι)
    (st : Sess Stmt Write Key) (snap : Option Db) (p : Tx ProcessResponse)
    (hj : (sys.requests.set i x).sess j = .active st snap p) :
    (Function.update sys.inserted i rows j).map (·.delta) =
      st.writes.flatMap Write.outboxRows := by
  by_cases hij : j = i
  · subst hij
    rw [Config.set_self] at hj
    rw [Function.update_self]
    exact hx st snap p hj
  · rw [Config.set_other _ hij] at hj
    rw [Function.update_of_ne hij]
    exact h.inserted j st snap p hj

omit [Fintype ι] [Fintype κ] [DecidableEq κ] in
/-- A session that has inserted nothing more. -/
theorem System.Mirrored.keep (h : sys.Mirrored) {i : ι}
    {x : Session Stmt Stmt.Reply Err Db Write Key ProcessResponse}
    (hx : ∀ st snap p, x = .active st snap p →
      (sys.inserted i).map (·.delta) = st.writes.flatMap Write.outboxRows) :
    ({ sys with requests := sys.requests.set i x } : System ι κ).Mirrored where
  committed := h.committed
  inserted := by
    have hset := h.set (i := i) hx
    rwa [Function.update_eq_self] at hset

omit [Fintype ι] [Fintype κ] [DecidableEq κ] in
theorem System.Mirrored.request (h : sys.Mirrored) {l : Label ι Stmt Err} {requests : Requests ι}
    (hm : postgres.Moves sys.requests l requests) : (sys.record requests l).Mirrored := by
  cases hm with
  | @start i st s k hi =>
    have hold := h.inserted i _ _ _ hi
    apply h.keep
    rintro st' snap p ⟨⟩
    exact hold
  | @finish i st snap s k r ws hi hf he =>
    have hold := h.inserted i _ _ _ hi
    have hrows := Stmt.eval_outboxRows he
    cases s with
    | insertOutbox delta =>
      refine ⟨h.committed, h.set ?_⟩
      rintro st' snap' p ⟨⟩
      rw [Sess.finish_writes, List.flatMap_append, List.map_append, hold, hrows]
      rfl
    | _ =>
      apply h.keep
      rintro st' snap' p ⟨⟩
      rw [Sess.finish_writes, List.flatMap_append, hrows, List.append_nil]
      exact hold
  | @fail i st snap s k e hi hf he =>
    have hold := h.inserted i _ _ _ hi
    cases s with
    | insertOutbox delta => cases he
    | _ =>
      apply h.keep
      rintro st' snap' p ⟨⟩
      exact hold
  | @commit i st a hi =>
    constructor
    · change (sys.reports.db.rtpOutbox ++ sys.inserted i).map _ =
        (postgres.view sys.requests.db st.writes).rtpOutbox
      rw [Db.view_rtpOutbox, List.map_append, h.committed, h.inserted i _ _ _ hi]
    · exact h.set fun st' snap p hx => by cases hx
  | @rollback i st e hi => exact h.keep fun st' snap p hx => by cases hx
  | @abort i st snap p e hi => exact h.keep fun st' snap p hx => by cases hx

theorem System.Mirrored.step {e : Event ι κ} (h : sys.Mirrored) (hs : sys.step e = some sys') :
    sys'.Mirrored := by
  obtain ⟨l, requests, rfl, hm, rfl⟩ | ⟨l, reports, rfl, hm, rfl⟩ := System.step_cases hs
  · exact h.request hm
  · refine ⟨?_, h.inserted⟩
    obtain hdb | ⟨i, st, a, _, _, hdb⟩ := hm.db_cases
    · rw [hdb]
      exact h.committed
    · rw [hdb, rtpOutbox_view, List.map_map]
      simp only [Function.comp_def, onRow_delta]
      exact h.committed

theorem System.CommitsInOrder.taken {e : Event ι κ} (hin : sys.InOrder)
    (h : sys.reports.db.TakenInOrder) (hok : sys.CommitsInOrder e)
    (hs : sys.step e = some sys') : sys'.reports.db.TakenInOrder := by
  obtain ⟨l, requests, rfl, _, rfl⟩ | ⟨l, reports, rfl, hm, rfl⟩ := System.step_cases hs
  · obtain ⟨i, delta, rfl⟩ | ⟨i, rfl⟩ | hrecord := sys.record_cases requests l
    · exact h
    · exact h.enqueue fun row hrow => (hin.numbered.inserted i row hrow).2.1
    · rw [hrecord]
      exact h
  · obtain hdb | ⟨i, st, a, rfl, hi, hdb⟩ := hm.db_cases
    · rw [hdb]
      exact h
    · have hp := hin.guarded.sessions i st none _ hi
      rw [hdb]
      change sys.reports.db.BatchInOrder (claimedIds (sys.reports.sess i).writes) at hok
      rw [hi, Session.writes_active] at hok
      obtain hw | ⟨ids, now, _, hw⟩ := hp.committing
      · rw [hw]
        exact h
      · rw [hw, claimedIds_drained] at hok
        rw [hw]
        exact h.drained hok now

/-- As long as no drain commits a row that takes back an earlier one while leaving that one
behind, and no service rounds an amount of the ledger, no column of the report is ever
negative. -/
theorem rollup_nonneg (calls : ι → Call) (jobs : κ → RtpJob) {db₀ : Db} (h₀ : db₀.Initial)
    {nextId : Nat} {es : List (Event ι κ)}
    (hr : System.Run System.CommitsInOrder (.start calls jobs db₀ ⟨[], []⟩ nextId) es sys)
    (hround : ∀ i, ∀ r ∈ sys.requests.db.ledger, ∀ v ∈ r.amount, (calls i).svc.RoundTrips v) :
    (∀ row ∈ sys.reports.db.rtpUserMinute, ∀ col, 0 ≤ row.column col) ∧
      ∀ sel col, 0 ≤ sumOf sys.reports.db.rtpUserMinute sel (·.column col) := by
  have hinv : sys.InOrder ∧ sys.Mirrored ∧ sys.reports.db.TakenInOrder := by
    apply hr.invariant (P := fun sys => sys.InOrder ∧ sys.Mirrored ∧ sys.reports.db.TakenInOrder)
    · refine ⟨.start .empty ?_, ⟨h₀.rtpOutbox.symm, ?_⟩, List.Pairwise.nil⟩
      · intro row hrow
        cases hrow
      · rintro i st snap p ⟨⟩
        rfl
    · rintro sys₁ e sys₂ ⟨hin, hmirror, htaken⟩ hok hs
      exact ⟨hin.step hs, hmirror.step hs, hok.taken hin htaken hs⟩
  obtain ⟨hin, hmirror, htaken⟩ := hinv
  obtain ⟨ls, hrequests⟩ := hr.requests
  obtain ⟨entries, hentries⟩ := entered_run calls h₀ hrequests hround
  have hrow : ∀ row ∈ sys.reports.db.rtpUserMinute, ∀ col, 0 ≤ row.column col := by
    intro row hrow col
    have hfind : sys.reports.db.minute? row.key = some row :=
      find?_of_unique hrow (decide_eq_true rfl) fun row' hrow' hkey =>
        List.inj_on_of_nodup_map hin.guarded.database.keys hrow' hrow (of_decide_eq_true hkey)
    have hexact := hin.guarded.database.exact row.key col
    rw [RtpDb.rolledUp, hfind, Option.elim_some] at hexact
    rw [hexact]
    exact processed_nonneg hentries hmirror.committed htaken row.key col
  refine ⟨hrow, ?_⟩
  intro sel col
  apply List.sum_nonneg
  intro x hx
  obtain ⟨row, hmem, rfl⟩ := List.mem_map.1 hx
  exact hrow row (List.mem_filter.1 hmem).1 col

end

/-- A bet of the Rust service that a Number cannot hold, and its rollback by the other. -/
def hugeBetTakenBack (i : Fin 2) : Call :=
  if i.val = 0 then dollars rust "a" [.bet 1 (2 ^ 53 + 3)]
  else dollars typescript "a" [.rollback 2 1]

/-- The second drain takes the bet out of the report before the first one has put it in; and
even drains in order take out a rounded amount. -/
theorem negative_play : (∃ es sys,
      System.Run (fun _ _ => True) (.start betTakenBack twoDrains twoUsers ⟨[], []⟩ 1) es sys ∧
      ∃ row ∈ sys.reports.db.rtpUserMinute, row.totalBet = -60 ∧ row.rounds = -1) ∧
    ∃ es sys, System.Run System.CommitsInOrder (.start hugeBetTakenBack twoDrains
        ⟨[⟨⟨"a", "USD"⟩, 2 ^ 54⟩], [], [], [], []⟩ ⟨[], []⟩ 1) es sys ∧
      ∃ row ∈ sys.reports.db.rtpUserMinute, row.totalBet = -1 := by
  obtain ⟨es, sys, hr, _, hsys⟩ := System.Run.exists_of_drive (fun _ _ => True)
    (.start betTakenBack twoDrains twoUsers ⟨[], []⟩ 1)
    (List.replicate 17 (.inl 0) ++ List.replicate 2 (.inr 0) ++ List.replicate 25 (.inl 1) ++
      List.replicate 7 (.inr 1))
    (p := fun sys => ∃ row ∈ sys.reports.db.rtpUserMinute, row.totalBet = -60 ∧ row.rounds = -1)
    (by decide +kernel)
  obtain ⟨es', sys', hr', _, hsys'⟩ := System.Run.exists_of_drive System.CommitsInOrder
    (.start hugeBetTakenBack twoDrains ⟨[⟨⟨"a", "USD"⟩, 2 ^ 54⟩], [], [], [], []⟩ ⟨[], []⟩ 1)
    (List.replicate 17 (.inl 0) ++ List.replicate 25 (.inl 1) ++ List.replicate 7 (.inr 0))
    (p := fun sys => ∃ row ∈ sys.reports.db.rtpUserMinute, row.totalBet = -1)
    (by decide +kernel)
  exact ⟨⟨es, sys, hr, of_decide_eq_true hsys⟩, es', sys', hr', of_decide_eq_true hsys'⟩

/-- One drain after the other. -/
theorem drained_in_order : ∃ es sys,
    System.Run System.CommitsInOrder (.start betTakenBack twoDrains twoUsers ⟨[], []⟩ 1) es sys ∧
    sys.reports.db.rtpUserMinute.length = 1 ∧
    ∀ row ∈ sys.reports.db.rtpUserMinute, ∀ col, 0 ≤ row.column col := by
  obtain ⟨es, sys, hr, _, hsys⟩ := System.Run.exists_of_drive System.CommitsInOrder
    (.start betTakenBack twoDrains twoUsers ⟨[], []⟩ 1)
    (List.replicate 17 (.inl 0) ++ List.replicate 7 (.inr 0) ++ List.replicate 25 (.inl 1) ++
      List.replicate 7 (.inr 1))
    (p := fun sys => sys.reports.db.rtpUserMinute.length = 1 ∧
      ∀ r ∈ sys.requests.db.ledger, ∀ v ∈ r.amount, typescript.bind (typescript.load v) = some v)
    (by decide +kernel)
  obtain ⟨hone, hround⟩ := of_decide_eq_true hsys
  refine ⟨es, sys, hr, hone, (rollup_nonneg betTakenBack twoDrains twoUsers_initial hr ?_).1⟩
  intro i r hrow v hv
  have hsvc : (betTakenBack i).svc = typescript := by
    rw [betTakenBack]
    split <;> rfl
  rw [hsvc]
  exact hround r hrow v hv

end BetProcessor
