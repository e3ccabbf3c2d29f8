import BetProcessor.RtpRows

namespace BetProcessor
set_option autoImplicit true
open Txn

/-- The rows with the given ids. -/
def RtpDb.batch (db : RtpDb) (ids : List Nat) : List RtpOutboxRow :=
  db.rtpOutbox.filter (·.id ∈ ids)

/-- The sum of a batch at a key. -/
def RtpDb.batchSum (db : RtpDb) (ids : List Nat) (key : RtpKey) (col : Column) : Int :=
  sumOf (db.batch ids) (·.delta.key = key) (·.delta.column col)

section
variable {db db' : RtpDb} {ids : List Nat} {key : RtpKey} {col : Column}

theorem RtpDb.batch_view (ws : List RtpWrite) :
    (postgresRtp.view db ws).batch ids = (db.batch ids).map (onRow ws) := by
  rw [batch, rtpOutbox_view, List.filter_map]
  simp only [Function.comp_def, onRow_id]
  rfl

theorem aggregated_congr (h : (db.batch ids).map (·.core) = (db'.batch ids).map (·.core)) :
    db.aggregated ids = db'.aggregated ids := by
  have hdelta : (db.batch ids).map (·.delta) = (db'.batch ids).map (·.delta) := by
    have := congrArg (List.map Prod.snd) h
    rwa [List.map_map, List.map_map] at this
  have hkeys : (db.batch ids).map (·.delta.key) = (db'.batch ids).map (·.delta.key) := by
    have := congrArg (List.map OutboxRow.key) hdelta
    rwa [List.map_map, List.map_map] at this
  have hsum : ∀ key col, db.batchSum ids key col = db'.batchSum ids key col := by
    intro key col
    have := congrArg (fun l => sumOf l (fun d : OutboxRow => d.key = key) (·.column col)) hdelta
    simp only [sumOf_map] at this
    exact this
  change ((db.batch ids).map (·.delta.key)).dedup.map
    (fun key => RtpUserMinuteRow.ofColumns key fun col => db.batchSum ids key col) = _
  rw [hkeys]
  simp only [hsum]
  rfl

theorem aggregated_keys (db : RtpDb) (ids : List Nat) :
    (db.aggregated ids).map (·.key) = ((db.batch ids).map (·.delta.key)).dedup := by
  rw [RtpDb.aggregated, List.map_map]
  exact List.map_id _

/-- One upsert never touches a row twice. -/
theorem aggregated_nodup (db : RtpDb) (ids : List Nat) :
    ((db.aggregated ids).map (·.key)).Nodup := by
  rw [aggregated_keys]
  exact List.nodup_dedup _

theorem mem_aggregated {row : RtpUserMinuteRow} (h : row ∈ db.aggregated ids) :
    row.column col = db.batchSum ids row.key col := by
  obtain ⟨key, _, rfl⟩ := List.mem_map.1 h
  rw [RtpUserMinuteRow.ofColumns_column, RtpUserMinuteRow.ofColumns_key]
  rfl

theorem batchSum_eq_zero (h : key ∉ (db.aggregated ids).map (·.key)) :
    db.batchSum ids key col = 0 := by
  apply sumOf_eq_zero
  intro row hrow
  rw [decide_eq_false_iff_not]
  intro hk
  apply h
  rw [aggregated_keys, List.mem_dedup]
  exact List.mem_map.2 ⟨row, hrow, hk⟩

theorem upserted_keys (snap cur : RtpDb) (ids : List Nat) :
    (snap.upserted cur ids).map (·.key) = (snap.aggregated ids).map (·.key) := by
  rw [RtpDb.upserted, List.map_map]
  rfl

theorem upserted_congr {snap cur snap' cur' : RtpDb}
    (h : snap.aggregated ids = snap'.aggregated ids)
    (hcur : ∀ row ∈ snap.aggregated ids, ∀ col,
      cur.rolledUp row.key col = cur'.rolledUp row.key col) :
    snap.upserted cur ids = snap'.upserted cur' ids := by
  rw [RtpDb.upserted, RtpDb.upserted, ← h]
  apply List.map_congr_left
  intro row hrow
  simp only [hcur row hrow]

theorem RtpDb.rolledUp_congr (h : db'.minute? key = db.minute? key) (col : Column) :
    db'.rolledUp key col = db.rolledUp key col := by
  rw [rolledUp, h]
  rfl

/-- The upsert adds the sum of the batch to every column of every key. -/
theorem rolledUp_puts (db : RtpDb) (ids : List Nat) (key : RtpKey) (col : Column) :
    (postgresRtp.view db ((db.upserted db ids).map .putMinute)).rolledUp key col =
      db.rolledUp key col + db.batchSum ids key col := by
  have hnodup : ((db.upserted db ids).map (·.key)).Nodup := by
    rw [upserted_keys]
    exact aggregated_nodup db ids
  rw [RtpDb.rolledUp, minute?_puts hnodup]
  cases hf : (db.upserted db ids).find? (·.key = key) with
  | none =>
    rw [Option.none_or]
    have hnot : key ∉ (db.aggregated ids).map (·.key) := by
      rw [← upserted_keys db db]
      intro hk
      obtain ⟨row, hrow, he⟩ := List.mem_map.1 hk
      simpa [he] using List.find?_eq_none.1 hf row hrow
    rw [batchSum_eq_zero hnot, add_zero]
    rfl
  | some row =>
    have hkey : row.key = key := by simpa using List.find?_some hf
    obtain ⟨new, hnew, rfl⟩ := List.mem_map.1 (List.mem_of_find?_eq_some hf)
    rw [RtpUserMinuteRow.ofColumns_key] at hkey
    subst hkey
    rw [Option.some_or, Option.elim_some, RtpUserMinuteRow.ofColumns_column,
      mem_aggregated hnew]

end

def claims (ids : List Nat) (now : Int) : List RtpWrite := ids.map (.claim · now)

def upserts (db : RtpDb) (ids : List Nat) : List RtpWrite := (db.upserted db ids).map .putMinute

def marks (db : RtpDb) (ids : List Nat) (now : Int) : List RtpWrite :=
  ((db.batch ids).map (·.id)).map (.markProcessed · now)

/-- Everything that a drain writes. -/
def RtpDb.drained (db : RtpDb) (ids : List Nat) (now : Int) : List RtpWrite :=
  claims ids now ++ upserts db ids ++ marks db ids now

/-- The rows of a batch are locked and wait in the committed state. -/
structure Claimed (held : List RtpLock) (ids : List Nat) (db : RtpDb) : Prop where
  nonempty : ids ≠ []
  held : ∀ id ∈ ids, RtpLock.outbox id ∈ held
  present : ∀ id ∈ ids, ∃ row ∈ db.rtpOutbox, row.id = id
  pending : ∀ row ∈ db.rtpOutbox, row.id ∈ ids → row.status = .pending

/-- The report is what has been processed of the outbox. -/
structure RtpDb.RolledUp (db : RtpDb) : Prop where
  ids : (db.rtpOutbox.map (·.id)).Nodup
  keys : (db.rtpUserMinute.map (·.key)).Nodup
  settled : ∀ row ∈ db.rtpOutbox, row.status ≠ .processing
  exact : ∀ key col, db.rolledUp key col = db.processed key col

section
variable {db : RtpDb} {ids : List Nat} {now : Int} {key : RtpKey} {col : Column}

theorem minute?_claims : (postgresRtp.view db (claims ids now)).minute? key = db.minute? key := by
  apply minute?_other
  intro w hw
  obtain ⟨id, _, rfl⟩ := List.mem_map.1 hw
  simp [RtpWrite.keys]

theorem minute?_marks (db' : RtpDb) :
    (postgresRtp.view db (marks db' ids now)).minute? key = db.minute? key := by
  apply minute?_other
  intro w hw
  obtain ⟨id, _, rfl⟩ := List.mem_map.1 hw
  simp [RtpWrite.keys]

theorem rolledUp_drained : (postgresRtp.view db (db.drained ids now)).rolledUp key col =
    db.rolledUp key col + db.batchSum ids key col := by
  rw [← rolledUp_puts]
  apply RtpDb.rolledUp_congr
  rw [RtpDb.drained, SkipEngine.view_append, SkipEngine.view_append, minute?_marks,
    minute?_view, minute?_claims, minute?_view]
  rfl

theorem onRow_drained_status {row : RtpOutboxRow} (hrow : row ∈ db.rtpOutbox) :
    (onRow (db.drained ids now) row).status =
      if row.id ∈ ids then .processed else row.status := by
  have hmem : row.id ∈ (db.batch ids).map (·.id) ↔ row.id ∈ ids := by
    constructor
    · intro h
      obtain ⟨row', hrow', he⟩ := List.mem_map.1 h
      rw [← he]
      simpa using (List.mem_filter.1 hrow').2
    · intro h
      exact List.mem_map.2 ⟨row, List.mem_filter.2 ⟨hrow, by simpa using h⟩, rfl⟩
  rw [RtpDb.drained, onRow_append, onRow_append, upserts, onRow_puts, marks, onRow_marks_status,
    onRow_id]
  simp only [hmem]
  by_cases hid : row.id ∈ ids
  · rw [if_pos hid, if_pos hid]
  · rw [if_neg hid, if_neg hid, claims, onRow_claims_other hid]

theorem processed_drained {held : List RtpLock} (hc : Claimed held ids db) :
    (postgresRtp.view db (db.drained ids now)).processed key col =
      db.processed key col + db.batchSum ids key col := by
  rw [RtpDb.processed, rtpOutbox_view, sumOf_map, RtpDb.batchSum, RtpDb.batch, sumOf_filter,
    RtpDb.processed, ← sumOf_or]
  · simp only [onRow_delta]
    apply sumOf_sel_congr
    intro row hrow
    rw [onRow_drained_status hrow]
    by_cases hid : row.id ∈ ids
    · simp [hid]
    · simp [hid]
  · intro row hrow hp
    have hstatus : row.status = .processed := (of_decide_eq_true hp).1
    by_cases hid : row.id ∈ ids
    · rw [hc.pending row hrow hid] at hstatus
      cases hstatus
    · simp [hid]

/-- A drain that commits adds its batch to the report and marks it. -/
theorem RtpDb.RolledUp.drained {held : List RtpLock} (h : db.RolledUp)
    (hc : Claimed held ids db) (now : Int) :
    (postgresRtp.view db (db.drained ids now)).RolledUp where
  ids := by
    rw [rtpOutbox_view, List.map_map]
    simpa only [Function.comp_def, onRow_id] using h.ids
  keys := view_minute_keys _ h.keys
  settled := by
    rw [rtpOutbox_view]
    intro row' hrow'
    obtain ⟨row, hrow, rfl⟩ := List.mem_map.1 hrow'
    rw [onRow_drained_status hrow]
    split
    · intro he
      cases he
    · exact h.settled row hrow
  exact key col := by
    rw [rolledUp_drained, processed_drained hc, h.exact]

end

/-- The rest of a drain after its claim. -/
def rollUp (ids : List Nat) (now : Int) : RtpTx Nat :=
  .exec (.upsertAggregated ids) fun _ => .exec (.markProcessed ids now) fun _ => .pure ids.length

theorem drainRtpOutbox_eq (batchSize now : Int) : drainRtpOutbox batchSize now =
    .exec (.claimPending batchSize now) fun ids =>
      if ids.length = 0 then .pure 0 else rollUp ids now := rfl

/-- Where a call of the worker stands: what it has written follows from its batch and the
committed database. -/
inductive Stands (db : RtpDb) (st : Sess RtpStmt RtpWrite RtpLock) :
    Option RtpDb → RtpTx Nat → Prop where
  | begun {snap} (job : RtpJob) (hw : st.writes = []) : Stands db st snap job.body
  | nothing (hw : st.writes = []) : Stands db st none (.pure 0)
  | failed {e} (hw : ∀ id, .recover id ∉ st.writes) : Stands db st none (.throw e)
  | claimed {snap ids now} (hc : Claimed st.held ids db)
    (hs : ∀ s ∈ snap, (s.batch ids).map (·.core) = (db.batch ids).map (·.core))
    (hw : st.writes = claims ids now) : Stands db st snap (rollUp ids now)
  | upserted {snap ids now} (hc : Claimed st.held ids db)
    (hs : ∀ s ∈ snap, (s.batch ids).map (·.core) = (db.batch ids).map (·.core))
    (hk : ∀ row ∈ db.aggregated ids, .minute row.key ∈ st.held)
    (hw : st.writes = claims ids now ++ upserts db ids) :
    Stands db st snap (.exec (.markProcessed ids now) fun _ => .pure ids.length)
  | drained {ids now} (hc : Claimed st.held ids db)
    (hk : ∀ row ∈ db.aggregated ids, .minute row.key ∈ st.held)
    (hw : st.writes = db.drained ids now) : Stands db st none (.pure ids.length)

section
variable {db db' : RtpDb} {st : Sess RtpStmt RtpWrite RtpLock} {snap : Option RtpDb}
variable {p : RtpTx Nat} {ids : List Nat}

theorem Claimed.congr {held : List RtpLock} (h : Claimed held ids db)
    (hb : db'.batch ids = db.batch ids) : Claimed held ids db' where
  nonempty := h.nonempty
  held := h.held
  present id hid := by
    obtain ⟨row, hrow, rfl⟩ := h.present id hid
    have hmem : row ∈ db'.batch ids := hb ▸ List.mem_filter.2 ⟨hrow, by simpa using hid⟩
    exact ⟨row, (List.mem_filter.1 hmem).1, rfl⟩
  pending row hrow hid := by
    have hmem : row ∈ db.batch ids := hb ▸ List.mem_filter.2 ⟨hrow, by simpa using hid⟩
    exact h.pending row (List.mem_filter.1 hmem).1 hid

theorem Claimed.mono {held held' : List RtpLock} (h : Claimed held ids db)
    (hsub : held ⊆ held') : Claimed held' ids db where
  nonempty := h.nonempty
  held id hid := hsub (h.held id hid)
  present := h.present
  pending := h.pending

/-- Others may change what the call has not locked. -/
theorem Stands.later (h : Stands db st snap p)
    (hb : ∀ ids, Claimed st.held ids db → db'.batch ids = db.batch ids)
    (hm : ∀ key, .minute key ∈ st.held → db'.minute? key = db.minute? key) :
    Stands db' st snap p := by
  have hagg : ∀ {ids}, Claimed st.held ids db → db'.aggregated ids = db.aggregated ids :=
    fun hc => aggregated_congr (by rw [hb _ hc])
  have hups : ∀ {ids}, Claimed st.held ids db →
      (∀ row ∈ db.aggregated ids, .minute row.key ∈ st.held) →
      upserts db' ids = upserts db ids := by
    intro ids hc hk
    rw [upserts, upserts]
    congr 1
    apply upserted_congr (hagg hc)
    intro row hrow col
    rw [hagg hc] at hrow
    exact RtpDb.rolledUp_congr (hm _ (hk row hrow)) col
  cases h with
  | begun job hw => exact .begun job hw
  | nothing hw => exact .nothing hw
  | failed hw => exact .failed hw
  | claimed hc hs hw =>
    apply Stands.claimed (hc.congr (hb _ hc)) ?_ hw
    rwa [hb _ hc]
  | upserted hc hs hk hw =>
    apply Stands.upserted (hc.congr (hb _ hc))
    · rwa [hb _ hc]
    · rwa [hagg hc]
    · rwa [hups hc hk]
  | drained hc hk hw =>
    apply Stands.drained (hc.congr (hb _ hc))
    · rwa [hagg hc]
    · rwa [RtpDb.drained, hups hc hk, marks, hb _ hc]

theorem Stands.start {s : RtpStmt} {k : s.Reply → RtpTx Nat} (h : Stands db st none (.exec s k)) :
    Stands db (st.start s) (some db) (.exec s k) := by
  generalize hp : Prog.exec s k = p at h ⊢
  have hself : ∀ ids, ∀ s ∈ some db, (s.batch ids).map (·.core) = (db.batch ids).map (·.core) := by
    intro ids s hs
    cases hs
    rfl
  cases h with
  | begun job hw => exact .begun job hw
  | nothing => cases hp
  | failed => cases hp
  | claimed hc _ hw => exact .claimed hc (hself _) hw
  | upserted hc _ hk hw => exact .upserted hc (hself _) hk hw
  | drained => cases hp

/-- No call of the worker ever resets a row. -/
theorem Stands.not_recover (h : Stands db st snap p) (id : Nat) : .recover id ∉ st.writes := by
  have hclaims : ∀ {ids now}, .recover id ∉ claims ids now := by
    intro ids now hid
    obtain ⟨_, _, he⟩ := List.mem_map.1 hid
    cases he
  have hups : ∀ {ids}, .recover id ∉ upserts db ids := by
    intro ids hid
    obtain ⟨_, _, he⟩ := List.mem_map.1 hid
    cases he
  have hmarks : ∀ {ids now}, .recover id ∉ marks db ids now := by
    intro ids now hid
    obtain ⟨_, _, he⟩ := List.mem_map.1 hid
    cases he
  cases h with
  | begun job hw => simp [hw]
  | nothing hw => simp [hw]
  | failed hw => exact hw id
  | claimed hc hs hw => simp [hw, hclaims]
  | upserted hc hs hk hw => simp [hw, hclaims, hups]
  | drained hc hk hw => simp [hw, RtpDb.drained, hclaims, hups, hmarks]

theorem Stands.committing {a : Nat} (h : Stands db st none (.pure a)) : st.writes = [] ∨
    ∃ ids now, Claimed st.held ids db ∧ st.writes = db.drained ids now := by
  generalize hp : Prog.pure a = p at h
  generalize hsnap : (none : Option RtpDb) = snap at h
  cases h with
  | begun job => cases job <;> cases hp
  | nothing hw => exact Or.inl hw
  | failed => cases hp
  | claimed => cases hp
  | upserted => cases hp
  | drained hc _ hw => exact Or.inr ⟨_, _, hc, hw⟩

theorem mem_claimable {locked : RtpLock → Bool} {snap cur : RtpDb} {batchSize : Int} {id : Nat}
    (h : id ∈ snap.claimable locked cur batchSize) : locked (.outbox id) = false ∧
      ∃ row ∈ cur.rtpOutbox, row.id = id ∧ row.status = .pending := by
  have h := (List.mem_filter.1 (List.mem_of_mem_take h)).2
  simpa [RtpDb.rechecks] using h

theorem stale_eq_nil {snap cur : RtpDb} {staleAfterMs now : Int}
    (h : ∀ row ∈ cur.rtpOutbox, row.status ≠ .processing) :
    snap.stale cur staleAfterMs now = [] := by
  rw [RtpDb.stale, List.filter_eq_nil_iff]
  intro id _ hid
  rw [RtpDb.rechecks, List.any_eq_true] at hid
  obtain ⟨row, hrow, hid⟩ := hid
  exact h row hrow (by simp_all)

theorem batch_core_view (ws : List RtpWrite) :
    ((postgresRtp.view db ws).batch ids).map (·.core) = (db.batch ids).map (·.core) := by
  rw [RtpDb.batch_view, List.map_map]
  simp only [Function.comp_def, onRow_core]

theorem batch_ids (db : RtpDb) (ids : List Nat) :
    (db.rtpOutbox.map (·.id)).filter (· ∈ ids) = (db.batch ids).map (·.id) := by
  rw [RtpDb.batch, List.filter_map]
  rfl

theorem Claimed.claim {held : List RtpLock} (hdb : db.RolledUp) {locked : RtpLock → Bool}
    {snap : RtpDb} {batchSize : Int} (hne : snap.claimable locked db batchSize ≠ [])
    (hheld : ∀ id ∈ snap.claimable locked db batchSize, .outbox id ∈ held) :
    Claimed held (snap.claimable locked db batchSize) db where
  nonempty := hne
  held := hheld
  present id hid := by
    obtain ⟨_, row, hrow, he, _⟩ := mem_claimable hid
    exact ⟨row, hrow, he⟩
  pending row hrow hid := by
    obtain ⟨_, row', hrow', he, hpending⟩ := mem_claimable hid
    rw [← List.inj_on_of_nodup_map hdb.ids hrow' hrow he]
    exact hpending

section
variable {locked : RtpLock → Bool} {snap : RtpDb} {now : Int}

theorem Stands.claim {batchSize : Int} {ws : List RtpWrite} (hdb : db.RolledUp)
    (hw : st.writes = []) (he : (RtpStmt.claimPending batchSize now).eval locked
      (postgresRtp.view snap st.writes) (postgresRtp.view db st.writes) = .ok (ids, ws)) :
    Stands db (st.finish ws ((RtpStmt.claimPending batchSize now).locks locked
      (postgresRtp.view snap st.writes) (postgresRtp.view db st.writes))) none
      (if ids.length = 0 then .pure 0 else rollUp ids now) := by
  rw [hw] at he ⊢
  rw [RtpStmt.eval] at he
  split at he
  · cases he
  · cases he
    simp only [RtpStmt.locks]
    generalize hids : RtpDb.claimable locked (postgresRtp.view snap []) (postgresRtp.view db [])
      batchSize = ids
    by_cases hne : ids = []
    · subst hne
      rw [if_pos List.length_nil]
      apply Stands.nothing
      rw [Sess.finish_writes, hw]
      rfl
    · rw [if_neg fun h => hne (List.length_eq_zero_iff.1 h)]
      apply Stands.claimed
      · subst hids
        apply Claimed.claim hdb hne
        intro id hid
        exact List.mem_append_right _ (List.mem_map_of_mem hid)
      · intro s hs
        cases hs
      · rw [Sess.finish_writes, hw]
        rfl

theorem Stands.recovered {staleAfterMs : Int} {r : Nat} {ws : List RtpWrite} {held : List RtpLock}
    (hdb : db.RolledUp) (hw : st.writes = []) (he : (RtpStmt.recoverStale staleAfterMs now).eval
      locked (postgresRtp.view snap st.writes) (postgresRtp.view db st.writes) = .ok (r, ws)) :
    Stands db (st.finish ws held) none (.pure r) := by
  have hnil : snap.stale db staleAfterMs now = [] := stale_eq_nil hdb.settled
  rw [hw, RtpStmt.eval] at he
  simp only [SkipEngine.view_nil, hnil] at he
  cases he
  apply Stands.nothing
  rw [Sess.finish_writes, hw]
  rfl

theorem Stands.upsert {r : Unit} {ws : List RtpWrite} (hc : Claimed st.held ids db)
    (hcore : (snap.batch ids).map (·.core) = (db.batch ids).map (·.core))
    (hw : st.writes = claims ids now) (he : (RtpStmt.upsertAggregated ids).eval locked
      (postgresRtp.view snap st.writes) (postgresRtp.view db st.writes) = .ok (r, ws)) :
    Stands db (st.finish ws ((RtpStmt.upsertAggregated ids).locks locked
      (postgresRtp.view snap st.writes) (postgresRtp.view db st.writes))) none
      (.exec (.markProcessed ids now) fun _ => .pure ids.length) := by
  rw [hw] at he ⊢
  have hagg : (postgresRtp.view snap (claims ids now)).aggregated ids = db.aggregated ids :=
    aggregated_congr ((batch_core_view _).trans hcore)
  have hups : (postgresRtp.view snap (claims ids now)).upserted
      (postgresRtp.view db (claims ids now)) ids = db.upserted db ids := by
    apply upserted_congr hagg
    intro row _ col
    exact RtpDb.rolledUp_congr minute?_claims col
  rw [RtpStmt.eval, hups] at he
  split at he
  · cases he
  split at he
  · cases he
  split at he
  · cases he
  cases he
  apply Stands.upserted (hc.mono (List.subset_append_left _ _))
  · intro s hs
    cases hs
  · intro row hrow
    apply List.mem_append_right
    rw [RtpStmt.locks, hagg]
    exact List.mem_map.2 ⟨row, hrow, rfl⟩
  · rw [Sess.finish_writes, hw]
    rfl

theorem Stands.mark {r : Unit} {ws : List RtpWrite} {held : List RtpLock}
    (hc : Claimed st.held ids db)
    (hcore : (snap.batch ids).map (·.core) = (db.batch ids).map (·.core))
    (hk : ∀ row ∈ db.aggregated ids, .minute row.key ∈ st.held)
    (hw : st.writes = claims ids now ++ upserts db ids)
    (he : (RtpStmt.markProcessed ids now).eval locked (postgresRtp.view snap st.writes)
      (postgresRtp.view db st.writes) = .ok (r, ws)) :
    Stands db (st.finish ws held) none (.pure ids.length) := by
  have hids : ((postgresRtp.view snap st.writes).batch ids).map (·.id) =
      (db.batch ids).map (·.id) := by
    have := congrArg (List.map Prod.fst) ((batch_core_view st.writes).trans hcore)
    rwa [List.map_map, List.map_map] at this
  rw [RtpStmt.eval, batch_ids, hids] at he
  cases he
  apply Stands.drained (hc.mono (List.subset_append_left _ _))
  · intro row hrow
    exact List.mem_append_left _ (hk row hrow)
  · rw [Sess.finish_writes, hw]
    rfl

end

theorem Stands.finish {locked : RtpLock → Bool} {s : RtpStmt} {k : s.Reply → RtpTx Nat}
    {snap : RtpDb} {r : s.Reply} {ws : List RtpWrite} (hdb : db.RolledUp)
    (h : Stands db st (some snap) (.exec s k))
    (he : s.eval locked (postgresRtp.view snap st.writes) (postgresRtp.view db st.writes) =
      .ok (r, ws)) :
    Stands db (st.finish ws (s.locks locked (postgresRtp.view snap st.writes)
      (postgresRtp.view db st.writes))) none (k r) := by
  generalize hp : Prog.exec s k = p at h
  generalize hsnap : some snap = snap' at h
  cases h with
  | begun job hw =>
    cases job with
    | drain batchSize now =>
      rw [RtpJob.body, drainRtpOutbox_eq] at hp
      cases hp
      exact Stands.claim hdb hw he
    | recover staleAfterMs now =>
      change Prog.exec s k = .exec (.recoverStale staleAfterMs now) _ at hp
      cases hp
      exact Stands.recovered hdb hw he
  | nothing => cases hp
  | failed => cases hp
  | claimed hc hs hw =>
    cases hp
    exact Stands.upsert hc (hs snap (Option.mem_def.2 hsnap.symm)) hw he
  | upserted hc hs hk hw =>
    cases hp
    exact Stands.mark hc (hs snap (Option.mem_def.2 hsnap.symm)) hk hw he
  | drained => cases hp

end

end BetProcessor
