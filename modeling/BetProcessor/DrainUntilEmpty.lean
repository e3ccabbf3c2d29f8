import BetProcessor.Drains

namespace BetProcessor
set_option autoImplicit true
open Txn

/-- `drainRtpOutboxUntilEmpty` with no other transaction next to it: `clock` has the database
clock at its drains, and `fuel` bounds their number. -/
def drainRtpOutboxUntilEmpty (ix : Indexes) (batchSize : Int) :
    (clock : Nat → Int) → (fuel total : Nat) → RtpDb → Option (Except RtpErr Nat × RtpDb)
  | _, 0, _, _ => none
  | clock, fuel + 1, total, db =>
    match ix.drain batchSize (clock 0) db with
    | (.error e, db) => some (.error e, db)
    | (.ok 0, db) => some (.ok total, db)
    | (.ok drained, db) =>
      drainRtpOutboxUntilEmpty ix batchSize (fun n => clock (n + 1)) fuel (total + drained) db

namespace RtpDb

/-- No sum of any of the batches is out of range. -/
def Fits (db : RtpDb) (batchSize : Nat) : Prop :=
  ∀ k, ∀ key ∈ (db.batch ((db.pendingIds.drop (k * batchSize)).take batchSize)).map (·.delta.key),
    ∀ col, IsBigint (db.batchSum ((db.pendingIds.drop (k * batchSize)).take batchSize) key col) ∧
      IsBigint (db.rolledUp key col +
        db.batchSum (db.pendingIds.take ((k + 1) * batchSize)) key col)

end RtpDb

/-- All pending rows have been added to the report, and nothing else has changed. -/
structure RtpDb.Drains (db db' : RtpDb) : Prop where
  outbox : ∃ now : RtpOutboxRow → Int, db'.rtpOutbox = db.rtpOutbox.map fun row =>
    if row.status = .pending then row.drained (now row) else row
  minutes : ∀ rows : List RtpOutboxRow, rows.Perm db.pending →
    db'.rtpUserMinute.Perm (rows.foldl RtpDb.addRow db).rtpUserMinute

section
variable {db db₁ db' : RtpDb} {B : Nat} {key : RtpKey} {col : Column} {now : Int}

namespace RtpDb

theorem pending_ids_nodup (h : db.Constraints) : (db.pending.map (·.id)).Nodup :=
  h.rtp_outbox_pkey.sublist (List.filter_sublist.map _)

theorem pendingIds_perm (db : RtpDb) : db.pendingIds.Perm (db.pending.map (·.id)) :=
  List.perm_insertionSort _ _

theorem pendingIds_nodup (h : db.Constraints) : db.pendingIds.Nodup :=
  (pendingIds_perm db).nodup_iff.2 (pending_ids_nodup h)

theorem pendingIds_length (db : RtpDb) : db.pendingIds.length = db.pending.length := by
  rw [(pendingIds_perm db).length_eq, List.length_map]

theorem pendingIds_eq_nil : db.pendingIds = [] ↔ db.pending = [] := by
  rw [← List.length_eq_zero_iff, pendingIds_length, List.length_eq_zero_iff]

theorem status_of_mem (h : db.Constraints) {ids : List Nat} (hids : ids ⊆ db.pendingIds)
    {row : RtpOutboxRow} (hrow : row ∈ db.rtpOutbox) (hid : row.id ∈ ids) :
    row.status = .pending := by
  obtain ⟨row', hrow', he⟩ := mem_pendingIds.1 (hids hid)
  rw [pending, List.mem_filter] at hrow'
  rw [← List.inj_on_of_nodup_map h.rtp_outbox_pkey hrow'.1 hrow he]
  simpa using hrow'.2

/-- The database after the next drain. -/
def next (db : RtpDb) (B : Nat) (now : Int) : RtpDb :=
  postgresRtp.view db (db.drained (db.pendingIds.take B) now)

theorem take_nodup (h : db.Constraints) (B : Nat) : (db.pendingIds.take B).Nodup :=
  (pendingIds_nodup h).sublist (List.take_sublist _ _)

theorem next_rtpOutbox (h : db.Constraints) : (db.next B now).rtpOutbox =
    db.rtpOutbox.map fun row => if row.id ∈ db.pendingIds.take B then row.drained now else row :=
  drained_rtpOutbox (take_nodup h B)

theorem next_pending (h : db.Constraints) : (db.next B now).pending =
    db.pending.filter (·.id ∉ db.pendingIds.take B) := by
  rw [pending, next_rtpOutbox h, pending, List.filter_map, List.filter_filter]
  have hfilter : db.rtpOutbox.filter ((fun row => decide (row.status = .pending)) ∘ fun row =>
      if row.id ∈ db.pendingIds.take B then row.drained now else row) =
      db.rtpOutbox.filter fun row =>
        decide (row.id ∉ db.pendingIds.take B) && decide (row.status = .pending) := by
    apply List.filter_congr
    intro row _
    rw [Function.comp_apply]
    by_cases hid : row.id ∈ db.pendingIds.take B
    · simp [hid, RtpOutboxRow.drained]
    · simp [hid]
  rw [hfilter]
  apply (List.map_congr_left _).trans (List.map_id _)
  intro row hrow
  have hrow := (List.mem_filter.1 hrow).2
  rw [Bool.and_eq_true] at hrow
  exact if_neg (of_decide_eq_true hrow.1)

theorem next_pendingIds (h : db.Constraints) :
    (db.next B now).pendingIds = db.pendingIds.drop B := by
  have hnodup := pendingIds_nodup h
  have hsplit : (db.pendingIds.take B ++ db.pendingIds.drop B).Nodup := by
    rwa [List.take_append_drop]
  have hperm : ((db.next B now).pending.map (·.id)).Perm (db.pendingIds.drop B) := by
    apply (List.perm_ext_iff_of_nodup _ (hnodup.sublist (List.drop_sublist _ _))).2
    · intro id
      have hmem : id ∈ db.pendingIds ↔ id ∈ db.pendingIds.take B ∨ id ∈ db.pendingIds.drop B := by
        rw [← List.mem_append, List.take_append_drop]
      rw [next_pending h, List.mem_map]
      constructor
      · rintro ⟨row, hrow, rfl⟩
        obtain ⟨hrow, hid⟩ := List.mem_filter.1 hrow
        exact (hmem.1 (mem_pendingIds.2 ⟨row, hrow, rfl⟩)).resolve_left (by simpa using hid)
      · intro hid
        obtain ⟨row, hrow, rfl⟩ := mem_pendingIds.1 (hmem.2 (Or.inr hid))
        refine ⟨row, List.mem_filter.2 ⟨hrow, ?_⟩, rfl⟩
        simpa using fun hid' => List.disjoint_of_nodup_append hsplit hid' hid
    · rw [next_pending h]
      exact (pending_ids_nodup h).sublist (List.filter_sublist.map _)
  have hsorted : db.pendingIds.Pairwise (· ≤ ·) := List.pairwise_insertionSort _ _
  exact ((pendingIds_perm _).trans hperm).eq_of_pairwise' (List.pairwise_insertionSort _ _)
    (hsorted.sublist (List.drop_sublist _ _))

theorem pending_split (h : db.Constraints) (B : Nat) (now : Int) :
    (db.batch (db.pendingIds.take B) ++ (db.next B now).pending).Perm db.pending := by
  have hbatch : db.batch (db.pendingIds.take B) =
      db.pending.filter (·.id ∈ db.pendingIds.take B) := by
    rw [batch, pending, List.filter_filter]
    apply List.filter_congr
    intro row hrow
    by_cases hid : row.id ∈ db.pendingIds.take B
    · have hst := status_of_mem h (List.take_subset _ _) hrow hid
      simp [hid, hst]
    · simp [hid]
  rw [hbatch, next_pending h]
  simpa using List.filter_append_perm (fun row => decide (row.id ∈ db.pendingIds.take B)) db.pending

theorem ReadsBack.next (hread : db.ReadsBack) (h : db.Constraints) :
    (db.next B now).ReadsBack := by
  intro id hid
  rw [next_pendingIds h] at hid
  exact hread id (List.mem_of_mem_drop hid)

end RtpDb

/-- The loop has added all pending rows, seen at every key. -/
structure RtpDb.DrainsTo (db db' : RtpDb) : Prop where
  outbox : ∃ now : RtpOutboxRow → Int, db'.rtpOutbox = db.rtpOutbox.map fun row =>
    if row.status = .pending then row.drained (now row) else row
  minute? : ∀ key, db'.minute? key = db.plus db.pending key
  keys : (db'.rtpUserMinute.map (·.key)).Nodup

theorem RtpDb.DrainsTo.next (h : db.Constraints) (hd : (db.next B now).DrainsTo db') :
    db.DrainsTo db' where
  outbox := by
    obtain ⟨clock, hrows⟩ := hd.outbox
    refine ⟨fun row => if row.id ∈ db.pendingIds.take B then now else clock row, ?_⟩
    rw [hrows, next_rtpOutbox h, List.map_map]
    apply List.map_congr_left
    intro row hrow
    rw [Function.comp_apply]
    by_cases hid : row.id ∈ db.pendingIds.take B
    · have hst := status_of_mem h (List.take_subset _ _) hrow hid
      simp only [if_pos hid, if_pos hst]
      exact if_neg (by simp [RtpOutboxRow.drained])
    · simp only [if_neg hid]
  minute? key := by
    have hbatch : (db.next B now).minute? key = db.plus (db.batch (db.pendingIds.take B)) key :=
      drained_minute? db _ now key
    rw [hd.minute?, plus_append hbatch]
    exact plus_perm (pending_split h B now)
  keys := hd.keys

theorem RtpDb.DrainsTo.refl (h : db.Constraints) (hnil : db.pendingIds = []) :
    db.DrainsTo db where
  outbox := by
    refine ⟨fun _ => 0, ?_⟩
    apply ((List.map_congr_left _).trans (List.map_id _)).symm
    intro row hrow
    have hnone := List.filter_eq_nil_iff.1 (pendingIds_eq_nil.1 hnil) row hrow
    exact if_neg (by simpa using hnone)
  minute? key := by
    rw [pendingIds_eq_nil.1 hnil]
    exact (if_neg (by simp)).symm
  keys := h.rtp_user_minute_pkey

theorem RtpDb.DrainsTo.pendingIds (hd : db.DrainsTo db') : db'.pendingIds = [] := by
  obtain ⟨clock, hrows⟩ := hd.outbox
  rw [pendingIds_eq_nil, pending, hrows, List.filter_eq_nil_iff]
  intro row' hrow'
  obtain ⟨row, _, rfl⟩ := List.mem_map.1 hrow'
  split
  · simp [RtpOutboxRow.drained]
  · simpa using ‹¬ row.status = .pending›

section
variable {ix : Indexes}

end

section
variable {x : Nat} {ws : List RtpWrite}

/-- The row with the id is not processed. -/
def RtpDb.Unmarked (x : Nat) (db : RtpDb) : Prop :=
  ∀ row ∈ db.rtpOutbox, row.id = x → row.status ≠ .processed

theorem onRow_unmarked {row : RtpOutboxRow} (hws : ∀ w ∈ ws, ∀ t, w ≠ .markProcessed row.id t)
    (h : row.status ≠ .processed) : (onRow ws row).status ≠ .processed := by
  induction ws generalizing row with
  | nil => exact h
  | cons w ws ih =>
    rw [onRow_cons]
    apply ih
    · intro w' hw' t
      have hid : (w.on row).id = row.id := onRow_id [w] row
      rw [hid]
      exact hws w' (List.mem_cons_of_mem _ hw') t
    · cases w with
      | putMinute new => exact h
      | markProcessed id t =>
        have hne : row.id ≠ id := fun hid => hws _ (List.mem_cons_self ..) t (by rw [hid])
        simp only [RtpWrite.on, RtpOutboxRow.update]
        rwa [if_neg hne]
      | claim id t =>
        simp only [RtpWrite.on, RtpOutboxRow.update]
        split
        · simp
        · exact h
      | recover id =>
        simp only [RtpWrite.on, RtpOutboxRow.update]
        split
        · simp
        · exact h

theorem RtpDb.Unmarked.view (h : db.Unmarked x)
    (hws : ∀ w ∈ ws, ∀ t, w ≠ .markProcessed x t) : (postgresRtp.view db ws).Unmarked x := by
  intro row' hrow' hid
  rw [rtpOutbox_view] at hrow'
  obtain ⟨row, hrow, rfl⟩ := List.mem_map.1 hrow'
  rw [onRow_id] at hid
  subst hid
  exact onRow_unmarked hws (h row hrow rfl)

theorem RtpDb.Unmarked.eval {ix : Indexes} {s : RtpStmt} {r : s.Reply} (h : db.Unmarked x)
    (hs : ∀ ids now, s = .markProcessed ids now → x ∉ ids)
    (he : ix.postgresRtpAlone.eval s db db = .ok (r, ws)) :
    (ix.postgresRtpAlone.view db ws).Unmarked x := by
  have hview : ix.postgresRtpAlone.view db ws = postgresRtp.view db ws :=
    postgresRtp.engine_view (fun _ => false) db ws
  rw [hview]
  apply h.view
  have heval : s.eval (fun _ => false) db db = .ok (r, ws) := (Engine.refusing_eq_ok.1 he).1
  intro w hw t hmark
  subst hmark
  cases s with
  | claimPending batchSize now =>
    rw [RtpStmt.eval] at heval
    split at heval
    · cases heval
    · cases heval
      obtain ⟨_, _, hclaim⟩ := List.mem_map.1 hw
      cases hclaim
  | upsertAggregated ids =>
    rw [RtpStmt.eval] at heval
    split at heval
    · cases heval
    split at heval
    · cases heval
    split at heval
    · cases heval
    · cases heval
      obtain ⟨_, _, hput⟩ := List.mem_map.1 hw
      cases hput
  | markProcessed ids now =>
    cases heval
    obtain ⟨id, hid, hmark⟩ := List.mem_map.1 hw
    cases hmark
    exact hs ids _ rfl (of_decide_eq_true (List.mem_filter.1 hid).2)
  | recoverStale staleAfterMs now =>
    cases heval
    obtain ⟨_, _, hrecover⟩ := List.mem_map.1 hw
    cases hrecover

theorem Indexes.drain_unmarked {ix : Indexes} {batchSize now : Int} {n : Nat}
    (hx : ∀ id, readId id ≠ x) (h : db.Unmarked x)
    (hd : ix.drain batchSize now db = (.ok n, db')) : db'.Unmarked x := by
  have hissues : ix.postgresRtpAlone.Issues
      (fun s _ => ∀ ids now, s = .markProcessed ids now → x ∉ ids) (fun _ => True)
      (drainReadIds batchSize now) db := by
    rw [drainReadIds_eq]
    refine ⟨fun _ _ hs => (by cases hs), fun claimed _ _ => ?_⟩
    dsimp only
    split
    · trivial
    split
    · trivial
    · refine ⟨fun _ _ hs => (by cases hs), fun _ _ _ => ⟨?_, fun _ _ _ => trivial⟩⟩
      intro ids _ hs
      cases hs
      intro hmem
      obtain ⟨id, _, hid⟩ := List.mem_map.1 hmem
      exact hx id hid
  have hexec : ix.postgresRtpAlone.exec (drainReadIds batchSize now) db = .ok (n, db') := by
    rw [drain, Engine.transact] at hd
    cases hexec : ix.postgresRtpAlone.exec (drainReadIds batchSize now) db with
    | error e =>
      rw [hexec] at hd
      cases hd
    | ok r =>
      rw [hexec] at hd
      cases hd
      rfl
  exact hissues.keeps h (fun hs hJ he => hJ.eval hs he) hexec

theorem drainRtpOutboxUntilEmpty_unmarked {ix : Indexes} {batchSize : Int} {clock : Nat → Int}
    {fuel total n : Nat} (hx : ∀ id, readId id ≠ x) (h : db.Unmarked x)
    (hloop : drainRtpOutboxUntilEmpty ix batchSize clock fuel total db = some (.ok n, db')) :
    db'.Unmarked x := by
  induction fuel generalizing db clock total with
  | zero => cases hloop
  | succ fuel ih =>
    rw [drainRtpOutboxUntilEmpty] at hloop
    cases hd : ix.drain batchSize (clock 0) db with
    | mk result next =>
      rw [hd] at hloop
      cases result with
      | error e => cases hloop
      | ok drained =>
        have hnext := Indexes.drain_unmarked hx h hd
        cases drained with
        | zero =>
          cases hloop
          exact hnext
        | succ drained => exact ih hnext hloop

end

theorem readId_readId (id : Nat) : readId (readId id) = readId id := by
  rw [readId, readId, roundNat_showNat (roundNat_roundNat id)]

/-- A row whose id is read as another one is never done. -/
theorem RtpDb.Drains.readId {ix : Indexes} {batchSize : Int} {clock : Nat → Int}
    {fuel total n : Nat} (h : db.Constraints) (hd : db.Drains db')
    (hloop : drainRtpOutboxUntilEmpty ix batchSize clock fuel total db = some (.ok n, db'))
    {row : RtpOutboxRow} (hrow : row ∈ db.pending) : readId row.id = row.id := by
  by_contra hread
  obtain ⟨hmem, hstatus⟩ := List.mem_filter.1 hrow
  have hpending : row.status = .pending := of_decide_eq_true hstatus
  have hx : ∀ id, BetProcessor.readId id ≠ row.id := by
    intro id hid
    rw [← hid, readId_readId] at hread
    exact hread rfl
  have hunmarked : db.Unmarked row.id := by
    intro row' hrow' hid
    rw [List.inj_on_of_nodup_map h.rtp_outbox_pkey hrow' hmem hid, hpending]
    simp
  obtain ⟨now, hrows⟩ := hd.outbox
  have hdone : row.drained (now row) ∈ db'.rtpOutbox := by
    rw [hrows]
    exact List.mem_map.2 ⟨row, hmem, if_pos hpending⟩
  exact drainRtpOutboxUntilEmpty_unmarked hx hunmarked hloop _ hdone rfl rfl

end

end BetProcessor
