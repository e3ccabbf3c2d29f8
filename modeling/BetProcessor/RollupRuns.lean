import BetProcessor.Rollup

namespace BetProcessor
set_option autoImplicit true
open Txn

/-- Every row of `rtp_outbox` has its own id from the sequence. -/
structure System.Numbered (sys : System ι κ) : Prop where
  below : ∀ row ∈ sys.reports.db.rtpOutbox, row.id < sys.nextId
  inserted : ∀ i, ∀ row ∈ sys.inserted i, row.id < sys.nextId ∧ row.status = .pending ∧
    ∀ row' ∈ sys.reports.db.rtpOutbox, row'.id ≠ row.id
  nodup : ∀ i, ((sys.inserted i).map (·.id)).Nodup
  distinct : ∀ i j, i ≠ j → ∀ row ∈ sys.inserted i, ∀ row' ∈ sys.inserted j, row.id ≠ row'.id

namespace System
variable {ι κ : Type} [DecidableEq ι]
variable {sys sys' : System ι κ}

theorem Numbered.insert (h : sys.Numbered) (requests : Requests ι) (i : ι) (delta : OutboxRow) :
    (sys.record requests (.finish i (.insertOutbox delta))).Numbered where
  below row hrow := Nat.lt_succ_of_lt (h.below row hrow)
  inserted j row hrow := by
    change row ∈ Function.update sys.inserted i _ j at hrow
    by_cases hij : j = i
    · subst hij
      rw [Function.update_self] at hrow
      rcases List.mem_append.1 hrow with hrow | hrow
      · obtain ⟨hlt, hrest⟩ := h.inserted j row hrow
        exact ⟨Nat.lt_succ_of_lt hlt, hrest⟩
      · obtain rfl := List.mem_singleton.1 hrow
        exact ⟨Nat.lt_succ_self _, rfl, fun row' hrow' => (h.below row' hrow').ne⟩
    · rw [Function.update_of_ne hij] at hrow
      obtain ⟨hlt, hrest⟩ := h.inserted j row hrow
      exact ⟨Nat.lt_succ_of_lt hlt, hrest⟩
  nodup j := by
    change ((Function.update sys.inserted i _ j).map _).Nodup
    by_cases hij : j = i
    · subst hij
      rw [Function.update_self]
      exact nodup_map_snoc (h.nodup j) fun row hrow => (h.inserted j row hrow).1.ne
    · rw [Function.update_of_ne hij]
      exact h.nodup j
  distinct j k hjk row hrow row' hrow' := by
    change row ∈ Function.update sys.inserted i _ j at hrow
    change row' ∈ Function.update sys.inserted i _ k at hrow'
    by_cases hij : j = i
    · subst hij
      rw [Function.update_self] at hrow
      rw [Function.update_of_ne hjk.symm] at hrow'
      rcases List.mem_append.1 hrow with hrow | hrow
      · exact h.distinct j k hjk row hrow row' hrow'
      · obtain rfl := List.mem_singleton.1 hrow
        exact (h.inserted k row' hrow').1.ne'
    · rw [Function.update_of_ne hij] at hrow
      by_cases hik : k = i
      · subst hik
        rw [Function.update_self] at hrow'
        rcases List.mem_append.1 hrow' with hrow' | hrow'
        · exact h.distinct j k hjk row hrow row' hrow'
        · obtain rfl := List.mem_singleton.1 hrow'
          exact (h.inserted j row hrow).1.ne
      · rw [Function.update_of_ne hik] at hrow'
        exact h.distinct j k hjk row hrow row' hrow'

theorem Numbered.enqueue (h : sys.Numbered) (requests : Requests ι) (i : ι) :
    (sys.record requests (.commit i)).Numbered := by
  have hdb : (sys.record requests (.commit i)).reports.db.rtpOutbox =
      sys.reports.db.rtpOutbox ++ sys.inserted i := rfl
  have hmem : ∀ {j row}, row ∈ (sys.record requests (.commit i)).inserted j →
      j ≠ i ∧ row ∈ sys.inserted j := by
    intro j row hrow
    change row ∈ Function.update sys.inserted i [] j at hrow
    by_cases hij : j = i
    · subst hij
      rw [Function.update_self] at hrow
      cases hrow
    · rw [Function.update_of_ne hij] at hrow
      exact ⟨hij, hrow⟩
  constructor
  · intro row hrow
    rw [hdb] at hrow
    rcases List.mem_append.1 hrow with hrow | hrow
    · exact h.below row hrow
    · exact (h.inserted i row hrow).1
  · intro j row hrow
    obtain ⟨hij, hrow⟩ := hmem hrow
    obtain ⟨hlt, hst, hne⟩ := h.inserted j row hrow
    refine ⟨hlt, hst, ?_⟩
    intro row' hrow'
    rw [hdb] at hrow'
    rcases List.mem_append.1 hrow' with hrow' | hrow'
    · exact hne row' hrow'
    · exact h.distinct i j hij.symm row' hrow' row hrow
  · intro j
    change ((Function.update sys.inserted i [] j).map _).Nodup
    by_cases hij : j = i
    · subst hij
      rw [Function.update_self]
      exact List.nodup_nil
    · rw [Function.update_of_ne hij]
      exact h.nodup j
  · intro j k hjk row hrow row' hrow'
    exact h.distinct j k hjk row (hmem hrow).2 row' (hmem hrow').2

omit [DecidableEq ι] in
theorem Numbered.report (h : sys.Numbered) {reports : Reports κ}
    (hids : reports.db.rtpOutbox.map (·.id) = sys.reports.db.rtpOutbox.map (·.id)) :
    ({ sys with reports } : System ι κ).Numbered := by
  have hback : ∀ row ∈ reports.db.rtpOutbox, ∃ row' ∈ sys.reports.db.rtpOutbox,
      row'.id = row.id := by
    intro row hrow
    have hmem : row.id ∈ sys.reports.db.rtpOutbox.map (·.id) := by
      rw [← hids]
      exact List.mem_map_of_mem hrow
    exact List.mem_map.1 hmem
  constructor
  · intro row hrow
    obtain ⟨row', hrow', he⟩ := hback row hrow
    exact he ▸ h.below row' hrow'
  · intro i row hrow
    obtain ⟨hlt, hst, hne⟩ := h.inserted i row hrow
    refine ⟨hlt, hst, ?_⟩
    intro row' hrow'
    obtain ⟨row'', hrow'', he⟩ := hback row' hrow'
    exact he ▸ hne row'' hrow''
  · exact h.nodup
  · exact h.distinct

end System

section
variable {db : RtpDb} {rows : List RtpOutboxRow}

theorem batch_enqueue {ids : List Nat} {held : List RtpLock} (hc : Claimed held ids db)
    (hne : ∀ row ∈ rows, ∀ row' ∈ db.rtpOutbox, row'.id ≠ row.id) :
    (db.enqueue rows).batch ids = db.batch ids := by
  rw [RtpDb.batch, RtpDb.enqueue, List.filter_append]
  change db.batch ids ++ rows.filter _ = db.batch ids
  rw [List.append_right_eq_self, List.filter_eq_nil_iff]
  intro row hrow hid
  obtain ⟨row', hrow', he⟩ := hc.present row.id (by simpa using hid)
  exact hne row hrow row' hrow' he

theorem RtpDb.RolledUp.enqueue (h : db.RolledUp) (hnodup : (rows.map (·.id)).Nodup)
    (hpending : ∀ row ∈ rows, row.status = .pending)
    (hne : ∀ row ∈ rows, ∀ row' ∈ db.rtpOutbox, row'.id ≠ row.id) : (db.enqueue rows).RolledUp where
  ids := by
    rw [RtpDb.enqueue, List.map_append, List.nodup_append]
    refine ⟨h.ids, hnodup, ?_⟩
    intro a ha b hb
    obtain ⟨row', hrow', rfl⟩ := List.mem_map.1 ha
    obtain ⟨row, hrow, rfl⟩ := List.mem_map.1 hb
    exact hne row hrow row' hrow'
  keys := h.keys
  settled row hrow := by
    rcases List.mem_append.1 hrow with hrow | hrow
    · exact h.settled row hrow
    · rw [hpending row hrow]
      intro he
      cases he
  exact key col := by
    have hzero : sumOf rows (fun row => row.status = .processed ∧ row.delta.key = key)
        (·.delta.column col) = 0 := by
      apply sumOf_eq_zero
      intro row hrow
      simp [hpending row hrow]
    rw [RtpDb.processed, RtpDb.enqueue, sumOf_append, hzero, add_zero]
    exact h.exact key col

end

/-- The batches of all open calls of the worker and the report are in order. -/
structure System.InOrder (sys : System ι κ) : Prop where
  numbered : sys.Numbered
  guarded : postgresRtp.Guarded (fun _ st snap p db => Stands db st snap p) RtpDb.RolledUp
    sys.reports

section
variable {ι κ : Type} [Fintype ι] [DecidableEq ι] [Fintype κ] [DecidableEq κ]
variable {sys sys' : System ι κ}

omit [Fintype ι] in
theorem Stands.moves {c c' : Reports κ} {l : Label κ RtpStmt RtpErr}
    (h : postgresRtp.Guarded (fun _ st snap p db => Stands db st snap p) RtpDb.RolledUp c)
    (hm : postgresRtp.Moves c l c') :
    postgresRtp.Guarded (fun _ st snap p db => Stands db st snap p) RtpDb.RolledUp c' := by
  apply h.moves hm
  · intro i st s k hp
    exact hp.start
  · intro i st snap s k r ws _ hdb hp he
    exact hp.finish hdb he
  · intro i st snap s k e hp
    exact .failed hp.not_recover
  · intro i st a _ hdb hp
    obtain hw | ⟨ids, now, hc, hw⟩ := hp.committing
    · rw [hw]
      exact hdb
    · rw [hw]
      exact hdb.drained hc now
  · intro i j st snap p st' a _ hp _ hcov hlock
    have hother : ∀ {lock}, lock ∈ st.held → ∀ w ∈ st'.writes, lock ∉ w.keys :=
      fun hheld w hw hk => hlock _ hheld (hcov w hw _ hk)
    apply hp.later
    · intro ids hc
      rw [RtpDb.batch_view]
      conv_rhs => rw [← List.map_id (RtpDb.batch _ _)]
      apply List.map_congr_left
      intro row hrow
      have hid : row.id ∈ ids := by simpa using (List.mem_filter.1 hrow).2
      exact onRow_other (hother (hc.held _ hid))
    · intro key hkey
      exact minute?_other (hother hkey)

theorem System.InOrder.step {e : Event ι κ} (h : sys.InOrder) (hs : sys.step e = some sys') :
    sys'.InOrder := by
  obtain ⟨l, requests, rfl, _, rfl⟩ | ⟨l, reports, rfl, hm, rfl⟩ := System.step_cases hs
  · obtain ⟨i, delta, rfl⟩ | ⟨i, rfl⟩ | hrecord := sys.record_cases requests l
    · exact ⟨h.numbered.insert requests i delta, h.guarded⟩
    · have hrows := h.numbered.inserted i
      have hne : ∀ row ∈ sys.inserted i, ∀ row' ∈ sys.reports.db.rtpOutbox, row'.id ≠ row.id :=
        fun row hrow => (hrows row hrow).2.2
      refine ⟨h.numbered.enqueue requests i, h.guarded.install ?_ ?_⟩
      · intro k st snap p hp
        exact hp.later (fun ids hc => batch_enqueue hc hne) fun _ _ => rfl
      · exact h.guarded.database.enqueue (h.numbered.nodup i) (fun row hrow => (hrows row hrow).2.1)
          hne
    · rw [hrecord]
      exact ⟨⟨h.numbered.below, h.numbered.inserted, h.numbered.nodup, h.numbered.distinct⟩,
        h.guarded⟩
  · refine ⟨h.numbered.report ?_, Stands.moves h.guarded hm⟩
    obtain hdb | ⟨i, st, a, _, _, hdb⟩ := hm.db_cases
    · rw [hdb]
    · rw [hdb, rtpOutbox_view, List.map_map]
      simp only [Function.comp_def, onRow_id]

omit [Fintype ι] [DecidableEq ι] [Fintype κ] [DecidableEq κ] in
theorem System.InOrder.start {calls : ι → Call} {jobs : κ → RtpJob} {db : Db} {rtp : RtpDb}
    {nextId : Nat} (h : rtp.RolledUp) (hid : ∀ row ∈ rtp.rtpOutbox, row.id < nextId) :
    (System.start calls jobs db rtp nextId).InOrder where
  numbered := {
    below := hid
    inserted := by
      intro i row hrow
      cases hrow
    nodup := by
      intro i
      exact List.nodup_nil
    distinct := by
      intro i j _ row hrow
      cases hrow }
  guarded := .init (fun k => .begun (jobs k) rfl) h

/-- Every row is still there, and a processed one is still processed. -/
def RtpDb.Later (db db' : RtpDb) : Prop :=
  ∀ row ∈ db.rtpOutbox, ∃ row' ∈ db'.rtpOutbox, row'.core = row.core ∧
    (row.status = .processed → row'.status = .processed)

theorem RtpDb.Later.refl (db : RtpDb) : db.Later db := fun row hrow => ⟨row, hrow, rfl, id⟩

theorem RtpDb.Later.trans {db db' db'' : RtpDb} (h : db.Later db') (h' : db'.Later db'') :
    db.Later db'' := by
  intro row hrow
  obtain ⟨row', hrow', hcore, hst⟩ := h row hrow
  obtain ⟨row'', hrow'', hcore', hst'⟩ := h' row' hrow'
  exact ⟨row'', hrow'', hcore'.trans hcore, fun hp => hst' (hst hp)⟩

theorem RtpDb.Later.enqueue (db : RtpDb) (rows : List RtpOutboxRow) :
    db.Later (db.enqueue rows) :=
  fun row hrow => ⟨row, List.mem_append_left _ hrow, rfl, id⟩

theorem RtpDb.Later.status {db db' : RtpDb} (h : db.Later db')
    (hids : (db'.rtpOutbox.map (·.id)).Nodup) {row row' : RtpOutboxRow} (hrow : row ∈ db.rtpOutbox)
    (hrow' : row' ∈ db'.rtpOutbox) (he : row'.id = row.id) (hst : row.status = .processed) :
    row'.status = .processed := by
  obtain ⟨row'', hrow'', hcore, hst'⟩ := h row hrow
  rw [List.inj_on_of_nodup_map hids hrow' hrow'' (he.trans (congrArg Prod.fst hcore).symm)]
  exact hst' hst

theorem System.InOrder.later {e : Event ι κ} (h : sys.InOrder) (hs : sys.step e = some sys') :
    sys.reports.db.Later sys'.reports.db := by
  obtain ⟨l, requests, rfl, _, rfl⟩ | ⟨l, reports, rfl, hm, rfl⟩ := System.step_cases hs
  · obtain ⟨i, delta, rfl⟩ | ⟨i, rfl⟩ | hrecord := sys.record_cases requests l
    · exact .refl _
    · exact .enqueue _ _
    · rw [hrecord]
      exact .refl _
  · obtain hdb | ⟨i, st, a, _, hi, hdb⟩ := hm.db_cases
    · rw [hdb]
      exact .refl _
    · have hp := h.guarded.sessions i st none _ hi
      rw [hdb]
      intro row hrow
      refine ⟨onRow st.writes row, ?_, onRow_core _ _, ?_⟩
      · rw [rtpOutbox_view]
        exact List.mem_map_of_mem hrow
      · intro hst
        obtain hw | ⟨ids, now, _, hw⟩ := hp.committing
        · rw [hw]
          exact hst
        · rw [hw, onRow_drained_status hrow, hst, ite_self]

theorem System.Run.inOrder {ok : System ι κ → Event ι κ → Prop} {es : List (Event ι κ)}
    (hr : System.Run ok sys es sys') (h : sys.InOrder) :
    sys'.InOrder ∧ sys.reports.db.Later sys'.reports.db := by
  apply hr.invariant (P := fun sys' => sys'.InOrder ∧ sys.reports.db.Later sys'.reports.db)
  · exact ⟨h, .refl _⟩
  · intro sys₁ e sys₂ h₁ _ hs
    exact ⟨h₁.1.step hs, h₁.2.trans (h₁.1.later hs)⟩

/-- The report counts every row of the outbox exactly once: in every state of every run it is
the sum of the processed rows, no row is left in between, no recovery resets a row, and what
has been processed stays so. -/
theorem rollup_exactly_once (calls : ι → Call) (jobs : κ → RtpJob) (db₀ : Db) {rtp₀ : RtpDb}
    (h₀ : rtp₀.RolledUp) {nextId : Nat} (hid : ∀ row ∈ rtp₀.rtpOutbox, row.id < nextId)
    {es : List (Event ι κ)} {sys : System ι κ}
    (hr : System.Run (fun _ _ => True) (.start calls jobs db₀ rtp₀ nextId) es sys) :
    (∀ key col, sys.reports.db.rolledUp key col = sys.reports.db.processed key col) ∧
      (∀ row ∈ sys.reports.db.rtpOutbox, row.status ≠ .processing) ∧
      (∀ k id, .recover id ∉ (sys.reports.sess k).writes) ∧
      ∀ es' sys', System.Run (fun _ _ => True) sys es' sys' →
        ∀ row ∈ sys.reports.db.rtpOutbox, row.status = .processed →
          ∀ row' ∈ sys'.reports.db.rtpOutbox, row'.id = row.id → row'.status = .processed := by
  have hin := (hr.inOrder (.start h₀ hid)).1
  refine ⟨hin.guarded.database.exact, hin.guarded.database.settled, ?_, ?_⟩
  · intro k id hw
    cases hk : sys.reports.sess k with
    | active st snap p =>
      rw [hk] at hw
      exact (hin.guarded.sessions k st snap p hk).not_recover id hw
    | done r =>
      rw [hk] at hw
      cases hw
  · intro es' sys' hr' row hrow hst row' hrow' he
    obtain ⟨hin', hlater⟩ := hr'.inOrder hin
    exact hlater.status hin'.guarded.database.ids hrow hrow' he hst

end

theorem RtpDb.RolledUp.empty : RtpDb.RolledUp ⟨[], []⟩ where
  ids := List.nodup_nil
  keys := List.nodup_nil
  settled := by
    intro row hrow
    cases hrow
  exact _ _ := rfl

/-- A bet, its rollback and two drains. -/
def betTakenBack (i : Fin 2) : Call :=
  if i.val = 0 then dollars typescript "a" [.bet 1 60] else dollars typescript "a" [.rollback 2 1]

def twoDrains (k : Fin 2) : RtpJob := .drain 5000 k.val

/-- The second drain overtakes the first one, which holds the row of the bet. -/
theorem overtaken_exactly_once : ∃ es sys,
    System.Run (fun _ _ => True) (.start betTakenBack twoDrains twoUsers ⟨[], []⟩ 1) es sys ∧
    sys.reports.db.rtpUserMinute.length = 1 ∧
    (∀ key col, sys.reports.db.rolledUp key col = sys.reports.db.processed key col) ∧
    ∀ row ∈ sys.reports.db.rtpOutbox, row.status ≠ .processing := by
  obtain ⟨es, sys, hr, _, hsys⟩ := System.Run.exists_of_drive (fun _ _ => True)
    (.start betTakenBack twoDrains twoUsers ⟨[], []⟩ 1)
    (List.replicate 17 (.inl 0) ++ List.replicate 2 (.inr 0) ++ List.replicate 25 (.inl 1) ++
      List.replicate 7 (.inr 1))
    (p := fun sys => sys.reports.db.rtpUserMinute.length = 1) (by decide +kernel)
  have h := rollup_exactly_once betTakenBack twoDrains twoUsers .empty
    (fun row hrow => by cases hrow) hr
  exact ⟨es, sys, hr, of_decide_eq_true hsys, h.1, h.2.1⟩

end BetProcessor
