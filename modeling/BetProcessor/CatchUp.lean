import BetProcessor.RollupRuns

namespace BetProcessor
set_option autoImplicit true
open Txn

section
variable {ι κ : Type} [Fintype ι] [DecidableEq ι] [Fintype κ] [DecidableEq κ]

/-- A call of `drainRtpOutboxUntilEmpty` from its start to its return, while all the others go
on: the sessions of its drains, what it returns, the state before and the state after. -/
inductive DrainsUntilEmpty (ok : System ι κ → Event ι κ → Prop) (batchSize : Int) :
    List κ → Nat → System ι κ → System ι κ → Prop where
  | last {k sys sys' es now} :
    sys.reports.sess k = .active .fresh none (drainRtpOutbox batchSize now) →
    System.Run ok sys es sys' → sys'.reports.sess k = .done (.ok 0) →
    DrainsUntilEmpty ok batchSize [k] 0 sys sys'
  | more {k ks sys sys₁ sys' es now drained total} :
    sys.reports.sess k = .active .fresh none (drainRtpOutbox batchSize now) →
    System.Run ok sys es sys₁ → sys₁.reports.sess k = .done (.ok drained) → drained ≠ 0 →
    DrainsUntilEmpty ok batchSize ks total sys₁ sys' →
    DrainsUntilEmpty ok batchSize (k :: ks) (drained + total) sys sys'

/-- A claim of the sessions `ks` comes out empty while another open transaction holds one of the
rows. -/
def System.PassesOver (rows : List RtpOutboxRow) (ks : List κ) (sys : System ι κ) :
    Event ι κ → Prop
  | .report (.finish k (.claimPending batchSize _)) => k ∈ ks ∧
    (∀ snap ∈ (sys.reports.sess k).snapshot?,
      snap.claimable (sys.reports.locked k) sys.reports.db batchSize = []) ∧
    ∃ row ∈ rows, sys.reports.locked k (.outbox row.id) = true
  | _ => False

instance (rows : List RtpOutboxRow) (ks : List κ) (sys : System ι κ) :
    (e : Event ι κ) → Decidable (sys.PassesOver rows ks e)
  | .report (.finish _ (.claimPending _ _)) => inferInstanceAs (Decidable (_ ∧ _ ∧ _))
  | .report (.finish _ (.upsertAggregated _)) | .report (.finish _ (.markProcessed _ _))
  | .report (.finish _ (.recoverStale _ _)) | .report (.start _) | .report (.commit _)
  | .report (.rollback _) | .report (.abort _ _) | .request _ => instDecidableFalse

/-- The rows have been added to the report. -/
def RtpDb.Covers (db : RtpDb) (rows : List RtpOutboxRow) : Prop :=
  ∀ row ∈ rows, ∃ row' ∈ db.rtpOutbox, row'.core = row.core ∧ row'.status = .processed

theorem RtpDb.Covers.later {db db' : RtpDb} {rows : List RtpOutboxRow} (h : db.Covers rows)
    (h' : db.Later db') : db'.Covers rows := by
  intro row hrow
  obtain ⟨row', hrow', hcore, hst⟩ := h row hrow
  obtain ⟨row'', hrow'', hcore', hst'⟩ := h' row' hrow'
  exact ⟨row'', hrow'', hcore'.trans hcore, hst' hst⟩

/-- An empty claim leaves only rows that others hold or have finished. -/
theorem claimable_eq_nil {locked : RtpLock → Bool} {snap cur : RtpDb} {batchSize : Int}
    (hb : 1 ≤ batchSize) (h : snap.claimable locked cur batchSize = []) {row : RtpOutboxRow}
    (hrow : row ∈ snap.rtpOutbox) (hst : row.status = .pending)
    (hlocked : locked (.outbox row.id) = false) {row' : RtpOutboxRow}
    (hrow' : row' ∈ cur.rtpOutbox) (he : row'.id = row.id) : row'.status ≠ .pending := by
  have hpos : batchSize.toNat ≠ 0 := by omega
  rw [RtpDb.claimable, List.take_eq_nil_iff] at h
  have hnone := List.filter_eq_nil_iff.1 (h.resolve_left hpos) row.id (by
    rw [List.mem_insertionSort]
    exact List.mem_map_of_mem (List.mem_filter.2 ⟨hrow, decide_eq_true hst⟩))
  intro hst'
  apply hnone
  rw [decide_eq_true_eq, RtpDb.rechecks, List.any_eq_true]
  exact ⟨hlocked, row', hrow', decide_eq_true ⟨he, decide_eq_true hst'⟩⟩

/-- An empty claim that passes over nothing finds everything processed. -/
theorem RtpDb.RolledUp.covers {locked : RtpLock → Bool} {before snap cur : RtpDb}
    {batchSize : Int} (hcur : cur.RolledUp) (hsnap : snap.RolledUp) (hbefore : before.Later snap)
    (hlater : snap.Later cur) (hb : 1 ≤ batchSize)
    (h : snap.claimable locked cur batchSize = [])
    (hfree : ∀ row ∈ before.rtpOutbox, locked (.outbox row.id) = false) :
    cur.Covers before.rtpOutbox := by
  intro row hrow
  obtain ⟨row₁, hrow₁, hcore₁, _⟩ := hbefore row hrow
  obtain ⟨row₂, hrow₂, hcore₂, hst₂⟩ := hlater row₁ hrow₁
  refine ⟨row₂, hrow₂, hcore₂.trans hcore₁, ?_⟩
  have hid : row₁.id = row.id := congrArg Prod.fst hcore₁
  cases hst : row₁.status with
  | processed => exact hst₂ hst
  | processing => exact absurd hst (hsnap.settled row₁ hrow₁)
  | pending =>
    have hnot := claimable_eq_nil hb h hrow₁ hst (hid ▸ hfree row hrow) hrow₂
      (congrArg Prod.fst hcore₂)
    cases hcur₂ : row₂.status with
    | processed => rfl
    | processing => exact absurd hcur₂ (hcur.settled row₂ hrow₂)
    | pending => exact absurd hcur₂ hnot

/-- The last drain of the loop has not claimed yet, or has found everything processed, or will
not end the loop. -/
inductive CatchesUp (before : RtpDb) (batchSize : Int) (db : RtpDb) :
    Session RtpStmt RtpStmt.Reply RtpErr RtpDb RtpWrite RtpLock Nat → Prop where
  | begun {st snap now} (hw : st.writes = [])
    (hs : ∀ s ∈ snap, s.RolledUp ∧ before.Later s ∧ s.Later db) :
    CatchesUp before batchSize db (.active st snap (drainRtpOutbox batchSize now))
  | covered {x} (h : db.Covers before.rtpOutbox) : CatchesUp before batchSize db x
  | goesOn {x} (h : x.EndsIn (· ≠ 0)) : CatchesUp before batchSize db x

theorem CatchesUp.later {before db db' : RtpDb} {batchSize : Int}
    {x : Session RtpStmt RtpStmt.Reply RtpErr RtpDb RtpWrite RtpLock Nat}
    (h : CatchesUp before batchSize db x) (h' : db.Later db') :
    CatchesUp before batchSize db' x := by
  cases h with
  | begun hw hs =>
    apply CatchesUp.begun hw
    intro s hmem
    obtain ⟨hsnap, hbefore, hlater⟩ := hs s hmem
    exact ⟨hsnap, hbefore, hlater.trans h'⟩
  | covered h => exact .covered (h.later h')
  | goesOn h => exact .goesOn h

variable {sys sys' : System ι κ} {before : RtpDb} {batchSize : Int} {k : κ}

/-- The claim of the last drain has found everything processed, or the drain goes on. -/
theorem CatchesUp.claim {locked : RtpLock → Bool} {st : Sess RtpStmt RtpWrite RtpLock}
    {snap cur : RtpDb} {ids : List Nat} {ws : List RtpWrite} {now : Int} (hcur : cur.RolledUp)
    (hb : 1 ≤ batchSize) (hw : st.writes = []) (hsnap : snap.RolledUp)
    (hbefore : before.Later snap) (hlater : snap.Later cur)
    (he : (RtpStmt.claimPending batchSize now).eval locked (postgresRtp.view snap st.writes)
      (postgresRtp.view cur st.writes) = .ok (ids, ws))
    (hfree : snap.claimable locked cur batchSize = [] →
      ∀ row ∈ before.rtpOutbox, locked (.outbox row.id) = false)
    (st' : Sess RtpStmt RtpWrite RtpLock) :
    CatchesUp before batchSize cur
      (.active st' none (if ids.length = 0 then .pure 0 else rollUp ids now)) := by
  rw [hw, RtpStmt.eval] at he
  split at he
  · cases he
  · cases he
    split
    · rename_i hlen
      have hnil := List.length_eq_zero_iff.1 hlen
      exact .covered (hcur.covers hsnap hbefore hlater hb hnil (hfree hnil))
    · rename_i hne
      exact .goesOn ⟨trivial, fun _ _ => ⟨trivial, fun _ _ => hne⟩⟩

theorem CatchesUp.step {e : Event ι κ} {ks : List κ} (hb : 1 ≤ batchSize) (hk : k ∈ ks)
    (hin : sys.InOrder) (hbefore : before.Later sys.reports.db)
    (h : CatchesUp before batchSize sys.reports.db (sys.reports.sess k))
    (hok : ¬ sys.PassesOver before.rtpOutbox ks e) (hs : sys.step e = some sys') :
    CatchesUp before batchSize sys'.reports.db (sys'.reports.sess k) := by
  apply CatchesUp.later ?_ (hin.later hs)
  obtain ⟨l, requests, rfl, _, rfl⟩ | ⟨l, reports, rfl, hm, rfl⟩ := System.step_cases hs
  · obtain ⟨i, delta, rfl⟩ | ⟨i, rfl⟩ | hrecord := sys.record_cases requests l
    · exact h
    · exact h
    · rw [hrecord]
      exact h
  · change CatchesUp before batchSize sys.reports.db (reports.sess k)
    generalize hx : sys.reports.sess k = x at h
    cases h with
    | covered h => exact .covered h
    | goesOn h =>
      subst hx
      exact .goesOn (hm.endsIn postgresRtp h)
    | @begun st snap now hw hlooked =>
      by_cases hkl : k = l.session
      · cases hm with
        | @start i st' s next hi =>
          obtain rfl : k = i := hkl
          cases hi.symm.trans hx
          rw [Config.set_self]
          apply CatchesUp.begun (show (Sess.start st _).writes = [] from hw)
          intro s hmem
          cases hmem
          exact ⟨hin.guarded.database, hbefore, .refl _⟩
        | @finish i st' snap' s next r ws hi hf he =>
          obtain rfl : k = i := hkl
          cases hi.symm.trans hx
          obtain ⟨hsnap, hearlier, hlater⟩ := hlooked snap' (Option.mem_def.2 rfl)
          rw [Config.set_self]
          simp only [SkipEngine.engine_view] at he
          apply CatchesUp.claim hin.guarded.database hb hw hsnap hearlier hlater he
          intro hnil row hrow
          rw [← Bool.not_eq_true]
          intro hlocked
          apply hok
          refine ⟨hk, ?_, row, hrow, hlocked⟩
          intro snap hsnap'
          rw [hi] at hsnap'
          cases hsnap'
          exact hnil
        | @fail i st' snap' s next e hi hf he =>
          obtain rfl : k = i := hkl
          rw [Config.set_self]
          exact .goesOn trivial
        | @commit i st' a hi =>
          obtain rfl : k = i := hkl
          cases hi.symm.trans hx
        | @rollback i st' e hi =>
          obtain rfl : k = i := hkl
          cases hi.symm.trans hx
        | @abort i st' snap' p e hi =>
          obtain rfl : k = i := hkl
          rw [Config.set_self]
          exact .goesOn trivial
      · rw [hm.other postgresRtp hkl, hx]
        exact .begun hw hlooked

theorem System.Run.covers {es : List (Event ι κ)} {ks : List κ} {now : Int}
    (hb : 1 ≤ batchSize) (hk : k ∈ ks) (hin : sys.InOrder) (hbefore : before.Later sys.reports.db)
    (hfresh : sys.reports.sess k = .active .fresh none (drainRtpOutbox batchSize now))
    (hr : System.Run (fun sys e => ¬ sys.PassesOver before.rtpOutbox ks e) sys es sys')
    (hdone : sys'.reports.sess k = .done (.ok 0)) : sys'.reports.db.Covers before.rtpOutbox := by
  have hinv : sys'.InOrder ∧ before.Later sys'.reports.db ∧
      CatchesUp before batchSize sys'.reports.db (sys'.reports.sess k) := by
    apply hr.invariant (P := fun sys => sys.InOrder ∧ before.Later sys.reports.db ∧
      CatchesUp before batchSize sys.reports.db (sys.reports.sess k))
    · refine ⟨hin, hbefore, ?_⟩
      rw [hfresh]
      exact .begun rfl fun s hs => by cases hs
    · rintro sys₁ e sys₂ ⟨hin, hbefore, h⟩ hok hs
      exact ⟨hin.step hs, hbefore.trans (hin.later hs), h.step hb hk hin hbefore hok hs⟩
  have hcatch := hinv.2.2
  rw [hdone] at hcatch
  cases hcatch with
  | covered h => exact h
  | goesOn h => exact absurd rfl h

theorem DrainsUntilEmpty.covers {ks ks' : List κ} {total : Nat} (hb : 1 ≤ batchSize)
    (hks : ks ⊆ ks') (hin : sys.InOrder) (hbefore : before.Later sys.reports.db)
    (h : DrainsUntilEmpty (fun sys e => ¬ sys.PassesOver before.rtpOutbox ks' e) batchSize ks total
      sys sys') : sys'.InOrder ∧ sys'.reports.db.Covers before.rtpOutbox := by
  induction h with
  | last hfresh hr hdone =>
    exact ⟨(hr.inOrder hin).1, hr.covers hb (hks (List.mem_singleton.2 rfl)) hin hbefore hfresh
      hdone⟩
  | more hfresh hr hdone hne _ ih =>
    obtain ⟨hin', hlater⟩ := hr.inOrder hin
    exact ih (fun k hk => hks (List.mem_cons_of_mem _ hk)) hin' (hbefore.trans hlater)

/-- When a call of `drainRtpOutboxUntilEmpty` returns, the report has every row that was
committed before the call, as long as no claim of its own comes out empty while another drain
holds such a row. -/
theorem drained_until_empty (calls : ι → Call) (jobs : κ → RtpJob) (db₀ : Db) {rtp₀ : RtpDb}
    (h₀ : rtp₀.RolledUp) {nextId : Nat} (hid : ∀ row ∈ rtp₀.rtpOutbox, row.id < nextId)
    {es : List (Event ι κ)} (hr : System.Run (fun _ _ => True)
      (.start calls jobs db₀ rtp₀ nextId) es sys) (hb : 1 ≤ batchSize) {ks : List κ} {total : Nat}
    (h : DrainsUntilEmpty (fun sys' e => ¬ sys'.PassesOver sys.reports.db.rtpOutbox ks e)
      batchSize ks total sys sys') :
    (∀ row ∈ sys.reports.db.rtpOutbox, ∃ row' ∈ sys'.reports.db.rtpOutbox,
      row'.core = row.core ∧ row'.status = .processed) ∧
      ∀ key col, sys'.reports.db.rolledUp key col = sys'.reports.db.processed key col := by
  have hin := (hr.inOrder (.start h₀ hid)).1
  obtain ⟨hin', hcovers⟩ := h.covers hb (List.Subset.refl _) hin (.refl _)
  exact ⟨hcovers, hin'.guarded.database.exact⟩

end

/-- The loop returns while another drain still holds the row of the bet, and the report lacks
it. -/
theorem empty_claim_returns : ∃ es sys sys',
    System.Run (fun _ _ => True) (.start betTakenBack twoDrains twoUsers ⟨[], []⟩ 1) es sys ∧
    DrainsUntilEmpty (fun _ _ => True) 5000 [1] 0 sys sys' ∧
    sys.reports.db.rtpOutbox.length = 1 ∧ sys'.reports.db.rtpUserMinute = [] ∧
    ∀ row ∈ sys'.reports.db.rtpOutbox, row.status = .pending := by
  obtain ⟨es, sys, hr, hsame, hsys⟩ := System.Run.exists_of_drive (fun _ _ => True)
    (.start betTakenBack twoDrains twoUsers ⟨[], []⟩ 1)
    (List.replicate 17 (.inl 0) ++ List.replicate 2 (.inr 0))
    (p := fun sys => sys.reports.db.rtpOutbox.length = 1 ∧
      (sys.driveIf (fun _ _ => True) (List.replicate 3 (.inr 1))).any fun sys' =>
        decide ((sys'.reports.sess 1).result? = some (.ok 0) ∧ sys'.reports.db.rtpUserMinute = [] ∧
          ∀ row ∈ sys'.reports.db.rtpOutbox, row.status = .pending)) (by decide +kernel)
  obtain ⟨hone, hdrain⟩ := of_decide_eq_true hsys
  obtain ⟨es', sys', hr', _, hsys'⟩ := System.Run.exists_of_drive _ _ _ hdrain
  obtain ⟨hdone, hempty, hpending⟩ := of_decide_eq_true hsys'
  have hfresh := hsame 1 (by simp)
  exact ⟨es, sys, sys', hr, .last hfresh hr' (Session.eq_done hdone), hone, hempty, hpending⟩

/-- A loop that nobody disturbs drains the bet and returns. -/
theorem undisturbed_until_empty : ∃ es sys sys',
    System.Run (fun _ _ => True) (.start betTakenBack twoDrains twoUsers ⟨[], []⟩ 1) es sys ∧
    DrainsUntilEmpty (fun sys' e => ¬ sys'.PassesOver sys.reports.db.rtpOutbox [0, 1] e) 5000
      [0, 1] 1 sys sys' ∧ sys.reports.db.rtpOutbox.length = 1 ∧
    ∀ row ∈ sys.reports.db.rtpOutbox, ∃ row' ∈ sys'.reports.db.rtpOutbox,
      row'.core = row.core ∧ row'.status = .processed := by
  obtain ⟨es, sys, hr, hsame, hsys⟩ := System.Run.exists_of_drive (fun _ _ => True)
    (.start betTakenBack twoDrains twoUsers ⟨[], []⟩ 1)
    (List.replicate 17 (.inl 0))
    (p := fun sys => sys.reports.db.rtpOutbox.length = 1 ∧
      (sys.driveIf (fun sys' e => ¬ sys'.PassesOver sys.reports.db.rtpOutbox [0, 1] e)
        (List.replicate 7 (.inr 0))).any fun sys₁ =>
          decide ((sys₁.reports.sess 0).result? = some (.ok 1) ∧
            (sys₁.driveIf (fun sys' e => ¬ sys'.PassesOver sys.reports.db.rtpOutbox [0, 1] e)
              (List.replicate 3 (.inr 1))).any fun sys' =>
                decide ((sys'.reports.sess 1).result? = some (.ok 0)))) (by decide +kernel)
  obtain ⟨hone, hdrain⟩ := of_decide_eq_true hsys
  obtain ⟨es₁, sys₁, hr₁, hsame₁, hsys₁⟩ := System.Run.exists_of_drive _ _ _ hdrain
  obtain ⟨hdone₁, hdrain₁⟩ := of_decide_eq_true hsys₁
  obtain ⟨es', sys', hr', _, hsys'⟩ := System.Run.exists_of_drive _ _ _ hdrain₁
  have hdone := of_decide_eq_true hsys'
  have hfresh := hsame 0 (by simp)
  have hfresh₁ := (hsame₁ 1 (by simp)).trans (hsame 1 (by simp))
  have hloop : DrainsUntilEmpty
      (fun sys' e => ¬ sys'.PassesOver sys.reports.db.rtpOutbox [0, 1] e) 5000 [0, 1] 1 sys sys' :=
    .more hfresh hr₁ (Session.eq_done hdone₁) (by decide)
      (.last hfresh₁ hr' (Session.eq_done hdone))
  exact ⟨es, sys, sys', hr, hloop, hone, (drained_until_empty betTakenBack twoDrains twoUsers .empty
    (fun row hrow => by cases hrow) hr (by decide) hloop).1⟩

end BetProcessor
