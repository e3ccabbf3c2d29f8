import BetProcessor.CompleteReports
import BetProcessor.PlayTotals

namespace BetProcessor
set_option autoImplicit true
open Txn

/-- The minutes and accounts that a report is about. -/
def inWindow (a c : Int) (currency userId : Option String) (m : Int) (x : Account) : Bool :=
  a ≤ m ∧ m < c ∧ (∀ cur ∈ currency, x.currency = cur) ∧ ∀ u ∈ userId, x.userId = u

namespace RtpTable
variable (t : RtpTable) (a c : Int) (currency : Option String) (col : Column)

theorem window_eq (userId : Option String) : t.window a c currency userId =
    t.rows.filter fun row => inWindow a c currency userId row.key.bucketMinute row.key.account :=
  rfl

theorem allSums_window : allSums (t.window a c currency none) col = sumOf t.rows
    (fun row => inWindow a c currency none row.key.bucketMinute row.key.account)
    (·.column col) := rfl

theorem sums_window (x : Account) : sums (t.window a c currency none) x col = sumOf t.rows
    (fun row => inWindow a c currency none row.key.bucketMinute row.key.account &&
      row.key.account = x) (·.column col) := by
  rw [sums, window_eq, Sql.sumAt, List.filter_filter]
  apply sumOf_sel_congr
  intro row _
  exact Bool.and_comm _ _

end RtpTable

section
variable {db : RtpDb} {sel : Int → Account → Bool} {col : Column}

/-- What is committed and still to be added to the report. -/
def RtpDb.unprocessed (db : RtpDb) (sel : Int → Account → Bool) (col : Column) : Int :=
  sumOf db.rtpOutbox (fun row =>
    row.status ≠ .processed ∧ sel row.delta.bucketMinute row.delta.account) (·.delta.column col)

theorem RtpDb.unprocessed_eq_zero (h : ∀ row ∈ db.rtpOutbox, row.status = .processed) :
    db.unprocessed sel col = 0 := by
  apply sumOf_eq_zero
  intro row hrow
  simp [h row hrow]

/-- A sum over the elements with a selected key, key by key. -/
theorem sumOf_keys {α κ : Type} [DecidableEq κ] {l : List α} {f : α → Int} {ks : List κ}
    (hks : ks.Nodup) (p : α → Bool) (sel : κ → Bool) {g : α → κ} (h : ∀ x ∈ l, g x ∈ ks) :
    sumOf l (fun x => p x && sel (g x)) f =
      ((ks.filter sel).map fun k => sumOf l (fun x => p x && g x = k) f).sum := by
  have hmem : ∀ x ∈ l.filter (fun x => p x && sel (g x)), g x ∈ ks.filter sel := by
    intro x hx
    obtain ⟨hx, hsel⟩ := List.mem_filter.1 hx
    exact List.mem_filter.2 ⟨h x hx, (Bool.and_eq_true_iff.1 hsel).2⟩
  rw [sumOf, ← Sql.sum_sumAt (hks.filter sel) hmem]
  apply congrArg List.sum
  apply List.map_congr_left
  intro k hk
  have hsel : sel k = true := (List.mem_filter.1 hk).2
  rw [Sql.sumAt, List.filter_filter]
  apply sumOf_sel_congr
  intro x _
  by_cases hx : g x = k
  · simp [hx, hsel]
  · simp [hx]

theorem rolledUp_eq_sumAt (h : (db.rtpUserMinute.map (·.key)).Nodup) (key : RtpKey) :
    Sql.sumAt (·.key) db.rtpUserMinute (·.column col) key = db.rolledUp key col := by
  rw [RtpDb.rolledUp, RtpDb.minute?]
  generalize db.rtpUserMinute = rows at h
  induction rows with
  | nil => rfl
  | cons row rows ih =>
    obtain ⟨hrow, hrows⟩ := List.nodup_cons.1 h
    rw [Sql.sumAt_cons, List.find?_cons]
    by_cases hkey : row.key = key
    · have hzero : Sql.sumAt (·.key) rows (·.column col) key = 0 := by
        apply Sql.sumAt_eq_zero
        intro row' hrow' hkey'
        exact hrow (List.mem_map.2 ⟨row', hrow', hkey'.trans hkey.symm⟩)
      rw [hzero, decide_eq_true hkey, if_pos hkey, add_zero]
      rfl
    · rw [decide_eq_false hkey, if_neg hkey, zero_add]
      exact ih hrows

theorem RtpDb.RolledUp.sum (h : db.RolledUp) (sel : Int → Account → Bool) (col : Column) :
    sumOf db.rtpUserMinute (fun row => sel row.key.bucketMinute row.key.account) (·.column col) =
      sumOf db.rtpOutbox (fun row =>
        row.status = .processed ∧ sel row.delta.bucketMinute row.delta.account)
        (·.delta.column col) := by
  have hks := List.nodup_dedup (db.rtpUserMinute.map (·.key) ++ db.rtpOutbox.map (·.delta.key))
  have hminute := sumOf_keys hks (l := db.rtpUserMinute) (f := (·.column col)) (fun _ => true)
    (fun key => sel key.bucketMinute key.account) (g := (·.key)) fun row hrow =>
      List.mem_dedup.2 (List.mem_append_left _ (List.mem_map_of_mem hrow))
  have houtbox := sumOf_keys hks (l := db.rtpOutbox) (f := (·.delta.column col))
    (fun row => row.status = .processed) (fun key => sel key.bucketMinute key.account)
    (g := (·.delta.key)) fun row hrow =>
      List.mem_dedup.2 (List.mem_append_right _ (List.mem_map_of_mem hrow))
  calc sumOf db.rtpUserMinute (fun row => sel row.key.bucketMinute row.key.account) (·.column col)
    _ = _ := hminute
    _ = _ := by
      apply congrArg List.sum
      apply List.map_congr_left
      intro key _
      have hgroup : Sql.sumAt (·.key) db.rtpUserMinute (·.column col) key = db.rolledUp key col :=
        rolledUp_eq_sumAt h.keys key
      rw [h.exact, RtpDb.processed] at hgroup
      simpa [sumOf, Sql.sumAt] using hgroup
    _ = _ := houtbox.symm
    _ = _ := sumOf_sel_congr fun row _ => by simp [OutboxRow.key]

end

section
variable {ι κ : Type} [Fintype ι] [DecidableEq ι] [Fintype κ] [DecidableEq κ]
variable {db₀ : Db} {sel : Int → Account → Bool}

theorem reported_run (calls : ι → Call) (h₀ : db₀.Initial) {ls : List (Label ι Stmt Err)}
    {c : Requests ι}
    (hr : postgres.Run (fun _ _ => True) (.init (fun i => (calls i).body) db₀) ls c)
    (hround : ∀ i, ∀ r ∈ c.db.ledger, sel (minute r.createdAt) r.account = true →
      ∀ v ∈ r.amount, (calls i).svc.RoundTrips v) (col : Column) :
    c.db.reported sel col = c.db.recomputed sel col := by
  have hall := Agreement.keeping_inv (J := fun db => db.Consistent ∧
    Linked (fun _ _ => True) db ∧ ((∀ i, ∀ r ∈ db.ledger,
      sel (minute r.createdAt) r.account = true → ∀ v ∈ r.amount, (calls i).svc.RoundTrips v) →
        db.drift sel col = 0)) ?_ ⟨h₀.consistent, Linked.initial h₀, fun _ => ?_⟩ hr
  · exact sub_eq_zero.1 (hall.2.2 hround)
  · intro i past db ws resp hJ hp hc
    obtain ⟨hcons, hlinked, hdrift⟩ := hJ
    apply hc.tables (P := fun _ V => Linked (fun _ _ => True) V ∧ ((∀ i, ∀ r ∈ V.ledger,
      sel (minute r.createdAt) r.account = true → ∀ v ∈ r.amount, (calls i).svc.RoundTrips v) →
        V.drift sel col = 0)) hp Sees.stale hcons ⟨hlinked, hdrift⟩
    · exact fun h => h
    · rintro pre action post V V' b b' txId _ hV _ _ ⟨hlinked, hdrift⟩ hst
      refine ⟨hlinked.stepped hst fun _ _ _ _ _ _ _ _ => trivial, fun hround => ?_⟩
      rw [hst.drift_eq hV hlinked]
      · exact hdrift fun i r hr => hround i r (hst.ledger.subset hr)
      · intro _ _ _ row hrow _ hsel v hv
        exact hround i row (hst.ledger.subset hrow) hsel v hv
  · rw [Db.drift, Db.reported, Db.recomputed, h₀.ledger, h₀.rtpOutbox]
    rfl

variable {calls : ι → Call} {jobs : κ → RtpJob} {nextId : Nat} {es : List (Event ι κ)}
  {sys : System ι κ}

theorem mirrored_run (h₀ : db₀.Initial)
    (hr : System.Run (fun _ _ => True) (.start calls jobs db₀ ⟨[], []⟩ nextId) es sys) :
    sys.InOrder ∧ sys.Mirrored := by
  apply hr.invariant (P := fun sys => sys.InOrder ∧ sys.Mirrored)
  · refine ⟨.start .empty ?_, ⟨h₀.rtpOutbox.symm, ?_⟩⟩
    · intro row hrow
      cases hrow
    · rintro i st snap p ⟨⟩
      rfl
  · rintro sys₁ e sys₂ ⟨hin, hmirror⟩ _ hs
    exact ⟨hin.step hs, hmirror.step hs⟩

/-- The rolled-up part and the rest of the outbox are what the ledger gives. -/
theorem rolled_up_run (h₀ : db₀.Initial)
    (hr : System.Run (fun _ _ => True) (.start calls jobs db₀ ⟨[], []⟩ nextId) es sys)
    (hround : ∀ i, ∀ r ∈ sys.requests.db.ledger, sel (minute r.createdAt) r.account = true →
      ∀ v ∈ r.amount, (calls i).svc.RoundTrips v) (col : Column) :
    sumOf sys.reports.db.rtpUserMinute (fun row => sel row.key.bucketMinute row.key.account)
      (·.column col) + sys.reports.db.unprocessed sel col =
      sys.requests.db.recomputed sel col := by
  obtain ⟨hin, hmirror⟩ := mirrored_run h₀ hr
  obtain ⟨ls, hrequests⟩ := hr.requests
  rw [← reported_run calls h₀ hrequests hround, hin.guarded.database.sum, RtpDb.unprocessed,
    Db.reported, ← hmirror.committed, sumOf_map, ← sumOf_or]
  · apply sumOf_sel_congr
    intro row _
    by_cases hst : row.status = .processed
    · simp [hst]
    · simp [hst]
  · intro row _ hrow
    simp_all

/-- The whole pipeline: in every state of any concurrent requests and calls of the worker, both
reports of a window, together with what is committed and not yet processed, are what the ledger
gives for the window, in total and for each account. -/
theorem reports_account_for_ledger (h₀ : db₀.Initial)
    (hr : System.Run (fun _ _ => True) (.start calls jobs db₀ ⟨[], []⟩ nextId) es sys)
    {Float8 : Type} (pg : Postgres Float8) (r : Reporter) {t : RtpTable}
    (ht : t.rows = sys.reports.db.rtpUserMinute) {a c : Int} {currency : Option String}
    {limit : Int} (hparses : r.Parses ⟨a, c, currency, none, limit, 0⟩) (hlimit : 1 ≤ limit)
    (hlimit' : limit ≤ 500) (hfits : t.Fits a c currency) (hread : t.ReadBy r.svc a c currency)
    (hround : ∀ i, ∀ row ∈ sys.requests.db.ledger,
      inWindow a c currency none (minute row.createdAt) row.account = true →
        ∀ v ∈ row.amount, (calls i).svc.RoundTrips v) :
    ∃ items total, r.Reports pg t a c currency limit items total ∧
      (∀ col, total.column col +
        sys.reports.db.unprocessed (inWindow a c currency none) col =
          sys.requests.db.recomputed (inWindow a c currency none) col) ∧
      ∀ x col, RtpTable.reported items x col +
        sys.reports.db.unprocessed (fun m y => inWindow a c currency none m y && y = x) col =
          sys.requests.db.recomputed (fun m y => inWindow a c currency none m y && y = x) col := by
  refine ⟨_, _, r.reports pg t hparses hlimit hlimit' hfits, ?_, ?_⟩
  · intro col
    rw [RtpRow.load_column, RtpRow.ofSums_column, hread.casino, ← rolled_up_run h₀ hr hround,
      t.allSums_window, ht]
  · intro x col
    have hround' : ∀ i, ∀ row ∈ sys.requests.db.ledger,
        (inWindow a c currency none (minute row.createdAt) row.account && row.account = x) = true →
          ∀ v ∈ row.amount, (calls i).svc.RoundTrips v :=
      fun i row hrow hsel => hround i row hrow (Bool.and_eq_true_iff.1 hsel).1
    rw [t.reported_items pg, hread.users, ← rolled_up_run h₀ hr hround', t.sums_window, ht]

end

/-- A bet of 60. -/
def oneBet : RtpTable where
  rows := [⟨⟨0, ⟨"a", "USD"⟩⟩, 60, 0, 1, 0, 0, 0⟩]
  primaryKey := by decide
  bigints := by decide
  size := by decide

/-- The bet has been rolled up, its rollback waits in the outbox. -/
theorem betTakenBack_accounted : ∃ es sys items total,
    System.Run (fun _ _ => True) (.start betTakenBack twoDrains twoUsers ⟨[], []⟩ 1) es sys ∧
    Reporter.rust.Reports Postgres.plain oneBet 0 60000000 (some "USD") 100 items total ∧
    sys.reports.db.unprocessed (inWindow 0 60000000 (some "USD") none) .totalBet = -60 ∧
    ∀ col, total.column col +
      sys.reports.db.unprocessed (inWindow 0 60000000 (some "USD") none) col =
        sys.requests.db.recomputed (inWindow 0 60000000 (some "USD") none) col := by
  obtain ⟨es, sys, hr, _, hsys⟩ := System.Run.exists_of_drive (fun _ _ => True)
    (.start betTakenBack twoDrains twoUsers ⟨[], []⟩ 1)
    (List.replicate 17 (.inl 0) ++ List.replicate 7 (.inr 0) ++ List.replicate 25 (.inl 1))
    (p := fun sys => sys.reports.db.rtpUserMinute = oneBet.rows ∧
      sys.reports.db.unprocessed (inWindow 0 60000000 (some "USD") none) .totalBet = -60 ∧
      ∀ row ∈ sys.requests.db.ledger, ∀ v ∈ row.amount, |v| ≤ 2 ^ 53) (by decide +kernel)
  obtain ⟨hminutes, hrest, hsmall⟩ := of_decide_eq_true hsys
  have hfits : oneBet.Fits 0 60000000 (some "USD") := by
    apply RtpTable.fits_of_nonneg
    · intro row hrow col
      cases col <;> revert row <;> decide
    · intro col
      cases col <;> decide
  have hparses : Reporter.rust.Parses ⟨0, 60000000, some "USD", none, 100, 0⟩ :=
    ⟨by decide, by decide⟩
  obtain ⟨items, total, hreports, htotal, _⟩ := reports_account_for_ledger twoUsers_initial hr
    Postgres.plain .rust hminutes.symm hparses (by decide) (by decide) hfits
    (oneBet.readBy_rust ..) fun _ row hrow _ v hv =>
      Service.roundTrips_small _ (hsmall row hrow v hv)
  exact ⟨es, sys, items, total, hr, hreports, hrest, htotal⟩

end BetProcessor
