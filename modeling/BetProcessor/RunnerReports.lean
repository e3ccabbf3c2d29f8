import Mathlib.Algebra.BigOperators.Fin
import BetProcessor.LedgerReports
import BetProcessor.LockWaits
import BetProcessor.Runner
import BetProcessor.Settlement
import BetProcessor.Perform

namespace BetProcessor
set_option autoImplicit true
open Txn

/-- The id of a ledger row, its account, and what it counts for when nothing reverses it. -/
def ActionRow.entry (r : ActionRow) : Uuid × Account × (Column → Int) :=
  (r.actionId, r.account, fun col => r.counted false col)

def ProcessAction.entry (a : Account) (action : ProcessAction) : Uuid × Account × (Column → Int) :=
  (action.actionId, a, fun col => action.settled false col)

def Call.entries (c : Call) : List (Uuid × Account × (Column → Int)) :=
  c.actions.map (·.entry c.account)

/-- A bet or win with an amount that every service handles exactly. -/
def ProcessAction.IsPlay (action : ProcessAction) : Prop :=
  ∃ type x amount, action.IsOriginal type x amount ∧ |amount| ≤ 2 ^ 53

/-- The ledger consists of applied bets and wins with these entries. -/
structure Db.Plays (V : Db) (entries : List (Uuid × Account × (Column → Int))) : Prop where
  entries : V.ledger.map ActionRow.entry = entries
  plays : ∀ r ∈ V.ledger, r.actionType ≠ .rollback ∧ ∀ v ∈ r.amount, |v| ≤ 2 ^ 53
  intents : V.rollbackIntents = []

section
variable {V V' : Db} {c : Call} {b b' : Int} {action : ProcessAction} {txId : Uuid}
variable {entries : List (Uuid × Account × (Column → Int))}

theorem originalRow_entry {type : ActionType} {x : Uuid} {amount d : Int}
    (h : action.IsOriginal type x amount) :
    (c.originalRow type x amount d .applied).entry = action.entry c.account := by
  cases h with
  | bet =>
    refine Prod.ext rfl (Prod.ext rfl (funext fun col => ?_))
    cases col <;> simp [ActionRow.entry, ProcessAction.entry, ActionRow.counted, Call.originalRow,
      ProcessAction.settled]
  | win =>
    refine Prod.ext rfl (Prod.ext rfl (funext fun col => ?_))
    cases col <;> simp [ActionRow.entry, ProcessAction.entry, ActionRow.counted, Call.originalRow,
      ProcessAction.settled]

theorem Db.Plays.registered (h : V.Plays entries) (hV : V.Consistent) {x : Uuid}
    (hx : V.Registered x) : x ∈ entries.map Prod.fst := by
  obtain ⟨g, hg, rfl⟩ := hx
  obtain ⟨row, hrow, rfl⟩ := hV.recorded g hg
  rw [← h.entries, List.map_map]
  exact List.mem_map.2 ⟨row, hrow, rfl⟩

theorem Db.Plays.stepped (h : V.Plays entries) (hV : V.Consistent)
    (hs : Stepped .now V V' c b action b' txId) (hplay : action.IsPlay)
    (hnew : action.actionId ∉ entries.map Prod.fst) :
    V'.Plays (entries ++ [action.entry c.account]) := by
  obtain ⟨type, x, amount, horiginal, hsmall⟩ := hplay
  have hno : ∀ o, ¬ V.HasIntent o := by
    rintro o ⟨t, ht, _⟩
    rw [h.intents] at ht
    cases ht
  cases hs with
  | duplicate hg hid => exact absurd (h.registered hV ⟨_, hg, hid⟩) hnew
  | fresh _ he ha =>
    cases he with
    | @applied _ type' x' amount' v horiginal' _ hv =>
      have hv' : amount' = v := by
        have hamount : amount' = amount := by
          cases horiginal <;> cases horiginal' <;> rfl
        rw [hamount, c.svc.bind_small hsmall] at hv
        rw [hamount]
        exact Option.some.inj hv
      subst hv'
      refine ⟨?_, ?_, ?_⟩
      · rw [ha.ledger, List.map_append, h.entries, List.map_singleton,
          originalRow_entry horiginal']
      · intro r hr
        rw [ha.ledger] at hr
        rcases List.mem_append.1 hr with hr | hr
        · exact h.plays r hr
        · obtain rfl := List.mem_singleton.1 hr
          refine ⟨horiginal'.type_ne, ?_⟩
          intro v hv
          obtain rfl : amount' = v := Option.some.inj hv
          cases horiginal <;> cases horiginal' <;> exact hsmall
      · rw [ha.rollbackIntents, h.intents]
        rfl
    | prerolled _ hseen => exact absurd hseen (hno _)
    | already => cases horiginal
    | tombstone => cases horiginal
    | notApplied => cases horiginal
    | reversed => cases horiginal

theorem Db.Plays.after {db₀ : Db} (h₀ : db₀.Initial) {calls : List Call}
    (hplays : ∀ c ∈ calls, ∀ action ∈ c.actions, action.IsPlay)
    (hnodup : ((calls.flatMap Call.entries).map Prod.fst).Nodup)
    (hok : ∀ pre c post, calls = pre ++ c :: post → c.Succeeds (db₀.after pre)) :
    (db₀.after calls).Plays (calls.flatMap Call.entries) := by
  refine Db.after_run (P := fun pre V => V.Plays (pre.flatMap Call.entries)) db₀ calls ?_ ?_
  · refine ⟨?_, ?_, h₀.rollbackIntents⟩
    · rw [h₀.ledger]
      rfl
    · rw [h₀.ledger]
      intro r hr
      cases hr
  · intro pre c post heq hP
    obtain ⟨resp, hresp⟩ := hok pre c post heq
    have hcons := h₀.consistent.after pre
    rw [List.flatMap_append, List.flatMap_singleton, Call.entries]
    generalize hentries : pre.flatMap Call.entries = before at hP
    apply Call.serve_history (P := fun done V =>
      V.Plays (before ++ done.map (·.entry c.account))) hcons hresp
    · rw [List.map_nil, List.append_nil]
      exact hP
    · exact fun h => ⟨h.entries, h.plays, h.intents⟩
    · intro done action rest V b V' b' txId hactions hV hP hperforms
      rw [List.map_append, ← List.append_assoc]
      apply hP.stepped hV (hperforms.stepped hV)
      · exact hplays c (heq ▸ List.mem_append_right _ (List.mem_cons_self ..)) action
          (hactions ▸ List.mem_append_right _ (List.mem_cons_self ..))
      · have hsplit : calls.flatMap Call.entries = (pre.flatMap Call.entries ++
            done.map (·.entry c.account)) ++ (action.entry c.account ::
              (rest.map (·.entry c.account) ++ post.flatMap Call.entries)) := by
          rw [heq, List.flatMap_append, List.flatMap_cons, Call.entries, hactions]
          simp
        rw [hsplit, hentries, List.map_append, List.map_cons] at hnodup
        exact fun hmem => (List.nodup_append.1 hnodup).2.2 _ hmem _ (List.mem_cons_self ..) rfl

end

/-- What the entries of an account that is selected come to. -/
theorem Db.Plays.recomputed {V : Db} {entries : List (Uuid × Account × (Column → Int))}
    (h : V.Plays entries) {sel : Int → Account → Bool} (sel' : Account → Bool)
    (hsel : ∀ r ∈ V.ledger, sel (minute r.createdAt) r.account = sel' r.account) (col : Column) :
    V.recomputed sel col = sumOf entries (fun e => sel' e.2.1) (·.2.2 col) := by
  have hnot : ∀ x, ¬ V.Reversed x := by
    rintro x ⟨r, hr, htype, _⟩
    exact (h.plays r hr).1 htype
  rw [Db.recomputed, ← h.entries, sumOf_map, sumOf_sel_congr hsel]
  apply sumOf_congr
  intro r _ _
  simp only [hnot, decide_false]
  rfl

section
variable {α : Type} {l : List α} {f : α → Int}

theorem sumOf_le (hf : ∀ x ∈ l, 0 ≤ f x) (sel : α → Bool) :
    0 ≤ sumOf l sel f ∧ sumOf l sel f ≤ (l.map f).sum := by
  constructor
  · apply List.sum_nonneg
    intro y hy
    obtain ⟨x, hx, rfl⟩ := List.mem_map.1 hy
    exact hf x (List.mem_filter.1 hx).1
  · apply (List.filter_sublist.map f).sum_le_sum
    intro y hy
    obtain ⟨x, hx, rfl⟩ := List.mem_map.1 hy
    exact hf x hx

end

namespace Call
variable {c : Call} {calls : List Call} {col : Column}

/-- What the plays of a request come to. -/
def plays (c : Call) (col : Column) : Int := (c.entries.map (·.2.2 col)).sum

theorem sum_entries :
    ((calls.flatMap entries).map (·.2.2 col)).sum = (calls.map (·.plays col)).sum := by
  induction calls with
  | nil => rfl
  | cons c calls ih =>
    rw [List.flatMap_cons, List.map_append, List.sum_append, ih, List.map_cons, List.sum_cons]
    rfl

theorem plays_totalBet (c : Call) : c.plays .totalBet = c.request.played .bet := by
  rw [plays, entries, List.map_map, ProcessRequest.played]
  apply congrArg List.sum
  apply List.map_congr_left
  intro action _
  cases action <;> rfl

theorem plays_totalWin (c : Call) : c.plays .totalWin = c.request.played .win := by
  rw [plays, entries, List.map_map, ProcessRequest.played]
  apply congrArg List.sum
  apply List.map_congr_left
  intro action _
  cases action <;> rfl

end Call

namespace Runner
variable {runner : Runner} {ids : Nat → Uuid × Uuid}

/-- The ids of all rounds are distinct. -/
structure DistinctIds (ids : Nat → Uuid × Uuid) : Prop where
  bet : ∀ j k, (ids j).1 = (ids k).1 → j = k
  win : ∀ j k, (ids j).2 = (ids k).2 → j = k
  apart : ∀ j k, (ids j).1 ≠ (ids k).2

theorem mem_actions {n seed : Nat} {action : ProcessAction}
    (h : action ∈ runner.actions ids n seed) : action = .bet (ids n).1 runner.betAmount ∨
      action = .win (ids n).2 runner.winPayout := by
  rw [actions, List.mem_cons] at h
  rcases h with h | h
  · exact Or.inl h
  · split at h
    · exact Or.inr (List.mem_singleton.1 h)
    · cases h

theorem actions_isPlay (hbet : |runner.betAmount| ≤ 2 ^ 53) (hwin : |runner.winPayout| ≤ 2 ^ 53)
    {n seed : Nat} {action : ProcessAction} (h : action ∈ runner.actions ids n seed) :
    action.IsPlay := by
  rcases runner.mem_actions h with rfl | rfl
  · exact ⟨_, _, _, .bet, hbet⟩
  · exact ⟨_, _, _, .win, hwin⟩

theorem actions_nodup (h : DistinctIds ids) (n seed : Nat) :
    ((runner.actions ids n seed).map (·.actionId)).Nodup := by
  rw [actions]
  split
  · rw [List.map_cons, List.map_singleton, List.nodup_cons, List.mem_singleton]
    exact ⟨h.apart n n, List.nodup_singleton _⟩
  · exact List.nodup_singleton _

theorem actions_apart (h : DistinctIds ids) {j k seed seed' : Nat} (hjk : j ≠ k)
    {action action' : ProcessAction} (ha : action ∈ runner.actions ids j seed)
    (ha' : action' ∈ runner.actions ids k seed') : action.actionId ≠ action'.actionId := by
  rcases runner.mem_actions ha with rfl | rfl <;> rcases runner.mem_actions ha' with rfl | rfl
  · exact fun heq => hjk (h.bet _ _ heq)
  · exact h.apart _ _
  · exact (h.apart _ _).symm
  · exact fun heq => hjk (h.win _ _ heq)

end Runner

section
variable {ι : Type} [Fintype ι] [DecidableEq ι] {calls : ι → Call} {db₀ : Db}

omit [Fintype ι] [DecidableEq ι] in
theorem entries_nodup (hnodup : ∀ i, ((calls i).actions.map (·.actionId)).Nodup)
    (hapart : ∀ i j, i ≠ j → ∀ action ∈ (calls i).actions, ∀ action' ∈ (calls j).actions,
      action.actionId ≠ action'.actionId) {order : List ι} (horder : order.Nodup) :
    (((order.map calls).flatMap Call.entries).map Prod.fst).Nodup := by
  have hids : ∀ i, (calls i).entries.map Prod.fst = (calls i).actions.map (·.actionId) := by
    intro i
    rw [Call.entries, List.map_map]
    rfl
  induction order with
  | nil => exact List.nodup_nil
  | cons i order ih =>
    obtain ⟨hi, horder⟩ := List.nodup_cons.1 horder
    rw [List.map_cons, List.flatMap_cons, List.map_append, List.nodup_append, hids]
    refine ⟨hnodup i, ih horder, ?_⟩
    intro x hx y hy heq
    obtain ⟨action, haction, rfl⟩ := List.mem_map.1 hx
    obtain ⟨e, he, rfl⟩ := List.mem_map.1 hy
    obtain ⟨c, hc, he⟩ := List.mem_flatMap.1 he
    obtain ⟨j, hj, rfl⟩ := List.mem_map.1 hc
    obtain ⟨action', haction', rfl⟩ := List.mem_map.1 he
    exact hapart i j (fun hij => hi (hij ▸ hj)) action haction action' haction' heq

omit [Fintype ι] [DecidableEq ι] in
theorem plays_ids (hplays : ∀ i, ∀ action ∈ (calls i).actions, action.IsPlay)
    (hapart : ∀ i j, i ≠ j → ∀ action ∈ (calls i).actions, ∀ action' ∈ (calls j).actions,
      action.actionId ≠ action'.actionId) :
    ∀ i j, (calls i).account ≠ (calls j).account →
      ∀ x ∈ (calls i).request.ids, x ∉ (calls j).request.ids := by
  have hmem : ∀ i x, x ∈ (calls i).request.ids → ∃ action ∈ (calls i).actions,
      action.actionId = x := by
    intro i x hx
    obtain ⟨action, haction, hx⟩ := List.mem_flatMap.1 hx
    obtain ⟨_, _, _, horiginal, _⟩ := hplays i action haction
    refine ⟨action, haction, ?_⟩
    cases horiginal <;> exact (List.mem_singleton.1 hx).symm
  intro i j hij x hx hx'
  obtain ⟨action, haction, rfl⟩ := hmem i x hx
  obtain ⟨action', haction', heq⟩ := hmem j _ hx'
  refine hapart i j ?_ action haction action' haction' heq.symm
  rintro rfl
  exact hij rfl

/-- Concurrent requests of new bets and wins that have all succeeded make up the ledger. -/
theorem plays_run (h₀ : db₀.Initial)
    (hplays : ∀ i, ∀ action ∈ (calls i).actions, action.IsPlay)
    (hnodup : ∀ i, ((calls i).actions.map (·.actionId)).Nodup)
    (hapart : ∀ i j, i ≠ j → ∀ action ∈ (calls i).actions, ∀ action' ∈ (calls j).actions,
      action.actionId ≠ action'.actionId)
    {ls : List (Label ι Stmt Err)} {c : Requests ι}
    (hr : postgres.Run (fun _ _ => True) (.init (fun i => (calls i).body) db₀) ls c)
    (hdone : ∀ i, ∃ resp, c.sess i = .done (.ok resp)) :
    ∃ order : List ι, order.Nodup ∧ (∀ i, i ∈ order) ∧
      c.db.Plays ((order.map calls).flatMap Call.entries) := by
  have hids := plays_ids hplays hapart
  have hrep := Discipline.replayed (P := accountDiscipline calls hids) hr
  have hserial : ∀ order, (accountDiscipline calls hids).serial order db₀ =
      db₀.after (order.map calls) := by
    intro order
    rw [Db.after, List.foldl_map]
    rfl
  refine ⟨ended ls, hrep.nodup, ?_, ?_⟩
  · intro i
    obtain ⟨resp, hresp⟩ := hdone i
    rcases hrep.done i _ hresp with hi | ⟨e, he⟩
    · exact hi
    · obtain ⟨e', he'⟩ := hr.aborted postgres he
      rw [hresp] at he'
      cases he'
  · rw [hrep.db, hserial]
    apply Db.Plays.after h₀
    · intro c hc
      obtain ⟨i, _, rfl⟩ := List.mem_map.1 hc
      exact hplays i
    · exact entries_nodup hnodup hapart hrep.nodup
    · intro pre c post heq
      obtain ⟨pre', post', hsplit, rfl, hpost⟩ := List.map_eq_append_iff.1 heq
      obtain ⟨i, post'', rfl, rfl, _⟩ := List.map_eq_cons_iff.1 hpost
      obtain ⟨resp, hresp⟩ := hdone i
      rw [hrep.result pre' i post'' hsplit, hserial] at hresp
      exact ⟨resp, Session.done.inj hresp⟩

theorem sum_order {order : List ι} (horder : order.Nodup) (hall : ∀ i, i ∈ order) (col : Column) :
    (((order.map calls).flatMap Call.entries).map (·.2.2 col)).sum = ∑ i, (calls i).plays col := by
  rw [Call.sum_entries, List.map_map, ← List.sum_toFinset _ horder]
  congr 1
  exact Finset.eq_univ_iff_forall.2 fun i => List.mem_toFinset.2 (hall i)

end

section
variable {ι κ : Type} [Fintype ι] [DecidableEq ι] [Fintype κ] [DecidableEq κ]
variable {calls : ι → Call} {jobs : κ → RtpJob} {db₀ : Db} {nextId : Nat}
variable {es : List (Event ι κ)} {sys : System ι κ}

/-- When everything is processed, the casino report of a window with all the plays is their sum. -/
theorem plays_reported (h₀ : db₀.Initial)
    (hr : System.Run (fun _ _ => True) (.start calls jobs db₀ ⟨[], []⟩ nextId) es sys)
    {entries : List (Uuid × Account × (Column → Int))} (hplays : sys.requests.db.Plays entries)
    (hdrained : ∀ row ∈ sys.reports.db.rtpOutbox, row.status = .processed)
    (hnonneg : ∀ e ∈ entries, ∀ col, 0 ≤ e.2.2 col)
    (hsmall : ∀ col, (entries.map (·.2.2 col)).sum ≤ 2 ^ 53)
    {Float8 : Type} (pg : Postgres Float8) (r : Reporter) {t : RtpTable}
    (ht : t.rows = sys.reports.db.rtpUserMinute) {a c : Int} {currency : String} {limit : Int}
    (hparses : r.Parses ⟨a, c, some currency, none, limit, 0⟩)
    (hwindow : ∀ row ∈ sys.requests.db.ledger,
      inWindow a c (some currency) none (minute row.createdAt) row.account = true) :
    ∃ total, r.casinoReport pg t ⟨a, c, some currency, none, limit, 0⟩ = .ok total ∧
      (∀ col, total.column col = (entries.map (·.2.2 col)).sum) ∧
      total.rtp = if (entries.map (·.2.2 .totalBet)).sum = 0 then none
        else some (pg.quotient (entries.map (·.2.2 .totalWin)).sum
          (entries.map (·.2.2 .totalBet)).sum) := by
  have hround : ∀ i, ∀ row ∈ sys.requests.db.ledger, ∀ v ∈ row.amount,
      (calls i).svc.RoundTrips v :=
    fun i row hrow v hv => (calls i).svc.roundTrips_small ((hplays.plays row hrow).2 v hv)
  have hrolled : ∀ sel col, sumOf sys.reports.db.rtpUserMinute
      (fun row => sel row.key.bucketMinute row.key.account) (·.column col) =
        sys.requests.db.recomputed sel col := by
    intro sel col
    rw [← rolled_up_run h₀ hr (fun i row hrow _ => hround i row hrow),
      RtpDb.unprocessed_eq_zero hdrained, add_zero]
  have hall : ∀ col, RtpTable.allSums (t.window a c (some currency) none) col =
      (entries.map (·.2.2 col)).sum := by
    intro col
    rw [t.allSums_window, ht, hrolled, hplays.recomputed (fun _ => true) hwindow,
      sumOf_true]
  have hone : ∀ x col, RtpTable.sums (t.window a c (some currency) none) x col =
      sumOf entries (fun e => e.2.1 = x) (·.2.2 col) := by
    intro x col
    rw [t.sums_window, ht, hrolled fun m y => inWindow a c (some currency) none m y && y = x]
    apply hplays.recomputed fun y => decide (y = x)
    intro row hrow
    rw [hwindow row hrow, Bool.true_and]
  have hbound : ∀ x col, |sumOf entries (fun e => e.2.1 = x) (·.2.2 col)| ≤ 2 ^ 53 := by
    intro x col
    obtain ⟨hpos, hle⟩ := sumOf_le (fun e he => hnonneg e he col) fun e => e.2.1 = x
    rw [abs_of_nonneg hpos]
    exact hle.trans (hsmall col)
  have hbound' : ∀ col, |(entries.map (·.2.2 col)).sum| ≤ 2 ^ 53 := by
    intro col
    obtain ⟨hpos, hle⟩ := sumOf_le (fun e he => hnonneg e he col) fun _ => true
    rw [abs_of_nonneg (hpos.trans hle)]
    exact hsmall col
  have hfits : t.Fits a c (some currency) := by
    constructor
    · intro x col
      rw [hone]
      exact isBigint_small (hbound x col)
    · intro col
      rw [hall]
      exact isBigint_small (hbound' col)
  refine ⟨_, r.casinoReport_eq pg t hparses hfits, ?_, ?_⟩
  · intro col
    rw [RtpRow.load_column, RtpRow.ofSums_column, hall, r.svc.load_small (hbound' col)]
  · rw [RtpRow.load, RtpRow.ofSums]
    dsimp only
    rw [hall, hall]

end

namespace Runner
variable {runner : Runner} {ids : Nat → Uuid × Uuid} {c : Call} {n : Nat}

/-- A round is one bet and at most one win. -/
def plays (runner : Runner) (n : Nat) : Column → Int
  | .totalBet => runner.betAmount
  | .totalWin => if runner.won (runner.seedAt n) then runner.winPayout else 0
  | .rounds => 1
  | _ => 0

theorem round_actions (h : c.request = runner.round ids n) :
    c.actions = runner.actions ids n (runner.seedAt n) := by
  rw [Call.actions, h]
  rfl

theorem round_plays (h : c.request = runner.round ids n) (col : Column) :
    c.plays col = runner.plays n col := by
  rw [Call.plays, Call.entries, round_actions h, actions, List.map_map]
  by_cases hwon : runner.won (runner.seedAt n) = true
  · cases col <;> simp [hwon, ProcessAction.entry, ProcessAction.settled, plays]
  · cases col <;> simp [hwon, ProcessAction.entry, ProcessAction.settled, plays]

theorem round_entries (hbet : 0 < runner.betAmount) (hwin : 0 < runner.winPayout)
    (h : c.request = runner.round ids n) {e : Uuid × Account × (Column → Int)}
    (he : e ∈ c.entries) : e.2.1.currency = runner.currency ∧ ∀ col, 0 ≤ e.2.2 col := by
  obtain ⟨action, haction, rfl⟩ := List.mem_map.1 he
  rw [Call.actions, h] at haction
  constructor
  · change c.request.currency = _
    rw [h]
    rfl
  · intro col
    rcases runner.mem_actions haction with rfl | rfl
    · cases col <;> simp [ProcessAction.entry, ProcessAction.settled, hbet.le]
    · cases col <;> simp [ProcessAction.entry, ProcessAction.settled, hwin.le]

section
variable {requests : Fin n → ProcessRequest}

theorem roundsUpTo_eq_ofFn (h : runner.roundsUpTo ids n = List.ofFn requests) (k : Fin n) :
    requests k = runner.round ids k := by
  have hk := congrArg (·[k.val]?) h
  simpa [roundsUpTo] using hk.symm

variable {calls : Fin n → Call} (hcalls : ∀ k, (calls k).request = runner.round ids k)
include hcalls

theorem rounds_isPlay (hbet : |runner.betAmount| ≤ 2 ^ 53) (hwin : |runner.winPayout| ≤ 2 ^ 53)
    (k : Fin n) : ∀ action ∈ (calls k).actions, action.IsPlay := by
  intro action haction
  rw [round_actions (hcalls k)] at haction
  exact actions_isPlay hbet hwin haction

theorem rounds_apart (hids : DistinctIds ids) (j k : Fin n) (hjk : j ≠ k) :
    ∀ action ∈ (calls j).actions, ∀ action' ∈ (calls k).actions,
      action.actionId ≠ action'.actionId := by
  intro action haction action' haction'
  rw [round_actions (hcalls _)] at haction haction'
  exact actions_apart hids (fun h => hjk (Fin.ext h)) haction haction'

end

end Runner

theorem playedIn_ofFn {n : Nat} (type : ActionType) (requests : Fin n → ProcessRequest) :
    playedIn type (List.ofFn requests) = ∑ k, (requests k).played type := by
  rw [playedIn, List.map_ofFn, List.sum_ofFn]
  rfl

namespace Runner
variable {runner : Runner} {ids : Nat → Uuid × Uuid}

/-- What the report counts of the requests that have been posted. -/
def counted (runner : Runner) (posted : List ProcessRequest) : Column → Int
  | .totalBet => playedIn .bet posted
  | .totalWin => playedIn .win posted
  | .rounds => runner.rounds
  | _ => 0

theorem sum_rounds {posted : List ProcessRequest} {calls : Fin runner.rounds → Call}
    (hcalls : ∀ k, (calls k).request = runner.round ids k)
    (hposted : posted = List.ofFn fun k => (calls k).request) (col : Column) :
    ∑ k, (calls k).plays col = runner.counted posted col := by
  have hplays : ∀ col, ∑ k, (calls k).plays col = ∑ k : Fin runner.rounds, runner.plays k col :=
    fun col => Finset.sum_congr rfl fun k _ => round_plays (hcalls k) col
  cases col with
  | totalBet =>
    rw [counted, hposted, playedIn_ofFn]
    exact Finset.sum_congr rfl fun k _ => (calls k).plays_totalBet
  | totalWin =>
    rw [counted, hposted, playedIn_ofFn]
    exact Finset.sum_congr rfl fun k _ => (calls k).plays_totalWin
  | _ =>
    rw [hplays]
    simp [plays, counted]

theorem counted_le {posted : List ProcessRequest} (hrounds : (runner.rounds : Int) ≤ 2 ^ 53)
    (hbets : playedIn .bet posted ≤ 2 ^ 53) (hwins : playedIn .win posted ≤ 2 ^ 53)
    (col : Column) : runner.counted posted col ≤ 2 ^ 53 := by
  cases col with
  | totalBet => exact hbets
  | totalWin => exact hwins
  | rounds => exact hrounds
  | _ => exact Int.pow_nonneg (by decide)

end Runner

/-- The runner asks for a minute more at both ends. -/
theorem inWindow_run {startedAt endedAt t : Int} (h : startedAt ≤ t ∧ t ≤ endedAt) (a : Account) :
    inWindow (startedAt - 60000000) (endedAt + 60000000) (some a.currency) none (minute t) a =
      true := by
  have hfrom : startedAt - 60000000 ≤ minute t := by
    unfold minute
    omega
  have hto : minute t < endedAt + 60000000 := by
    unfold minute
    omega
  simp [inWindow, hfrom, hto]

/-- The check that the runner ends with: whatever the interleavings of its workers, of the requests
and of the calls of the drain, once every round has been answered and the outbox drained, the
casino report of either service over the time of the run is exactly what the runner has counted. -/
theorem runner_report {ω : Type} [DecidableEq ω] {runner : Runner} (hbet : 0 < runner.betAmount)
    (hwin : 0 < runner.winPayout) (hbetSmall : runner.betAmount ≤ 2 ^ 53)
    (hwinSmall : runner.winPayout ≤ 2 ^ 53) {ids : Nat → Uuid × Uuid}
    (hids : Runner.DistinctIds ids) {events : List (RunnerEvent ω)} {workers : RunnerSystem ω}
    (hrun : RunnerSystem.Run runner ids events workers) {w : ω}
    (hreturned : workers.workers w = .returned) {calls : Fin runner.rounds → Call}
    (hposted : workers.posted = List.ofFn fun k => (calls k).request)
    {κ : Type} [Fintype κ] [DecidableEq κ] {jobs : κ → RtpJob} {db₀ : Db} (h₀ : db₀.Initial)
    {nextId : Nat} {es : List (Event (Fin runner.rounds) κ)} {sys : System (Fin runner.rounds) κ}
    (hr : System.Run (fun _ _ => True) (.start calls jobs db₀ ⟨[], []⟩ nextId) es sys)
    (hanswered : ∀ k, ∃ resp, sys.requests.sess k = .done (.ok resp))
    (hdrained : ∀ row ∈ sys.reports.db.rtpOutbox, row.status = .processed)
    {startedAt endedAt : Int} (hclock : ∀ row ∈ sys.requests.db.ledger,
      startedAt ≤ row.createdAt ∧ row.createdAt ≤ endedAt)
    (hrounds : (runner.rounds : Int) ≤ 2 ^ 53)
    (hbets : playedIn .bet workers.posted ≤ 2 ^ 53)
    (hwins : playedIn .win workers.posted ≤ 2 ^ 53) {Float8 : Type} (pg : Postgres Float8)
    (r : Reporter) {t : RtpTable} (ht : t.rows = sys.reports.db.rtpUserMinute)
    (hparses : r.Parses ⟨startedAt - 60000000, endedAt + 60000000, some runner.currency, none,
      100, 0⟩) :
    ∃ total, r.casinoReport pg t ⟨startedAt - 60000000, endedAt + 60000000,
        some runner.currency, none, 100, 0⟩ = .ok total ∧
      total.totalBet = workers.shared.totalBet ∧ total.totalWin = workers.shared.totalWin ∧
      total.rounds = runner.rounds ∧
      total.rtp = if workers.shared.totalBet = 0 then none
        else some (pg.quotient workers.shared.totalWin workers.shared.totalBet) := by
  have hdeals := hrun.deals
  have hcounts := hdeals.counts hbet.le hwin.le
  have hrequest : ∀ k, (calls k).request = runner.round ids k := by
    apply Runner.roundsUpTo_eq_ofFn
    rw [← hposted, hdeals.posted, Nat.min_eq_right (hdeals.returned w hreturned)]
  obtain ⟨ls, hrequests⟩ := hr.requests
  obtain ⟨order, horder, hall, hplays⟩ := plays_run h₀
    (Runner.rounds_isPlay hrequest (by rwa [abs_of_pos hbet]) (by rwa [abs_of_pos hwin]))
    (fun k => Runner.round_actions (hrequest k) ▸ Runner.actions_nodup hids k _)
    (Runner.rounds_apart hrequest hids) hrequests hanswered
  have hentry : ∀ e ∈ (order.map calls).flatMap Call.entries,
      e.2.1.currency = runner.currency ∧ ∀ col, 0 ≤ e.2.2 col := by
    intro e he
    obtain ⟨c, hc, he⟩ := List.mem_flatMap.1 he
    obtain ⟨k, _, rfl⟩ := List.mem_map.1 hc
    exact Runner.round_entries hbet hwin (hrequest k) he
  have hsum : ∀ col, (((order.map calls).flatMap Call.entries).map (·.2.2 col)).sum =
      runner.counted workers.posted col :=
    fun col => (sum_order horder hall col).trans (Runner.sum_rounds hrequest hposted col)
  have hsmall : ∀ col, (((order.map calls).flatMap Call.entries).map (·.2.2 col)).sum ≤
      2 ^ 53 := by
    intro col
    rw [hsum]
    exact Runner.counted_le hrounds hbets hwins col
  have hwindow : ∀ row ∈ sys.requests.db.ledger, inWindow (startedAt - 60000000)
      (endedAt + 60000000) (some runner.currency) none (minute row.createdAt) row.account =
        true := by
    intro row hrow
    have hmem : row.entry ∈ (order.map calls).flatMap Call.entries :=
      hplays.entries ▸ List.mem_map_of_mem hrow
    have hcurrency : row.account.currency = runner.currency := (hentry _ hmem).1
    rw [← hcurrency]
    exact inWindow_run (hclock row hrow) row.account
  obtain ⟨total, hreport, hcolumns, hrtp⟩ := plays_reported h₀ hr hplays hdrained
    (fun e he => (hentry e he).2) hsmall pg r ht hparses hwindow
  simp only [hsum] at hcolumns hrtp
  refine ⟨total, hreport, ?_, ?_, hcolumns .rounds, ?_⟩
  · rw [hcounts.bet hbets]
    exact hcolumns .totalBet
  · rw [hcounts.win hwins]
    exact hcolumns .totalWin
  · rw [hcounts.bet hbets, hcounts.win hwins]
    exact hrtp

/-- One user, who wins the first of two rounds. -/
def twoRounds : Runner := { users := 1, rounds := 2, winProbability := 7 / 10, winPayout := 475 }

def twoRoundRequests : Fin twoRounds.rounds → ProcessRequest
  | ⟨0, _⟩ => ⟨"runner-user-0", "USD", "runner:slots", some "runner-0",
      some [.bet 0 100, .win 1 475]⟩
  | _ => ⟨"runner-user-0", "USD", "runner:slots", some "runner-1", some [.bet 2 100]⟩

def twoRoundCalls (k : Fin twoRounds.rounds) : Call := ⟨rust, plainDraws, twoRoundRequests k⟩

def oneUser : Db := ⟨[⟨⟨"runner-user-0", "USD"⟩, 1000⟩], [], [], [], []⟩

def twoRoundsTable : RtpTable where
  rows := [⟨⟨0, ⟨"runner-user-0", "USD"⟩⟩, 200, 475, 2, 0, 0, 0⟩]
  primaryKey := by decide
  bigints := by decide
  size := by decide

theorem roundIds_distinct : Runner.DistinctIds roundIds where
  bet _ _ h := Nat.eq_of_mul_eq_mul_left (by decide) h
  win _ _ h := Nat.eq_of_mul_eq_mul_left (n := 2) (by decide) (Nat.succ.inj h)
  apart j k h := by
    change 2 * j = 2 * k + 1 at h
    omega

/-- A worker posts both rounds before the drain runs. -/
theorem twoRounds_report : ∃ events workers es sys total,
    RunnerSystem.Run (ω := Fin 1) twoRounds roundIds events workers ∧
    System.Run (fun _ _ => True) (.start twoRoundCalls twoDrains oneUser ⟨[], []⟩ 1) es sys ∧
    twoRoundsTable.rows = sys.reports.db.rtpUserMinute ∧
    Reporter.rust.casinoReport Postgres.plain twoRoundsTable
      ⟨-60000000, 60000000, some "USD", none, 100, 0⟩ = .ok total ∧
    total.totalBet = workers.shared.totalBet ∧ total.totalWin = workers.shared.totalWin ∧
    total.rounds = 2 := by
  obtain ⟨workers, hrun, hworkers⟩ := @RunnerSystem.Run.exists_of_drive (Fin 1) _ twoRounds
    roundIds [.next 0, .answered 0, .next 0, .answered 0, .next 0]
    (p := fun sys => sys.workers 0 = .returned ∧ sys.posted = List.ofFn twoRoundRequests)
    (by decide +kernel)
  obtain ⟨hreturned, hposted⟩ := of_decide_eq_true hworkers
  let k₀ : Fin twoRounds.rounds := ⟨0, by decide⟩
  let k₁ : Fin twoRounds.rounds := ⟨1, by decide⟩
  obtain ⟨es, sys, hr, _, hsys⟩ := System.Run.exists_of_drive (fun _ _ => True)
    (.start twoRoundCalls twoDrains oneUser ⟨[], []⟩ 1)
    (List.replicate 27 (.inl k₀) ++ List.replicate 17 (.inl k₁) ++ List.replicate 7 (.inr 0))
    (p := fun sys => sys.reports.db.rtpUserMinute = twoRoundsTable.rows ∧
      (∀ row ∈ sys.reports.db.rtpOutbox, row.status = .processed) ∧
      (∀ row ∈ sys.requests.db.ledger, row.createdAt = 0) ∧
      ∀ k, (sys.requests.sess k).result?.any (·.isOk)) (by decide +kernel)
  obtain ⟨hminutes, hdrained, hclock, hanswered⟩ := of_decide_eq_true hsys
  have hbets : playedIn .bet workers.posted = 200 := by
    rw [hposted]
    decide
  have hwins : playedIn .win workers.posted = 475 := by
    rw [hposted]
    decide
  have hok : ∀ k, ∃ resp, sys.requests.sess k = .done (.ok resp) := by
    intro k
    obtain ⟨r, hresult, hok⟩ := Option.any_eq_true _ _ |>.1 (hanswered k)
    cases r with
    | ok resp => exact ⟨resp, Session.eq_done hresult⟩
    | error e => cases hok
  have hnow : ∀ row ∈ sys.requests.db.ledger, 0 ≤ row.createdAt ∧ row.createdAt ≤ 0 := by
    intro row hrow
    rw [hclock row hrow]
    exact ⟨le_refl _, le_refl _⟩
  have hparses : Reporter.rust.Parses ⟨0 - 60000000, 0 + 60000000, some twoRounds.currency, none,
    100, 0⟩ := ⟨by decide, by decide⟩
  obtain ⟨total, hreport, hbet, hwin, hcount, _⟩ := runner_report (by decide) (by decide)
    (by decide) (by decide) roundIds_distinct hrun hreturned hposted
    ⟨by decide, by decide, rfl, rfl, rfl, rfl⟩ hr hok hdrained hnow (by decide)
    (by rw [hbets]; decide) (by rw [hwins]; decide) Postgres.plain .rust hminutes.symm hparses
  exact ⟨_, workers, es, sys, total, hrun, hr, hminutes.symm, hreport, hbet, hwin, hcount⟩

end BetProcessor
