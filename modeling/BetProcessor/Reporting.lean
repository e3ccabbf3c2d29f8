import BetProcessor.SerialRuns

namespace BetProcessor
set_option autoImplicit true
open Txn

/-- The measures of the report. -/
inductive Column where
  | totalBet
  | totalWin
  | rounds
  | rollbackCount
  | rolledBackBet
  | rolledBackWin
  deriving DecidableEq, Repr

def OutboxRow.column (row : OutboxRow) : Column → Int
  | .totalBet => row.totalBetDelta
  | .totalWin => row.totalWinDelta
  | .rounds => row.roundsDelta
  | .rollbackCount => row.rollbackCountDelta
  | .rolledBackBet => row.rolledBackBetDelta
  | .rolledBackWin => row.rolledBackWinDelta

/-- The id is the target of an applied rollback. -/
def Db.Reversed (db : Db) (x : Uuid) : Prop :=
  ∃ r ∈ db.ledger, r.actionType = .rollback ∧ r.status = .applied ∧ r.originalActionId = some x

instance (db : Db) (x : Uuid) : Decidable (db.Reversed x) :=
  inferInstanceAs (Decidable (∃ r ∈ db.ledger, _ ∧ _ ∧ _))

/-- What a ledger row counts for in a column. -/
def ActionRow.counted (r : ActionRow) (reversed : Bool) : Column → Int
  | .totalBet =>
    if r.actionType = .bet ∧ r.status = .applied ∧ reversed = false then r.amount.getD 0 else 0
  | .totalWin =>
    if r.actionType = .win ∧ r.status = .applied ∧ reversed = false then r.amount.getD 0 else 0
  | .rounds => if r.actionType = .bet ∧ r.status = .applied ∧ reversed = false then 1 else 0
  | .rollbackCount =>
    if r.actionType = .rollback ∧ r.status ≠ .noopAlreadyRolledBack then 1 else 0
  | .rolledBackBet =>
    if r.actionType = .bet ∧ (r.status = .noopPrerolled ∨ reversed = true) then
      r.amount.getD 0
    else 0
  | .rolledBackWin =>
    if r.actionType = .win ∧ (r.status = .noopPrerolled ∨ reversed = true) then
      r.amount.getD 0
    else 0

/-- The sum of the part of a list that a condition on minute and account selects. -/
def sumOf (l : List α) (sel : α → Bool) (f : α → Int) : Int := ((l.filter sel).map f).sum

theorem sumOf_append (l l' : List α) (sel : α → Bool) (f : α → Int) :
    sumOf (l ++ l') sel f = sumOf l sel f + sumOf l' sel f := by
  simp [sumOf]

theorem sumOf_single (x : α) (sel : α → Bool) (f : α → Int) :
    sumOf [x] sel f = if sel x then f x else 0 := by
  rw [sumOf, List.filter_cons]
  split <;> simp

theorem sumOf_true (l : List α) (f : α → Int) : sumOf l (fun _ => true) f = (l.map f).sum := by
  rw [sumOf, List.filter_true]

theorem sumOf_sub (l : List α) (sel : α → Bool) (f g : α → Int) :
    sumOf l sel (fun x => f x - g x) = sumOf l sel f - sumOf l sel g := by
  unfold sumOf
  induction l.filter sel with
  | nil => rfl
  | cons x l ih =>
    simp only [List.map_cons, List.sum_cons, ih]
    ring

theorem sumOf_congr {l : List α} {sel : α → Bool} {f g : α → Int}
    (h : ∀ x ∈ l, sel x = true → f x = g x) : sumOf l sel f = sumOf l sel g := by
  rw [sumOf]
  congr 1
  apply List.map_congr_left
  intro x hx
  obtain ⟨hx, hsel⟩ := List.mem_filter.1 hx
  exact h x hx hsel

/-- The sum changes by what changes at the only element whose value changes. -/
theorem sumOf_change {l : List α} {sel : α → Bool} {f g : α → Int} {x : α} (hx : x ∈ l)
    (hnodup : l.Nodup) (h : ∀ y ∈ l, y ≠ x → f y = g y) :
    sumOf l sel g = sumOf l sel f + if sel x then g x - f x else 0 := by
  induction l with
  | nil => cases hx
  | cons y l ih =>
    obtain ⟨hy, hnodup⟩ := List.nodup_cons.1 hnodup
    have hcons : ∀ e : α → Int,
        sumOf (y :: l) sel e = (if sel y then e y else 0) + sumOf l sel e := by
      intro e
      simp only [sumOf, List.filter_cons]
      split <;> simp
    rw [hcons, hcons]
    by_cases hxy : x = y
    · subst hxy
      have hrest : sumOf l sel f = sumOf l sel g :=
        sumOf_congr fun z hz _ => h z (List.mem_cons_of_mem _ hz) fun he => hy (he ▸ hz)
      rw [hrest]
      split <;> ring
    · have hmem : x ∈ l := (List.mem_cons.1 hx).resolve_left hxy
      rw [ih hmem hnodup fun z hz => h z (List.mem_cons_of_mem _ hz),
        h y (List.mem_cons_self ..) (Ne.symm hxy)]
      ring

/-- The sum of a column over the outbox rows whose minute and account are selected. -/
def Db.reported (db : Db) (sel : Int → Account → Bool) (col : Column) : Int :=
  sumOf db.rtpOutbox (fun row => sel row.bucketMinute row.account) (·.column col)

/-- The same measure recomputed from the ledger. -/
def Db.recomputed (db : Db) (sel : Int → Account → Bool) (col : Column) : Int :=
  sumOf db.ledger (fun r => sel (minute r.createdAt) r.account)
    fun r => r.counted (db.Reversed r.actionId) col

section
variable {V V' : Db} {c : Call} {sel : Int → Account → Bool} {col : Column}
variable {action : ProcessAction} {row : ActionRow} {intent : Option IntentRow}
variable {outs : List OutboxRow} {b b' : Int} {L : Lookups} {txId : Uuid}

theorem column_applied {type : ActionType} (htype : type ≠ .rollback) (x : Uuid) (v d : Int) :
    (appliedDelta (c.claimedAt x) c.account type v).column col =
      (c.originalRow type x v d .applied).counted false col := by
  cases type with
  | bet => cases col <;> simp [appliedDelta, OutboxRow.column, ActionRow.counted, Call.originalRow]
  | win => cases col <;> simp [appliedDelta, OutboxRow.column, ActionRow.counted, Call.originalRow]
  | rollback => exact absurd rfl htype

theorem column_prerolled {type : ActionType} (htype : type ≠ .rollback) (x : Uuid) (v d : Int)
    (reversed : Bool) : (rolledBackDelta (c.claimedAt x) c.account type v).column col =
      (c.originalRow type x v d .noopPrerolled).counted reversed col := by
  cases type with
  | bet =>
    cases col <;> simp [rolledBackDelta, OutboxRow.column, ActionRow.counted, Call.originalRow]
  | win =>
    cases col <;> simp [rolledBackDelta, OutboxRow.column, ActionRow.counted, Call.originalRow]
  | rollback => exact absurd rfl htype

theorem column_rollbackCount (st : Status) (hst : st ≠ .noopAlreadyRolledBack) (r o : Uuid)
    (d : Int) (reversed : Bool) : (rollbackCountDelta (c.claimedAt r) c.account).column col =
      (c.rollbackRow r o d st).counted reversed col := by
  cases col <;> simp [rollbackCountDelta, OutboxRow.column, ActionRow.counted, Call.rollbackRow,
    hst]

theorem column_already (r o : Uuid) (d : Int) (reversed : Bool) :
    (c.rollbackRow r o d .noopAlreadyRolledBack).counted reversed col = 0 := by
  cases col <;> simp [ActionRow.counted, Call.rollbackRow]

/-- A reversal moves an original from the applied ones to the rolled-back ones. -/
theorem column_removed {w : Int} (hst : row.status = .applied) (hw : row.amount = some w)
    (htype : row.actionType ≠ .rollback) :
    (removedDelta row.createdAt row.account row.actionType (-w) w).column col =
      row.counted true col - row.counted false col := by
  cases hrow : row.actionType with
  | bet =>
    cases col <;> simp [removedDelta, OutboxRow.column, ActionRow.counted, hst, hw, hrow]
  | win =>
    cases col <;> simp [removedDelta, OutboxRow.column, ActionRow.counted, hst, hw, hrow]
  | rollback => exact absurd hrow htype

theorem counted_rollback (htype : row.actionType = .rollback) (reversed reversed' : Bool) :
    row.counted reversed col = row.counted reversed' col := by
  cases col <;> simp [ActionRow.counted, htype]

theorem Adds.reversed (ha : Adds V V' row intent outs) (x : Uuid) :
    V'.Reversed x ↔ V.Reversed x ∨
      (row.actionType = .rollback ∧ row.status = .applied ∧ row.originalActionId = some x) := by
  rw [Db.Reversed, ha.ledger]
  simp [Db.Reversed, or_and_right, exists_or]

theorem Adds.reported (ha : Adds V V' row intent outs) :
    V'.reported sel col = V.reported sel col +
      sumOf outs (fun out => sel out.bucketMinute out.account) (·.column col) := by
  rw [Db.reported, ha.rtpOutbox, sumOf_append]
  rfl

theorem Adds.recomputed (ha : Adds V V' row intent outs)
    (hnot : ¬ (row.actionType = .rollback ∧ row.status = .applied)) :
    V'.recomputed sel col = V.recomputed sel col +
      if sel (minute row.createdAt) row.account then
        row.counted (V.Reversed row.actionId) col
      else 0 := by
  have hsame : ∀ x, V'.Reversed x ↔ V.Reversed x := fun x =>
    (ha.reversed x).trans (or_iff_left fun h => hnot ⟨h.1, h.2.1⟩)
  rw [Db.recomputed, ha.ledger, sumOf_append, sumOf_single]
  simp only [hsame]
  rfl

theorem Db.Reversed.known {Q : ActionRow → ActionRow → Prop} (h : Linked Q V)
    (hV : V.Consistent) {x : Uuid} (hx : V.Reversed x) : V.Registered x ∧ V.HasIntent x := by
  obtain ⟨r, hr, htype, hst, hro⟩ := hx
  constructor
  · obtain ⟨o, ho, hro', _⟩ := h r hr htype hst
    obtain rfl := Option.some.inj (hro.symm.trans hro')
    exact ⟨o.registry, hV.registered o ho, rfl⟩
  · obtain ⟨t, ht, _, hto⟩ := hV.row_intent r hr htype (by simp [hst])
    exact ⟨t, ht, Option.some.inj (hto.symm.trans hro)⟩

theorem Adds.recomputed_reversal (ha : Adds V V' row intent outs) (hV : V.Consistent)
    {orig : ActionRow} (horig : orig ∈ V.ledger) (hnot : ¬ V.Reversed orig.actionId)
    (htype : row.actionType = .rollback) (hst : row.status = .applied)
    (hro : row.originalActionId = some orig.actionId) :
    V'.recomputed sel col = V.recomputed sel col +
      (if sel (minute orig.createdAt) orig.account then
        orig.counted true col - orig.counted false col else 0) +
      if sel (minute row.createdAt) row.account then row.counted false col else 0 := by
  rw [Db.recomputed, ha.ledger, sumOf_append, sumOf_single,
    counted_rollback htype _ false]
  congr 1
  have hyes : V'.Reversed orig.actionId := (ha.reversed _).2 (Or.inr ⟨htype, hst, hro⟩)
  rw [sumOf_change horig (List.Nodup.of_map _ hV.ledger_nodup) ?_ (f := fun r =>
    r.counted (V.Reversed r.actionId) col)]
  · simp only [hyes, hnot, decide_true, decide_false]
    rfl
  · intro r hr hne
    have hid : row.originalActionId ≠ some r.actionId := fun h =>
      hne (hV.ledger_inj hr horig (Option.some.inj (h.symm.trans hro)))
    simp only [ha.reversed, hid, and_false, or_false]

/-- A removal whose amounts are not rounded takes out what the original counts for. -/
theorem Removal.column (h : Removal c.svc row outs) (hshape : row.Shape)
    (hst : row.status = .applied)
    (hexact : sel (minute row.createdAt) row.account = true →
      ∀ v, row.amount = some v → c.svc.RoundTrips v) :
    sumOf outs (fun out => sel out.bucketMinute out.account) (·.column col) =
      if sel (minute row.createdAt) row.account then
        row.counted true col - row.counted false col else 0 := by
  cases h with
  | rollback htype => rw [counted_rollback htype true false, sub_self, ite_self]; rfl
  | @original n v htype hn hv =>
    rw [sumOf_single]
    refine if_ctx_congr Iff.rfl (fun hsel => ?_) fun _ => rfl
    cases hshape with
    | rollback htype' => exact absurd htype' htype
    | @original w _ _ hpos hamount =>
      have hround := hexact hsel w hamount
      rw [hamount] at hn hv
      obtain rfl : v = w := Option.some.inj (hv.symm.trans hround)
      obtain rfl : n = -v := Option.some.inj (hn.symm.trans (c.svc.bind_neg hround hpos))
      exact column_removed hst hamount htype

/-- The report less its recomputation from the ledger. -/
def Db.drift (db : Db) (sel : Int → Account → Bool) (col : Column) : Int :=
  db.reported sel col - db.recomputed sel col

/-- One action changes the report and the recomputation by the same amount, when the service
does not round the amount of the original that it reverses. -/
theorem Effect.drift_eq (he : Effect L V c b action row intent outs b')
    (ha : Adds V V' row intent outs) (hV : V.Consistent) (hlinked : Linked (fun _ _ => True) V)
    (hfresh : ¬ V.Registered action.actionId)
    (hexact : ∀ r o, action = .rollback r o → ∀ row ∈ V.ledger, row.actionId = o →
      sel (minute row.createdAt) row.account = true →
      ∀ v, row.amount = some v → c.svc.RoundTrips v) :
    V'.drift sel col = V.drift sel col := by
  have hsame : ∀ {d : Int}, V'.recomputed sel col = V.recomputed sel col + d →
      sumOf outs (fun out => sel out.bucketMinute out.account) (·.column col) = d →
      V'.drift sel col = V.drift sel col := by
    intro d hrec houts
    rw [Db.drift, ha.reported, hrec, houts, Db.drift]
    ring
  cases he with
  | @applied _ type x amount v horiginal =>
    have hnot : ¬ V.Reversed x := fun hx =>
      hfresh (horiginal.actionId_eq ▸ (hx.known hlinked hV).1)
    apply hsame (ha.recomputed (by simp [Call.originalRow, horiginal.type_ne]))
    rw [sumOf_single, column_applied horiginal.type_ne x v (signed type v)]
    simp only [Call.originalRow, hnot, decide_false]
    rfl
  | @prerolled _ type x amount v horiginal =>
    apply hsame (ha.recomputed (by simp [Call.originalRow]))
    rw [sumOf_single, column_prerolled horiginal.type_ne x v 0]
    rfl
  | already =>
    apply hsame (ha.recomputed (by simp [Call.rollbackRow]))
    rw [column_already, ite_self]
    rfl
  | tombstone =>
    apply hsame (ha.recomputed (by simp [Call.rollbackRow]))
    rw [sumOf_single, column_rollbackCount .noopTombstone (by simp) _ _ 0]
    rfl
  | notApplied =>
    apply hsame (ha.recomputed (by simp [Call.rollbackRow]))
    rw [sumOf_single, column_rollbackCount .noopOriginalNotApplied (by simp) _ _ 0]
    rfl
  | @reversed r o orig d outs hno hrow hid hst hne _ hd hremoval =>
    subst hid
    have hnot : ¬ V.Reversed orig.actionId := fun hx => hno (hx.known hlinked hV).2
    apply hsame ((ha.recomputed_reversal hV hrow hnot rfl rfl rfl).trans (add_assoc ..))
    rw [sumOf_append, hremoval.column (hV.shape _ hrow) hst (hexact r _ rfl orig hrow rfl),
      sumOf_single, column_rollbackCount .applied (by simp) _ _ d]
    rfl

theorem Stepped.drift_eq (hs : Stepped L V V' c b action b' txId) (hV : V.Consistent)
    (hlinked : Linked (fun _ _ => True) V)
    (hexact : ∀ r o, action = .rollback r o → ∀ row ∈ V.ledger, row.actionId = o →
      sel (minute row.createdAt) row.account = true →
      ∀ v, row.amount = some v → c.svc.RoundTrips v) :
    V'.drift sel col = V.drift sel col := by
  cases hs with
  | duplicate _ _ hV' => rw [hV']
  | fresh hfresh he ha => exact he.drift_eq ha hV hlinked hfresh hexact

end

/-- A minute and an account. -/
def atKey (m : Int) (a : Account) : Int → Account → Bool := fun m' a' => m' = m ∧ a' = a

/-- No amount of the ledger at that minute and account is rounded by a service that gets a
rollback of its action. -/
def Db.Unrounded (db : Db) (calls : List Call) (m : Int) (a : Account) : Prop :=
  ∀ r ∈ db.ledger, minute r.createdAt = m → r.account = a → ∀ v ∈ r.amount,
    ∀ c ∈ calls, c.RollsBack r.actionId → c.svc.RoundTrips v

instance (db : Db) (calls : List Call) (m : Int) (a : Account) :
    Decidable (db.Unrounded calls m a) :=
  inferInstanceAs (Decidable (∀ r ∈ db.ledger, _ → _ → ∀ v ∈ r.amount, ∀ c ∈ calls,
    _ → c.svc.bind (c.svc.load v) = some v))

/-- The outbox is an exact incremental view of the ledger: at every minute and account whose
amounts no reversal rounds, its sums are what the ledger gives. -/
theorem reported_eq_recomputed {db₀ : Db} (h₀ : db₀.Initial) (calls : List Call) (m : Int)
    (a : Account) (hexact : (db₀.after calls).Unrounded calls m a) (col : Column) :
    (db₀.after calls).reported (atKey m a) col = (db₀.after calls).recomputed (atKey m a) col := by
  have hall := Db.after_invariant db₀ calls (P := fun V => V.Consistent ∧
    Linked (fun _ _ => True) V ∧ (V.Unrounded calls m a → V.drift (atKey m a) col = 0))
    ⟨h₀.consistent, Linked.initial h₀, fun _ => ?_⟩ ?_
  · exact sub_eq_zero.1 (hall.2.2 hexact)
  · rw [Db.drift, Db.reported, Db.recomputed, h₀.ledger, h₀.rtpOutbox]
    rfl
  · rintro db c ws resp hc ⟨hcons, hlinked, hdrift⟩ hcommit
    refine hcommit.tables (P := fun _ V => Linked (fun _ _ => True) V ∧
      (V.Unrounded calls m a → V.drift (atKey m a) col = 0))
      (stable_now db) (sees_now _ _) hcons ⟨hlinked, hdrift⟩ (fun h => h) ?_
    rintro pre action post V V' b b' txId heq hV _ _ ⟨hlinked, hdrift⟩ hst
    refine ⟨hlinked.stepped hst fun _ _ _ _ _ _ _ _ => trivial, fun hexact => ?_⟩
    rw [hst.drift_eq hV hlinked]
    · exact hdrift fun r hr => hexact r (hst.ledger.subset hr)
    · intro r o haction row hrow hid hsel v hv
      have hkey : minute row.createdAt = m ∧ row.account = a := by simpa [atKey] using hsel
      have hmem : action ∈ c.actions := heq ▸ List.mem_append_right _ (List.mem_cons_self ..)
      exact hexact row (hst.ledger.subset hrow) hkey.1 hkey.2 v hv c hc
        ⟨action, hmem, by rw [haction, hid]; rfl⟩

/-- A rounded amount leaves the report for good: a bet that one service takes exactly and the
other reverses as the next Number. -/
theorem reported_rounded : ∃ db₀ calls m a col, db₀.Initial ∧
    (Db.after db₀ calls).reported (atKey m a) col ≠
      (Db.after db₀ calls).recomputed (atKey m a) col :=
  ⟨⟨[⟨⟨"a", "USD"⟩, 2 ^ 54⟩], [], [], [], []⟩,
    [dollars rust "a" [.bet 1 (2 ^ 53 + 1)], dollars typescript "a" [.rollback 2 1]],
    0, ⟨"a", "USD"⟩, .totalBet, ⟨by decide, by decide, rfl, rfl, rfl, rfl⟩, by decide +kernel⟩

/-- A bet of each service, and the rollback of one by the other. -/
theorem reported_after_rollback : (twoUsers.after
    [dollars typescript "a" [.bet 1 60], dollars rust "a" [.bet 2 7, .rollback 3 1]]).reported
      (atKey 0 ⟨"a", "USD"⟩) .totalBet = (twoUsers.after [dollars typescript "a" [.bet 1 60],
        dollars rust "a" [.bet 2 7, .rollback 3 1]]).recomputed (atKey 0 ⟨"a", "USD"⟩) .totalBet :=
  reported_eq_recomputed twoUsers_initial _ 0 ⟨"a", "USD"⟩ (by decide +kernel) .totalBet

end BetProcessor
