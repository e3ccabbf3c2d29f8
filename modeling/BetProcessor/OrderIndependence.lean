import BetProcessor.Settlement

namespace BetProcessor
set_option autoImplicit true
open Txn

/-- The action that a ledger row records. -/
def ActionRow.sent (r : ActionRow) : ProcessAction :=
  match r.actionType with
  | .bet => .bet r.actionId (r.amount.getD 0)
  | .win => .win r.actionId (r.amount.getD 0)
  | .rollback => .rollback r.actionId (r.originalActionId.getD 0)

/-- A set of actions that the state `db` does not know: their ids are distinct, and a rollback
targets a bet or win of the set or an id that no action of the set has. -/
structure Unseen (db : Db) (S : List ProcessAction) : Prop where
  distinct : (S.map ProcessAction.actionId).Nodup
  originals : ∀ o ∈ targets S, ∀ action ∈ S, action.actionId = o → action.target? = none
  positive : ∀ action ∈ S, ∀ v ∈ action.amount?, 0 < v
  fresh : ∀ action ∈ S, ¬ db.Registered action.actionId ∧ ¬ db.HasIntent action.actionId
  targets_fresh : ∀ o ∈ targets S, ¬ db.Registered o ∧ ¬ db.HasIntent o

/-- The balance and the wins of the set stay within the bound, and so does every bet. -/
structure Within (N balance : Int) (S : List ProcessAction) : Prop where
  nonneg : 0 ≤ balance
  wins : balance + winnings S ≤ N
  bets : ∀ x v, .bet x v ∈ S → v ≤ N

/-- The state `V` is `db` after the actions that the rows `rows` record: it is what the set of
these actions comes to, in whatever order they arrived. -/
structure Settled (db : Db) (a : Account) (S : List ProcessAction) (V : Db)
    (rows : List ActionRow) : Prop where
  ledger : V.ledger = db.ledger ++ rows
  account : ∀ r ∈ rows, r.account = a
  sent : ∀ r ∈ rows, r.sent ∈ S
  hasIntent : ∀ o, V.HasIntent o ↔ db.HasIntent o ∨ o ∈ targets (rows.map ActionRow.sent)
  prerolled : ∀ r ∈ rows, r.status = .noopPrerolled → V.HasIntent r.actionId
  reported : ∀ col, V.reported (ofAccount a) col =
    db.reported (ofAccount a) col + settlement (rows.map ActionRow.sent) col

/-- The balance in memory is what the rows come to. -/
structure Balanced (b₀ : Int) (rows : List ActionRow) (b : Int) : Prop where
  nonneg : 0 ≤ b
  eq : b = b₀ + settledNet (rows.map ActionRow.sent)

theorem ActionRow.sent_actionId (r : ActionRow) : r.sent.actionId = r.actionId := by
  rw [ActionRow.sent]
  split <;> rfl

theorem map_sent_actionId (rows : List ActionRow) :
    (rows.map ActionRow.sent).map ProcessAction.actionId = rows.map (·.actionId) := by
  rw [List.map_map]
  apply List.map_congr_left
  intro r _
  exact r.sent_actionId

theorem winAmount_le_winnings {S : List ProcessAction} {action : ProcessAction}
    (hpos : ∀ action ∈ S, ∀ v ∈ action.amount?, 0 < v)
    (h : action ∈ S) : action.winAmount ≤ winnings S := by
  apply List.single_le_sum
  · intro v hv
    obtain ⟨a, ha, rfl⟩ := List.mem_map.1 hv
    cases a with
    | bet => exact le_refl _
    | win x v => exact le_of_lt (hpos _ ha v rfl)
    | rollback => exact le_refl _
  · exact List.mem_map_of_mem h

section
variable {db V V' : Db} {a : Account} {S : List ProcessAction} {rows : List ActionRow}
variable {N b₀ b b' : Int} {c : Call} {action : ProcessAction} {txId : Uuid}
variable {row : ActionRow} {intent : Option IntentRow} {outs : List OutboxRow}

theorem Unseen.amount_le (hS : Unseen db S) (hN : Within N b₀ S) {type : ActionType} {x : Uuid}
    {amount : Int} (horiginal : action.IsOriginal type x amount) (h : action ∈ S) :
    0 < amount ∧ |amount| ≤ N := by
  have hpos : 0 < amount := by
    cases horiginal with
    | bet => exact hS.positive _ h amount rfl
    | win => exact hS.positive _ h amount rfl
  constructor
  · exact hpos
  · rw [abs_of_pos hpos]
    cases horiginal with
    | bet => exact hN.bets x amount h
    | win =>
      have hwin : amount ≤ winnings S := winAmount_le_winnings hS.positive h
      have hbound := hN.wins
      have hnonneg := hN.nonneg
      omega

namespace Settled

theorem initial (db : Db) (a : Account) (S : List ProcessAction) : Settled db a S db [] where
  ledger := (List.append_nil _).symm
  account := by simp
  sent := by simp
  hasIntent := by simp [targets]
  prerolled := by simp
  reported := by
    intro col
    simp [settlement, sumOf, targets]

theorem nodup (h : Settled db a S V rows) (hV : V.Consistent) :
    ((rows.map ActionRow.sent).map ProcessAction.actionId).Nodup := by
  have hnodup := hV.ledger_nodup
  rw [h.ledger, List.map_append] at hnodup
  rw [map_sent_actionId]
  exact (List.nodup_append.1 hnodup).2.1

theorem subset (h : Settled db a S V rows) : rows.map ActionRow.sent ⊆ S := by
  intro action haction
  obtain ⟨r, hr, rfl⟩ := List.mem_map.1 haction
  exact h.sent r hr

/-- A row of an id that `db` did not know is one of the new rows. -/
theorem mem_rows (h : Settled db a S V rows) (hdb : db.Consistent) {o : Uuid}
    (ho : ¬ db.Registered o) (hrow : row ∈ V.ledger) (hid : row.actionId = o) : row ∈ rows := by
  rw [h.ledger] at hrow
  apply (List.mem_append.1 hrow).resolve_left
  intro hold
  exact ho ⟨row.registry, hdb.registered row hold, hid⟩

/-- The target of a rollback of the set is a bet or win as it was sent. -/
theorem original (h : Settled db a S V rows) (hS : Unseen db S) (hV : V.Consistent)
    (hrow : row ∈ rows) (htarget : row.actionId ∈ targets S) :
    ∃ v, 0 < v ∧ row.amount = some v ∧ row.sent.IsOriginal row.actionType row.actionId v ∧
      ((row.status = .applied ∧ row.balanceDelta = signed row.actionType v) ∨
        row.status = .noopPrerolled) := by
  have hnone := hS.originals _ htarget _ (h.sent row hrow) row.sent_actionId
  have hmem : row ∈ V.ledger := h.ledger ▸ List.mem_append_right _ hrow
  cases hV.shape row hmem with
  | rollback htype => simp [ActionRow.sent, htype, ProcessAction.target?] at hnone
  | @original v htype _ hpos hamount hstatus =>
    refine ⟨v, hpos, hamount, ?_, hstatus.imp_right And.left⟩
    cases hrow : row.actionType with
    | bet =>
      simp only [ActionRow.sent, hrow, hamount]
      exact .bet
    | win =>
      simp only [ActionRow.sent, hrow, hamount]
      exact .win
    | rollback => exact absurd hrow htype

end Settled

theorem Settled.snoc (h : Settled db a S V rows) (he : Effect .now V c b action row intent outs b')
    (ha : Adds V V' row intent outs) (hacc : c.account = a) (hsent : row.sent = action)
    (haction : action ∈ S)
    (hintent : ∀ o, V'.HasIntent o ↔ V.HasIntent o ∨ action.target? = some o)
    (hprerolled : row.status = .noopPrerolled → V.HasIntent row.actionId)
    (hreported : ∀ col, V'.reported (ofAccount a) col = V.reported (ofAccount a) col +
      (settlement (rows.map ActionRow.sent ++ [action]) col -
        settlement (rows.map ActionRow.sent) col)) : Settled db a S V' (rows ++ [row]) := by
  have hmap : (rows ++ [row]).map ActionRow.sent = rows.map ActionRow.sent ++ [action] := by
    rw [List.map_append, List.map_singleton, hsent]
  constructor
  · rw [ha.ledger, h.ledger, List.append_assoc]
  · intro r hr
    rcases List.mem_append.1 hr with hr | hr
    · exact h.account r hr
    · rw [List.mem_singleton.1 hr, he.account, hacc]
  · intro r hr
    rcases List.mem_append.1 hr with hr | hr
    · exact h.sent r hr
    · rw [List.mem_singleton.1 hr, hsent]
      exact haction
  · intro o
    rw [hintent, h.hasIntent, hmap, targets_append, List.mem_append, or_assoc]
    simp [targets]
  · intro r hr hst
    rw [hintent]
    rcases List.mem_append.1 hr with hr | hr
    · exact Or.inl (h.prerolled r hr hst)
    · rw [List.mem_singleton.1 hr] at hst ⊢
      exact Or.inl (hprerolled hst)
  · intro col
    rw [hreported, h.reported, hmap]
    ring

theorem Adds.hasIntent (ha : Adds V V' row intent outs) (o : Uuid) :
    V'.HasIntent o ↔ V.HasIntent o ∨ ∃ t ∈ intent, t.originalActionId = o := by
  rw [Db.HasIntent, ha.rollbackIntents]
  simp [Db.HasIntent, or_and_right, exists_or]

theorem Adds.reported_account (ha : Adds V V' row intent outs) (a : Account)
    (houts : ∀ out ∈ outs, out.account = a) (col : Column) :
    V'.reported (ofAccount a) col =
      V.reported (ofAccount a) col + (outs.map (·.column col)).sum := by
  rw [ha.reported, sumOf, List.filter_eq_self.2]
  intro out hout
  simp [ofAccount, houts out hout]

theorem settled_applied {type : ActionType} {x : Uuid} {v : Int}
    (h : action.IsOriginal type x v) (t : Int) (a : Account) (col : Column) :
    (appliedDelta t a type v).column col = action.settled false col := by
  cases h <;> cases col <;> rfl

theorem settled_rolledBack {type : ActionType} {x : Uuid} {v : Int}
    (h : action.IsOriginal type x v) (t : Int) (a : Account) (col : Column) :
    (rolledBackDelta t a type v).column col = action.settled true col := by
  cases h <;> cases col <;> rfl

theorem settled_removed {type : ActionType} {x : Uuid} {v : Int}
    (h : action.IsOriginal type x v) (t : Int) (a : Account) (col : Column) :
    (removedDelta t a type (-v) v).column col =
      action.settled true col - action.settled false col := by
  cases h <;> cases col <;> simp [removedDelta, OutboxRow.column, ProcessAction.settled]

theorem column_rollbackCountDelta (t : Int) (a : Account) (col : Column) :
    (rollbackCountDelta t a).column col = if col = .rollbackCount then 1 else 0 := by
  cases col <;> rfl

theorem signed_settled {type : ActionType} {x : Uuid} {v : Int}
    (h : action.IsOriginal type x v) :
    signed type v = action.settled false .totalWin - action.settled false .totalBet := by
  cases h <;> simp [signed, ProcessAction.settled]

theorem settledNet_original {T : List ProcessAction} (h : action.target? = none) :
    settledNet (T ++ [action]) = settledNet T +
      (action.settled (action.actionId ∈ targets T) .totalWin -
        action.settled (action.actionId ∈ targets T) .totalBet) := by
  rw [settledNet, settlement_original h, settlement_original h, settledNet]
  ring

theorem ProcessAction.IsOriginal.target? {type : ActionType} {x : Uuid} {v : Int}
    (h : action.IsOriginal type x v) : action.target? = none := by
  cases h <;> rfl

theorem settledNet_again {T : List ProcessAction} {r o : Uuid} (h : o ∈ targets T) :
    settledNet (T ++ [.rollback r o]) = settledNet T := by
  rw [settledNet, settlement_again h, settlement_again h, settledNet]

theorem settledNet_tombstone {T : List ProcessAction} {r o : Uuid} (h : o ∉ targets T)
    (hnone : ∀ a ∈ T, a.actionId ≠ o) : settledNet (T ++ [.rollback r o]) = settledNet T := by
  rw [settledNet, settlement_tombstone h hnone, settlement_tombstone h hnone, settledNet]
  simp

theorem settledNet_reversal {T : List ProcessAction} {r : Uuid} {type : ActionType} {x : Uuid}
    {v : Int} (hnodup : (T.map ProcessAction.actionId).Nodup) (haction : action ∈ T)
    (horiginal : action.IsOriginal type x v) (h : action.actionId ∉ targets T) :
    settledNet (T ++ [.rollback r action.actionId]) = settledNet T - signed type v := by
  rw [settledNet, settlement_reversal hnodup haction h, settlement_reversal hnodup haction h,
    settledNet, signed_settled horiginal]
  cases horiginal <;> simp [ProcessAction.settled] <;> ring

theorem abs_signed (type : ActionType) (v : Int) : |signed type v| = |v| := by
  rw [signed]
  split
  · exact abs_neg v
  · rfl

theorem Service.ExactTo.originalDelta {svc : Service} (h : svc.ExactTo N) {type : ActionType}
    {v : Int} (hv : |v| ≤ N) : originalDelta svc type v = signed type v := by
  unfold BetProcessor.originalDelta signed
  split
  · exact h.neg hv
  · rfl

theorem Removal.exact {svc : Service} (h : Removal svc row outs) (hexact : svc.ExactTo N)
    {v : Int} (htype : row.actionType ≠ .rollback) (hamount : row.amount = some v)
    (hv : |v| ≤ N) : outs = [removedDelta row.createdAt row.account row.actionType (-v) v] := by
  cases h with
  | rollback htype' => exact absurd htype' htype
  | @original n v' _ hn hv' =>
    have hload : (row.amount.map svc.load).getD 0 = v := by
      rw [hamount]
      exact hexact.load hv
    rw [hload, hexact.bind hv] at hv'
    rw [hload, hexact.neg hv, hexact.bind (by rwa [abs_neg])] at hn
    cases hv'
    cases hn
    rfl

/-- The money after any set of the actions stays within the bound. -/
theorem Settled.net_le (h : Settled db a S V rows) (hV : V.Consistent) (hS : Unseen db S)
    (hN : Within N b₀ S) : b₀ + settledNet (rows.map ActionRow.sent) ≤ N := by
  have hle := settledNet_le (List.Nodup.of_map _ (h.nodup hV)) h.subset hS.positive
  have hwins := hN.wins
  omega

theorem Settled.targeted (h : Settled db a S V rows) {x : Uuid} (hx : ¬ db.HasIntent x) :
    x ∈ targets (rows.map ActionRow.sent) ↔ V.HasIntent x := by
  rw [h.hasIntent, or_iff_right hx]

theorem Balanced.snoc (hb : Balanced b₀ rows b) {d : Int} (hnonneg : 0 ≤ b')
    (hsum : b' = b + d) (hnet : settledNet (rows.map ActionRow.sent ++ [row.sent]) =
      settledNet (rows.map ActionRow.sent) + d) : Balanced b₀ (rows ++ [row]) b' := by
  refine ⟨hnonneg, ?_⟩
  rw [List.map_append, List.map_singleton, hnet, hsum, hb.eq]
  ring

section
variable (h : Settled db a S V rows) (hb : Balanced b₀ rows b) (hdb : db.Consistent)
variable (hV : V.Consistent) (hS : Unseen db S) (hN : Within N b₀ S) (hexact : c.svc.ExactTo N)
variable (hacc : c.account = a) (haction : action ∈ S)
include h hb hV hS hN hexact hacc haction

theorem Settled.applied {type : ActionType} {x : Uuid} {v amount : Int}
    (horiginal : action.IsOriginal type x amount) (hfresh : ¬ V.Registered action.actionId)
    (he : Effect .now V c b action (c.originalRow type x v (signed type v) .applied) none
      [appliedDelta (c.claimedAt x) c.account type v] b')
    (ha : Adds V V' (c.originalRow type x v (signed type v) .applied) none
      [appliedDelta (c.claimedAt x) c.account type v])
    (hno : ¬ V.HasIntent x) (hv : c.svc.bind amount = some v)
    (hnonneg : 0 ≤ c.svc.add b (originalDelta c.svc type amount)) :
    ∃ rows', Settled db a S V' rows' ∧
      Balanced b₀ rows' (c.svc.add b (originalDelta c.svc type amount)) := by
  obtain ⟨hpos, hle⟩ := hS.amount_le hN horiginal haction
  obtain rfl : v = amount := Option.some.inj (hv.symm.trans (hexact.bind hle))
  have hid := horiginal.actionId_eq
  have hsent : (c.originalRow type x v (signed type v) .applied).sent = action := by
    cases horiginal <;> rfl
  have hnot : x ∉ targets (rows.map ActionRow.sent) := by
    rwa [h.targeted (hid ▸ (hS.fresh action haction).2)]
  have hsettled := h.snoc he ha hacc hsent haction (by simp [ha.hasIntent, horiginal.target?])
    (by simp [Call.originalRow]) fun col => by
      rw [ha.reported_account a (by simp [appliedDelta, hacc]), settlement_original
        horiginal.target?, hid, List.map_singleton, List.sum_singleton,
        settled_applied horiginal]
      simp [hnot]
  have hnet : settledNet (rows.map ActionRow.sent ++ [action]) =
      settledNet (rows.map ActionRow.sent) + signed type v := by
    rw [settledNet_original horiginal.target?, hid, signed_settled horiginal]
    simp [hnot]
  have hsum : |b + signed type v| ≤ N := by
    have hupper := hsettled.net_le (hV.adds hfresh he ha) hS hN
    rw [List.map_append, List.map_singleton, hsent, hnet] at hupper
    have hlower := abs_le.1 ((abs_signed type v).trans_le hle)
    have hb₀ := hb.nonneg
    have hbeq := hb.eq
    rw [abs_le]
    omega
  rw [hexact.originalDelta hle] at hnonneg ⊢
  exact ⟨_, hsettled, hb.snoc hnonneg (hexact.add hsum) (by rw [hsent, hnet])⟩

theorem Settled.prerolled_step {type : ActionType} {x : Uuid} {v amount : Int}
    (horiginal : action.IsOriginal type x amount)
    (he : Effect .now V c b action (c.originalRow type x v 0 .noopPrerolled) none
      [rolledBackDelta (c.claimedAt x) c.account type v] b')
    (ha : Adds V V' (c.originalRow type x v 0 .noopPrerolled) none
      [rolledBackDelta (c.claimedAt x) c.account type v])
    (hseen : V.HasIntent x) (hv : c.svc.bind amount = some v) (hnonneg : 0 ≤ c.svc.add b 0) :
    ∃ rows', Settled db a S V' rows' ∧ Balanced b₀ rows' (c.svc.add b 0) := by
  obtain ⟨hpos, hle⟩ := hS.amount_le hN horiginal haction
  obtain rfl : v = amount := Option.some.inj (hv.symm.trans (hexact.bind hle))
  have hid := horiginal.actionId_eq
  have hsent : (c.originalRow type x v 0 .noopPrerolled).sent = action := by
    cases horiginal <;> rfl
  have hmem : x ∈ targets (rows.map ActionRow.sent) := by
    rwa [h.targeted (hid ▸ (hS.fresh action haction).2)]
  have hsettled := h.snoc he ha hacc hsent haction (by simp [ha.hasIntent, horiginal.target?])
    (fun _ => hseen) fun col => by
      rw [ha.reported_account a (by simp [rolledBackDelta, hacc]), settlement_original
        horiginal.target?, hid, List.map_singleton, List.sum_singleton,
        settled_rolledBack horiginal]
      simp [hmem]
  have hnet : settledNet (rows.map ActionRow.sent ++ [action]) =
      settledNet (rows.map ActionRow.sent) + 0 := by
    rw [settledNet_original horiginal.target?, hid]
    cases horiginal <;> simp [hmem, ProcessAction.settled]
  have hsum : |b + 0| ≤ N := by
    have hupper := h.net_le hV hS hN
    have hb₀ := hb.nonneg
    have hbeq := hb.eq
    rw [abs_le]
    omega
  exact ⟨_, hsettled, hb.snoc hnonneg (hexact.add hsum) (by rw [hsent, hnet])⟩

omit hV hN hexact in
theorem Settled.already {r o : Uuid} (heq : action = .rollback r o)
    (he : Effect .now V c b action (c.rollbackRow r o 0 .noopAlreadyRolledBack) none [] b)
    (ha : Adds V V' (c.rollbackRow r o 0 .noopAlreadyRolledBack) none [])
    (hseen : V.HasIntent o) : ∃ rows', Settled db a S V' rows' ∧ Balanced b₀ rows' b := by
  subst heq
  have hmem : o ∈ targets (rows.map ActionRow.sent) := by
    rwa [h.targeted (hS.targets_fresh o (mem_targets.2 ⟨r, haction⟩)).2]
  have hintent : ∀ o', V'.HasIntent o' ↔
      V.HasIntent o' ∨ (ProcessAction.rollback r o).target? = some o' := by
    intro o'
    rw [ha.hasIntent]
    constructor
    · intro hx
      exact Or.inl (hx.resolve_right (by simp))
    · intro hx
      rcases hx with hx | hx
      · exact Or.inl hx
      · cases hx
        exact Or.inl hseen
  have hsettled := h.snoc he ha hacc rfl haction hintent (by simp [Call.rollbackRow])
    fun col => by
      rw [ha.reported_account a (by simp), settlement_again hmem]
      simp
  refine ⟨_, hsettled, hb.snoc hb.nonneg (add_zero b).symm ?_⟩
  rw [add_zero]
  exact settledNet_again hmem

omit hV hN hexact in
theorem Settled.tombstone {r o : Uuid} (heq : action = .rollback r o)
    (he : Effect .now V c b action (c.rollbackRow r o 0 .noopTombstone)
      (some ⟨o, r, c.account⟩) [rollbackCountDelta (c.claimedAt r) c.account] b)
    (ha : Adds V V' (c.rollbackRow r o 0 .noopTombstone) (some ⟨o, r, c.account⟩)
      [rollbackCountDelta (c.claimedAt r) c.account])
    (hno : ¬ V.HasIntent o) (hnone : ∀ row ∈ V.ledger, row.actionId ≠ o) :
    ∃ rows', Settled db a S V' rows' ∧ Balanced b₀ rows' b := by
  subst heq
  have hnot : o ∉ targets (rows.map ActionRow.sent) := by
    rwa [h.targeted (hS.targets_fresh o (mem_targets.2 ⟨r, haction⟩)).2]
  have hids : ∀ a ∈ rows.map ActionRow.sent, a.actionId ≠ o := by
    intro action haction
    obtain ⟨row, hrow, rfl⟩ := List.mem_map.1 haction
    rw [row.sent_actionId]
    exact hnone row (h.ledger ▸ List.mem_append_right _ hrow)
  have hsettled := h.snoc he ha hacc rfl haction
    (by simp [ha.hasIntent, ProcessAction.target?]) (by simp [Call.rollbackRow]) fun col => by
      rw [ha.reported_account a (by simp [rollbackCountDelta, hacc]),
        settlement_tombstone hnot hids, List.map_singleton, List.sum_singleton,
        column_rollbackCountDelta]
      ring
  refine ⟨_, hsettled, hb.snoc hb.nonneg (add_zero b).symm ?_⟩
  rw [add_zero]
  exact settledNet_tombstone hnot hids

omit hb hacc in
include hdb in
/-- A target that has come and is not rolled back yet is an applied bet or win. -/
theorem Settled.found {r o : Uuid} {orig : ActionRow} (heq : action = .rollback r o)
    (hno : ¬ V.HasIntent o) (hrow : orig ∈ V.ledger) (hid : orig.actionId = o) :
    orig ∈ rows ∧ ∃ v, |v| ≤ N ∧ orig.amount = some v ∧
      orig.sent.IsOriginal orig.actionType orig.actionId v ∧ orig.status = .applied ∧
      orig.balanceDelta = signed orig.actionType v ∧
      c.svc.load orig.balanceDelta = signed orig.actionType v ∧ signed orig.actionType v ≠ 0 := by
  subst heq
  have htarget := mem_targets.2 ⟨r, haction⟩
  have hmem := h.mem_rows hdb (hS.targets_fresh o htarget).1 hrow hid
  obtain ⟨v, hpos, hamount, horiginal, hstatus⟩ := h.original hS hV hmem (hid ▸ htarget)
  obtain ⟨_, hle⟩ := hS.amount_le hN horiginal (h.sent orig hmem)
  have hsigned : |signed orig.actionType v| ≤ N := (abs_signed _ v).trans_le hle
  have hne : signed orig.actionType v ≠ 0 := by
    rw [← abs_pos, abs_signed, abs_pos]
    omega
  rcases hstatus with ⟨hst, hdelta⟩ | hst
  · exact ⟨hmem, v, hle, hamount, horiginal, hst, hdelta, by rw [hdelta, hexact.load hsigned],
      hne⟩
  · exact absurd (hid ▸ h.prerolled orig hmem hst) hno

include hdb in
theorem Settled.reversed {r o : Uuid} {orig : ActionRow} {d : Int}
    (heq : action = .rollback r o) (hfresh : ¬ V.Registered action.actionId)
    (he : Effect .now V c b action (c.rollbackRow r o d .applied) (some ⟨o, r, c.account⟩)
      (outs ++ [rollbackCountDelta (c.claimedAt r) c.account]) b')
    (ha : Adds V V' (c.rollbackRow r o d .applied) (some ⟨o, r, c.account⟩)
      (outs ++ [rollbackCountDelta (c.claimedAt r) c.account]))
    (hno : ¬ V.HasIntent o) (hrow : orig ∈ V.ledger) (hid : orig.actionId = o)
    (hnonneg : 0 ≤ c.svc.add b (c.svc.neg (c.svc.load orig.balanceDelta)))
    (hremoval : Removal c.svc orig outs) :
    ∃ rows', Settled db a S V' rows' ∧
      Balanced b₀ rows' (c.svc.add b (c.svc.neg (c.svc.load orig.balanceDelta))) := by
  obtain ⟨hmem, v, hle, hamount, horiginal, _, _, hload, _⟩ :=
    h.found hdb hV hS hN hexact haction heq hno hrow hid
  subst heq
  subst hid
  have hnot : orig.sent.actionId ∉ targets (rows.map ActionRow.sent) := by
    rwa [orig.sent_actionId,
      h.targeted (hS.targets_fresh _ (mem_targets.2 ⟨r, haction⟩)).2]
  have horig : orig.sent ∈ rows.map ActionRow.sent := List.mem_map_of_mem hmem
  have hsent : (c.rollbackRow r orig.actionId d .applied).sent =
      .rollback r orig.sent.actionId := by
    rw [orig.sent_actionId]
    rfl
  obtain rfl := hremoval.exact hexact horiginal.type_ne hamount hle
  have hsettled := h.snoc he ha hacc rfl haction
    (by simp [ha.hasIntent, ProcessAction.target?]) (by simp [Call.rollbackRow]) fun col => by
      rw [ha.reported_account a (by simp [rollbackCountDelta, removedDelta, hacc,
        h.account orig hmem]), ← orig.sent_actionId, settlement_reversal (h.nodup hV) horig hnot]
      simp only [List.cons_append, List.nil_append, List.map_cons, List.map_nil, List.sum_cons,
        List.sum_nil, settled_removed horiginal, column_rollbackCountDelta]
      ring
  have hnet : settledNet (rows.map ActionRow.sent ++ [.rollback r orig.sent.actionId]) =
      settledNet (rows.map ActionRow.sent) + -signed orig.actionType v := by
    rw [settledNet_reversal (h.nodup hV) horig horiginal hnot]
    ring
  have hneg : c.svc.neg (signed orig.actionType v) = -signed orig.actionType v :=
    hexact.neg ((abs_signed _ v).trans_le hle)
  have hsum : |b + -signed orig.actionType v| ≤ N := by
    have hupper := hsettled.net_le (hV.adds hfresh he ha) hS hN
    rw [List.map_append, List.map_singleton, hsent, hnet] at hupper
    have hlower := abs_le.1 ((abs_signed orig.actionType v).trans_le hle)
    have hb₀ := hb.nonneg
    have hbeq := hb.eq
    rw [abs_le]
    omega
  rw [hload, hneg] at hnonneg ⊢
  exact ⟨_, hsettled, hb.snoc hnonneg (hexact.add hsum) (by rw [hsent, hnet])⟩

include hdb in
/-- One action of the set, sent for the first time or again, keeps the state settled. -/
theorem Settled.step (hs : Stepped .now V V' c b action b' txId) :
    ∃ rows', Settled db a S V' rows' ∧ Balanced b₀ rows' b' := by
  cases hs with
  | duplicate _ _ hV' => exact ⟨rows, hV' ▸ h, hb⟩
  | fresh hfresh he ha =>
    have he' := he
    cases he with
    | applied horiginal hno hv hpos hb' =>
      exact h.applied hb hV hS hN hexact hacc haction horiginal hfresh he' ha hno hv hb'
    | prerolled horiginal hseen hv hpos hb' =>
      exact h.prerolled_step hb hV hS hN hexact hacc haction horiginal he' ha hseen hv hb'
    | already hseen => exact h.already hb hS hacc haction rfl he' ha hseen
    | tombstone hno hnone => exact h.tombstone hb hS hacc haction rfl he' ha hno hnone
    | notApplied hno hrow hid hna =>
      obtain ⟨_, v, _, _, _, hst, _, hload, hne⟩ :=
        h.found hdb hV hS hN hexact haction rfl hno hrow hid
      rw [hload] at hna
      exact absurd hna (by simp [hst, hne])
    | reversed hno hrow hid _ _ hb' _ hremoval =>
      exact h.reversed hb hdb hV hS hN hexact hacc haction rfl hfresh he' ha hno hrow hid hb'
        hremoval

end

theorem Settled.accounts (h : Settled db a S V rows) (accounts : List AccountRow) :
    Settled db a S { V with accounts } rows :=
  ⟨h.ledger, h.account, h.sent, h.hasIntent, h.prerolled, h.reported⟩

theorem Settled.commit (h : Settled db a S V rows) (hb : Balanced b₀ rows (V.balance a))
    (hdb : db.Consistent) (hV : V.Consistent) (hS : Unseen db S) (hN : Within N b₀ S)
    (hexact : c.svc.ExactTo N) (hacc : c.account = a) (hactions : c.actions ⊆ S)
    {ws : List Write} {resp : ProcessResponse} (hc : Committed (Now V) c ws resp) :
    (postgres.view V ws).Consistent ∧
      (∃ rows', Settled db a S (postgres.view V ws) rows' ∧
        Balanced b₀ rows' ((postgres.view V ws).balance a)) ∧
      V.actionRegistry <+: (postgres.view V ws).actionRegistry ∧
      ∀ action ∈ c.actions, (postgres.view V ws).Registered action.actionId := by
  have hsmall : ∀ {V rows b}, Settled db a S V rows → V.Consistent → Balanced b₀ rows b →
      |b| ≤ N := by
    intro V rows b h hV hb
    have hupper := h.net_le hV hS hN
    have hnonneg := hb.nonneg
    have heq := hb.eq
    rw [abs_le]
    omega
  have hload : c.svc.load (V.balance c.account) = V.balance a := by
    rw [hacc]
    exact hexact.load (hsmall h hV hb)
  have hfinal := hc.balances (P := fun pre V' b =>
    (∃ rows, Settled db a S V' rows ∧ Balanced b₀ rows b) ∧
      V.actionRegistry <+: V'.actionRegistry ∧ ∀ action ∈ pre, V'.Registered action.actionId)
    (stable_now V) (sees_now _ _) hV ⟨⟨rows, h, hload ▸ hb⟩, List.prefix_rfl, by simp⟩ ?_ ?_
  · obtain ⟨hend, b', ⟨⟨rows', hsettled, hb'⟩, hreg, hdone⟩, _, hstored⟩ := hfinal
    refine ⟨hend, ⟨rows', hsettled, ?_⟩, hreg, hdone⟩
    rcases hstored with ⟨heq, hsame⟩ | ⟨hbind, _⟩
    · rw [← hacc, hsame, hacc, ← hload, ← heq]
      exact hb'
    · rw [hexact.bind (hsmall hsettled hend hb'), hacc] at hbind
      rw [← Option.some.inj hbind]
      exact hb'
  · intro pre V' b accounts hP
    obtain ⟨⟨rows, hsettled, hb⟩, hrest⟩ := hP
    exact ⟨⟨rows, hsettled.accounts accounts, hb⟩, hrest⟩
  · intro pre action post V₁ V₂ b b' txId heq hV₁ _ hpre hP hst
    obtain ⟨⟨rows, hsettled, hb⟩, hreg, _⟩ := hP
    have haction : action ∈ S :=
      hactions (heq ▸ List.mem_append_right _ (List.mem_cons_self ..))
    refine ⟨hsettled.step hb hdb hV₁ hS hN hexact hacc haction hst, hreg.trans hst.registry, ?_⟩
    intro action' haction'
    rcases List.mem_append.1 haction' with h' | h'
    · exact hst.registered.2 (Or.inl (hpre action' h'))
    · rw [List.mem_singleton.1 h']
      exact hst.registered.2 (Or.inr rfl)

/-- When every action of the set has come, the rows record exactly the set. -/
theorem Settled.perm (h : Settled db a S V rows) (hV : V.Consistent) (hS : Unseen db S)
    (hdb : db.Consistent) (hall : ∀ action ∈ S, V.Registered action.actionId) :
    (rows.map ActionRow.sent).Perm S := by
  apply (List.perm_ext_iff_of_nodup (List.Nodup.of_map _ (h.nodup hV))
    (List.Nodup.of_map _ hS.distinct)).2
  intro action
  constructor
  · intro haction
    exact h.subset haction
  · intro haction
    obtain ⟨g, hg, hid⟩ := hall action haction
    obtain ⟨row, hrow, rfl⟩ := hV.recorded g hg
    have hmem := h.mem_rows hdb (hS.fresh action haction).1 hrow hid
    have heq : row.sent = action := List.inj_on_of_nodup_map hS.distinct (h.sent row hmem)
      haction (row.sent_actionId.trans hid)
    exact heq ▸ List.mem_map_of_mem hmem

end

/-- Whatever the order, the grouping and the repetitions in which the actions of a set are
sent, the balance and the report grow by what the set comes to. -/
theorem settlement_in_any_order {db₀ : Db} (h₀ : db₀.Initial) (before calls : List Call)
    {a : Account} {S : List ProcessAction} {N : Int} (hS : Unseen (db₀.after before) S)
    (hwins : (db₀.after before).balance a + winnings S ≤ N)
    (hbets : ∀ x v, .bet x v ∈ S → v ≤ N) (hexact : ∀ c ∈ calls, c.svc.ExactTo N)
    (hown : ∀ c ∈ calls, c.account = a ∧ c.actions ⊆ S)
    (hall : ∀ action ∈ S, ∃ c ∈ calls, action ∈ c.actions)
    (hok : Along (fun db c => c.Succeeds db) (db₀.after before) calls) :
    ((db₀.after before).after calls).balance a =
        (db₀.after before).balance a + settledNet S ∧
      ∀ col, ((db₀.after before).after calls).reported (ofAccount a) col =
        (db₀.after before).reported (ofAccount a) col + settlement S col := by
  have hdb := h₀.consistent.after before
  have hN : Within N ((db₀.after before).balance a) S :=
    ⟨Db.after_balance_nonneg h₀ before a, hwins, hbets⟩
  generalize db₀.after before = db at *
  have hfinal := Db.after_run db calls
    (P := fun pre V => V.Consistent ∧
      (∃ rows, Settled db a S V rows ∧ Balanced (db.balance a) rows (V.balance a)) ∧
      ∀ c ∈ pre, ∀ action ∈ c.actions, V.Registered action.actionId)
    ⟨hdb, ⟨[], Settled.initial db a S, ⟨hN.nonneg, by simp [settledNet, settlement, sumOf]⟩⟩,
      by simp⟩ ?_
  · obtain ⟨hend, ⟨rows, hsettled, hb⟩, hdone⟩ := hfinal
    have hperm := hsettled.perm hend hS hdb fun action haction => by
      obtain ⟨c, hc, hmem⟩ := hall action haction
      exact hdone c hc action hmem
    have hsame := settlement_perm hperm
    constructor
    · rw [hb.eq, settledNet, settledNet, hsame]
    · intro col
      rw [hsettled.reported, hsame]
  · intro pre c post heq hP
    obtain ⟨hV, ⟨rows, hsettled, hb⟩, hdone⟩ := hP
    obtain ⟨resp, hresp⟩ := hok pre c post heq
    obtain ⟨ws, hws, hc⟩ := Call.serve_ok hresp
    have hmem : c ∈ calls := heq ▸ List.mem_append_right _ (List.mem_cons_self ..)
    obtain ⟨hend, hrows, hreg, hnew⟩ := hsettled.commit hb hdb hV hS hN (hexact c hmem)
      (hown c hmem).1 (hown c hmem).2 hc
    rw [hws]
    refine ⟨hend, hrows, fun c' hc' action haction => ?_⟩
    rcases List.mem_append.1 hc' with hc' | hc'
    · obtain ⟨g, hg, hid⟩ := hdone c' hc' action haction
      exact ⟨g, hreg.subset hg, hid⟩
    · rw [List.mem_singleton.1 hc'] at haction
      exact hnew action haction

/-- Past `2 ^ 53` a Number balance is rounded: two wins come to less than their sum. -/
theorem wins_rounded : ∃ db₀ before calls a S, db₀.Initial ∧ Unseen (Db.after db₀ before) S ∧
    (∀ c ∈ calls, c.account = a ∧ c.actions ⊆ S) ∧
    (∀ action ∈ S, ∃ c ∈ calls, action ∈ c.actions) ∧
    Along (fun db c => c.Succeeds db) (Db.after db₀ before) calls ∧
    ((Db.after db₀ before).after calls).balance a ≠
      (Db.after db₀ before).balance a + settledNet S := by
  exact ⟨twoUsers, [], [dollars typescript "b" [.win 1 (2 ^ 53 - 1), .win 2 2]],
    ⟨"b", "USD"⟩, [.win 1 (2 ^ 53 - 1), .win 2 2], twoUsers_initial,
    ⟨by decide, by decide, by decide, by decide, by decide⟩, by decide, by decide,
    .cons (by decide +kernel) .nil, by decide +kernel⟩

/-- A rollback, its late bet, a win, and all of it again. -/
def lateBet : List Call :=
  [dollars typescript "a" [.rollback 2 1], dollars rust "a" [.bet 1 60, .win 3 5],
    dollars typescript "a" [.win 3 5, .bet 1 60, .rollback 2 1]]

theorem lateBet_settles : (twoUsers.after lateBet).balance ⟨"a", "USD"⟩ = 105 := by
  have hrun := settlement_in_any_order twoUsers_initial [] lateBet (a := ⟨"a", "USD"⟩)
    (S := [.bet 1 60, .win 3 5, .rollback 2 1]) (N := 2 ^ 53)
    ⟨by decide, by decide, by decide, by decide, by decide⟩ (by decide) (by simp)
    (fun c _ => c.svc.exactTo_small) (by decide) (by decide)
    (.cons (by decide +kernel) (.cons (by decide +kernel) (.cons (by decide +kernel) .nil)))
  exact hrun.1.trans (by decide)

end BetProcessor
