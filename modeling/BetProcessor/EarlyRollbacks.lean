import BetProcessor.Bookkeeping
import BetProcessor.ConcurrentRuns
import BetProcessor.Perform

namespace BetProcessor
set_option autoImplicit true
open Txn

theorem roundNat_of_dvd {m : Nat} (h : 2 ^ (Nat.log2 m - 52) ∣ m) : roundNat m = m := by
  rw [roundNat]
  split
  · rfl
  · have hulp : 0 < 2 ^ (Nat.log2 m - 52) := Nat.pow_pos (by decide)
    have hmod : m % 2 ^ (Nat.log2 m - 52) = 0 := Nat.mod_eq_zero_of_dvd h
    dsimp only
    rw [if_pos (Or.inl (by omega)), Nat.div_mul_cancel h]

theorem roundNat_scaled {k e : Nat} (hk : k ≤ 2 ^ 53) : roundNat (k * 2 ^ e) = k * 2 ^ e := by
  by_cases hsmall : k * 2 ^ e ≤ 2 ^ 53
  · exact roundNat_small hsmall
  · apply roundNat_of_dvd
    have hne : k * 2 ^ e ≠ 0 := by omega
    have hlow : 2 ^ Nat.log2 (k * 2 ^ e) ≤ 2 ^ (53 + e) := by
      calc 2 ^ Nat.log2 (k * 2 ^ e) ≤ k * 2 ^ e := Nat.log2_self_le hne
        _ ≤ 2 ^ 53 * 2 ^ e := Nat.mul_le_mul_right _ hk
        _ = 2 ^ (53 + e) := (pow_add 2 53 e).symm
    have hlog : Nat.log2 (k * 2 ^ e) ≤ 53 + e := (Nat.pow_le_pow_iff_right (by decide)).1 hlow
    rcases Nat.lt_or_eq_of_le hlog with hlt | heq
    · exact (Nat.pow_dvd_pow 2 (by omega)).trans (Nat.dvd_mul_left _ _)
    · have hhigh : 2 ^ (53 + e) ≤ k * 2 ^ e := heq ▸ Nat.log2_self_le hne
      rw [pow_add] at hhigh
      have hk' : 2 ^ 53 ≤ k := Nat.le_of_mul_le_mul_right hhigh (Nat.pow_pos (by decide))
      obtain rfl : k = 2 ^ 53 := le_antisymm hk hk'
      rw [heq, ← pow_add]
      exact Nat.pow_dvd_pow 2 (by omega)

theorem roundNat_roundNat (n : Nat) : roundNat (roundNat n) = roundNat n := by
  by_cases hsmall : n ≤ 2 ^ 53
  · rw [roundNat_small hsmall, roundNat_small hsmall]
  · have hbound : n / 2 ^ (Nat.log2 n - 52) < 2 ^ 53 := by
      have hlog : 52 ≤ Nat.log2 n := (Nat.le_log2 (by omega)).2 (by omega)
      rw [Nat.div_lt_iff_lt_mul (Nat.pow_pos (by decide)), ← pow_add,
        show 53 + (Nat.log2 n - 52) = Nat.log2 n + 1 by omega]
      exact Nat.lt_log2_self
    rw [show roundNat n = if 2 * (n % 2 ^ (Nat.log2 n - 52)) < 2 ^ (Nat.log2 n - 52) ∨
        (2 * (n % 2 ^ (Nat.log2 n - 52)) = 2 ^ (Nat.log2 n - 52) ∧
          n / 2 ^ (Nat.log2 n - 52) % 2 = 0) then
        n / 2 ^ (Nat.log2 n - 52) * 2 ^ (Nat.log2 n - 52)
      else (n / 2 ^ (Nat.log2 n - 52) + 1) * 2 ^ (Nat.log2 n - 52) from if_neg hsmall]
    split
    · exact roundNat_scaled hbound.le
    · exact roundNat_scaled hbound

/-- What is printed is read back. -/
theorem roundNat_showNat {n : Nat} (h : roundNat n = n) : roundNat (showNat n) = n := by
  rw [showNat]
  split
  · exact h
  · cases hf : (List.range 21).reverse.findSome? fun j =>
        (decimals n j).find? fun m => roundNat m = n with
    | none => exact h
    | some m =>
      obtain ⟨_, j, _, _, hj, _⟩ := List.findSome?_eq_some_iff.1 hf
      simpa using List.find?_some hj

theorem natAbs_toNumber (x : Int) : (toNumber x).natAbs = roundNat x.natAbs := by
  by_cases h : x = 0
  · subst h
    rfl
  · rw [toNumber, Int.natAbs_mul, Int.natAbs_sign_of_ne_zero h, one_mul, Int.natAbs_natCast]

theorem sign_toNumber (x : Int) : (toNumber x).sign = x.sign := by
  rcases lt_trichotomy x 0 with h | rfl | h
  · have hpos := toNumber_pos (neg_pos.2 h)
    rw [toNumber_neg, neg_pos] at hpos
    rw [Int.sign_eq_neg_one_of_neg hpos, Int.sign_eq_neg_one_of_neg h]
  · rfl
  · rw [Int.sign_eq_one_of_pos (toNumber_pos h), Int.sign_eq_one_of_pos h]

theorem toNumber_toNumber (x : Int) : toNumber (toNumber x) = toNumber x := by
  rw [toNumber, natAbs_toNumber, sign_toNumber, roundNat_roundNat, ← toNumber]

namespace Service.Deployed
variable {svc : Service} {x y : Int}

theorem add_zero_of_add (hsvc : svc.Deployed) : svc.add (svc.add x y) 0 = svc.add x y := by
  rcases hsvc with rfl | rfl
  · change toNumber (toNumber (x + y) + 0) = toNumber (x + y)
    rw [add_zero, toNumber_toNumber]
  · change wrapI64 (wrapI64 (x + y) + 0) = wrapI64 (x + y)
    rw [add_zero]
    exact Int.bmod_bmod

theorem add_zero_of_load (hsvc : svc.Deployed) (hx : IsBigint x) :
    svc.add (svc.load x) 0 = svc.load x := by
  rcases hsvc with rfl | rfl
  · change toNumber (toNumber x + 0) = toNumber x
    rw [add_zero, toNumber_toNumber]
  · change wrapI64 (x + 0) = x
    rw [add_zero, wrapI64_eq hx]

end Service.Deployed

section
variable {V V' : Db} {c : Call} {b b' : Int} {action : ProcessAction} {txId : Uuid}

/-- A balance that does not move is the same number in a service. -/
theorem Effect.still_add_zero {L : Lookups} {row : ActionRow} {intent : Option IntentRow}
    {outs : List OutboxRow} (hsvc : c.svc.Deployed) (hb : c.svc.add b 0 = b)
    (he : Effect L V c b action row intent outs b') : c.svc.add b' 0 = b' := by
  cases he with
  | applied => exact hsvc.add_zero_of_add
  | prerolled => exact hsvc.add_zero_of_add
  | already => exact hb
  | tombstone => exact hb
  | notApplied => exact hb
  | reversed => exact hsvc.add_zero_of_add

theorem Stepped.still_add_zero {L : Lookups} (hsvc : c.svc.Deployed) (hb : c.svc.add b 0 = b)
    (hs : Stepped L V V' c b action b' txId) : c.svc.add b' 0 = b' := by
  cases hs with
  | duplicate => exact hb
  | fresh _ he => exact he.still_add_zero hsvc hb

/-- The action is a rollback of an applied row that nobody has rolled back. -/
def Db.Reversing (V : Db) (svc : Service) : ProcessAction → Prop
  | .rollback _ o => ¬ V.HasIntent o ∧ ∃ row ∈ V.ledger, row.actionId = o ∧
      row.status = .applied ∧ svc.load row.balanceDelta ≠ 0
  | _ => False

/-- The row of an action has moved nothing. -/
def ActionRow.Cancelled (row : ActionRow) : Prop := row.balanceDelta = 0 ∧ row.status ≠ .applied

/-- An action whose rollback came first is cancelled unless it reverses another one. -/
theorem Effect.cancelled_iff {row : ActionRow} {intent : Option IntentRow}
    {outs : List OutboxRow} (hV : V.Consistent) (hb : c.svc.add b 0 = b)
    (hseen : V.HasIntent action.actionId) (he : Effect .now V c b action row intent outs b') :
    row.Cancelled ∧ b' = b ↔ ¬ V.Reversing c.svc action := by
  cases he with
  | applied ha hno =>
    rw [ha.actionId_eq] at hseen
    exact absurd hseen hno
  | prerolled ha =>
    have hnot : ¬ V.Reversing c.svc action := by cases ha <;> exact id
    exact ⟨fun _ => hnot, fun _ => ⟨⟨rfl, nofun⟩, hb⟩⟩
  | already ho => exact ⟨fun _ h => h.1 ho, fun _ => ⟨⟨rfl, nofun⟩, rfl⟩⟩
  | tombstone _ hnone =>
    refine ⟨fun _ h => ?_, fun _ => ⟨⟨rfl, nofun⟩, rfl⟩⟩
    obtain ⟨_, row, hrow, hid, _⟩ := h
    exact hnone row hrow hid
  | @notApplied r o row _ hrow hid hna =>
    refine ⟨fun _ h => ?_, fun _ => ⟨⟨rfl, nofun⟩, rfl⟩⟩
    obtain ⟨_, row', hrow', hid', hst, hne⟩ := h
    obtain rfl := hV.ledger_inj hrow hrow' (hid.trans hid'.symm)
    exact hna.elim (absurd hst) hne
  | reversed hno hrow hid hst hne =>
    exact ⟨fun h => absurd rfl h.1.2, fun h => absurd ⟨hno, _, hrow, hid, hst, hne⟩ h⟩

end

/-- The loop of the request comes to an action with the tables `V` and the balance `b`, and
leaves `V'` and `b'` behind it. -/
structure Call.Reaches (c : Call) (db : Db) (pre : List ProcessAction) (action : ProcessAction)
    (V : Db) (b : Int) (V' : Db) (b' : Int) : Prop where
  before : ∃ txs, postgres.exec (lockAccount c.svc c.account >>= fun balance =>
    processActions c.svc c.draws c.request pre balance []) db = .ok ((b, txs), V)
  after : ∃ txs, postgres.exec (processActions c.svc c.draws c.request [action] b []) V =
    .ok ((b', txs), V')

/-- Every stored balance is a value of its column. -/
def Db.BigintBalances (db : Db) : Prop := ∀ a, IsBigint (db.balance a)

theorem Db.BigintBalances.of_rows {db : Db} (h : ∀ row ∈ db.accounts, IsBigint row.balance) :
    db.BigintBalances := by
  intro a
  rw [balance]
  cases hrow : db.account? a with
  | none => decide
  | some row => exact h row (List.mem_of_find?_eq_some hrow)

theorem Db.BigintBalances.commit {past : Moment → Prop} {db : Db} {c : Call} {ws : List Write}
    {resp : ProcessResponse} (h : db.BigintBalances) (hcons : db.Consistent)
    (hsvc : c.svc.Deployed) (hp : Stable past db) (hc : Committed past c ws resp) :
    (postgres.view db ws).BigintBalances := by
  intro a
  rcases hc.balance_cases hp hcons a with heq | ⟨_, hbind, _⟩
  · rw [heq]
    exact h a
  · exact hsvc.bind_isBigint hbind

section
variable {V V' : Db} {c : Call} {b b' : Int} {action : ProcessAction} {txId x : Uuid}

theorem Db.perform_pending {txs : List Transaction} {pre : List ProcessAction}
    {r : (Int × List Transaction) × Db} (hc : c.svc.Deployed) (hV : V.Consistent)
    (hb : c.svc.add b 0 = b) (hseen : V.HasIntent x) (hx : ¬ V.Registered x)
    (hpre : ∀ a ∈ pre, a.actionId ≠ x) (h : V.perform c b txs pre = .ok r) :
    r.2.Consistent ∧ c.svc.add r.1.1 0 = r.1.1 ∧ r.2.HasIntent x ∧ ¬ r.2.Registered x := by
  induction pre generalizing V b txs with
  | nil =>
    cases h
    exact ⟨hV, hb, hseen, hx⟩
  | cons action rest ih =>
    obtain ⟨V', b', txId, hperf, hrest⟩ := perform_cons h
    have hst := hperf.stepped hV
    apply ih (hV.stepped hst) (hst.still_add_zero hc hb) _ _ _ hrest
    · obtain ⟨t, ht, hto⟩ := hseen
      exact ⟨t, hst.intents.subset ht, hto⟩
    · intro hreg
      rcases hst.registered.1 hreg with hreg | hreg
      · exact hx hreg
      · exact hpre action (List.mem_cons_self ..) hreg
    · intro a ha
      exact hpre a (List.mem_cons_of_mem _ ha)

/-- The first action under an id adds its row to the ledger. -/
theorem Db.Performs.cancelled_iff (hV : V.Consistent) (hb : c.svc.add b 0 = b)
    (hseen : V.HasIntent action.actionId) (hx : ¬ V.Registered action.actionId)
    (h : V.Performs c b action V' b' txId) : ∃ row ∈ V'.ledger, row.actionId = action.actionId ∧
      (row.Cancelled ∧ b' = b ↔ ¬ V.Reversing c.svc action) := by
  cases h with
  | duplicate hg => exact absurd hx (find?_eq_none.not.1 (by rw [hg]; nofun))
  | @fresh new _ hact =>
    obtain ⟨he, _⟩ := Db.act_effect hV hact
    refine ⟨new.row, ?_, he.actionId, he.cancelled_iff hV hb hseen⟩
    rw [(Act.writes_performed he).ledger]
    exact List.mem_append_right _ (List.mem_singleton.2 rfl)

theorem Db.perform_ledger {txs : List Transaction} {actions : List ProcessAction}
    {r : (Int × List Transaction) × Db} (hV : V.Consistent)
    (h : V.perform c b txs actions = .ok r) : V.ledger <+: r.2.ledger := by
  apply (perform_history (P := fun _ V' _ => V.ledger <+: V'.ledger) hV h List.prefix_rfl _).2
  intro pre action post V b V' b' txId _ hV hP hperf
  exact hP.trans (hperf.stepped hV).ledger

/-- A request comes to each of its actions. -/
theorem Call.serve_reaches {db : Db} (h : db.Consistent) {pre post : List ProcessAction}
    (hactions : c.actions = pre ++ action :: post) {resp : ProcessResponse}
    (hok : (c.serve db).1 = .ok resp) : ∃ V b V' b' txs txId,
      c.Reaches db pre action V b V' b' ∧
      (db.opened c.account).perform c (c.svc.load (db.balance c.account)) [] pre =
        .ok ((b, txs), V) ∧
      V.Performs c b action V' b' txId ∧ V'.ledger <+: (c.serve db).2.ledger := by
  have hopened := h.opened_account c.account
  have hne : c.actions ≠ [] := by
    rw [hactions]
    exact List.append_ne_nil_of_right_ne_nil _ (List.cons_ne_nil _ _)
  obtain ⟨r, stored, hperform, _, _, _, hdb⟩ :=
    (Call.serve_perform h hok).resolve_left fun h => hne h.1
  rw [hactions, Db.perform_append] at hperform
  obtain ⟨⟨⟨b, txs⟩, V⟩, hbefore, hrest⟩ := bind_eq_ok.1 hperform
  obtain ⟨V', b', txId, hperf, hafter⟩ := Db.perform_cons hrest
  have hV : V.Consistent := (Db.perform_history (P := fun _ _ _ => True) hopened hbefore trivial
    fun _ _ _ _ => trivial).1
  have hone : ∃ txs', V.perform c b [] [action] = .ok ((b', txs'), V') := by
    rw [Db.perform]
    cases hperf with
    | duplicate hg => exact ⟨_, by rw [hg]; rfl⟩
    | fresh hnew hact => exact ⟨_, by rw [Db.find?_eq_none.2 hnew, hact]; rfl⟩
  refine ⟨V, b, V', b', txs, txId, ⟨⟨txs, ?_⟩, ?_⟩, hbefore, hperf, ?_⟩
  · rw [exec_lockAccount, exec_processActions hopened]
    exact hbefore
  · rw [exec_processActions hV]
    exact hone
  · rw [hdb]
    exact Db.perform_ledger (hV.stepped (hperf.stepped hV)) hafter

end

/-- A rollback that came first cancels the action that it names exactly when this is not itself
a rollback of an applied row that nobody has rolled back. -/
theorem early_rollback_cancels {ι : Type} [Fintype ι] [DecidableEq ι] (calls : ι → Call)
    {db₀ : Db} (h₀ : db₀.Initial) (hbig : ∀ row ∈ db₀.accounts, IsBigint row.balance)
    (hsvc : ∀ i, (calls i).svc.Deployed) {ls : List (Label ι Stmt Err)} {now : Requests ι}
    (hr : postgres.Run (fun _ _ => True) (.init (fun i => (calls i).body) db₀) ls now) {x : Uuid}
    (hseen : now.db.HasIntent x) (hx : ∀ row ∈ now.db.actions, row.actionId ≠ x) {c : Call}
    (hc : c.svc.Deployed) {pre post : List ProcessAction} {action : ProcessAction}
    (hactions : c.actions = pre ++ action :: post) (hid : action.actionId = x)
    (hpre : ∀ a ∈ pre, a.actionId ≠ x) {resp : ProcessResponse}
    (hok : (c.serve now.db).1 = .ok resp) :
    ∃ V b V' b', c.Reaches now.db pre action V b V' b' ∧
      ((∃ row, (c.serve now.db).2.ledger.filter (·.actionId = x) = [row] ∧ row.Cancelled) ∧
        b' = b ↔ ¬ V.Reversing c.svc action) := by
  obtain ⟨hcons, hbalances⟩ : now.db.Consistent ∧ now.db.BigintBalances := by
    apply Agreement.keeping_inv (J := fun db => db.Consistent ∧ db.BigintBalances) _
      ⟨h₀.consistent, .of_rows hbig⟩ hr
    intro i past db ws resp h hp hc
    exact ⟨h.1.commit hp hc, h.2.commit h.1 (hsvc i) hp hc⟩
  have hfree : ¬ (now.db.opened c.account).Registered x := by
    rw [Db.Registered, Db.opened_actionRegistry]
    rintro ⟨g, hg, rfl⟩
    obtain ⟨row, hrow, rfl⟩ := hcons.recorded g hg
    obtain ⟨raw, hraw, rfl⟩ := now.db.exists_of_mem_ledger hrow
    exact hx raw hraw rfl
  have hrecorded : (now.db.opened c.account).HasIntent x := by
    rw [Db.opened]
    split
    · exact hseen
    · exact hseen
  obtain ⟨V, b, V', b', txs, txId, hreaches, hbefore, hperf, hledger⟩ :=
    Call.serve_reaches hcons hactions hok
  obtain ⟨hV, hb, hseen, hx⟩ := Db.perform_pending hc (hcons.opened_account c.account)
    (hc.add_zero_of_load (hbalances _)) hrecorded hfree hpre hbefore
  subst hid
  obtain ⟨row, hrow, hid, hiff⟩ := hperf.cancelled_iff hV hb hseen hx
  refine ⟨V, b, V', b', hreaches, ?_⟩
  have hfilter : (c.serve now.db).2.ledger.filter (·.actionId = action.actionId) = [row] := by
    rw [← hid]
    exact filter_of_unique (hcons.after [c]).ledger_nodup (hledger.subset hrow)
  rw [← hiff, hfilter]
  constructor
  · rintro ⟨⟨row', heq, hcancelled⟩, hsame⟩
    cases heq
    exact ⟨hcancelled, hsame⟩
  · rintro ⟨hcancelled, hsame⟩
    exact ⟨⟨row, rfl, hcancelled⟩, hsame⟩

/-- A rollback of the id 2, and a bet under the id 1. -/
def earlyRollback (i : Fin 2) : Call :=
  if i.val = 0 then dollars typescript "a" [.rollback 3 2] else dollars rust "a" [.bet 1 60]

theorem earlyRollback_deployed (i : Fin 2) : (earlyRollback i).svc.Deployed := by
  rw [earlyRollback]
  split
  · exact Or.inl rfl
  · exact Or.inr rfl

/-- The id 2 turns out to be a rollback of the bet, which is applied. -/
theorem cancelled_rollback_applied : ∃ ls now,
    postgres.Run (fun _ _ => True) (.init (fun i => (earlyRollback i).body) twoUsers) ls now ∧
    now.db.HasIntent 2 ∧ (∀ row ∈ now.db.actions, row.actionId ≠ 2) ∧
    ∃ row ∈ ((dollars typescript "a" [.rollback 2 1]).serve now.db).2.ledger,
      row.actionId = 2 ∧ row.status = .applied ∧ row.balanceDelta = 60 := by
  obtain ⟨ls, now, hr, hnow⟩ := Engine.Run.exists_of_drive postgres
    (c := .init (fun i => (earlyRollback i).body) twoUsers)
    (List.replicate 21 0 ++ List.replicate 17 1)
    (p := fun r => decide (r.2.db.HasIntent 2 ∧ (∀ row ∈ r.2.db.actions, row.actionId ≠ 2) ∧
      ∃ row ∈ ((dollars typescript "a" [.rollback 2 1]).serve r.2.db).2.ledger,
        row.actionId = 2 ∧ row.status = .applied ∧ row.balanceDelta = 60)) (by decide +kernel)
  exact ⟨ls, now, hr, of_decide_eq_true hnow⟩

/-- The id 2 turns out to be a bet, which moves nothing. -/
theorem cancelled_bet : ∃ ls now,
    postgres.Run (fun _ _ => True) (.init (fun i => (earlyRollback i).body) twoUsers) ls now ∧
    ∃ row, ((dollars typescript "a" [.bet 1 5, .bet 2 60]).serve now.db).2.ledger.filter
      (·.actionId = 2) = [row] ∧ row.Cancelled := by
  obtain ⟨ls, now, hr, hnow⟩ := Engine.Run.exists_of_drive postgres
    (c := .init (fun i => (earlyRollback i).body) twoUsers)
    (List.replicate 21 0 ++ List.replicate 17 1)
    (p := fun r => decide (r.2.db.HasIntent 2 ∧ (∀ row ∈ r.2.db.actions, row.actionId ≠ 2) ∧
      (dollars typescript "a" [.bet 1 5, .bet 2 60]).Succeeds r.2.db)) (by decide +kernel)
  obtain ⟨hseen, hx, resp, hok⟩ := of_decide_eq_true hnow
  have hactions : (dollars typescript "a" [.bet 1 5, .bet 2 60]).actions =
      [.bet 1 5] ++ .bet 2 60 :: [] := rfl
  obtain ⟨_, _, _, _, _, hiff⟩ := early_rollback_cancels earlyRollback twoUsers_initial
    (by decide) earlyRollback_deployed hr hseen hx (Or.inl rfl) hactions rfl (by decide) hok
  exact ⟨ls, now, hr, (hiff.2 id).1⟩

end BetProcessor
