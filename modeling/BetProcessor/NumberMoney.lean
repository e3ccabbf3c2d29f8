import BetProcessor.Wallets
import BetProcessor.Money
import BetProcessor.EarlyRollbacks

namespace BetProcessor
set_option autoImplicit true
open Txn

/-- What the new actions of a request move in exact integers, one after the other. -/
def Call.moves (c : Call) (db : Db) : List Int :=
  db.wallet.moved c.account c.draws.txId (c.actions.map ProcessAction.op)

/-- A Number holds the integer and is printed as it. -/
def PrintsExactly (x : Int) : Prop := toNumber x = x ∧ showNumber x = x

instance (x : Int) : Decidable (PrintsExactly x) := inferInstanceAs (Decidable (_ ∧ _))

/-- Numbers hold the balance before and after each of the amounts, and print the amounts and the
last balance. -/
def SumsExactly : Int → List Int → Prop
  | b, [] => PrintsExactly b
  | b, m :: ms => toNumber b = b ∧ PrintsExactly m ∧ SumsExactly (b + m) ms

instance decidableSumsExactly : (ms : List Int) → DecidablePred fun b => SumsExactly b ms
  | [] => fun b => inferInstanceAs (Decidable (PrintsExactly b))
  | m :: ms => fun b =>
    have := decidableSumsExactly ms
    inferInstanceAs (Decidable (_ ∧ PrintsExactly m ∧ SumsExactly (b + m) ms))

/-- The Number that a balance becomes. -/
def addNumbers (n : Int) (ms : List Int) : Int := ms.foldl (fun n m => toNumber (n + m)) n

/-- The stored balance moves by the sum of the deltas of the new ledger rows. -/
def Db.MovesExactly (db db' : Db) (a : Account) : Prop :=
  db'.balance a - db.balance a = ((db'.ledger.drop db.ledger.length).map (·.balanceDelta)).sum

theorem SumsExactly.start {b : Int} {ms : List Int} (h : SumsExactly b ms) : toNumber b = b := by
  cases ms with
  | nil => exact h.1
  | cons m ms => exact h.1

theorem SumsExactly.prints {b : Int} {ms : List Int} (h : SumsExactly b ms) :
    ∀ m ∈ ms, PrintsExactly m := by
  induction ms generalizing b with
  | nil => simp
  | cons m ms ih =>
    obtain ⟨_, hm, hrest⟩ := h
    exact List.forall_mem_cons.2 ⟨hm, ih hrest⟩

theorem SumsExactly.sum {b : Int} {ms : List Int} (h : SumsExactly b ms) :
    addNumbers b ms = b + ms.sum ∧ showNumber (b + ms.sum) = b + ms.sum := by
  induction ms generalizing b with
  | nil =>
    rw [List.sum_nil, add_zero]
    exact ⟨rfl, h.2⟩
  | cons m ms ih =>
    obtain ⟨_, _, hrest⟩ := h
    obtain ⟨hsum, hprints⟩ := ih hrest
    rw [List.sum_cons, ← add_assoc]
    refine ⟨?_, hprints⟩
    change addNumbers (toNumber (b + m)) ms = _
    rw [hrest.start, hsum]

theorem sumsExactly_small {b : Int} {ms : List Int} (hms : ∀ m ∈ ms, |m| ≤ 2 ^ 53)
    (hsums : ∀ pre, pre <+: ms → |b + pre.sum| ≤ 2 ^ 53) : SumsExactly b ms := by
  have hprints : ∀ {x : Int}, |x| ≤ 2 ^ 53 → PrintsExactly x :=
    fun hx => ⟨toNumber_small hx, showNumber_small hx⟩
  induction ms generalizing b with
  | nil => exact hprints (by simpa using hsums [] List.prefix_rfl)
  | cons m ms ih =>
    have hb : |b| ≤ 2 ^ 53 := by simpa using hsums [] (List.nil_prefix ..)
    refine ⟨toNumber_small hb, hprints (hms m (List.mem_cons_self ..)), ?_⟩
    apply ih fun m' hm' => hms m' (List.mem_cons_of_mem _ hm')
    intro pre hpre
    have hsum := hsums (m :: pre) (List.cons_prefix_cons.2 ⟨rfl, hpre⟩)
    rwa [List.sum_cons, ← add_assoc] at hsum

theorem addNumbers_zero {n : Int} {ms : List Int} (hn : toNumber n = n) (h : ∀ m ∈ ms, m = 0) :
    addNumbers n ms = n := by
  induction ms with
  | nil => rfl
  | cons m ms ih =>
    obtain rfl := h m (List.mem_cons_self ..)
    change addNumbers (toNumber (n + 0)) ms = n
    rw [add_zero, hn]
    exact ih fun m hm => h m (List.mem_cons_of_mem _ hm)

theorem toNumber_addNumbers {n : Int} {ms : List Int} (hn : toNumber n = n) :
    toNumber (addNumbers n ms) = addNumbers n ms := by
  induction ms generalizing n with
  | nil => exact hn
  | cons m ms ih => exact ih (toNumber_toNumber (n + m))

theorem toNumber_showNumber {x : Int} (h : toNumber x = x) : toNumber (showNumber x) = x := by
  have hnat : roundNat x.natAbs = x.natAbs := by rw [← natAbs_toNumber, h]
  by_cases hzero : x = 0
  · rw [hzero]
    rfl
  · have hpos : 0 < showNat x.natAbs := showNat_pos (Int.natAbs_pos.2 hzero)
    have hsign : (showNumber x).sign = x.sign := by
      rw [showNumber, Int.sign_mul, Int.sign_sign, Int.sign_eq_one_of_pos
        (Int.natCast_pos.2 hpos), mul_one]
    have habs : (showNumber x).natAbs = showNat x.natAbs := by
      rw [showNumber, Int.natAbs_mul, Int.natAbs_sign_of_ne_zero hzero, one_mul,
        Int.natAbs_natCast]
    rw [toNumber, hsign, habs, roundNat_showNat hnat, Int.sign_mul_natAbs]

section
variable {V : Db} {c : Call} {b : Int} {action : ProcessAction} {act : Act}

theorem Db.actOriginal_money {type : ActionType} {x : Uuid} {amount : Int}
    (h : V.actOriginal c b type x amount = .ok act) :
    act.balance = c.svc.add b (if V.HasIntent x then 0 else originalDelta c.svc type amount) ∧
      c.svc.bind (if V.HasIntent x then 0 else originalDelta c.svc type amount) =
        some act.row.balanceDelta := by
  rw [actOriginal] at h
  by_cases hrefuses : c.svc.refuses amount = true
  · rw [if_pos hrefuses] at h
    cases h
  · rw [if_neg hrefuses] at h
    by_cases hneg : c.svc.add b
        (if V.HasIntent x then 0 else originalDelta c.svc type amount) < 0
    · cases (if_pos hneg).symm.trans h
    · obtain ⟨v, _, h⟩ := bind_eq_ok.1 ((if_neg hneg).symm.trans h)
      obtain ⟨d, hd, h⟩ := bind_eq_ok.1 h
      by_cases hpos : 0 < v
      · cases (if_pos hpos).symm.trans h
        exact ⟨rfl, Service.param_eq_ok.1 hd⟩
      · cases (if_neg hpos).symm.trans h

/-- The next balance of an action and the delta in its ledger row. -/
theorem Db.act_money (hb : c.svc.add b 0 = b) (h : V.act c b action = .ok act) :
    act.balance = c.svc.add b (V.delta c.svc action) ∧
      c.svc.bind (V.delta c.svc action) = some act.row.balanceDelta := by
  cases action with
  | bet x amount => exact actOriginal_money h
  | win x amount => exact actOriginal_money h
  | rollback r o =>
    change V.actRollback c b r o = .ok act at h
    rw [actRollback] at h
    rw [delta]
    split at h
    · rename_i hseen
      cases h
      rw [if_pos hseen]
      exact ⟨hb.symm, c.svc.bind_zero⟩
    · rename_i hseen
      rw [if_neg hseen]
      cases hrow : V.original? o with
      | none =>
        rw [hrow] at h
        cases h
        exact ⟨hb.symm, c.svc.bind_zero⟩
      | some row =>
        rw [hrow] at h
        rw [Option.elim_some]
        dsimp only at h
        split at h
        · rename_i hnoop
          cases h
          have hzero : (if row.status = .applied then c.svc.neg (c.svc.load row.balanceDelta)
              else 0) = 0 := by
            split
            · rename_i hst
              rw [hnoop.resolve_left (not_not.2 hst)]
              exact c.svc.neg_small (by decide)
            · rfl
          rw [hzero]
          exact ⟨hb.symm, c.svc.bind_zero⟩
        · rename_i happlied
          rw [if_pos (not_not.1 (not_or.1 happlied).1)]
          split at h
          · cases h
          · obtain ⟨d, hd, h⟩ := bind_eq_ok.1 h
            obtain ⟨outs, _, h⟩ := bind_eq_ok.1 h
            cases h
            exact ⟨rfl, Service.param_eq_ok.1 hd⟩

theorem Db.wallet_moves {a : Account} : V.wallet.moves action.op =
    (V.walletAt a b).moves action.op := Wallet.State.moves_congr rfl rfl

theorem Db.delta_moves (hV : V.Consistent)
    (hm : toNumber (V.wallet.moves action.op) = V.wallet.moves action.op) :
    V.delta typescript action = V.wallet.moves action.op := by
  rw [wallet_moves (a := ⟨"", ""⟩) (b := 0)] at hm ⊢
  cases action with
  | bet x amount => exact moves_move.symm
  | win x amount => exact moves_move.symm
  | rollback r o =>
    change toNumber ((V.walletAt ⟨"", ""⟩ 0).moves (.undo r o)) =
      (V.walletAt ⟨"", ""⟩ 0).moves (.undo r o) at hm
    change V.delta typescript (.rollback r o) = (V.walletAt ⟨"", ""⟩ 0).moves (.undo r o)
    rw [Wallet.State.moves] at hm ⊢
    rw [delta]
    by_cases hseen : V.HasIntent o
    · rw [if_pos hseen, if_pos ((undone_isSome o).2 hseen)]
    · rw [if_neg ((undone_isSome o).not.2 hseen), walletAt_settled] at hm
      rw [if_neg hseen, if_neg ((undone_isSome o).not.2 hseen), walletAt_settled]
      cases hrow : V.original? o with
      | none => rfl
      | some row =>
        rw [hrow] at hm
        change toNumber (-row.balanceDelta) = -row.balanceDelta at hm
        rw [Option.elim_some]
        change _ = -row.balanceDelta
        by_cases hst : row.status = .applied
        · rw [if_pos hst]
          change -toNumber row.balanceDelta = _
          rw [← toNumber_neg, hm]
        · rw [if_neg hst, (hV.shape row (original?_mem hrow)).delta_eq_zero hst, neg_zero]

theorem Db.act_prints (hc : c.svc = typescript) (hV : V.Consistent) (hb : toNumber b = b)
    (hm : PrintsExactly (V.wallet.moves action.op)) (hact : V.act c b action = .ok act) :
    act.balance = toNumber (b + V.wallet.moves action.op) ∧
      act.row.balanceDelta = V.wallet.moves action.op := by
  have hadd : ∀ d, c.svc.add b d = toNumber (b + d) := by
    intro d
    rw [hc]
    rfl
  obtain ⟨hbalance, hdelta⟩ := act_money (by rw [hadd, add_zero, hb]) hact
  rw [hadd] at hbalance
  rw [hc, delta_moves hV hm.1] at hbalance hdelta
  exact ⟨hbalance, (bindBigint_eq_some.1 hdelta).2.symm.trans hm.2⟩

theorem Db.perform_money {txs : List Transaction} {actions : List ProcessAction}
    {r : (Int × List Transaction) × Db} (hc : c.svc = typescript) (hV : V.Consistent)
    (hb : toNumber b = b) (hms : ∀ m ∈ V.wallet.moved c.account c.draws.txId
      (actions.map ProcessAction.op), PrintsExactly m)
    (h : V.perform c b txs actions = .ok r) :
    r.1.1 = addNumbers b (V.wallet.moved c.account c.draws.txId (actions.map ProcessAction.op)) ∧
      ∃ rows, r.2.ledger = V.ledger ++ rows ∧ rows.map (·.balanceDelta) =
        V.wallet.moved c.account c.draws.txId (actions.map ProcessAction.op) := by
  induction actions generalizing V b txs with
  | nil =>
    cases h
    exact ⟨rfl, [], (List.append_nil _).symm, rfl⟩
  | cons action rest ih =>
    rw [perform] at h
    rw [List.map_cons] at hms ⊢
    cases hfind : V.actionRegistry.find? (·.actionId = action.actionId) with
    | some g =>
      have hknown : (V.wallet.settled action.op.id).isSome := by
        rw [← walletAt_self (a := c.account), ProcessAction.op_id, Option.isSome_iff_ne_none,
          ne_eq, hV.settled_eq_none, not_not]
        exact ⟨g, List.mem_of_find?_eq_some hfind, by simpa using List.find?_some hfind⟩
      rw [hfind] at h
      rw [Wallet.State.moved_known hknown] at hms ⊢
      exact ih hV hb hms h
    | none =>
      have hnew := find?_eq_none.1 hfind
      have hunknown : V.wallet.settled action.op.id = none := by
        rw [← walletAt_self (a := c.account), ProcessAction.op_id]
        exact hV.settled_eq_none.2 hnew
      rw [hfind] at h
      obtain ⟨act, hact, h⟩ := bind_eq_ok.1 h
      rw [Wallet.State.moved_new hunknown] at hms ⊢
      obtain ⟨hm, hrest⟩ := List.forall_mem_cons.1 hms
      obtain ⟨hbalance, hdelta⟩ := act_prints hc hV hb hm hact
      obtain ⟨he, _⟩ := act_effect hV hact
      have hadds := Act.writes_performed he
      have hmoved : (V.performed c act).wallet.moved c.account c.draws.txId
          (rest.map ProcessAction.op) = (V.wallet.settle c.account (c.draws.txId action.op.id)
            action.op (V.wallet.moves action.op)).moved c.account c.draws.txId
              (rest.map ProcessAction.op) := by
        apply Wallet.State.moved_congr
        · rw [he.settled hV hnew hadds, hdelta, Wallet.State.settle, ProcessAction.op_id]
        · exact he.marked hadds
      have hstep := (Performs.fresh hnew hact).stepped hV
      rw [← hmoved] at hrest ⊢
      obtain ⟨hfinal, rows, hledger, hrows⟩ := ih (hV.stepped hstep)
        (by rw [hbalance, toNumber_toNumber]) hrest h
      refine ⟨?_, act.row :: rows, ?_, ?_⟩
      · rw [hfinal, hbalance]
        rfl
      · rw [hledger, hadds.ledger, List.append_assoc]
        rfl
      · rw [List.map_cons, hrows, hdelta]

end

section
variable {db : Db} {c : Call} {resp : ProcessResponse}

theorem Db.opened_ledger (a : Account) : (db.opened a).ledger = db.ledger := by
  rw [opened]
  split
  · rfl
  · rfl

theorem Call.moves_opened : (db.opened c.account).wallet.moved c.account c.draws.txId
    (c.actions.map ProcessAction.op) = c.moves db := by
  have hopened : (db.opened c.account).wallet = db.wallet := by
    rw [← Db.walletAt_self (a := c.account), Db.opened_balance, Db.wallet_opened]
  rw [hopened, moves]

theorem Call.serve_money (hc : c.svc = typescript) (h : db.Consistent) (hne : c.actions ≠ [])
    (hok : (c.serve db).1 = .ok resp) (hms : ∀ m ∈ c.moves db, PrintsExactly m) :
    (c.serve db).2.balance c.account =
        showNumber (addNumbers (toNumber (db.balance c.account)) (c.moves db)) ∧
      ((c.serve db).2.ledger.drop db.ledger.length).map (·.balanceDelta) = c.moves db := by
  obtain ⟨r, stored, hr, hstored, _, _, hdb⟩ :=
    (Call.serve_perform h hok).resolve_left fun h => hne h.1
  have hload : c.svc.load (db.balance c.account) = toNumber (db.balance c.account) := by
    rw [hc]
    rfl
  rw [hload] at hr
  have hopened := h.opened_account c.account
  rw [← c.moves_opened] at hms ⊢
  obtain ⟨hfinal, rows, hledger, hrows⟩ :=
    Db.perform_money hc hopened (toNumber_toNumber _) hms hr
  have hrow : (r.2.account? c.account).isSome := by
    rw [Db.account?, Db.perform_accounts hopened hr]
    exact Option.isSome_iff_exists.2 ⟨_, Db.opened_account? c.account⟩
  rw [hdb]
  constructor
  · rw [Db.balance_updateBalance hrow, ← hfinal]
    rw [hc] at hstored
    exact (bindBigint_eq_some.1 hstored).2.symm
  · change (r.2.ledger.drop _).map _ = _
    rw [hledger, Db.opened_ledger, List.drop_left, hrows]

theorem Call.movesExactly_of_sums (hc : c.svc = typescript) (h : db.Consistent)
    (hne : c.actions ≠ []) (hok : (c.serve db).1 = .ok resp)
    (hsums : SumsExactly (db.balance c.account) (c.moves db)) :
    db.MovesExactly (c.serve db).2 c.account := by
  obtain ⟨hbalance, hdeltas⟩ := c.serve_money hc h hne hok hsums.prints
  obtain ⟨hsum, hprints⟩ := hsums.sum
  rw [Db.MovesExactly, hbalance, hdeltas, hsums.start, hsum, hprints]
  omega

theorem Call.movesExactly_of_empty (hnil : c.actions = []) :
    db.MovesExactly (c.serve db).2 c.account := by
  have hdb : (c.serve db).2 = db.opened c.account := by
    rw [Call.serve, Engine.transact, exec_body_empty hnil]
  rw [Db.MovesExactly, hdb, Db.opened_balance, Db.opened_ledger, List.drop_length, sub_self]
  rfl

/-- A stored balance is one that a Number prints. -/
theorem Call.serve_prints (hc : c.svc = typescript) (h : db.Consistent) (hne : c.actions ≠ [])
    (hok : (c.serve db).1 = .ok resp) (hms : ∀ m ∈ c.moves db, PrintsExactly m) :
    showNumber (toNumber ((c.serve db).2.balance c.account)) =
      (c.serve db).2.balance c.account := by
  rw [(c.serve_money hc h hne hok hms).1,
    toNumber_showNumber (toNumber_addNumbers (toNumber_toNumber _))]

end

/-- A TypeScript request moves the stored balance exactly when Numbers hold, and print, what comes
up in exact integers, as they do up to `2 ^ 53`.  A request that moves nothing leaves the balance if
and only if a Number reads it and prints it back, and one that moves it exactly leaves a balance
that a Number prints. -/
theorem number_money {db₀ : Db} (h₀ : db₀.Initial) (calls : List Call) {rows : List AccountRow}
    (hrows : (rows.map (·.account)).Nodup) {c : Call} (hc : c.svc = typescript)
    {resp : ProcessResponse}
    (hok : (c.serve ((db₀.after calls).withAccounts rows)).1 = .ok resp) :
    let db := (db₀.after calls).withAccounts rows
    let b := db.balance c.account
    (c.actions = [] ∨ SumsExactly b (c.moves db) → db.MovesExactly (c.serve db).2 c.account) ∧
    (c.actions ≠ [] → (∀ m ∈ c.moves db, m = 0) →
      ((c.serve db).2.balance c.account = b ↔ showNumber (toNumber b) = b)) ∧
    (c.actions ≠ [] → (∀ m ∈ c.moves db, PrintsExactly m) →
      db.MovesExactly (c.serve db).2 c.account →
        showNumber (toNumber (b + (c.moves db).sum)) = b + (c.moves db).sum) ∧
    ((∀ m ∈ c.moves db, |m| ≤ 2 ^ 53) → (∀ pre, pre <+: c.moves db → |b + pre.sum| ≤ 2 ^ 53) →
      db.MovesExactly (c.serve db).2 c.account) := by
  intro db b
  have h : db.Consistent := (h₀.consistent.after calls).withAccounts hrows
  have hsufficient : c.actions = [] ∨ SumsExactly b (c.moves db) →
      db.MovesExactly (c.serve db).2 c.account := by
    intro hcond
    by_cases hne : c.actions = []
    · exact c.movesExactly_of_empty hne
    · exact c.movesExactly_of_sums hc h hne hok (hcond.resolve_left hne)
  refine ⟨hsufficient, ?_, ?_, ?_⟩
  · intro hne hzero
    have hms : ∀ m ∈ c.moves db, PrintsExactly m := by
      intro m hm
      rw [hzero m hm]
      exact ⟨rfl, rfl⟩
    rw [(c.serve_money hc h hne hok hms).1, addNumbers_zero (toNumber_toNumber _) hzero]
  · intro hne hms hexact
    obtain ⟨_, hdeltas⟩ := c.serve_money hc h hne hok hms
    rw [Db.MovesExactly, hdeltas] at hexact
    have hstored : (c.serve db).2.balance c.account = b + (c.moves db).sum := by omega
    rw [← hstored]
    exact c.serve_prints hc h hne hok hms
  · intro hms hsums
    exact hsufficient (Or.inr (sumsExactly_small hms hsums))

/-- A player whose balance no Number holds. -/
def oddBalance : List AccountRow := [⟨⟨"a", "USD"⟩, 2 ^ 53 + 1⟩]

/-- A bet of the Rust service, sent again to the TypeScript service, loses a cent. -/
theorem replay_rounds : ∃ (db₀ : Db) (calls : List Call) (rows : List AccountRow) (c : Call)
    (resp : ProcessResponse), db₀.Initial ∧ (rows.map (·.account)).Nodup ∧ c.svc = typescript ∧
    (c.serve ((db₀.after calls).withAccounts rows)).1 = .ok resp ∧
    ¬ ((db₀.after calls).withAccounts rows).MovesExactly
      (c.serve ((db₀.after calls).withAccounts rows)).2 c.account := by
  refine ⟨twoUsers, [dollars rust "a" [.bet 1 60]], oddBalance, dollars typescript "a" [.bet 1 60],
    .actions none [⟨1, 1001⟩] (2 ^ 53), twoUsers_initial, by decide, rfl, by decide +kernel, ?_⟩
  unfold Db.MovesExactly
  decide +kernel

theorem number_money_small : ((twoUsers.after []).withAccounts twoUsers.accounts).MovesExactly
    ((dollars typescript "a" [.bet 1 60]).serve
      ((twoUsers.after []).withAccounts twoUsers.accounts)).2 ⟨"a", "USD"⟩ := by
  apply (@number_money twoUsers twoUsers_initial [] twoUsers.accounts (by decide)
    (dollars typescript "a" [.bet 1 60]) rfl (.actions none [⟨1, 1001⟩] 40)
    (by decide +kernel)).1
  right
  decide +kernel

end BetProcessor
