import BetProcessor.Balances
import BetProcessor.ExactlyOnce
import BetProcessor.Perform

namespace BetProcessor
set_option autoImplicit true
open Txn

def ProcessResponse.finalBalance : ProcessResponse → Int
  | .balance b => b
  | .actions _ _ b => b

/-- The actions in requests of their own, one after the other until one fails. -/
def Call.sendEach (c : Call) : List ProcessAction → Db → Except Err (List ProcessResponse) × Db
  | [], db => (.ok [], db)
  | action :: rest, db =>
    match (c.withActions [action]).serve db with
    | (.error e, db) => (.error e, db)
    | (.ok resp, db) => ((c.sendEach rest db).1.map (resp :: ·), (c.sendEach rest db).2)

/-- The same tables with other accounts. -/
def Db.withAccounts (db : Db) (rows : List AccountRow) : Db := { db with accounts := rows }

section
variable {V V' : Db} {c : Call} {b b' : Int} {action : ProcessAction} {rows : List AccountRow}

theorem Db.act_withActions (new : List ProcessAction) :
    V.act (c.withActions new) b action = V.act c b action := by
  cases action <;> rfl

theorem Db.perform_withActions (new actions : List ProcessAction) (txs : List Transaction) :
    V.perform (c.withActions new) b txs actions = V.perform c b txs actions := by
  induction actions generalizing V b txs with
  | nil => rfl
  | cons action rest ih =>
    rw [perform, perform, act_withActions]
    simp only [ih]
    rfl

theorem Db.view_withAccounts {ws : List Write} (h : ∀ w ∈ ws, w.SkipsAccounts) :
    postgres.view (V.withAccounts rows) ws = (postgres.view V ws).withAccounts rows := by
  induction ws generalizing V with
  | nil => rfl
  | cons w ws ih =>
    have hw : (V.withAccounts rows).apply w = (V.apply w).withAccounts rows := by
      have hskip := h w (List.mem_cons_self ..)
      cases w with
      | insertAccount => cases hskip
      | updateBalance => cases hskip
      | _ => rfl
    rw [Engine.view_cons, Engine.view_cons, postgres_apply, hw]
    exact ih fun w hw => h w (List.mem_cons_of_mem _ hw)

theorem Act.writes_skip (new : Act) (now : Int) : ∀ w ∈ new.writes now, w.SkipsAccounts := by
  intro w hw
  simp only [writes, List.mem_cons, List.mem_append, List.mem_map] at hw
  rcases hw with rfl | (⟨t, _, rfl⟩ | ⟨key, _, rfl⟩) | ⟨out, _, rfl⟩ <;> trivial

theorem Db.act_withAccounts : (V.withAccounts rows).act c b action = V.act c b action := by
  cases action <;> rfl

theorem Db.perform_withAccounts (txs : List Transaction) (actions : List ProcessAction) :
    (V.withAccounts rows).perform c b txs actions =
      (V.perform c b txs actions).map fun r => (r.1, r.2.withAccounts rows) := by
  induction actions generalizing V b txs with
  | nil => rfl
  | cons action rest ih =>
    rw [perform, perform, act_withAccounts]
    simp only [show (V.withAccounts rows).actionRegistry = V.actionRegistry from rfl]
    cases V.actionRegistry.find? (·.actionId = action.actionId) with
    | some g => exact ih _
    | none =>
      cases V.act c b action with
      | error e => rfl
      | ok new =>
        have hperformed : (V.withAccounts rows).performed c new =
            (V.performed c new).withAccounts rows := by
          apply view_withAccounts
          intro w hw
          rcases List.mem_cons.1 hw with rfl | hw
          · trivial
          · exact new.writes_skip _ w hw
        change ((V.withAccounts rows).performed c new).perform c _ _ _ = _
        rw [hperformed]
        exact ih _

theorem Db.perform_transactions (txs : List Transaction) (actions : List ProcessAction) :
    V.perform c b txs actions =
      (V.perform c b [] actions).map fun r => ((r.1.1, txs ++ r.1.2), r.2) := by
  induction actions generalizing V b txs with
  | nil => simp [perform, Except.map]
  | cons action rest ih =>
    rw [perform, perform]
    cases V.actionRegistry.find? (·.actionId = action.actionId) with
    | some g =>
      change V.perform c b _ rest = (V.perform c b [_] rest).map _
      rw [ih (txs ++ _), ih [_]]
      cases V.perform c b [] rest <;> simp [Except.map]
    | none =>
      cases V.act c b action with
      | error e => rfl
      | ok new =>
        change (V.performed c new).perform c new.balance _ rest =
          ((V.performed c new).perform c new.balance [_] rest).map _
        rw [ih (txs ++ _), ih [_]]
        cases (V.performed c new).perform c new.balance [] rest <;> simp [Except.map]

theorem Effect.balance_nonneg {L : Lookups} {row : ActionRow} {intent : Option IntentRow}
    {outs : List OutboxRow} (he : Effect L V c b action row intent outs b') (hb : 0 ≤ b) :
    0 ≤ b' := by
  cases he with
  | applied _ _ _ _ hb' => exact hb'
  | prerolled _ _ _ _ hb' => exact hb'
  | already => exact hb
  | tombstone => exact hb
  | notApplied => exact hb
  | reversed _ _ _ _ _ hb' => exact hb'

theorem Db.perform_balance_nonneg {txs : List Transaction} {actions : List ProcessAction}
    {r : (Int × List Transaction) × Db} (hV : V.Consistent) (hb : 0 ≤ b)
    (h : V.perform c b txs actions = .ok r) : 0 ≤ r.1.1 := by
  apply (perform_history (P := fun _ _ b => 0 ≤ b) hV h hb _).2
  intro pre action post V b V' b' txId _ hV hb hperf
  cases hperf with
  | duplicate => exact hb
  | fresh _ hact => exact (Db.act_effect hV hact).1.balance_nonneg hb

theorem AccountRow.setBalance_setBalance (a : Account) (v w : Int) (row : AccountRow) :
    (row.setBalance a v).setBalance a w = row.setBalance a w := by
  unfold setBalance
  by_cases h : row.account = a
  · simp [h]
  · simp [h]

/-- The tables between two actions when the balance has been stored. -/
def Db.stored (V : Db) (a : Account) (b : Int) : Db := V.apply (.updateBalance a b)

theorem Db.withAccounts_stored (a : Account) (h : V'.accounts = V.accounts) :
    (V'.withAccounts (V.stored a b).accounts).stored a b' = V'.stored a b' := by
  have hrows : (V.accounts.map (·.setBalance a b)).map (·.setBalance a b') =
      V.accounts.map (·.setBalance a b') := by
    rw [List.map_map]
    apply List.map_congr_left
    intro row _
    exact row.setBalance_setBalance a b b'
  change V'.withAccounts ((V.accounts.map (·.setBalance a b)).map (·.setBalance a b')) =
    V'.withAccounts (V'.accounts.map (·.setBalance a b'))
  rw [hrows, h]

end

section
variable {V : Db} {c : Call} {b : Int}

theorem Db.stored_opened {a : Account} (h : (V.account? a).isSome) :
    (V.stored a b).opened a = V.stored a b := by
  have hsome : ((V.stored a b).account? a).isSome := Db.account?_isSome_apply V _ h
  rw [opened, if_pos hsome]

theorem exec_body_exact {db : Db} (hexact : ∀ N, c.svc.ExactTo N) (h : db.Consistent)
    (hpos : 0 ≤ db.balance c.account) (hne : c.actions ≠ []) :
    postgres.exec c.body db =
      ((db.opened c.account).perform c (db.balance c.account) [] c.actions).map fun r =>
        (.actions c.request.gameId r.1.2 r.1.1, r.2.stored c.account r.1.1) := by
  rw [exec_body h hne, (hexact _).load (le_refl |db.balance c.account|)]
  cases hr : (db.opened c.account).perform c (db.balance c.account) [] c.actions with
  | error e => rfl
  | ok r =>
    have hnonneg : 0 ≤ r.1.1 :=
      Db.perform_balance_nonneg (h.opened_account c.account) hpos hr
    have hparam : c.svc.param r.1.1 = .ok r.1.1 :=
      Service.param_eq_ok.2 ((hexact _).bind (le_refl |r.1.1|))
    change (c.svc.param r.1.1 >>= _) = _
    rw [hparam]
    exact if_neg (not_lt.2 hnonneg)

/-- One action in a request of its own, after the balance `b` has been stored. -/
theorem Call.serve_single (hexact : ∀ N, c.svc.ExactTo N) (hV : V.Consistent)
    (hrow : (V.account? c.account).isSome) (hb : 0 ≤ b) (action : ProcessAction) :
    (c.withActions [action]).serve (V.stored c.account b) =
      match V.perform c b [] [action] with
      | .error e => (.error e, V.stored c.account b)
      | .ok r => (.ok (.actions c.request.gameId r.1.2 r.1.1), r.2.stored c.account r.1.1) := by
  have hstored : (V.stored c.account b).balance c.account = b := Db.balance_updateBalance hrow
  have hopened : (V.stored c.account b).opened c.account = V.stored c.account b :=
    Db.stored_opened hrow
  have hcons : (V.stored c.account b).Consistent := hV.updateBalance c.account b
  have hperform : ((V.stored c.account b).opened c.account).perform (c.withActions [action])
      ((V.stored c.account b).balance c.account) [] [action] =
      (V.perform c b [] [action]).map fun r =>
        (r.1, r.2.withAccounts (V.stored c.account b).accounts) := by
    rw [hopened, hstored, Db.perform_withActions]
    exact Db.perform_withAccounts [] [action]
  have hexec : postgres.exec (c.withActions [action]).body (V.stored c.account b) =
      (V.perform c b [] [action]).map fun r => (.actions c.request.gameId r.1.2 r.1.1,
        (r.2.withAccounts (V.stored c.account b).accounts).stored c.account r.1.1) := by
    apply (exec_body_exact (c := c.withActions [action]) hexact hcons (hb.trans_eq hstored.symm)
      (List.cons_ne_nil _ _)).trans
    apply (congrArg (Except.map _) hperform).trans
    cases V.perform c b [] [action] <;> rfl
  rw [Call.serve, Engine.transact, hexec]
  cases hr : V.perform c b [] [action] with
  | error e => rfl
  | ok r =>
    have haccounts : r.2.accounts = V.accounts := Db.perform_accounts hV hr
    exact congrArg (Prod.mk _) (Db.withAccounts_stored c.account haccounts)

theorem elim_getLast?_cons {f : α → β} (x : α) (l : List α) (d : β) :
    (x :: l).getLast?.elim d f = l.getLast?.elim (f x) f := by
  rw [List.getLast?_cons]
  cases l.getLast? <;> rfl

theorem Call.sendEach_length {actions : List ProcessAction} {resps : List ProcessResponse}
    {db' : Db} (h : c.sendEach actions V = (.ok resps, db')) : resps.length = actions.length := by
  induction actions generalizing V resps with
  | nil =>
    cases h
    rfl
  | cons action rest ih =>
    rw [sendEach] at h
    split at h
    · cases h
    · rename_i resp next _
      obtain ⟨hok, hdb⟩ := Prod.mk.inj h
      cases hrest : (c.sendEach rest next).1 with
      | error e =>
        rw [hrest] at hok
        cases hok
      | ok resps' =>
        rw [hrest] at hok
        cases hok
        exact congrArg Nat.succ (ih (Prod.ext hrest hdb))

/-- The actions in requests of their own do what they do in one request. -/
theorem Call.sendEach_stored (hexact : ∀ N, c.svc.ExactTo N) (hV : V.Consistent)
    (hrow : (V.account? c.account).isSome) (hb : 0 ≤ b) (actions : List ProcessAction) :
    match V.perform c b [] actions with
    | .error e => (c.sendEach actions (V.stored c.account b)).1 = .error e
    | .ok r => ∃ resps,
        c.sendEach actions (V.stored c.account b) = (.ok resps, r.2.stored c.account r.1.1) ∧
        resps.flatMap (·.transactions) = r.1.2 ∧
        resps.getLast?.elim b (·.finalBalance) = r.1.1 := by
  induction actions generalizing V b with
  | nil => exact ⟨[], rfl, rfl, rfl⟩
  | cons action rest ih =>
    have hsplit : V.perform c b [] (action :: rest) =
        V.perform c b [] [action] >>= fun r => r.2.perform c r.1.1 r.1.2 rest :=
      Db.perform_append [action] rest
    have hsingle := Call.serve_single hexact hV hrow hb action
    rw [hsplit, Call.sendEach]
    cases hr : V.perform c b [] [action] with
    | error e =>
      rw [hr] at hsingle
      rw [hsingle]
      rfl
    | ok r =>
      obtain ⟨⟨b', txs⟩, V'⟩ := r
      rw [hr] at hsingle
      have hcons : V'.Consistent :=
        (Db.perform_history (P := fun _ _ _ => True) hV hr trivial fun _ _ _ _ => trivial).1
      have haccounts : V'.accounts = V.accounts := Db.perform_accounts hV hr
      have hnext := @ih V' b' hcons (by rwa [Db.account?, haccounts])
        (Db.perform_balance_nonneg hV hb hr)
      change match V'.perform c b' txs rest with
        | .error e => _
        | .ok r => _
      rw [Db.perform_transactions, hsingle]
      cases hrest : V'.perform c b' [] rest with
      | error e =>
        rw [hrest] at hnext
        change (c.sendEach rest (V'.stored c.account b')).1.map _ = _
        rw [show (c.sendEach rest (V'.stored c.account b')).1 = .error e from hnext]
        rfl
      | ok r =>
        rw [hrest] at hnext
        obtain ⟨resps, hsend, htxs, hlast⟩ := hnext
        refine ⟨.actions c.request.gameId txs b' :: resps, ?_, ?_, ?_⟩
        · change ((c.sendEach rest (V'.stored c.account b')).1.map _,
            (c.sendEach rest (V'.stored c.account b')).2) = _
          rw [hsend]
          rfl
        · rw [List.flatMap_cons, htxs]
          rfl
        · rw [elim_getLast?_cons]
          exact hlast

end

section
variable {db : Db} {c : Call}

theorem Db.opened_balance (a : Account) : (db.opened a).balance a = db.balance a := by
  rw [balance, opened_account?]
  rfl

theorem Db.opened_opened (a : Account) : (db.opened a).opened a = db.opened a := by
  have hsome : ((db.opened a).account? a).isSome := by
    rw [opened_account?]
    rfl
  rw [opened, if_pos hsome]

theorem Call.sendEach_opened (hexact : ∀ N, c.svc.ExactTo N) (h : db.Consistent)
    (hpos : 0 ≤ db.balance c.account) (action : ProcessAction) (rest : List ProcessAction) :
    (c.sendEach (action :: rest) db).1 = (c.sendEach (action :: rest) (db.opened c.account)).1 ∧
    ∀ resps db', c.sendEach (action :: rest) (db.opened c.account) = (.ok resps, db') →
      c.sendEach (action :: rest) db = (.ok resps, db') := by
  have hexec : postgres.exec (c.withActions [action]).body (db.opened c.account) =
      postgres.exec (c.withActions [action]).body db := by
    rw [exec_body_exact (c := c.withActions [action]) hexact h hpos (List.cons_ne_nil _ _)]
    apply (exec_body_exact (c := c.withActions [action]) hexact (h.opened_account c.account)
      (hpos.trans_eq (Db.opened_balance c.account).symm) (List.cons_ne_nil _ _)).trans
    have hbalance : (db.opened c.account).balance c.account = db.balance c.account :=
      Db.opened_balance c.account
    have hopened : (db.opened c.account).opened c.account = db.opened c.account :=
      Db.opened_opened c.account
    change (((db.opened c.account).opened c.account).perform _
      ((db.opened c.account).balance c.account) [] _).map _ = _
    rw [hbalance, hopened]
    rfl
  rw [Call.sendEach, Call.sendEach, Call.serve, Call.serve, Engine.transact, Engine.transact, hexec]
  cases postgres.exec (c.withActions [action]).body db with
  | error e => exact ⟨rfl, fun _ _ h => by cases h⟩
  | ok r => exact ⟨rfl, fun _ _ h => h⟩

/-- A request does what its actions do in requests of their own, or it fails as the first of
them that fails and leaves no trace. -/
theorem Call.serve_sendEach (hexact : ∀ N, c.svc.ExactTo N) (h : db.Consistent)
    (hpos : 0 ≤ db.balance c.account) (hne : c.actions ≠ []) :
    (∃ e, (c.sendEach c.actions db).1 = .error e ∧ c.serve db = (.error e, db)) ∨
    ∃ resps db' last, c.sendEach c.actions db = (.ok resps, db') ∧ resps.getLast? = some last ∧
      c.serve db = (.ok (.actions c.request.gameId (resps.flatMap (·.transactions))
        last.finalBalance), db') := by
  have hcons := h.opened_account c.account
  have hrow : ((db.opened c.account).account? c.account).isSome := by
    rw [Db.opened_account?]
    rfl
  have hstored : (db.opened c.account).stored c.account (db.balance c.account) =
      db.opened c.account :=
    Db.apply_updateBalance_same hcons.accounts_nodup (Db.opened_account? c.account)
  have heach := Call.sendEach_stored hexact hcons hrow hpos c.actions
  have hexec := exec_body_exact hexact h hpos hne
  obtain ⟨action, rest, hactions⟩ := List.exists_cons_of_ne_nil hne
  obtain ⟨hfirst, hok⟩ := Call.sendEach_opened hexact h hpos action rest
  rw [hstored] at heach
  rw [Call.serve, Engine.transact, hexec]
  cases hr : (db.opened c.account).perform c (db.balance c.account) [] c.actions with
  | error e =>
    rw [hr] at heach
    refine Or.inl ⟨e, ?_, rfl⟩
    rw [hactions, hfirst, ← hactions]
    exact heach
  | ok r =>
    rw [hr] at heach
    obtain ⟨resps, hsend, htxs, hlast⟩ := heach
    have hne' : resps ≠ [] := by
      intro hnil
      apply hne
      rw [← List.length_eq_zero_iff, ← Call.sendEach_length hsend, hnil, List.length_nil]
    obtain ⟨last, hlast'⟩ := Option.ne_none_iff_exists'.1 (List.getLast?_eq_none_iff.not.2 hne')
    have hbalance : last.finalBalance = r.1.1 := by
      rw [hlast'] at hlast
      exact hlast
    refine Or.inr ⟨resps, r.2.stored c.account r.1.1, last, ?_, hlast', ?_⟩
    · rw [hactions] at hsend ⊢
      exact hok _ _ hsend
    · rw [htxs, hbalance]
      rfl

end
/-- A request is atomic and does what its actions do in requests of their own. -/
theorem batch_eq_singletons {ι : Type} [Fintype ι] [DecidableEq ι] (calls : ι → Call) {db₀ : Db}
    (h₀ : db₀.Initial) {ls : List (Label ι Stmt Err)} {now : Requests ι}
    (hr : postgres.Run (fun _ _ => True) (.init (fun i => (calls i).exact.body) db₀) ls now)
    (c : Call) (hne : c.actions ≠ []) :
    (c.exact.Succeeds now.db ↔ ∃ resps, (c.exact.sendEach c.actions now.db).1 = .ok resps) ∧
    (∀ resps db', c.exact.sendEach c.actions now.db = (.ok resps, db') →
      ∃ last, resps.getLast? = some last ∧ c.exact.serve now.db = (.ok (.actions c.request.gameId
        (resps.flatMap (·.transactions)) last.finalBalance), db')) ∧
    ∀ e, (c.exact.sendEach c.actions now.db).1 = .error e →
      c.exact.serve now.db = (.error e, now.db) := by
  have hexact : ∀ N, c.exact.svc.ExactTo N := fun N => c.svc.exact_exactTo N
  obtain ⟨hcons, hderived⟩ : now.db.Consistent ∧ now.db.Derived db₀.balance := by
    apply Agreement.keeping_inv (J := fun db => db.Consistent ∧ db.Derived db₀.balance) _
      ⟨h₀.consistent, h₀.derived⟩ hr
    intro i past db ws resp hJ hp hc
    exact hc.derived (fun N => (calls i).svc.exact_exactTo N) hp hJ.1 hJ.2
  have hboth := Call.serve_sendEach hexact hcons (hderived c.account).2 hne
  change (∃ e, (c.exact.sendEach c.actions now.db).1 = _ ∧ _) ∨ ∃ resps db' last,
    c.exact.sendEach c.actions now.db = _ ∧ _ at hboth
  rcases hboth with ⟨e, hsend, hserve⟩ | ⟨resps, db', last, hsend, hlast, hserve⟩
  · refine ⟨⟨?_, ?_⟩, ?_, ?_⟩
    · rintro ⟨resp, hok⟩
      rw [hserve] at hok
      cases hok
    · rintro ⟨resps, hok⟩
      rw [hsend] at hok
      cases hok
    · intro resps db' hok
      rw [hok] at hsend
      cases hsend
    · intro e' he
      rw [hsend] at he
      cases he
      exact hserve
  · refine ⟨⟨fun _ => ⟨resps, by rw [hsend]⟩, fun _ => ⟨_, by rw [hserve]⟩⟩, ?_, ?_⟩
    · intro resps' db'' hok
      rw [hsend] at hok
      cases hok
      exact ⟨last, hlast, hserve⟩
    · intro e he
      rw [hsend] at he
      cases he

/-- A repetition, a bet, its rollback, a rollback before its bet and a bet that is too high. -/
def mixedBatch (amount : Int) : Call :=
  dollars rust "a"
    [.bet 1 60, .bet 4 10, .rollback 5 4, .rollback 6 7, .bet 7 amount, .bet 8 amount]

theorem mixedBatch_eq_singletons : ∃ ls now,
    postgres.Run (fun _ _ => True) (.init (fun i => (sharedId i).exact.body) twoUsers) ls now ∧
    (∃ resps, ((mixedBatch 20).exact.sendEach (mixedBatch 20).actions now.db).1 = .ok resps) ∧
    ∃ e, ((mixedBatch 200).exact.sendEach (mixedBatch 200).actions now.db).1 = .error e ∧
      (mixedBatch 200).exact.serve now.db = (.error e, now.db) := by
  obtain ⟨ls, now, hr, hnow⟩ := Engine.Run.exists_of_drive postgres
    (c := .init (fun i => (sharedId i).exact.body) twoUsers) (List.replicate 17 0)
    (p := fun r => decide ((mixedBatch 20).exact.Succeeds r.2.db ∧
      ¬ (mixedBatch 200).exact.Succeeds r.2.db)) (by decide +kernel)
  obtain ⟨hok, hfail⟩ := of_decide_eq_true hnow
  have h20 := batch_eq_singletons sharedId twoUsers_initial hr (mixedBatch 20)
    (List.cons_ne_nil _ _)
  have h200 := batch_eq_singletons sharedId twoUsers_initial hr (mixedBatch 200)
    (List.cons_ne_nil _ _)
  refine ⟨ls, now, hr, h20.1.1 hok, ?_⟩
  cases hsend : ((mixedBatch 200).exact.sendEach (mixedBatch 200).actions now.db).1 with
  | ok resps => exact absurd (h200.1.2 ⟨resps, hsend⟩) hfail
  | error e => exact ⟨e, rfl, h200.2.2 e hsend⟩

end BetProcessor
