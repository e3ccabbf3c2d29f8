import BetProcessor.Acts

namespace BetProcessor
set_option autoImplicit true
open Txn

namespace Db
variable {V : Db} {c : Call} {b : Int} {x : Uuid}

theorem original?_insertRegistry (hV : V.Consistent) (g : RegistryRow) (o : Uuid) :
    (V.apply (.insertRegistry g)).original? o = V.original? o := by
  have hnone : ∀ {W : Db}, W.ledger = V.ledger → ¬ V.Registered o → W.original? o = none := by
    intro W hledger ho
    cases horiginal : W.original? o with
    | none => rfl
    | some row =>
      obtain ⟨rfl, hmem, _⟩ := original?_registry horiginal
      exact absurd ⟨row.registry, hV.registered row (hledger ▸ hmem), rfl⟩ ho
  by_cases ho : V.Registered o
  · obtain ⟨g', hg', rfl⟩ := ho
    obtain ⟨row, hrow, rfl⟩ := hV.recorded g' hg'
    have hold : V.original? row.actionId = some row := by
      have hfind : V.actionRegistry.find? (·.actionId = row.actionId) = some row.registry := by
        apply find?_of_unique (hV.registered row hrow) (decide_eq_true rfl)
        intro g₁ hg₁ hid
        exact List.inj_on_of_nodup_map hV.registry_nodup hg₁ (hV.registered row hrow)
          (of_decide_eq_true hid)
      rw [original?, hfind]
      apply find?_of_unique hrow (by simp [ActionRow.registry])
      intro r hr hid
      exact hV.ledger_inj hr hrow (of_decide_eq_true hid).1
    exact (hV.original?_of_mem hrow g).trans hold.symm
  · rw [hnone rfl ho, hnone (apply_ledger V _ |>.trans (List.append_nil _)) ho]

/-- What an action does is read off the tables before its id is claimed. -/
theorem act_insertRegistry (hV : V.Consistent) (g : RegistryRow) (action : ProcessAction) :
    (V.apply (.insertRegistry g)).act c b action = V.act c b action := by
  cases action with
  | bet x amount => rfl
  | win x amount => rfl
  | rollback r o =>
    change (V.apply (.insertRegistry g)).actRollback c b r o = V.actRollback c b r o
    rw [actRollback, actRollback, original?_insertRegistry hV]
    rfl

end Db

section
variable {V : Db} {c : Call} {b : Int} {action : ProcessAction} {act : Act}

theorem Service.param_eq_ok {svc : Service} {x v : Int} :
    svc.param x = .ok v ↔ svc.bind x = some v := by
  rw [Service.param]
  cases svc.bind x <;> simp

theorem bind_eq_ok {x : Except ε α} {f : α → Except ε β} {r : β} :
    x >>= f = .ok r ↔ ∃ a, x = .ok a ∧ f a = .ok r := by
  cases x with
  | error e => exact ⟨nofun, nofun⟩
  | ok a => exact ⟨fun h => ⟨a, rfl, h⟩, fun ⟨_, ha, h⟩ => Except.ok.inj ha ▸ h⟩

theorem Db.removal_eq_ok {svc : Service} {row : ActionRow} {outs : List OutboxRow}
    (h : removal svc row = .ok outs) : Removal svc row outs := by
  rw [removal] at h
  split at h
  · cases h
    exact .rollback ‹_›
  · obtain ⟨n, hn, h⟩ := bind_eq_ok.1 h
    obtain ⟨v, hv, h⟩ := bind_eq_ok.1 h
    cases h
    exact .original ‹_› (Service.param_eq_ok.1 hn) (Service.param_eq_ok.1 hv)

/-- The mark that an applied rollback leaves on its original. -/
def Act.Marks (act : Act) (V : Db) (svc : Service) : Prop :=
  (act.mark = none ∧ ¬ (act.row.actionType = .rollback ∧ act.row.status = .applied)) ∨
    ∃ o ∈ V.ledger, act.row.actionType = .rollback ∧ act.row.status = .applied ∧
      act.row.originalActionId = some o.actionId ∧
      act.mark = some (o.actionId, svc.date o.createdAt)

theorem Db.actOriginal_effect {type : ActionType} {x : Uuid} {amount : Int}
    (ha : action.IsOriginal type x amount) (h : V.actOriginal c b type x amount = .ok act) :
    Effect .now V c b action act.row act.intent act.outs act.balance ∧ act.Marks V c.svc := by
  by_cases hseen : V.HasIntent x
  · simp only [actOriginal, if_pos hseen] at h
    split at h
    · cases h
    split at h
    · cases h
    rename_i hb
    obtain ⟨v, hv, h⟩ := bind_eq_ok.1 h
    obtain ⟨d, hd, h⟩ := bind_eq_ok.1 h
    rw [Service.param_eq_ok] at hv hd
    split at h
    · cases h
      obtain rfl : 0 = d := Option.some.inj (c.svc.bind_zero.symm.trans hd)
      exact ⟨.prerolled ha hseen hv ‹_› (not_lt.1 hb), Or.inl ⟨rfl, fun h => ha.type_ne h.1⟩⟩
    · cases h
  · simp only [actOriginal, if_neg hseen] at h
    split at h
    · cases h
    split at h
    · cases h
    rename_i hb
    obtain ⟨v, hv, h⟩ := bind_eq_ok.1 h
    obtain ⟨d, hd, h⟩ := bind_eq_ok.1 h
    rw [Service.param_eq_ok] at hv hd
    split at h
    · rename_i hpos
      cases h
      obtain rfl : d = signed type v := bind_originalDelta hv hpos hd
      exact ⟨.applied ha hseen hv hpos (not_lt.1 hb), Or.inl ⟨rfl, fun h => ha.type_ne h.1⟩⟩
    · cases h

theorem Db.actRollback_effect {r o : Uuid} (hV : V.Consistent)
    (h : V.actRollback c b r o = .ok act) :
    Effect .now V c b (.rollback r o) act.row act.intent act.outs act.balance ∧
      act.Marks V c.svc := by
  rw [actRollback] at h
  split at h
  · cases h
    exact ⟨.already ‹_›, Or.inl ⟨rfl, fun h => by cases h.2⟩⟩
  rename_i hno
  split at h
  · rename_i hnone
    cases h
    refine ⟨.tombstone hno fun row hrow hid => ?_, Or.inl ⟨rfl, fun h => ?_⟩⟩
    · subst hid
      have hsome := (original?_insertRegistry hV ⟨0, 0, ⟨"", ""⟩, 0⟩ row.actionId).symm.trans
        (hV.original?_of_mem hrow _)
      rw [hnone] at hsome
      cases hsome
    · cases h.2
  · rename_i row hrow
    obtain ⟨hid, hmem, _⟩ := original?_registry hrow
    split at h
    · cases h
      exact ⟨.notApplied hno hmem hid ‹_›, Or.inl ⟨rfl, fun h => by cases h.2⟩⟩
    rename_i happlied
    obtain ⟨hst, hne⟩ := not_or.1 happlied
    split at h
    · cases h
    rename_i hb
    obtain ⟨d, hd, h⟩ := bind_eq_ok.1 h
    obtain ⟨outs, houts, h⟩ := bind_eq_ok.1 h
    cases h
    refine ⟨.reversed hno hmem hid (not_not.1 hst) hne (not_lt.1 hb)
      (Service.param_eq_ok.1 hd) (removal_eq_ok houts), Or.inr ⟨row, hmem, rfl, rfl, ?_, ?_⟩⟩
    · rw [hid]
      rfl
    · rw [hid]

theorem Db.act_effect (hV : V.Consistent) (h : V.act c b action = .ok act) :
    Effect .now V c b action act.row act.intent act.outs act.balance ∧ act.Marks V c.svc := by
  cases action with
  | bet x amount => exact actOriginal_effect .bet h
  | win x amount => exact actOriginal_effect .win h
  | rollback r o => exact actRollback_effect hV h

theorem exec_processAction (hV : V.Consistent) (hnew : ¬ V.Registered action.actionId) :
    postgres.exec (processAction c.svc c.draws c.request action (c.claimed action.actionId) b)
      (postgres.view V [.insertRegistry (c.registryRow action.actionId)]) =
      (V.act c b action).map fun act =>
        (⟨act.balance, c.draws.txId action.actionId⟩, V.performed c act) := by
  have hreg : (postgres.view V [.insertRegistry (c.registryRow action.actionId)]).Registered
      action.actionId := by
    rw [Db.view_registered]
    exact Or.inr ⟨_, List.mem_singleton.2 rfl, rfl⟩
  have hperformed : ∀ {act}, V.act c b action = .ok act → V.performed c act =
      postgres.view (postgres.view V [.insertRegistry (c.registryRow action.actionId)])
        (act.writes c.draws.now) := by
    intro act hact
    rw [Db.performed, (Db.act_effect hV hact).1.actionId]
    rfl
  have hexec : postgres.exec (processAction c.svc c.draws c.request action
      (c.claimed action.actionId) b)
      (postgres.view V [.insertRegistry (c.registryRow action.actionId)]) =
      (V.act c b action).map fun act => (⟨act.balance, c.draws.txId action.actionId⟩,
        postgres.view (postgres.view V [.insertRegistry (c.registryRow action.actionId)])
          (act.writes c.draws.now)) := by
    rw [← Db.act_insertRegistry hV (c.registryRow action.actionId)]
    cases action with
    | bet x amount => exact exec_processBetOrWin amount nofun hreg
    | win x amount => exact exec_processBetOrWin amount nofun hreg
    | rollback r o =>
      apply exec_processRolback hreg
      rintro ⟨t, ht, hr⟩
      obtain ⟨row, hrow, _, _, hid, _⟩ := hV.intent_row t ht
      exact hnew ⟨row.registry, hV.registered row hrow, hid.trans hr⟩
  rw [hexec]
  cases hact : V.act c b action with
  | error e => rfl
  | ok act => exact congrArg (fun db => Except.ok (_, db)) (hperformed hact).symm

theorem Act.writes_performed (he : Effect .now V c b action act.row act.intent act.outs b') :
    Adds V (V.performed c act) act.row act.intent act.outs := by
  rw [Db.performed, ← he.registry]
  apply Adds.of_writes act.row act.intent act.outs _ he.core
  intro w hw
  obtain ⟨key, _, rfl⟩ := List.mem_map.1 hw
  exact True.intro

/-- The actions of a request in the tables `V`, with the balance and the transactions so far. -/
def Db.perform (c : Call) : Db → Int → List Transaction → List ProcessAction →
    Except Err ((Int × List Transaction) × Db)
  | V, b, txs, [] => .ok ((b, txs), V)
  | V, b, txs, action :: rest =>
    match V.actionRegistry.find? (·.actionId = action.actionId) with
    | some g => V.perform c b (txs ++ [⟨action.actionId, g.txId⟩]) rest
    | none => do
      let act ← V.act c b action
      (V.performed c act).perform c act.balance
        (txs ++ [⟨action.actionId, c.draws.txId action.actionId⟩]) rest

/-- What one action of a request does to the tables and the balance, and its `tx_id`. -/
inductive Db.Performs (V : Db) (c : Call) (b : Int) (action : ProcessAction) :
    Db → Int → Uuid → Prop where
  | duplicate {g} (hg : V.actionRegistry.find? (·.actionId = action.actionId) = some g) :
    Performs V c b action V b g.txId
  | fresh {new : Act} (hnew : ¬ V.Registered action.actionId)
    (h : V.act c b action = .ok new) :
    Performs V c b action (V.performed c new) new.balance (c.draws.txId action.actionId)

theorem Db.find?_eq_none {x : Uuid} :
    V.actionRegistry.find? (·.actionId = x) = none ↔ ¬ V.Registered x := by
  simp [Db.Registered]

theorem Db.Performs.stepped (hV : V.Consistent) {V' : Db} {txId : Uuid}
    (h : V.Performs c b action V' b' txId) : Stepped .now V V' c b action b' txId := by
  cases h with
  | duplicate hg =>
    exact .duplicate (List.mem_of_find?_eq_some hg) (by simpa using List.find?_some hg) rfl
  | fresh hnew hact =>
    obtain ⟨he, _⟩ := Db.act_effect hV hact
    exact .fresh hnew he (Act.writes_performed he)

theorem Db.perform_cons {txs : List Transaction} {rest : List ProcessAction}
    {r : (Int × List Transaction) × Db} (h : V.perform c b txs (action :: rest) = .ok r) :
    ∃ V' b' txId, V.Performs c b action V' b' txId ∧
      V'.perform c b' (txs ++ [⟨action.actionId, txId⟩]) rest = .ok r := by
  rw [perform] at h
  cases hfind : V.actionRegistry.find? (·.actionId = action.actionId) with
  | some g =>
    rw [hfind] at h
    exact ⟨V, b, g.txId, .duplicate hfind, h⟩
  | none =>
    rw [hfind] at h
    obtain ⟨act, hact, h⟩ := bind_eq_ok.1 h
    exact ⟨_, _, _, .fresh (find?_eq_none.1 hfind) hact, h⟩

theorem Db.perform_append {txs : List Transaction} (pre rest : List ProcessAction) :
    V.perform c b txs (pre ++ rest) =
      V.perform c b txs pre >>= fun r => r.2.perform c r.1.1 r.1.2 rest := by
  induction pre generalizing V b txs with
  | nil => rfl
  | cons action pre ih =>
    rw [List.cons_append, perform, perform]
    cases V.actionRegistry.find? (·.actionId = action.actionId) with
    | some g => exact ih
    | none =>
      cases V.act c b action with
      | error e => rfl
      | ok act => exact ih

/-- What every action keeps, with the actions done so far, holds after them all. -/
theorem Db.perform_history {P : List ProcessAction → Db → Int → Prop} {txs : List Transaction}
    {actions : List ProcessAction} {r : (Int × List Transaction) × Db} (hV : V.Consistent)
    (h : V.perform c b txs actions = .ok r) (h₀ : P [] V b)
    (hs : ∀ {pre action post V b V' b' txId}, actions = pre ++ action :: post → V.Consistent →
      P pre V b → V.Performs c b action V' b' txId → P (pre ++ [action]) V' b') :
    r.2.Consistent ∧ P actions r.2 r.1.1 := by
  induction actions generalizing V b txs P with
  | nil =>
    cases h
    exact ⟨hV, h₀⟩
  | cons action rest ih =>
    obtain ⟨V', b', txId, hperf, hrest⟩ := perform_cons h
    apply ih (P := fun pre => P (action :: pre)) (hV.stepped (hperf.stepped hV)) hrest
      (@hs [] _ _ _ _ _ _ _ rfl hV h₀ hperf)
    intro pre action' post V b V' b' txId heq hV hP hperf
    exact @hs (action :: pre) action' post V b V' b' txId (by rw [heq]; rfl) hV hP hperf

theorem exec_claim {g : ClaimResult → Tx α} {x : Uuid} :
    postgres.exec (claimAtcion c.svc c.draws x c.account >>= g) V =
      match V.actionRegistry.find? (·.actionId = x) with
      | some row => postgres.exec (g (.duplicate row.txId)) V
      | none => postgres.exec (g (.claimed (c.claimed x)))
          (postgres.view V [.insertRegistry (c.registryRow x)]) := by
  cases hfind : V.actionRegistry.find? (·.actionId = x) with
  | none => exact exec_claim_new (Db.find?_eq_none.1 hfind)
  | some row =>
    have hid : row.actionId = x := by simpa using List.find?_some hfind
    have hreg : V.Registered x := ⟨row, List.mem_of_find?_eq_some hfind, hid⟩
    have hrows : (V.actionRegistry.filter (·.actionId = x)).head? = some row :=
      List.head?_filter.trans hfind
    cases hfilter : V.actionRegistry.filter (·.actionId = x) with
    | nil =>
      rw [hfilter] at hrows
      cases hrows
    | cons row' rest =>
      rw [hfilter] at hrows
      cases hrows
      rw [claimAtcion, Prog.bind_assoc, exec_query (by rw [Stmt.eval, if_pos hreg, hfilter])]
      rfl

theorem exec_processActions {txs : List Transaction} {actions : List ProcessAction}
    (hV : V.Consistent) :
    postgres.exec (processActions c.svc c.draws c.request actions b txs) V =
      V.perform c b txs actions := by
  induction actions generalizing V b txs with
  | nil => rfl
  | cons action rest ih =>
    rw [processActions, Db.perform]
    apply exec_claim.trans
    cases hfind : V.actionRegistry.find? (·.actionId = action.actionId) with
    | some g => exact ih hV
    | none =>
      have hnew := Db.find?_eq_none.1 hfind
      dsimp only
      rw [postgres.exec_bind, exec_processAction hV hnew]
      cases hact : V.act c b action with
      | error e => rfl
      | ok act => exact ih (hV.stepped ((Db.Performs.fresh hnew hact).stepped hV))

theorem Db.perform_accounts {txs : List Transaction} {actions : List ProcessAction}
    {r : (Int × List Transaction) × Db} (hV : V.Consistent)
    (h : V.perform c b txs actions = .ok r) : r.2.accounts = V.accounts := by
  apply (perform_history (P := fun _ V' _ => V'.accounts = V.accounts) hV h rfl _).2
  intro pre action post V b V' b' txId _ hV hP hperf
  exact (hperf.stepped hV).accounts.trans hP

end

section
variable {c : Call} {db : Db}

theorem Db.Consistent.opened_account (h : db.Consistent) (a : Account) :
    (db.opened a).Consistent := by
  have hnodup := Db.opened_nodup a h.accounts_nodup
  rw [Db.opened] at hnodup ⊢
  split
  · exact h
  · rename_i hnone
    rw [if_neg hnone] at hnodup
    exact ⟨hnodup, h.registry_nodup, h.ledger_nodup, h.intents_nodup, h.registered, h.recorded,
      h.intent_row, h.row_intent, h.shape⟩

theorem exec_updateBalance {V : Db} {a : Account} {stored : Int} {r : α}
    (h : (V.account? a).isSome) :
    postgres.exec (query (.updateBalance a stored) >>= fun _ => (pure r : Tx α)) V =
      if stored < 0 then .error .checkViolation
      else .ok (r, V.apply (.updateBalance a stored)) := by
  split
  · rename_i hneg
    exact postgres.exec_error (by rw [postgres_eval, Stmt.eval, if_pos h, if_pos hneg])
  · rename_i hneg
    have heval : (Stmt.updateBalance a stored).eval V V =
        .ok ((), [.updateBalance a stored]) := (if_pos h).trans (if_neg hneg)
    exact exec_query heval

theorem exec_body (h : db.Consistent) (hne : c.actions ≠ []) : postgres.exec c.body db = (do
    let r ← (db.opened c.account).perform c (c.svc.load (db.balance c.account)) [] c.actions
    let stored ← c.svc.param r.1.1
    if stored < 0 then .error .checkViolation
    else .ok (.actions c.request.gameId r.1.2 r.1.1,
      r.2.apply (.updateBalance c.account stored))) := by
  have hlength : ¬ (c.request.actions.getD []).length = 0 :=
    fun h' => hne (List.length_eq_zero_iff.1 h')
  have hopened := h.opened_account c.account
  rw [Call.body, processAggregatorRequest_eq]
  apply exec_lockAccount.trans
  rw [afterLock, if_neg hlength, postgres.exec_bind]
  have hloop : postgres.exec (processActions c.svc c.draws c.request c.actions
      (c.svc.load (db.balance c.account)) []) (db.opened c.account) =
      (db.opened c.account).perform c (c.svc.load (db.balance c.account)) [] c.actions :=
    exec_processActions hopened
  change postgres.exec (processActions c.svc c.draws c.request c.actions
    (c.svc.load (db.balance c.account)) []) (db.opened c.account) >>= _ = _
  rw [hloop]
  cases hperf : (db.opened c.account).perform c (c.svc.load (db.balance c.account)) []
      c.actions with
  | error e => rfl
  | ok r =>
    obtain ⟨⟨b, txs⟩, V⟩ := r
    change postgres.exec (bigint c.svc b >>= _) V = c.svc.param b >>= _
    rw [exec_bigint]
    cases c.svc.param b with
    | error e => rfl
    | ok stored =>
      apply exec_updateBalance
      have haccounts : V.accounts = (db.opened c.account).accounts :=
        Db.perform_accounts hopened hperf
      rw [Db.account?, haccounts]
      exact Option.isSome_iff_exists.2 ⟨_, Db.opened_account? c.account⟩

theorem Call.serve_perform (h : db.Consistent) {resp : ProcessResponse}
    (hok : (c.serve db).1 = .ok resp) :
    (c.actions = [] ∧ (c.serve db).2 = db.opened c.account) ∨
      ∃ r stored, (db.opened c.account).perform c (c.svc.load (db.balance c.account)) []
          c.actions = .ok r ∧ c.svc.bind r.1.1 = some stored ∧ 0 ≤ stored ∧
        resp = .actions c.request.gameId r.1.2 r.1.1 ∧
        (c.serve db).2 = r.2.apply (.updateBalance c.account stored) := by
  by_cases hnil : c.actions = []
  · have hexec : (postgres.exec c.body db).map Prod.snd = .ok (db.opened c.account) :=
      exec_body_nil hnil
    rw [Call.serve, Engine.transact] at hok ⊢
    cases hc : postgres.exec c.body db with
    | error e =>
      rw [hc] at hok
      cases hok
    | ok r =>
      rw [hc] at hexec
      exact Or.inl ⟨hnil, Except.ok.inj hexec⟩
  · rw [Call.serve, Engine.transact] at hok ⊢
    cases hc : postgres.exec c.body db with
    | error e =>
      rw [hc] at hok
      cases hok
    | ok result =>
      rw [hc] at hok
      rw [exec_body h hnil] at hc
      obtain ⟨r, hr, hc⟩ := bind_eq_ok.1 hc
      obtain ⟨stored, hstored, hc⟩ := bind_eq_ok.1 hc
      split at hc
      · cases hc
      · rename_i hpos
        cases hc
        cases hok
        exact Or.inr ⟨r, stored, hr, Service.param_eq_ok.1 hstored, not_lt.1 hpos, rfl, rfl⟩

theorem Call.serve_history {P : List ProcessAction → Db → Prop} (h : db.Consistent)
    {resp : ProcessResponse} (hok : (c.serve db).1 = .ok resp) (h₀ : P [] db)
    (hrows : ∀ {pre V rows}, P pre V → P pre { V with accounts := rows })
    (hs : ∀ {pre action post V b V' b' txId}, c.actions = pre ++ action :: post →
      V.Consistent → P pre V → V.Performs c b action V' b' txId → P (pre ++ [action]) V') :
    P c.actions (c.serve db).2 := by
  have hopened : P [] (db.opened c.account) := by
    rw [Db.opened]
    split
    · exact h₀
    · exact hrows h₀
  rcases Call.serve_perform h hok with ⟨hnil, hdb⟩ | ⟨r, stored, hr, _, _, _, hdb⟩
  · rw [hnil, hdb]
    exact hopened
  · rw [hdb]
    exact hrows (Db.perform_history (P := fun pre V _ => P pre V) (h.opened_account c.account)
      hr hopened hs).2

end
end BetProcessor
