import BetProcessor.Bookkeeping
import BetProcessor.Constraints

namespace BetProcessor
set_option autoImplicit true
open Txn

/-- What `processRequestSchema` asks of the numbers of an action. -/
def ProcessAction.Accepted : ProcessAction → Prop
  | .bet _ amount | .win _ amount => 0 < amount
  | .rollback _ _ => True

/-- What `processRequestSchema` asks of a request. -/
structure ProcessRequest.Accepted (request : ProcessRequest) : Prop where
  userId : request.userId ≠ ""
  currency : request.currency ≠ ""
  game : request.game ≠ ""
  gameId : ∀ gameId ∈ request.gameId, gameId ≠ ""
  actions : ∀ actions ∈ request.actions, ∀ action ∈ actions, action.Accepted

/-- One of the services, or one of them computing with exact integers. -/
def Service.Runs (svc : Service) : Prop :=
  svc.Deployed ∨ ∃ svc' : Service, svc'.Deployed ∧ svc = svc'.exact

theorem Service.Deployed.accepts {svc : Service} {amount : Int} (h : svc.Deployed)
    (hpos : 0 < amount) : svc.refuses amount = false := by
  rcases h with rfl | rfl
  · rfl
  · exact decide_eq_false (not_le.2 hpos)

theorem Service.Runs.accepts {svc : Service} {amount : Int} (h : svc.Runs) (hpos : 0 < amount) :
    svc.refuses amount = false := by
  rcases h with h | ⟨svc', h, rfl⟩
  · exact h.accepts hpos
  · exact h.accepts hpos

namespace Service
variable (svc : Service) {x v : Int}

theorem load_nonneg (h : 0 ≤ x) : 0 ≤ svc.load x := by
  rcases h.eq_or_lt with rfl | h
  · exact (svc.load_small (by decide)).ge
  · exact (svc.load_pos h).le

theorem bind_nonneg (h : 0 ≤ x) (hv : svc.bind x = some v) : 0 ≤ v := by
  rcases h.eq_or_lt with rfl | h
  · exact (Option.some.inj (svc.bind_zero.symm.trans hv)).le
  · exact (svc.bind_pos h hv).le

end Service

/-- Every `tx_id` of the registry has been drawn for its action. -/
def Db.Drawn (calls : List Call) (V : Db) : Prop :=
  ∀ g ∈ V.actionRegistry, ∃ c ∈ calls, g.txId = c.draws.txId g.actionId

section
variable {V : Db} {c : Call} {calls : List Call} {x : Uuid}

theorem Db.Drawn.fresh (h : V.Drawn calls) (hfresh : FreshTxIds calls) (hc : c ∈ calls)
    (hx : ¬ V.Registered x) : ∀ g ∈ V.actionRegistry, g.txId ≠ (c.registryRow x).txId := by
  intro g hg htx
  obtain ⟨c', hc', hdrawn⟩ := h g hg
  apply hx
  exact ⟨g, hg, hfresh c' hc' c hc _ _ (hdrawn.symm.trans htx)⟩

theorem Db.Drawn.stepped {L : Lookups} {V' : Db} {b b' : Int} {action : ProcessAction}
    {txId : Uuid} (h : V.Drawn calls) (hc : c ∈ calls) (hs : Stepped L V V' c b action b' txId) :
    V'.Drawn calls := by
  cases hs with
  | duplicate _ _ hV' =>
    rw [hV']
    exact h
  | fresh _ he ha =>
    intro g hg
    rw [ha.actionRegistry, List.mem_append, List.mem_singleton] at hg
    rcases hg with hg | rfl
    · exact h g hg
    · rw [he.registry]
      exact ⟨c, hc, rfl⟩

theorem Db.Drawn.commit {past : Moment → Prop} {ws : List Write} {resp : ProcessResponse}
    (h : V.Drawn calls) (hV : V.Consistent) (hc : c ∈ calls) (hp : Stable past V)
    (hcommit : Committed past c ws resp) : (postgres.view V ws).Drawn calls :=
  (hcommit.tables (P := fun _ V => V.Drawn calls) hp Sees.stale hV h (fun h => h)
    fun _ _ _ _ h hs => h.stepped hc hs).2

namespace Clean

theorem claimAtcion {f : ClaimResult → Tx α} (h : V.Constraints)
    (htx : ¬ V.Registered x → ∀ g ∈ V.actionRegistry, g.txId ≠ (c.registryRow x).txId)
    (hdup : ∀ txId, Clean c.svc c.request (f (.duplicate txId)) V)
    (hnew : ¬ V.Registered x →
      (postgres.view V [.insertRegistry (c.registryRow x)]).Constraints →
      Clean c.svc c.request (f (.claimed (c.claimed x)))
        (postgres.view V [.insertRegistry (c.registryRow x)])) :
    Clean c.svc c.request (claimAtcion c.svc c.draws x c.account >>= f) V := by
  rw [BetProcessor.claimAtcion, Prog.bind_assoc]
  by_cases hx : V.Registered x
  · cases hrows : V.actionRegistry.filter (·.actionId = x) with
    | nil =>
      obtain ⟨g, hg, hid⟩ := hx
      exact absurd (decide_eq_true hid) (List.filter_eq_nil_iff.1 hrows g hg)
    | cons row rest =>
      have heval : ∀ input : ClaimInput, input.actionId = x → (Stmt.claim input).eval V V =
          .ok ((row :: rest).map fun g =>
            ⟨g.txId, g.ledgerCreatedAt, input.accountHash, false⟩, []) := by
        rintro input rfl
        rw [Stmt.eval, if_pos hx, hrows]
      exact query rfl (heval _ rfl) h (hdup row.txId)
  · have hclaim := h.insertRegistry hx (htx hx)
    have hdate : c.claimed x = ⟨x, c.draws.txId x, c.svc.date (c.claimedAt x), c.accountHash⟩ := by
      rw [Call.claimedAt, c.svc.date_stamp]
      rfl
    have hrest := hnew hx hclaim
    rw [hdate] at hrest
    exact query (s := .claim ⟨x, c.account, _, _, _⟩) rfl (if_neg hx) hclaim hrest

theorem processAction {action : ProcessAction} {b : Int} (hV : V.Consistent)
    (hsvc : c.svc.Runs) (haccepted : action.Accepted) (hnew : ¬ V.Registered action.actionId)
    (hW : (postgres.view V [.insertRegistry (c.registryRow action.actionId)]).Constraints) :
    Clean c.svc c.request
      (processAction c.svc c.draws c.request action (c.claimed action.actionId) b)
      (postgres.view V [.insertRegistry (c.registryRow action.actionId)]) := by
  have hreg : (postgres.view V [.insertRegistry (c.registryRow action.actionId)]).Registered
      action.actionId := by
    rw [Db.view_registered]
    exact Or.inr ⟨_, List.mem_singleton.2 rfl, rfl⟩
  cases action with
  | bet x amount => exact processBetOrWin hW nofun hreg haccepted (hsvc.accepts haccepted)
  | win x amount => exact processBetOrWin hW nofun hreg haccepted (hsvc.accepts haccepted)
  | rollback r o =>
    apply processRolback hW hreg
    rintro ⟨t, ht, hr⟩
    obtain ⟨row, hrow, _, _, hid, _⟩ := hV.intent_row t ht
    exact hnew ⟨row.registry, hV.registered row hrow, hid.trans hr⟩

theorem processActions {actions : List ProcessAction} {b : Int} {txs : List Transaction}
    (hsvc : c.svc.Runs) (hc : c ∈ calls) (hfresh : FreshTxIds calls) (h : V.Constraints)
    (hV : V.Consistent) (hdrawn : V.Drawn calls) (haccepted : ∀ action ∈ actions, action.Accepted) :
    Clean c.svc c.request (processActions c.svc c.draws c.request actions b txs) V := by
  induction actions generalizing V b txs with
  | nil => trivial
  | cons action rest ih =>
    have hrest : ∀ action ∈ rest, action.Accepted := fun action hmem =>
      haccepted action (List.mem_cons_of_mem _ hmem)
    rw [BetProcessor.processActions]
    apply claimAtcion h (hdrawn.fresh hfresh hc)
    · intro txId
      exact ih h hV hdrawn hrest
    · intro hnew hW
      have hfirst := processAction (b := b) hV hsvc (haccepted action (List.mem_cons_self ..))
        hnew hW
      apply hfirst.bind
      intro result V' hexec
      have hV' : V'.Constraints := hfirst.constraints hW hexec
      rw [exec_processAction hV hnew] at hexec
      cases hact : V.act c b action with
      | error e =>
        rw [hact] at hexec
        cases hexec
      | ok act =>
        rw [hact] at hexec
        cases hexec
        have hstepped := (Db.Performs.fresh hnew hact).stepped hV
        exact ih hV' (hV.stepped hstepped) (hdrawn.stepped hc hstepped) hrest

theorem lockAccount {svc : Service} {request : ProcessRequest} {f : Int → Tx α}
    (h : V.Constraints) (hf : (V.opened request.account).Constraints →
      Clean svc request (f (svc.load (V.balance request.account))) (V.opened request.account)) :
    Clean svc request (lockAccount svc request.account >>= f) V := by
  have hopened : (V.opened request.account).Constraints := by
    rw [Db.opened]
    split
    · exact h
    · exact h.insertAccount ‹_›
  rw [BetProcessor.lockAccount, Prog.bind_assoc]
  apply query (s := .insertAccount request.account) rfl (eval_insertAccount request.account)
  · rwa [Db.view_insertAccount]
  · rw [Db.view_insertAccount, Prog.bind_assoc]
    exact query trivial (eval_selectAccountForUpdate request.account) hopened (hf hopened)

theorem updateBalance {svc : Service} {request : ProcessRequest} {a : Account} {b : Int} {r : α}
    (h : V.Constraints) (hrow : (V.account? a).isSome) (hb : 0 ≤ b) :
    Clean svc request (BetProcessor.query (.updateBalance a b) >>= fun _ => (pure r : Tx α)) V :=
  query trivial ((if_pos hrow).trans (if_neg (not_lt.2 hb))) (h.updateBalance a hb) trivial

theorem body (hsvc : c.svc.Runs) (hc : c ∈ calls) (hfresh : FreshTxIds calls) (h : V.Constraints)
    (hV : V.Consistent) (hdrawn : V.Drawn calls) (haccepted : c.request.Accepted) :
    Clean c.svc c.request c.body V := by
  have hopened := hV.opened_account c.account
  have hdrawn' : (V.opened c.account).Drawn calls := by
    intro g hg
    rw [Db.opened_actionRegistry] at hg
    exact hdrawn g hg
  have hactions : ∀ action ∈ c.request.actions.getD [], action.Accepted := by
    intro action hmem
    cases hrequest : c.request.actions with
    | none =>
      rw [hrequest] at hmem
      cases hmem
    | some actions =>
      rw [hrequest] at hmem
      exact haccepted.actions actions hrequest action hmem
  rw [Call.body, processAggregatorRequest_eq]
  apply lockAccount h
  intro hW
  rw [afterLock]
  split
  · trivial
  · have hloop : Clean c.svc c.request (BetProcessor.processActions c.svc c.draws c.request
        (c.request.actions.getD []) (c.svc.load (V.balance c.account)) []) (V.opened c.account) :=
      processActions hsvc hc hfresh hW hopened hdrawn' hactions
    apply hloop.bind
    intro r V' hexec
    have hV' : V'.Constraints := hloop.constraints hW hexec
    have hperform := (exec_processActions hopened).symm.trans hexec
    have haccounts : V'.accounts = (V.opened c.account).accounts :=
      Db.perform_accounts hopened hperform
    have hrow : (V'.account? c.account).isSome := by
      rw [Db.account?, haccounts]
      exact Option.isSome_iff_exists.2 ⟨_, Db.opened_account? c.account⟩
    have hb : 0 ≤ r.1 := Db.perform_balance_nonneg hopened
      (c.svc.load_nonneg (h.balance_nonneg c.account)) hperform
    apply bigint
    intro stored hstored
    exact updateBalance hV' hrow (c.svc.bind_nonneg hb hstored)

end Clean

theorem ActionRow.Shape.check {r : ActionRow} (h : r.Shape) : r.Check := by
  rw [Check]
  cases h with
  | original htype horiginal hpos hamount =>
    rw [horiginal, hamount]
    cases ht : r.actionType with
    | rollback => exact absurd ht htype
    | bet => exact hpos
    | win => exact hpos
  | rollback htype horiginal hamount =>
    rw [htype, horiginal, hamount]
    trivial

/-- The tables of a committed state satisfy every constraint. -/
theorem Db.Consistent.constraints (h : V.Consistent) (hb : ∀ a, 0 ≤ V.balance a)
    (hdrawn : V.Drawn calls) (hfresh : FreshTxIds calls) : V.Constraints where
  accounts_pkey := h.accounts_nodup
  accounts_balance_check row hrow := by
    have hfind : V.account? row.account = some row := by
      apply find?_of_unique hrow (decide_eq_true rfl)
      intro row' hrow' hacc
      exact List.inj_on_of_nodup_map h.accounts_nodup hrow' hrow (of_decide_eq_true hacc)
    have hpos := hb row.account
    rwa [Db.balance, hfind] at hpos
  action_registry_pkey := h.registry_nodup
  action_registry_tx_id_key := by
    apply List.Nodup.map_on _ (h.registry_nodup.of_map _)
    intro g hg g' hg' htx
    obtain ⟨c, hc, hc'⟩ := hdrawn g hg
    obtain ⟨d, hd, hd'⟩ := hdrawn g' hg'
    exact List.inj_on_of_nodup_map h.registry_nodup hg hg'
      (hfresh c hc d hd _ _ (hc'.symm.trans (htx.trans hd')))
  actions_action_id_fkey row hrow := ⟨_, h.registered _ (V.mem_ledger hrow), rfl⟩
  actions_check row hrow := (h.shape _ (V.mem_ledger hrow)).check
  rollback_intents_pkey := h.intents_nodup
  rollback_intents_rollback_action_id_key := by
    apply List.Nodup.map_on _ (h.intents_nodup.of_map _)
    intro t ht t' ht' hid
    obtain ⟨r, hr, _, _, hrid, horiginal, _⟩ := h.intent_row t ht
    obtain ⟨r', hr', _, _, hrid', horiginal', _⟩ := h.intent_row t' ht'
    obtain rfl := h.ledger_inj hr hr' (hrid.trans (hid.trans hrid'.symm))
    exact List.inj_on_of_nodup_map h.intents_nodup ht ht'
      (Option.some.inj (horiginal.symm.trans horiginal'))
  rollback_intents_rollback_action_id_fkey t ht := by
    obtain ⟨r, hr, _, _, hid, _⟩ := h.intent_row t ht
    exact ⟨r.registry, h.registered r hr, hid⟩

end

end BetProcessor
