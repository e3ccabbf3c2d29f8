import BetProcessor.Reporting

namespace BetProcessor
set_option autoImplicit true
open Txn

/-- An account at every minute. -/
def ofAccount (a : Account) : Int → Account → Bool := fun _ a' => a' = a

/-- The net gaming result of an account in the reporting stream. -/
def Db.net (db : Db) (a : Account) : Int :=
  db.reported (ofAccount a) .totalWin - db.reported (ofAccount a) .totalBet

/-- An applied rollback whose target is itself a rollback. -/
def Db.ReversesRollback (db : Db) (r : ActionRow) : Prop :=
  r.actionType = .rollback ∧ r.status = .applied ∧
    ∃ o ∈ db.ledger, r.originalActionId = some o.actionId ∧ o.actionType = .rollback

instance (db : Db) (r : ActionRow) : Decidable (db.ReversesRollback r) :=
  inferInstanceAs (Decidable (_ ∧ _ ∧ ∃ o ∈ db.ledger, _ ∧ _))

/-- The money moved by the ledger rows of an account. -/
def Db.moved (db : Db) (a : Account) : Int :=
  sumOf db.ledger (fun r => r.account = a) (·.balanceDelta)

/-- The same without the reversals of rollbacks. -/
def Db.movedByGames (db : Db) (a : Account) : Int :=
  sumOf db.ledger (fun r => r.account = a)
    fun r => if db.ReversesRollback r then 0 else r.balanceDelta

/-- Every rollback of the calls is sent with the account of the action that it targets. -/
def Db.TargetsOwn (db : Db) (calls : List Call) : Prop :=
  ∀ c ∈ calls, ∀ action ∈ c.actions, ∀ o ∈ action.target?, ∀ row ∈ db.ledger,
    row.actionId = o → row.account = c.account

instance (db : Db) (calls : List Call) : Decidable (db.TargetsOwn calls) :=
  inferInstanceAs (Decidable (∀ c ∈ calls, ∀ action ∈ c.actions, ∀ o ∈ action.target?,
    ∀ row ∈ db.ledger, _ → _))

section
variable {V V' : Db} {c : Call} {a : Account} {action : ProcessAction} {row : ActionRow}
variable {intent : Option IntentRow} {outs : List OutboxRow} {b b' : Int} {L : Lookups}
variable {txId : Uuid}

/-- The net result of some deltas for an account. -/
def netOf (outs : List OutboxRow) (a : Account) : Int :=
  sumOf outs (fun out => ofAccount a out.bucketMinute out.account) (·.column .totalWin) -
    sumOf outs (fun out => ofAccount a out.bucketMinute out.account) (·.column .totalBet)

theorem netOf_append (outs outs' : List OutboxRow) (a : Account) :
    netOf (outs ++ outs') a = netOf outs a + netOf outs' a := by
  simp only [netOf, sumOf_append]
  ring

theorem netOf_single (out : OutboxRow) (a : Account) :
    netOf [out] a = if out.account = a then out.totalWinDelta - out.totalBetDelta else 0 := by
  simp only [netOf, sumOf_single, ofAccount, decide_eq_true_eq]
  split <;> rfl

theorem Adds.net (ha : Adds V V' row intent outs) (a : Account) :
    V'.net a = V.net a + netOf outs a := by
  rw [Db.net, ha.reported, ha.reported, Db.net, netOf]
  ring

theorem netOf_applied (t : Int) (a : Account) {type : ActionType} (v : Int)
    (htype : type ≠ .rollback) : netOf [appliedDelta t c.account type v] a =
      if c.account = a then signed type v else 0 := by
  rw [netOf_single]
  cases type with
  | bet => simp [appliedDelta, signed]
  | win => simp [appliedDelta, signed]
  | rollback => exact absurd rfl htype

theorem netOf_rolledBack (t : Int) (a : Account) (type : ActionType) (v : Int) :
    netOf [rolledBackDelta t c.account type v] a = 0 := by
  rw [netOf_single]
  simp [rolledBackDelta]

theorem netOf_rollbackCount (t : Int) (a : Account) :
    netOf [rollbackCountDelta t c.account] a = 0 := by
  rw [netOf_single]
  simp [rollbackCountDelta]

/-- What the reversal of a bet or win takes out of the report is what it moves, however the
service rounds. -/
theorem Removal.net {svc : Service} {d : Int} (h : Removal svc row outs) (hshape : row.Shape)
    (hst : row.status = .applied) (hd : svc.bind (svc.neg (svc.load row.balanceDelta)) = some d)
    (a : Account) : netOf outs a =
      if row.account = a ∧ row.actionType ≠ .rollback then d else 0 := by
  cases h with
  | rollback htype => simp [netOf, sumOf, htype]
  | @original n v htype hn hv =>
    cases hshape with
    | rollback htype' => exact absurd htype' htype
    | @original w _ _ hpos hamount hstatus =>
      have hdelta : row.balanceDelta = signed row.actionType w := by
        rcases hstatus with ⟨_, h⟩ | ⟨h, _⟩
        · exact h
        · rw [hst] at h
          cases h
      rw [hamount] at hn hv
      replace hn : svc.bind (svc.neg (svc.load w)) = some n := hn
      replace hv : svc.bind (svc.load w) = some v := hv
      rw [hdelta] at hd
      rw [netOf_single]
      cases hrow : row.actionType with
      | bet =>
        have hd' : svc.bind (svc.load w) = some d := by
          rwa [hrow, signed, if_pos rfl, svc.neg_load_neg hpos hv] at hd
        have hdv : d = v := Option.some.inj (hd'.symm.trans hv)
        have hnv : n = -v := Option.some.inj
          (hn.symm.trans (svc.bind_neg hv (svc.bind_pos (svc.load_pos hpos) hv)))
        simp [removedDelta, hdv, hnv]
      | win =>
        have hdn : d = n := Option.some.inj (hd.symm.trans (by rwa [hrow]))
        simp [removedDelta, hdn]
      | rollback => exact absurd hrow htype

theorem Adds.reversesRollback (ha : Adds V V' row intent outs) (hV' : V'.Consistent)
    (hlinked : Linked (fun _ _ => True) V) {r : ActionRow} (hr : r ∈ V.ledger) :
    V'.ReversesRollback r ↔ V.ReversesRollback r := by
  have hgrow : ∀ {o}, o ∈ V.ledger → o ∈ V'.ledger := fun ho =>
    ha.ledger ▸ List.mem_append_left _ ho
  constructor
  · rintro ⟨htype, hst, o, ho, hro, hrollback⟩
    obtain ⟨o', ho', hro', _⟩ := hlinked r hr htype hst
    obtain rfl := hV'.ledger_inj ho (hgrow ho') (Option.some.inj (hro.symm.trans hro'))
    exact ⟨htype, hst, o, ho', hro, hrollback⟩
  · rintro ⟨htype, hst, o, ho, hro, hrollback⟩
    exact ⟨htype, hst, o, hgrow ho, hro, hrollback⟩

theorem Adds.movedByGames (ha : Adds V V' row intent outs) (hV' : V'.Consistent)
    (hlinked : Linked (fun _ _ => True) V) (a : Account) :
    V'.movedByGames a = V.movedByGames a +
      if row.account = a then (if V'.ReversesRollback row then 0 else row.balanceDelta) else 0 := by
  have hold : sumOf V.ledger (fun r => r.account = a)
      (fun r => if V'.ReversesRollback r then 0 else r.balanceDelta) = V.movedByGames a :=
    sumOf_congr fun r hr _ => if_congr (ha.reversesRollback hV' hlinked hr) rfl rfl
  rw [Db.movedByGames, ha.ledger, sumOf_append, hold, sumOf_single]
  simp only [decide_eq_true_eq]

theorem Stepped.net_eq (hs : Stepped L V V' c b action b' txId) (hV : V.Consistent)
    (hlinked : Linked (fun _ _ => True) V)
    (hown : ∀ o ∈ action.target?, ∀ row ∈ V.ledger, row.actionId = o → row.account = c.account)
    (h : V.net a = V.movedByGames a) : V'.net a = V'.movedByGames a := by
  cases hs with
  | duplicate _ _ hV' => rwa [hV']
  | @fresh row intent outs _ hfresh he ha =>
    have hV' := hV.adds hfresh he ha
    rw [ha.net, ha.movedByGames hV' hlinked, h]
    have hzero : row.balanceDelta = 0 → netOf outs a = 0 → V.movedByGames a + netOf outs a =
        V.movedByGames a + if row.account = a then
          (if V'.ReversesRollback row then 0 else row.balanceDelta) else 0 := by
      intro hd hn
      rw [hd, hn]
      simp
    cases he with
    | @applied _ type x _ v horiginal =>
      have hnot : ¬ V'.ReversesRollback (c.originalRow type x v (signed type v) .applied) :=
        fun hx => horiginal.type_ne hx.1
      rw [netOf_applied _ _ _ horiginal.type_ne, if_neg hnot]
      rfl
    | prerolled => exact hzero rfl (netOf_rolledBack ..)
    | already => exact hzero rfl rfl
    | tombstone => exact hzero rfl (netOf_rollbackCount ..)
    | notApplied => exact hzero rfl (netOf_rollbackCount ..)
    | @reversed r o orig d outs _ hrow hid hst _ _ hd hremoval =>
      subst hid
      have hacc := hown _ rfl orig hrow rfl
      have hsecond : V'.ReversesRollback (c.rollbackRow r orig.actionId d .applied) ↔
          orig.actionType = .rollback := by
        constructor
        · rintro ⟨_, _, o, ho, hro, hrollback⟩
          obtain rfl := hV'.ledger_inj ho (ha.ledger ▸ List.mem_append_left _ hrow)
            (Option.some.inj hro).symm
          exact hrollback
        · exact fun h => ⟨rfl, rfl, orig, ha.ledger ▸ List.mem_append_left _ hrow, rfl, h⟩
      rw [netOf_append, netOf_rollbackCount, hremoval.net (hV.shape _ hrow) hst hd, add_zero]
      by_cases hrollback : orig.actionType = .rollback
      · rw [if_pos (hsecond.2 hrollback)]
        simp [hrollback]
      · rw [if_neg (hsecond.not.2 hrollback)]
        simp only [hrollback, hacc, Call.rollbackRow, ne_eq, not_false_eq_true, and_true]
        rfl

end

/-- Money and reporting agree: the net result of an account in the report is the money that its
ledger rows move, the reversals of rollbacks aside. -/
theorem net_eq_movedByGames {db₀ : Db} (h₀ : db₀.Initial) (calls : List Call)
    (hown : (db₀.after calls).TargetsOwn calls) (a : Account) :
    (db₀.after calls).net a = (db₀.after calls).movedByGames a := by
  have hall := Db.after_invariant db₀ calls (P := fun V => V.Consistent ∧
    Linked (fun _ _ => True) V ∧ (V.TargetsOwn calls → V.net a = V.movedByGames a))
    ⟨h₀.consistent, Linked.initial h₀, fun _ => ?_⟩ ?_
  · exact hall.2.2 hown
  · rw [Db.net, Db.reported, Db.reported, Db.movedByGames, h₀.ledger, h₀.rtpOutbox]
    rfl
  · rintro db c ws resp hc ⟨hcons, hlinked, hnet⟩ hcommit
    refine hcommit.tables (P := fun _ V => Linked (fun _ _ => True) V ∧
      (V.TargetsOwn calls → V.net a = V.movedByGames a))
      (stable_now db) (sees_now _ _) hcons ⟨hlinked, hnet⟩ (fun h => h) ?_
    rintro pre action post V V' b b' txId heq hV _ _ ⟨hlinked, hnet⟩ hst
    refine ⟨hlinked.stepped hst fun _ _ _ _ _ _ _ _ => trivial, fun hown => ?_⟩
    have hsub : ∀ row ∈ V.ledger, row ∈ V'.ledger := fun r hr => hst.ledger.subset hr
    have haction : action ∈ c.actions := heq ▸ List.mem_append_right _ (List.mem_cons_self ..)
    refine hst.net_eq hV hlinked (fun o ho row hrow => hown c hc action haction o ho row
      (hsub row hrow)) (hnet ?_)
    exact fun c' hc' action' ha' o ho row hrow => hown c' hc' action' ha' o ho row (hsub row hrow)

/-- The reversal of a rollback moves money again but is not reported. -/
theorem second_rollback_unreported : ∃ db₀ calls a, db₀.Initial ∧
    (Db.after db₀ calls).TargetsOwn calls ∧
    (Db.after db₀ calls).net a ≠ (Db.after db₀ calls).moved a :=
  ⟨twoUsers, [dollars typescript "a" [.bet 1 60, .rollback 2 1, .rollback 3 2]],
    ⟨"a", "USD"⟩, twoUsers_initial, by decide +kernel, by decide +kernel⟩

theorem net_after_rollbacks : (twoUsers.after
    [dollars typescript "a" [.bet 1 60, .rollback 2 1, .rollback 3 2]]).net ⟨"a", "USD"⟩ =
      (twoUsers.after [dollars typescript "a" [.bet 1 60, .rollback 2 1,
        .rollback 3 2]]).movedByGames ⟨"a", "USD"⟩ :=
  net_eq_movedByGames twoUsers_initial _ (by decide +kernel) ⟨"a", "USD"⟩

end BetProcessor
