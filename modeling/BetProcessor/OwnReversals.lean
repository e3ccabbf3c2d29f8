import BetProcessor.SerialRuns

namespace BetProcessor
set_option autoImplicit true
open Txn

/-- Every applied rollback has the account of the row that it reverses. -/
def Db.ReversesOwn (db : Db) : Prop :=
  ∀ r ∈ db.actions, r.actionType = .rollback → r.status = .applied →
    ∀ o ∈ db.actions, r.originalActionId = some o.actionId → r.account = o.account

instance (db : Db) : Decidable db.ReversesOwn :=
  inferInstanceAs (Decidable (∀ r ∈ db.actions, _ → _ → ∀ o ∈ db.actions, _ → _))

/-- The request rolls back money that another account moved: the first action under its id is a
rollback that is not known yet, of an applied row of another account that nobody has rolled
back. -/
def Db.CrossReversal (db : Db) (c : Call) : Prop :=
  ∃ pre r o post, c.actions = pre ++ .rollback r o :: post ∧
    (∀ action ∈ pre, action.actionId ≠ r) ∧ ¬ db.Registered r ∧ ¬ db.HasIntent o ∧
    ∃ row ∈ db.actions, row.actionId = o ∧ row.status = .applied ∧
      c.svc.load row.balanceDelta ≠ 0 ∧ row.account ≠ c.account

theorem Db.ReversesOwn.of_linked {db : Db} (hc : db.Consistent)
    (h : Linked (fun r o => r.account = o.account) db) : db.ReversesOwn := by
  intro r hr htype hst o ho hro
  exact (h.of_mem hc (db.mem_ledger hr) htype hst (db.mem_ledger ho) hro).2

section
variable {c : Call} {db : Db} {ws : List Write} {resp : ProcessResponse}

/-- A request without a cross-account reversal keeps the accounts of reversals equal. -/
theorem Linked.own_commit (h : Linked (fun r o => r.account = o.account) db)
    (hcons : db.Consistent) (hno : ¬ db.CrossReversal c) (hc : Committed (Now db) c ws resp) :
    Linked (fun r o => r.account = o.account) (postgres.view db ws) := by
  refine (hc.tables (P := fun _ V => Linked (fun r o => r.account = o.account) V ∧
    db.actionRegistry <+: V.actionRegistry ∧ db.rollbackIntents <+: V.rollbackIntents ∧
    ∀ row ∈ V.ledger, row ∈ db.ledger ∨ row.account = c.account) (stable_now db)
    (sees_now _ _) hcons
    ⟨h, List.prefix_rfl, List.prefix_rfl, fun _ => Or.inl⟩ (fun h => h) ?_).2.1
  rintro pre action post V V' b b' txId heq _ _ hpre ⟨hlinked, hreg, hint, hown⟩ hst
  refine ⟨hlinked.stepped hst ?_, hreg.trans hst.registry, hint.trans hst.intents, ?_⟩
  · rintro r o row d rfl hr hno' hrow hid hstatus hne _
    rcases hown row hrow with hdb | hacc
    · by_contra hacc
      obtain ⟨raw, hraw, rfl⟩ := db.exists_of_mem_ledger hdb
      refine hno ⟨pre, r, o, post, heq, ?_, ?_, ?_, raw, hraw, hid, hstatus, hne, Ne.symm hacc⟩
      · exact fun a ha har => hr (har ▸ hpre a ha)
      · exact fun ⟨g, hg, hgr⟩ => hr ⟨g, hreg.subset hg, hgr⟩
      · exact fun ⟨t, ht, hto⟩ => hno' ⟨t, hint.subset ht, hto⟩
    · exact hacc.symm
  · intro row hrow
    exact (hst.account hrow).elim (hown row) Or.inr

/-- An applied rollback of a row of another account. -/
def Crossed (db : Db) : Prop :=
  ∃ r ∈ db.ledger, r.actionType = .rollback ∧ r.status = .applied ∧
    ∃ o ∈ db.ledger, r.originalActionId = some o.actionId ∧ r.account ≠ o.account

theorem Crossed.not_reversesOwn (h : Crossed db) : ¬ db.ReversesOwn := by
  obtain ⟨r, hr, htype, hst, o, ho, hro, hacc⟩ := h
  obtain ⟨r', hr', rfl⟩ := db.exists_of_mem_ledger hr
  obtain ⟨o', ho', rfl⟩ := db.exists_of_mem_ledger ho
  exact fun hown => hacc (hown r' hr' htype hst o' ho' hro)

theorem Crossed.mono {V V' : Db} (h : Crossed V) (hsub : V.ledger <+: V'.ledger) :
    Crossed V' := by
  obtain ⟨r, hr, htype, hst, o, ho, hro, hacc⟩ := h
  exact ⟨r, hsub.subset hr, htype, hst, o, hsub.subset ho, hro, hacc⟩

/-- The first new rollback of an applied row that nobody has rolled back reverses it. -/
theorem Stepped.reverses {V V' : Db} {b b' : Int} {r o : Uuid} {txId : Uuid}
    (hs : Stepped .now V V' c b (.rollback r o) b' txId) (hV : V.Consistent)
    (hr : ¬ V.Registered r) (ho : ¬ V.HasIntent o) {row : ActionRow} (hrow : row ∈ V.ledger)
    (hid : row.actionId = o) (hst : row.status = .applied)
    (hne : c.svc.load row.balanceDelta ≠ 0) :
    ∃ d, c.rollbackRow r o d .applied ∈ V'.ledger := by
  cases hs with
  | duplicate hg hid' => exact absurd ⟨_, hg, hid'⟩ hr
  | fresh _ he ha =>
    rw [ha.ledger]
    cases he with
    | applied horiginal => cases horiginal
    | prerolled horiginal => cases horiginal
    | already hseen => exact absurd hseen ho
    | tombstone _ hnone => exact absurd hid (hnone row hrow)
    | notApplied _ hrow' hid' hna =>
      obtain rfl := hV.ledger_inj hrow hrow' (hid.trans hid'.symm)
      exact absurd hna (by simp [hst, hne])
    | @reversed _ _ _ d => exact ⟨d, List.mem_append_right _ (List.mem_singleton.2 rfl)⟩

/-- The actions done so far do not reach the rollback `r` of `o` after `pre`, and nobody else has
recorded one. -/
structure Awaiting (db : Db) (pre : List ProcessAction) (r o : Uuid) (done : List ProcessAction)
    (V : Db) : Prop where
  unrecorded : ¬ V.HasIntent o
  registered : ∀ x, V.Registered x → db.Registered x ∨ ∃ a ∈ done, a.actionId = x
  before : ¬ (pre ++ [.rollback r o]) <+: done

theorem Awaiting.start {o : Uuid} (h : ¬ db.HasIntent o) (pre : List ProcessAction) (r : Uuid) :
    Awaiting db pre r o [] db where
  unrecorded := h
  registered _ := Or.inl
  before := by simp

/-- The next action is a new rollback of `o`, or it does not come to one either. -/
theorem Awaiting.stepped {L : Lookups} {V V' : Db} {pre done : List ProcessAction}
    {action : ProcessAction} {b b' : Int} {r o : Uuid} {txId : Uuid}
    (h : Awaiting db pre r o done V) (hpre : ∀ a ∈ pre, a.actionId ≠ r) (hr : ¬ db.Registered r)
    (hs : Stepped L V V' c b action b' txId) :
    (∃ r', action = .rollback r' o ∧ ¬ V.Registered r') ∨
      Awaiting db pre r o (done ++ [action]) V' := by
  by_cases hro : ∃ r', action = .rollback r' o ∧ ¬ V.Registered r'
  · exact Or.inl hro
  · right
    constructor
    · intro hint
      exact (hs.hasIntent hint).elim h.unrecorded hro
    · intro x hx
      rcases hs.registered.1 hx with hx | hx
      · exact (h.registered x hx).imp_right fun ⟨a, ha, hax⟩ => ⟨a, List.mem_append_left _ ha, hax⟩
      · exact Or.inr ⟨action, List.mem_append_right _ (List.mem_singleton.2 rfl), hx⟩
    · intro hprefix
      obtain heq | hdone := List.prefix_concat_iff.1 hprefix
      · obtain ⟨rfl, hact⟩ := List.append_inj' heq rfl
        have hnew : ¬ V.Registered r := by
          intro hreg
          obtain hdb | ⟨a, ha, har⟩ := h.registered r hreg
          · exact hr hdb
          · exact hpre a ha har
        exact hro ⟨r, (List.singleton_inj.1 hact).symm, hnew⟩
      · exact h.before hdone

theorem Crossed.of_commit (hcons : db.Consistent) (hx : db.CrossReversal c)
    (hc : Committed (Now db) c ws resp) : Crossed (postgres.view db ws) := by
  obtain ⟨pre₀, r, o, post₀, hactions, hpre₀, hr, ho, row, hrow, hid, hst, hne, hacc⟩ := hx
  have hend := hc.tables (P := fun done V => db.ledger <+: V.ledger ∧
    (Crossed V ∨ Awaiting db pre₀ r o done V)) (stable_now db) (sees_now _ _) hcons
    ⟨List.prefix_rfl, Or.inr (.start ho pre₀ r)⟩ ?_ ?_
  · rcases hend.2.2 with h | h
    · exact h
    · exact absurd ⟨post₀, by rw [hactions, List.append_assoc]; rfl⟩ h.before
  · intro done V rows hP
    exact ⟨hP.1, hP.2.imp id fun h => ⟨h.unrecorded, h.registered, h.before⟩⟩
  · intro done action post V V' b b' txId _ hV _ _ hP hstep
    obtain ⟨hledger, hor⟩ := hP
    constructor
    · exact hledger.trans hstep.ledger
    · rcases hor with hx | hwait
      · exact Or.inl (hx.mono hstep.ledger)
      have hrow' : row.core ∈ V.ledger := hledger.subset (db.mem_ledger hrow)
      obtain ⟨r', rfl, hr'⟩ | hwait' := hwait.stepped hpre₀ hr hstep
      · obtain ⟨d, hd⟩ := hstep.reverses hV hr' hwait.unrecorded hrow' hid hst hne
        exact Or.inl ⟨_, hd, rfl, rfl, row.core, hstep.ledger.subset hrow',
          by simp [Call.rollbackRow, hid], Ne.symm hacc⟩
      · exact Or.inr hwait'

end

/-- A rollback reverses money on the account that moved it, in every state of a run without a
cross-account reversal; a request that commits one breaks this. -/
theorem reversesOwn_of_no_crossReversal {db₀ : Db} (h₀ : db₀.Initial) (calls : List Call) :
    (Along (fun db c => ¬ db.CrossReversal c) db₀ calls →
      ∀ pre, pre <+: calls → (db₀.after pre).ReversesOwn) ∧
    ∀ pre c post resp, calls = pre ++ c :: post →
      (c.serve (db₀.after pre)).1 = .ok resp → (db₀.after pre).CrossReversal c →
      ¬ (db₀.after (pre ++ [c])).ReversesOwn := by
  constructor
  · rintro hno pre ⟨post, rfl⟩
    apply Db.ReversesOwn.of_linked (h₀.consistent.after pre)
    apply Db.after_history db₀ pre (Linked.initial h₀)
    intro pre' c post' ws resp heq hlinked hc
    exact hlinked.own_commit (h₀.consistent.after pre') (hno.of_append pre' c post' heq) hc
  · intro pre c post resp _ hok hx
    apply Crossed.not_reversesOwn
    rw [Db.after_append, Db.after_cons, Db.after_nil]
    obtain ⟨ws, hdb, hc⟩ := Call.serve_ok hok
    rw [hdb]
    exact Crossed.of_commit (h₀.consistent.after pre) hx hc

/-- The bet of one user is paid back to another. -/
theorem bet_paid_to_another : ∃ db₀ calls, db₀.Initial ∧ ¬ (Db.after db₀ calls).ReversesOwn :=
  ⟨twoUsers, [dollars typescript "a" [.bet 1 60], dollars typescript "b" [.rollback 2 1]],
    twoUsers_initial, by decide +kernel⟩

theorem own_rollback_reversesOwn : (twoUsers.after
    [dollars typescript "a" [.bet 1 60], dollars rust "a" [.rollback 2 1]]).ReversesOwn := by
  refine (reversesOwn_of_no_crossReversal twoUsers_initial _).1 ?_ _ List.prefix_rfl
  rintro pre c post heq ⟨_, _, _, _, _, _, _, _, row, hrow, _, _, _, hacc⟩
  have hown : ∀ row ∈ (twoUsers.after [dollars typescript "a" [.bet 1 60]]).actions,
      row.account = ⟨"a", "USD"⟩ := by decide +kernel
  rcases pre with _ | ⟨c₁, _ | ⟨c₂, pre⟩⟩
  · cases hrow
  · cases heq
    exact hacc (hown row hrow)
  · simp at heq

end BetProcessor
