import BetProcessor.SerialRuns

namespace BetProcessor
set_option autoImplicit true
open Txn

/-- The two services of the repository. -/
def Service.Deployed (svc : Service) : Prop := svc = typescript ∨ svc = rust

section
variable {svc : Service} {x v d : Int}

theorem showNumber_ne_zero (h : x ≠ 0) : showNumber x ≠ 0 := by
  rcases lt_or_gt_of_ne h with h | h
  · have hpos := showNumber_pos (neg_pos.2 h)
    rw [showNumber_neg] at hpos
    omega
  · exact (showNumber_pos h).ne'

theorem toNumber_ne_zero (h : x ≠ 0) : toNumber x ≠ 0 := by
  rcases lt_or_gt_of_ne h with h | h
  · have hpos := toNumber_pos (neg_pos.2 h)
    rw [toNumber_neg] at hpos
    omega
  · exact (toNumber_pos h).ne'

theorem wrapI64_neg_ne_zero (hx : IsBigint x) (h : x ≠ 0) : wrapI64 (-x) ≠ 0 := by
  unfold IsBigint at hx
  unfold wrapI64 Int.bmod
  dsimp only
  split <;> omega

namespace Service.Deployed

theorem load_ne_zero (hsvc : svc.Deployed) (h : x ≠ 0) : svc.load x ≠ 0 := by
  rcases hsvc with rfl | rfl
  · exact toNumber_ne_zero h
  · exact h

theorem bind_isBigint (hsvc : svc.Deployed) (h : svc.bind x = some v) : IsBigint v := by
  rcases hsvc with rfl | rfl
  · obtain ⟨hv, rfl⟩ := bindBigint_eq_some.1 h
    exact hv
  · obtain ⟨hv, rfl⟩ := bindBigint_eq_some.1 h
    exact hv

theorem reversal_ne_zero (hsvc : svc.Deployed) (hx : IsBigint x) (h : x ≠ 0)
    (hd : svc.bind (svc.neg (svc.load x)) = some d) : d ≠ 0 := by
  rcases hsvc with rfl | rfl
  · obtain ⟨_, rfl⟩ := bindBigint_eq_some.1 hd
    exact showNumber_ne_zero (neg_ne_zero.2 (toNumber_ne_zero h))
  · obtain ⟨_, rfl⟩ := bindBigint_eq_some.1 hd
    exact wrapI64_neg_ne_zero hx h

end Service.Deployed
end

theorem signed_ne_zero {type : ActionType} {v : Int} (h : 0 < v) : signed type v ≠ 0 := by
  rw [signed]
  split <;> omega

theorem signed_isBigint {type : ActionType} {v : Int} (h : 0 < v) (hv : IsBigint v) :
    IsBigint (signed type v) := by
  unfold IsBigint at hv ⊢
  rw [signed]
  split <;> omega

/-- What the tables say about a ledger row with its status; `moves` is about a target of an applied
rollback and what the two have moved. -/
def ActionRow.Justified (moves : Uuid → Int → Int → Prop) (V : Db) (row : ActionRow) : Prop :=
  match row.status with
  | .applied => row.balanceDelta ≠ 0 ∧ (row.actionType = .rollback →
      ∃ o ∈ V.ledger, row.originalActionId = some o.actionId ∧ o.status = .applied ∧
        moves o.actionId row.balanceDelta o.balanceDelta)
  | .noopPrerolled => row.balanceDelta = 0 ∧ ∃ t ∈ V.rollbackIntents,
      t.originalActionId = row.actionId ∧ ∃ r ∈ V.ledger, r.actionId = t.rollbackActionId ∧
        r.status = .noopTombstone
  | .noopTombstone => row.balanceDelta = 0
  | .noopAlreadyRolledBack => row.balanceDelta = 0 ∧ ∃ t ∈ V.rollbackIntents,
      row.originalActionId = some t.originalActionId ∧ t.rollbackActionId ≠ row.actionId
  | .noopOriginalNotApplied => row.balanceDelta = 0 ∧ ∃ o ∈ V.ledger,
      row.originalActionId = some o.actionId ∧ o.actionType = .rollback ∧ o.status ≠ .applied

section
variable {moves : Uuid → Int → Int → Prop} {V V' : Db} {c : Call} {b b' : Int}
variable {action : ProcessAction} {txId : Uuid} {row : ActionRow} {intent : Option IntentRow}
variable {outs : List OutboxRow}

theorem ActionRow.Shape.rollback_status (h : row.Shape) (htype : row.actionType = .rollback) :
    row.status ≠ .noopPrerolled := by
  cases h with
  | original htype' => exact absurd htype htype'
  | rollback _ _ _ hstatus =>
    rcases hstatus with hst | ⟨_, hst, _⟩
    · rw [hst]
      nofun
    · exact hst

namespace ActionRow.Justified

theorem mono (h : row.Justified moves V) (hledger : V.ledger <+: V'.ledger)
    (hintents : V.rollbackIntents <+: V'.rollbackIntents) : row.Justified moves V' := by
  rw [Justified] at h ⊢
  cases hst : row.status with
  | applied =>
    rw [hst] at h
    refine ⟨h.1, fun htype => ?_⟩
    obtain ⟨o, ho, hrest⟩ := h.2 htype
    exact ⟨o, hledger.subset ho, hrest⟩
  | noopPrerolled =>
    rw [hst] at h
    obtain ⟨hd, t, ht, hto, r, hr, hrest⟩ := h
    exact ⟨hd, t, hintents.subset ht, hto, r, hledger.subset hr, hrest⟩
  | noopTombstone =>
    rw [hst] at h
    exact h
  | noopAlreadyRolledBack =>
    rw [hst] at h
    obtain ⟨hd, t, ht, hrest⟩ := h
    exact ⟨hd, t, hintents.subset ht, hrest⟩
  | noopOriginalNotApplied =>
    rw [hst] at h
    obtain ⟨hd, o, ho, hrest⟩ := h
    exact ⟨hd, o, hledger.subset ho, hrest⟩

theorem delta_eq_zero (h : row.Justified moves V) :
    row.balanceDelta = 0 ↔ row.status ≠ .applied := by
  rw [Justified] at h
  cases hst : row.status with
  | applied =>
    rw [hst] at h
    simp [h.1]
  | noopTombstone =>
    rw [hst] at h
    simp [show row.balanceDelta = 0 from h]
  | _ =>
    rw [hst] at h
    simp [h.1]

end ActionRow.Justified

/-- Every ledger row is justified by the tables and has a delta that its column holds. -/
structure Db.Justified (moves : Uuid → Int → Int → Prop) (V : Db) : Prop where
  consistent : V.Consistent
  rows : ∀ row ∈ V.ledger, row.Justified moves V
  bigint : ∀ row ∈ V.ledger, IsBigint row.balanceDelta

namespace Db.Justified

/-- A rollback that is recorded before its target comes is a tombstone. -/
theorem tombstone (h : V.Justified moves) {t : IntentRow} (ht : t ∈ V.rollbackIntents)
    (hx : ¬ V.Registered t.originalActionId) :
    ∃ r ∈ V.ledger, r.actionId = t.rollbackActionId ∧ r.status = .noopTombstone := by
  obtain ⟨r, hr, htype, hst, hid, hro, _⟩ := h.consistent.intent_row t ht
  have hno : ∀ o ∈ V.ledger, r.originalActionId ≠ some o.actionId := by
    intro o ho hro'
    refine hx ⟨o.registry, h.consistent.registered o ho, ?_⟩
    exact Option.some.inj (hro'.symm.trans hro)
  have hrow := h.rows r hr
  rw [ActionRow.Justified] at hrow
  refine ⟨r, hr, hid, ?_⟩
  cases hstatus : r.status with
  | applied =>
    rw [hstatus] at hrow
    obtain ⟨o, ho, hro', _⟩ := hrow.2 htype
    exact absurd hro' (hno o ho)
  | noopPrerolled =>
    cases h.consistent.shape r hr with
    | original htype' => exact absurd htype htype'
    | rollback _ _ _ hshape => simp [hstatus] at hshape
  | noopTombstone => rfl
  | noopAlreadyRolledBack => exact absurd hstatus hst
  | noopOriginalNotApplied =>
    rw [hstatus] at hrow
    obtain ⟨_, o, ho, hro', _⟩ := hrow
    exact absurd hro' (hno o ho)

/-- A row that is not applied and that nobody has rolled back is itself a rollback. -/
theorem ineffective (h : V.Justified moves) (hrow : row ∈ V.ledger)
    (hst : row.status ≠ .applied) (hno : ¬ V.HasIntent row.actionId) :
    row.actionType = .rollback := by
  by_contra htype
  cases h.consistent.shape row hrow with
  | original _ _ _ _ hshape =>
    rcases hshape with ⟨hst', _⟩ | ⟨hst', _⟩
    · exact hst hst'
    · have hjust := h.rows row hrow
      rw [ActionRow.Justified, hst'] at hjust
      obtain ⟨_, t, ht, hto, _⟩ := hjust
      exact hno ⟨t, ht, hto⟩
  | rollback htype' => exact htype htype'

end Db.Justified

theorem Effect.justified (h : V.Justified moves) (hsvc : c.svc.Deployed)
    (hmoves : ∀ {o x d}, action.target? = some o →
      c.svc.bind (c.svc.neg (c.svc.load x)) = some d → moves o d x)
    (hfresh : ¬ V.Registered action.actionId)
    (he : Effect .now V c b action row intent outs b') :
    row.Justified moves V ∧ IsBigint row.balanceDelta := by
  have hzero : IsBigint 0 := by decide
  cases he with
  | applied ha _ hv hpos =>
    exact ⟨⟨signed_ne_zero hpos, fun htype => absurd htype ha.type_ne⟩,
      signed_isBigint hpos (hsvc.bind_isBigint hv)⟩
  | @prerolled _ type x amount v ha hseen =>
    obtain ⟨t, ht, rfl⟩ := hseen
    rw [ha.actionId_eq] at hfresh
    exact ⟨⟨rfl, t, ht, rfl, h.tombstone ht hfresh⟩, hzero⟩
  | @already r o hseen =>
    obtain ⟨t, ht, rfl⟩ := hseen
    refine ⟨⟨rfl, t, ht, rfl, fun hr => ?_⟩, hzero⟩
    obtain ⟨r', hr', _, _, hid, _⟩ := h.consistent.intent_row t ht
    exact hfresh ⟨r'.registry, h.consistent.registered r' hr', hid.trans hr⟩
  | tombstone => exact ⟨rfl, hzero⟩
  | @notApplied r o row hno hrow hid hna =>
    subst hid
    have hst : row.status ≠ .applied := by
      intro hst
      have hdelta : row.balanceDelta ≠ 0 := fun h0 =>
        ((h.rows row hrow).delta_eq_zero.1 h0) hst
      exact hna.elim (absurd hst) (hsvc.load_ne_zero hdelta)
    exact ⟨⟨rfl, row, hrow, rfl, h.ineffective hrow hst hno, hst⟩, hzero⟩
  | @reversed r o row d outs _ hrow hid hst _ _ hd =>
    subst hid
    have hdelta : row.balanceDelta ≠ 0 := fun h0 => ((h.rows row hrow).delta_eq_zero.1 h0) hst
    exact ⟨⟨hsvc.reversal_ne_zero (h.bigint row hrow) hdelta hd,
      fun _ => ⟨row, hrow, rfl, hst, hmoves rfl hd⟩⟩, hsvc.bind_isBigint hd⟩

theorem Db.Justified.stepped (h : V.Justified moves) (hsvc : c.svc.Deployed)
    (hmoves : ∀ {o x d}, action.target? = some o →
      c.svc.bind (c.svc.neg (c.svc.load x)) = some d → moves o d x)
    (hs : Stepped .now V V' c b action b' txId) : V'.Justified moves := by
  have hcons := h.consistent.stepped hs
  have hmono : ∀ {row : ActionRow}, row.Justified moves V → row.Justified moves V' :=
    fun hrow => hrow.mono hs.ledger hs.intents
  cases hs with
  | duplicate _ _ hV => rwa [hV]
  | @fresh row intent outs _ hfresh he ha =>
    obtain ⟨hrow, hbigint⟩ := he.justified h hsvc hmoves hfresh
    refine ⟨hcons, ?_, ?_⟩
    · intro r hr
      rw [ha.ledger] at hr
      rcases List.mem_append.1 hr with hr | hr
      · exact hmono (h.rows r hr)
      · rw [List.mem_singleton.1 hr]
        exact hmono hrow
    · intro r hr
      rw [ha.ledger] at hr
      rcases List.mem_append.1 hr with hr | hr
      · exact h.bigint r hr
      · rw [List.mem_singleton.1 hr]
        exact hbigint

end

/-- An applied rollback moves back what its target has moved, when no service that rolls it back
rounds it. -/
def MovesBack (calls : List Call) (o : Uuid) (d x : Int) : Prop :=
  (∀ c ∈ calls, c.RollsBack o → c.svc.Negates x) → d = -x

theorem Db.Initial.justified {db : Db} {moves : Uuid → Int → Int → Prop} (h : db.Initial) :
    db.Justified moves := by
  refine ⟨h.consistent, ?_, ?_⟩
  all_goals simp [h.ledger]

theorem Db.Justified.after {db : Db} (h : db.Initial) {calls : List Call}
    (hsvc : ∀ c ∈ calls, c.svc.Deployed) : (db.after calls).Justified (MovesBack calls) := by
  apply Db.after_invariant db calls h.justified
  intro V c ws resp hc hV hcommit
  have hend := hcommit.tables (P := fun _ V =>
    (∀ row ∈ V.ledger, row.Justified (MovesBack calls) V) ∧
      ∀ row ∈ V.ledger, IsBigint row.balanceDelta) (stable_now V) (sees_now _ _) hV.consistent
    ⟨hV.rows, hV.bigint⟩ (fun h => h) ?_
  · exact ⟨hend.1, hend.2.1, hend.2.2⟩
  · intro pre action post V V' b b' txId heq hcons _ _ hP hst
    have hmem : action ∈ c.actions := heq ▸ List.mem_append_right _ (List.mem_cons_self ..)
    have hnext : V'.Justified (MovesBack calls) := by
      apply Db.Justified.stepped ⟨hcons, hP.1, hP.2⟩ (hsvc c hc) _ hst
      intro o x d htarget hd hneg
      exact Option.some.inj (hd.symm.trans (hneg c hc ⟨action, hmem, htarget⟩))
    exact ⟨hnext.rows, hnext.bigint⟩

/-- How the rows of rollbacks, their records and their targets belong together. -/
structure Bookkeeping (calls : List Call) (db : Db) : Prop where
  /-- The records are those of the rollbacks that are not repetitions. -/
  recorded : ∀ o r, (∃ t ∈ db.rollbackIntents, t.originalActionId = o ∧ t.rollbackActionId = r) ↔
    ∃ row ∈ db.ledger, row.actionId = r ∧ row.actionType = .rollback ∧
      row.originalActionId = some o ∧ (row.status = .applied ∨ row.status = .noopTombstone ∨
        row.status = .noopOriginalNotApplied)
  repeated : ∀ row ∈ db.ledger, row.status = .noopAlreadyRolledBack →
    ∃ t ∈ db.rollbackIntents, row.originalActionId = some t.originalActionId ∧
      t.rollbackActionId ≠ row.actionId
  effective : ∀ row ∈ db.ledger, row.balanceDelta = 0 ↔ row.status ≠ .applied
  original : ∀ row ∈ db.ledger, row.status = .applied → row.actionType ≠ .rollback →
    ∃ amount, row.amount = some amount ∧
      row.balanceDelta = if row.actionType = .bet then -amount else amount
  /-- An applied rollback moves back what its target has moved, when no service that rolls it back
  rounds it. -/
  reversal : ∀ row ∈ db.ledger, row.status = .applied → row.actionType = .rollback →
    ∃ o ∈ db.ledger, row.originalActionId = some o.actionId ∧ o.status = .applied ∧
      ((∀ c ∈ calls, c.RollsBack o.actionId → c.svc.Negates o.balanceDelta) →
        row.balanceDelta = -o.balanceDelta)
  prerolled : ∀ row ∈ db.ledger, row.status = .noopPrerolled → row.actionType ≠ .rollback ∧
    ∃ t ∈ db.rollbackIntents, t.originalActionId = row.actionId ∧
      ∃ r ∈ db.ledger, r.actionId = t.rollbackActionId ∧ r.status = .noopTombstone
  ineffective : ∀ row ∈ db.ledger, row.status = .noopOriginalNotApplied →
    (∃ o ∈ db.ledger, row.originalActionId = some o.actionId) ∧
      ∀ o ∈ db.ledger, row.originalActionId = some o.actionId →
        o.actionType = .rollback ∧ o.status ≠ .applied

/-- The rollback bookkeeping of every serial run of requests to either service. -/
theorem rollback_bookkeeping {db₀ : Db} (h₀ : db₀.Initial) {calls : List Call}
    (hsvc : ∀ c ∈ calls, c.svc.Deployed) : Bookkeeping calls (db₀.after calls) := by
  have h := Db.Justified.after h₀ hsvc
  have hcons := h.consistent
  refine ⟨?_, ?_, fun row hrow => (h.rows row hrow).delta_eq_zero, ?_, ?_, ?_, ?_⟩
  · intro o r
    constructor
    · rintro ⟨t, ht, rfl, rfl⟩
      obtain ⟨row, hrow, htype, hst, hid, ho, _⟩ := hcons.intent_row t ht
      refine ⟨row, hrow, hid, htype, ho, ?_⟩
      have hshape := (hcons.shape row hrow).rollback_status htype
      cases hstatus : row.status <;> simp_all
    · rintro ⟨row, hrow, rfl, htype, ho, hst⟩
      obtain ⟨t, ht, htr, hto⟩ := hcons.row_intent row hrow htype (by
        rcases hst with hst | hst | hst <;> simp [hst])
      exact ⟨t, ht, Option.some.inj (hto.symm.trans ho), htr⟩
  · intro row hrow hst
    have hjust := h.rows row hrow
    rw [ActionRow.Justified, hst] at hjust
    exact hjust.2
  · intro row hrow hst htype
    cases hcons.shape row hrow with
    | original _ _ _ hamount hshape =>
      rcases hshape with ⟨_, hdelta⟩ | ⟨hst', _⟩
      · exact ⟨_, hamount, hdelta⟩
      · rw [hst] at hst'
        cases hst'
    | rollback htype' => exact absurd htype' htype
  · intro row hrow hst htype
    have hjust := h.rows row hrow
    rw [ActionRow.Justified, hst] at hjust
    exact hjust.2 htype
  · intro row hrow hst
    have hjust := h.rows row hrow
    rw [ActionRow.Justified, hst] at hjust
    refine ⟨fun htype => ?_, hjust.2⟩
    exact (hcons.shape row hrow).rollback_status htype hst
  · intro row hrow hst
    have hjust := h.rows row hrow
    rw [ActionRow.Justified, hst] at hjust
    obtain ⟨_, o, ho, hro, htarget⟩ := hjust
    refine ⟨⟨o, ho, hro⟩, fun o' ho' hro' => ?_⟩
    rwa [hcons.ledger_inj ho' ho (Option.some.inj (hro'.symm.trans hro))]

/-- A rollback by the other service moves back less than the bet has moved. -/
theorem reversal_rounds : ∃ db₀ calls, db₀.Initial ∧ (∀ c ∈ calls, c.svc.Deployed) ∧
    ∃ row ∈ (Db.after db₀ calls).ledger, row.status = .applied ∧ row.actionType = .rollback ∧
      ∀ o ∈ (Db.after db₀ calls).ledger, row.originalActionId = some o.actionId →
        row.balanceDelta ≠ -o.balanceDelta := by
  refine ⟨⟨[⟨⟨"a", "USD"⟩, 2 ^ 54⟩], [], [], [], []⟩,
    [dollars rust "a" [.bet 1 (2 ^ 53 + 1)], dollars typescript "a" [.rollback 2 1]],
    ⟨by decide, by decide, rfl, rfl, rfl, rfl⟩, ?_, by decide +kernel⟩
  intro c hc
  simp only [List.mem_cons, List.not_mem_nil, or_false] at hc
  rcases hc with rfl | rfl
  · exact Or.inr rfl
  · exact Or.inl rfl

/-- A rollback before its bet, a rollback of itself and the rollback of the first one. -/
theorem early_rollback_bookkeeping : Bookkeeping
    [dollars rust "a" [.rollback 2 1, .rollback 3 3], dollars typescript "a" [.bet 1 60],
      dollars typescript "a" [.rollback 4 2, .rollback 5 1]]
    (twoUsers.after [dollars rust "a" [.rollback 2 1, .rollback 3 3],
      dollars typescript "a" [.bet 1 60],
      dollars typescript "a" [.rollback 4 2, .rollback 5 1]]) := by
  apply rollback_bookkeeping twoUsers_initial
  intro c hc
  simp only [List.mem_cons, List.not_mem_nil, or_false] at hc
  rcases hc with rfl | rfl | rfl
  · exact Or.inr rfl
  · exact Or.inl rfl
  · exact Or.inl rfl

end BetProcessor
