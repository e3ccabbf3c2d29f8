import BetProcessor.Money

namespace BetProcessor
set_option autoImplicit true
open Txn

/-- Every `bigint` but the smallest one, whose negation is none. -/
abbrev maxI64 : Int := 2 ^ 63 - 1

/-- The amount is an `i64`. -/
def ProcessAction.IsI64 : ProcessAction → Prop
  | .bet _ amount | .win _ amount => IsBigint amount
  | .rollback _ _ => True

/-- The first actions of a request. -/
def Call.upTo (c : Call) (pre : List ProcessAction) : Tx (Int × List Transaction) :=
  lockAccount c.svc c.account >>= fun balance =>
    processActions c.svc c.draws c.request pre balance []

/-- The request has done the actions `pre`, with these tables and this balance. -/
def Call.GetsTo (c : Call) (db : Db) (pre : List ProcessAction) (V : Db) (b : Int) : Prop :=
  ∃ txs, postgres.exec (c.upTo pre) db = .ok ((b, txs), V)

/-- The request stops at the action for lack of funds. -/
def Call.Refuses (c : Call) (db V : Db) (b : Int) (action : ProcessAction) : Prop :=
  ∃ pre post, c.actions = pre ++ action :: post ∧ c.GetsTo db pre V b ∧
    postgres.exec (c.upTo (pre ++ [action])) db = .error .insufficientFunds

/-- A win, or the reversal of a bet. -/
def Db.PaysOut (V : Db) : ProcessAction → Prop
  | .bet _ _ => False
  | .win _ _ => True
  | .rollback _ o => ∃ row ∈ V.ledger, row.actionId = o ∧ row.actionType = .bet

/-- `proces_request` on the database alone. -/
def Call.serveRust (c : Call) (db : Db) : Except Err ProcessResponse × Db :=
  postgres.transact (Rust.procesRequest c.draws c.request) db

/-- Every balance and ledger row is what exact integers give, after every action and in what is
committed. -/
structure Call.CommitsExactly (c : Call) (db : Db) : Prop where
  getsTo : ∀ pre V b, pre <+: c.actions → c.GetsTo db pre V b →
    c.exact.GetsTo db pre V b ∧ 0 ≤ b ∧ b ≤ maxI64
  serve : ∀ resp, (c.serveRust db).1 = .ok resp → c.serveRust db = c.exact.serve db

/-- The request answers that funds are missing only when they are, so never for a win or the
reversal of a bet. -/
def Call.FundsSound (c : Call) (db : Db) : Prop :=
  (c.serveRust db).1 = .error .insufficientFunds → ∃ V b action, c.Refuses db V b action ∧
    b + V.delta c.svc.exact action < 0 ∧ ¬ V.PaysOut action

/-- The exact balance after some new action that is not turned down does not fit. -/
def Call.Overflows (c : Call) (db : Db) : Prop :=
  ∃ pre action post V b, c.actions = pre ++ action :: post ∧ c.exact.GetsTo db pre V b ∧
    ¬ V.Registered action.actionId ∧ ¬ action.Refused c.svc ∧
    maxI64 < b + V.delta c.svc.exact action

theorem showNat_ne (n : Nat) : showNat n ≠ 2 ^ 63 := by
  intro h
  have hn : n = 2 ^ 63 := by
    rw [showNat] at h
    split at h
    · omega
    · cases hf : (List.range 21).reverse.findSome? fun j =>
          (decimals n j).find? fun m => roundNat m = n with
      | none =>
        rw [hf] at h
        exact h
      | some m =>
        obtain ⟨_, j, _, _, hj, _⟩ := List.findSome?_eq_some_iff.1 hf
        have hm : roundNat m = n := by simpa using List.find?_some hj
        rw [hf, Option.getD_some] at h
        rw [← hm, h]
        decide
  rw [hn] at h
  revert h
  decide +kernel

section
variable {V V' : Db} {c : Call} {b b' : Int} {action : ProcessAction}

theorem abs_le_maxI64 {x : Int} : |x| ≤ maxI64 ↔ -(2 ^ 63 - 1) ≤ x ∧ x ≤ 2 ^ 63 - 1 := abs_le

theorem Service.Deployed.abs_amount {svc : Service} {x v : Int} (hsvc : svc.Deployed)
    (hv : svc.bind x = some v) (hpos : 0 < v) : |v| ≤ maxI64 := by
  have hbig := hsvc.bind_isBigint hv
  rw [IsBigint] at hbig
  rw [abs_le_maxI64]
  omega

theorem Service.Deployed.abs_reversal {svc : Service} {x d : Int} (hsvc : svc.Deployed)
    (hx : |x| ≤ maxI64) (hd : svc.bind (svc.neg (svc.load x)) = some d) : |d| ≤ maxI64 := by
  rcases hsvc with rfl | rfl
  · obtain ⟨hbig, rfl⟩ := bindBigint_eq_some.1 hd
    change |showNumber (-toNumber x)| ≤ maxI64
    change IsBigint (showNumber (-toNumber x)) at hbig
    have hne : showNumber (-toNumber x) ≠ -2 ^ 63 := by
      intro h
      have habs : (showNumber (-toNumber x)).natAbs = showNat (-toNumber x).natAbs := by
        by_cases hzero : -toNumber x = 0
        · rw [hzero]
          rfl
        · rw [showNumber, Int.natAbs_mul, Int.natAbs_sign_of_ne_zero hzero, one_mul,
            Int.natAbs_natCast]
      rw [h] at habs
      exact showNat_ne _ habs.symm
    rw [IsBigint] at hbig
    rw [abs_le_maxI64]
    omega
  · rw [rust_exactTo.load hx, rust_exactTo.neg hx] at hd
    obtain ⟨_, rfl⟩ := bindBigint_eq_some.1 hd
    rwa [abs_neg]

/-- No service writes the smallest `bigint` into the ledger. -/
theorem Effect.bounded {L : Lookups} {row : ActionRow} {intent : Option IntentRow}
    {outs : List OutboxRow} (hsvc : c.svc.Deployed) (hV : V.Bounded maxI64)
    (he : Effect L V c b action row intent outs b') :
    |row.balanceDelta| ≤ maxI64 ∧ ∀ amount ∈ row.amount, |amount| ≤ maxI64 := by
  have hzero : |(0 : Int)| ≤ maxI64 := by decide
  have hnone : ∀ amount ∈ (none : Option Int), |amount| ≤ maxI64 := by simp
  cases he with
  | applied ha _ hv hpos =>
    have hle := hsvc.abs_amount hv hpos
    constructor
    · exact (abs_signed _ _).trans_le hle
    · intro amount hamount
      cases hamount
      exact hle
  | prerolled ha _ hv hpos =>
    constructor
    · exact hzero
    · intro amount hamount
      cases hamount
      exact hsvc.abs_amount hv hpos
  | already => exact ⟨hzero, hnone⟩
  | tombstone => exact ⟨hzero, hnone⟩
  | notApplied => exact ⟨hzero, hnone⟩
  | reversed _ hrow _ _ _ _ hd => exact ⟨hsvc.abs_reversal (hV _ hrow).1 hd, hnone⟩

theorem Db.Bounded.stepped {L : Lookups} {txId : Uuid} (hsvc : c.svc.Deployed)
    (h : V.Bounded maxI64) (hs : Stepped L V V' c b action b' txId) : V'.Bounded maxI64 := by
  cases hs with
  | duplicate _ _ hV' => rwa [hV']
  | fresh _ he ha =>
    intro row hrow
    rw [ha.ledger] at hrow
    rcases List.mem_append.1 hrow with hrow | hrow
    · exact h row hrow
    · rw [List.mem_singleton.1 hrow]
      exact he.bounded hsvc h

end

theorem Db.Bounded.after {db₀ : Db} (h₀ : db₀.Initial) {calls : List Call}
    (hsvc : ∀ c ∈ calls, c.svc.Deployed) : (db₀.after calls).Bounded maxI64 := by
  have hinit : db₀.Bounded maxI64 := by
    intro row hrow
    rw [h₀.ledger] at hrow
    cases hrow
  apply (Db.after_invariant (P := fun V => V.Consistent ∧ V.Bounded maxI64) db₀ calls
    ⟨h₀.consistent, hinit⟩ ?_).2
  intro db c ws resp hc hV hcommit
  apply hcommit.tables (P := fun _ V => V.Bounded maxI64) (stable_now _) (sees_now _ _) hV.1 hV.2
    (fun h => h)
  intro pre action post V V' b b' txId _ _ _ _ hP hs
  exact hP.stepped (hsvc c hc) hs

section
variable {V : Db} {c : Call} {b : Int} {action : ProcessAction}

theorem bind_eq_error {x : Except ε α} {f : α → Except ε β} {e : ε} :
    x >>= f = .error e ↔ x = .error e ∨ ∃ a, x = .ok a ∧ f a = .error e := by
  cases x with
  | error e' =>
    constructor
    · intro h
      cases h
      exact Or.inl rfl
    · rintro (h | ⟨a, h, _⟩)
      · cases h
        rfl
      · cases h
  | ok a =>
    constructor
    · intro h
      exact Or.inr ⟨a, rfl, h⟩
    · rintro (h | ⟨a', h, hf⟩)
      · cases h
      · cases h
        exact hf

theorem Service.param_error {svc : Service} {x : Int} {e : Err} (h : svc.param x = .error e) :
    e = .outOfRange := by
  rw [Service.param] at h
  cases hbind : svc.bind x with
  | none =>
    rw [hbind] at h
    cases h
    rfl
  | some v =>
    rw [hbind] at h
    cases h

theorem Db.removal_error {svc : Service} {row : ActionRow} {e : Err}
    (h : removal svc row = .error e) : e = .outOfRange := by
  rw [removal] at h
  split at h
  · cases h
  · rcases bind_eq_error.1 h with h | ⟨n, _, h⟩
    · exact Service.param_error h
    · rcases bind_eq_error.1 h with h | ⟨v, _, h⟩
      · exact Service.param_error h
      · cases h

theorem Db.actOriginal_error {type : ActionType} {x : Uuid} {amount : Int} {e : Err}
    (h : V.actOriginal c b type x amount = .error e) :
    c.svc.refuses amount = true ∧ e = .badRequest ∨ ¬ c.svc.refuses amount = true ∧
      (c.svc.add b (if V.HasIntent x then 0 else originalDelta c.svc type amount) < 0 ∧
          e = .insufficientFunds ∨ e = .outOfRange ∨ e = .checkViolation) := by
  rw [actOriginal] at h
  by_cases hrefuses : c.svc.refuses amount = true
  · cases (if_pos hrefuses).symm.trans h
    exact Or.inl ⟨hrefuses, rfl⟩
  · right
    constructor
    · exact hrefuses
    · replace h := (if_neg hrefuses).symm.trans h
      by_cases hneg : c.svc.add b (if V.HasIntent x then 0 else originalDelta c.svc type amount) < 0
      · cases (if_pos hneg).symm.trans h
        exact Or.inl ⟨hneg, rfl⟩
      · right
        rcases bind_eq_error.1 ((if_neg hneg).symm.trans h) with h | ⟨v, _, h⟩
        · exact Or.inl (Service.param_error h)
        · rcases bind_eq_error.1 h with h | ⟨d, _, h⟩
          · exact Or.inl (Service.param_error h)
          · split at h
            · cases h
            · cases h
              exact Or.inr rfl

theorem Db.actRollback_error {r o : Uuid} {e : Err} (h : V.actRollback c b r o = .error e) :
    c.svc.add b (V.delta c.svc (.rollback r o)) < 0 ∧ e = .insufficientFunds ∨
      e = .outOfRange := by
  rw [actRollback] at h
  rw [delta]
  split at h
  · cases h
  · rename_i hseen
    rw [if_neg hseen]
    cases hrow : V.original? o with
    | none =>
      rw [hrow] at h
      cases h
    | some row =>
      rw [hrow] at h
      rw [Option.elim_some]
      dsimp only at h
      split at h
      · cases h
      · rename_i happlied
        rw [if_pos (not_not.1 (not_or.1 happlied).1)]
        split at h
        · cases h
          exact Or.inl ⟨by assumption, rfl⟩
        · right
          rcases bind_eq_error.1 h with h | ⟨d, _, h⟩
          · exact Service.param_error h
          · rcases bind_eq_error.1 h with h | ⟨outs, _, h⟩
            · exact removal_error h
            · cases h

theorem Db.act_error {e : Err} (h : V.act c b action = .error e) :
    action.Refused c.svc ∧ e = .badRequest ∨ ¬ action.Refused c.svc ∧
      (c.svc.add b (V.delta c.svc action) < 0 ∧ e = .insufficientFunds ∨ e = .outOfRange ∨
        e = .checkViolation) := by
  cases action with
  | bet x amount => exact actOriginal_error h
  | win x amount => exact actOriginal_error h
  | rollback r o => exact Or.inr ⟨id, (actRollback_error h).imp_right Or.inl⟩

theorem Db.act_insufficientFunds (h : V.act c b action = .error .insufficientFunds) :
    ¬ action.Refused c.svc ∧ c.svc.add b (V.delta c.svc action) < 0 := by
  rcases act_error h with ⟨_, he⟩ | ⟨hrefused, ⟨hneg, _⟩ | he | he⟩
  · cases he
  · exact ⟨hrefused, hneg⟩
  · cases he
  · cases he

theorem Db.act_of_negative (hrefused : ¬ action.Refused c.svc) (hb : 0 ≤ c.svc.add b 0)
    (h : c.svc.add b (V.delta c.svc action) < 0) (hzero : c.svc.neg 0 = 0) :
    V.act c b action = .error .insufficientFunds := by
  have horiginal : ∀ {type x amount}, ¬ c.svc.refuses amount = true →
      c.svc.add b (if V.HasIntent x then 0 else originalDelta c.svc type amount) < 0 →
      V.actOriginal c b type x amount = .error .insufficientFunds := by
    intro type x amount hrefused h
    rw [actOriginal, if_neg hrefused]
    exact if_pos h
  cases action with
  | bet x amount => exact horiginal hrefused h
  | win x amount => exact horiginal hrefused h
  | rollback r o =>
    change V.actRollback c b r o = _
    rw [delta] at h
    rw [actRollback]
    split at h
    · exact absurd h (not_lt.2 hb)
    · rename_i hseen
      rw [if_neg hseen]
      cases hrow : V.original? o with
      | none =>
        rw [hrow] at h
        exact absurd h (not_lt.2 hb)
      | some row =>
        rw [hrow, Option.elim_some] at h
        dsimp only
        split at h
        · rename_i hst
          have hne : ¬ (row.status ≠ .applied ∨ c.svc.load row.balanceDelta = 0) := by
            rintro (hst' | hload)
            · exact hst' hst
            · rw [hload, hzero] at h
              exact absurd h (not_lt.2 hb)
          rw [if_neg hne, if_pos h]
        · exact absurd h (not_lt.2 hb)

theorem rust_add_zero (hb : 0 ≤ b ∧ b ≤ maxI64) : rust.add b 0 = b := by
  unfold maxI64 at hb
  apply (rust_exactTo.add (abs_le.2 _)).trans (add_zero b)
  omega

theorem rust_add_overflow {d : Int} (hb : b ≤ maxI64) (hd : d ≤ maxI64) (h : maxI64 < b + d) :
    rust.add b d < 0 := by
  unfold maxI64 at hb hd h
  change wrapI64 (b + d) < 0
  unfold wrapI64 Int.bmod
  dsimp only
  split <;> omega

theorem ProcessAction.IsI64.bounded (h : action.IsI64) (hrefused : ¬ action.Refused rust) :
    action.Bounded maxI64 := by
  have hamount : ∀ {amount : Int}, IsBigint amount → ¬ rust.refuses amount = true →
      |amount| ≤ maxI64 := by
    intro amount hbig hrefuses
    have hpos : ¬ amount ≤ 0 := fun h => hrefuses (decide_eq_true h)
    rw [IsBigint] at hbig
    rw [abs_le_maxI64]
    omega
  cases action with
  | bet x amount => exact hamount h hrefused
  | win x amount => exact hamount h hrefused
  | rollback r o => trivial

theorem Db.act_refused (h : action.Refused c.svc) : V.act c b action = .error .badRequest := by
  cases action with
  | bet x amount => exact if_pos h
  | win x amount => exact if_pos h
  | rollback r o => cases h

/-- A new action of the Rust service does the same with exact integers, or its next balance does
not fit and it fails for lack of funds. -/
theorem Db.act_rust (hc : c.svc = rust) (hV : V.Bounded maxI64) (hb : 0 ≤ b ∧ b ≤ maxI64)
    (haction : action.IsI64) : V.act c b action = V.act c.exact b action ∧
        (¬ action.Refused c.svc → b + V.delta c.svc.exact action ≤ maxI64) ∨
      ¬ action.Refused c.svc ∧ maxI64 < b + V.delta c.svc.exact action ∧
        V.act c b action = .error .insufficientFunds := by
  by_cases hrefused : action.Refused c.svc
  · left
    constructor
    · rw [act_refused hrefused, act_refused (c := c.exact) hrefused]
    · exact fun h => absurd hrefused h
  have hexact : c.svc.ExactTo maxI64 := by
    rw [hc]
    exact rust_exactTo
  have hbounded : action.Bounded maxI64 := by
    rw [hc] at hrefused
    exact haction.bounded hrefused
  have hdelta : |V.delta c.svc.exact action| ≤ maxI64 := abs_delta hV (by decide) hbounded
  rw [abs_le_maxI64] at hdelta
  by_cases hle : b + V.delta c.svc.exact action ≤ maxI64
  · left
    constructor
    · apply act_exact hexact (by decide) hV hbounded
      rw [abs_le_maxI64]
      unfold maxI64 at hb hle
      omega
    · exact fun _ => hle
  · right
    have hnext : c.svc.add b (V.delta c.svc action) < 0 := by
      rw [delta_exact hexact hV hbounded, hc] at *
      exact rust_add_overflow hb.2 hdelta.2 (not_le.1 hle)
    refine ⟨hrefused, not_le.1 hle, act_of_negative hrefused ?_ hnext ?_⟩
    · rw [hc, rust_add_zero hb]
      exact hb.1
    · rw [hc]
      rfl

theorem rust_add_le (x y : Int) : rust.add x y ≤ maxI64 := by
  change wrapI64 (x + y) ≤ maxI64
  unfold wrapI64 Int.bmod maxI64
  dsimp only
  split <;> omega

theorem Effect.balance_le {L : Lookups} {row : ActionRow} {intent : Option IntentRow}
    {outs : List OutboxRow} {b' : Int} (he : Effect L V c b action row intent outs b')
    (hadd : ∀ x y, c.svc.add x y ≤ maxI64) (hb : b ≤ maxI64) : b' ≤ maxI64 := by
  cases he with
  | applied => exact hadd _ _
  | prerolled => exact hadd _ _
  | already => exact hb
  | tombstone => exact hb
  | notApplied => exact hb
  | reversed => exact hadd _ _

theorem Db.Performs.range {V' : Db} {b' : Int} {txId : Uuid} (hc : c.svc = rust)
    (hV : V.Consistent) (hb : 0 ≤ b ∧ b ≤ maxI64) (h : V.Performs c b action V' b' txId) :
    0 ≤ b' ∧ b' ≤ maxI64 := by
  cases h with
  | duplicate => exact hb
  | @fresh new hnew hact =>
    obtain ⟨he, _⟩ := Db.act_effect hV hact
    constructor
    · exact he.balance_nonneg hb.1
    · apply he.balance_le _ hb.2
      rw [hc]
      exact rust_add_le

/-- The tables and the balance that a request may get to. -/
structure Db.InRange (V : Db) (b : Int) : Prop where
  consistent : V.Consistent
  bounded : V.Bounded maxI64
  balance : 0 ≤ b ∧ b ≤ maxI64

theorem Db.InRange.performs {V' : Db} {b' : Int} {txId : Uuid} (hc : c.svc = rust)
    (hV : V.InRange b) (h : V.Performs c b action V' b' txId) : V'.InRange b' := by
  have hs := h.stepped hV.consistent
  constructor
  · exact hV.consistent.stepped hs
  · exact hV.bounded.stepped (Or.inr hc) hs
  · exact h.range hc hV.consistent hV.balance

theorem Db.InRange.perform {txs : List Transaction} {pre : List ProcessAction}
    {r : (Int × List Transaction) × Db} (hc : c.svc = rust) (hV : V.InRange b)
    (h : V.perform c b txs pre = .ok r) : r.2.InRange r.1.1 := by
  apply (Db.perform_history (P := fun _ V b => V.InRange b) hV.consistent h hV _).2
  intro pre action post V b V' b' txId _ _ hP hperf
  exact hP.performs hc hperf

/-- Either the exact integers give the same after every action, or the first balance that does
not fit ends the request for lack of funds. -/
theorem Db.perform_rust (txs : List Transaction) {actions : List ProcessAction}
    (hc : c.svc = rust) (hV : V.InRange b) (hactions : ∀ action ∈ actions, action.IsI64) :
    V.perform c b txs actions = V.perform c.exact b txs actions ∨
      ∃ pre action post r, actions = pre ++ action :: post ∧ V.perform c b txs pre = .ok r ∧
        ¬ r.2.Registered action.actionId ∧ maxI64 < r.1.1 + r.2.delta c.svc.exact action ∧
        r.2.act c r.1.1 action = .error .insufficientFunds := by
  induction actions generalizing V b txs with
  | nil => exact Or.inl rfl
  | cons action rest ih =>
    have hrest : ∀ action ∈ rest, action.IsI64 :=
      fun a ha => hactions a (List.mem_cons_of_mem _ ha)
    cases hfind : V.actionRegistry.find? (·.actionId = action.actionId) with
    | some g =>
      have hperform : ∀ c' rest, V.perform c' b txs (action :: rest) =
          V.perform c' b (txs ++ [⟨action.actionId, g.txId⟩]) rest := by
        intro c' rest
        rw [perform, hfind]
      rcases ih (txs ++ [⟨action.actionId, g.txId⟩]) hV hrest with
        heq | ⟨pre, action', post, r, hsplit, hpre, hstop⟩
      · left
        rw [hperform, hperform, heq]
      · exact Or.inr ⟨action :: pre, action', post, r, by rw [hsplit]; rfl,
          (hperform c pre).trans hpre, hstop⟩
    | none =>
      have hnew := find?_eq_none.1 hfind
      have hperform : ∀ c' rest, V.perform c' b txs (action :: rest) =
          V.act c' b action >>= fun act => (V.performed c' act).perform c' act.balance
            (txs ++ [⟨action.actionId, c'.draws.txId action.actionId⟩]) rest := by
        intro c' rest
        rw [perform, hfind]
      rcases act_rust hc hV.bounded hV.balance (hactions action (List.mem_cons_self ..)) with
        ⟨heq, _⟩ | ⟨_, hover, hstop⟩
      · cases hact : V.act c b action with
        | error e =>
          left
          rw [hperform, hperform, ← heq, hact]
          rfl
        | ok act =>
          rcases ih (txs ++ [⟨action.actionId, c.draws.txId action.actionId⟩])
            (hV.performs hc (.fresh hnew hact)) hrest with
            heq' | ⟨pre, action', post, r, hsplit, hpre, hstop⟩
          · left
            rw [hperform, hperform, ← heq, hact]
            exact heq'
          · refine Or.inr ⟨action :: pre, action', post, r, by rw [hsplit]; rfl, ?_, hstop⟩
            rw [hperform, hact]
            exact hpre
      · exact Or.inr ⟨[], action, rest, ((b, txs), V), rfl, rfl, hnew, hover, hstop⟩

theorem Db.perform_error {txs : List Transaction} {actions : List ProcessAction} {e : Err}
    (h : V.perform c b txs actions = .error e) : ∃ pre action post r,
      actions = pre ++ action :: post ∧ V.perform c b txs pre = .ok r ∧
        ¬ r.2.Registered action.actionId ∧ r.2.act c r.1.1 action = .error e := by
  induction actions generalizing V b txs with
  | nil => cases h
  | cons action rest ih =>
    rw [perform] at h
    cases hfind : V.actionRegistry.find? (·.actionId = action.actionId) with
    | some g =>
      rw [hfind] at h
      obtain ⟨pre, action', post, r, hsplit, hpre, hstop⟩ := ih h
      refine ⟨action :: pre, action', post, r, by rw [hsplit]; rfl, ?_, hstop⟩
      rw [perform, hfind]
      exact hpre
    | none =>
      rw [hfind] at h
      rcases bind_eq_error.1 h with h | ⟨act, hact, h⟩
      · exact ⟨[], action, rest, ((b, txs), V), rfl, rfl, find?_eq_none.1 hfind, h⟩
      · obtain ⟨pre, action', post, r, hsplit, hpre, hstop⟩ := ih h
        refine ⟨action :: pre, action', post, r, by rw [hsplit]; rfl, ?_, hstop⟩
        rw [perform, hfind, hact]
        exact hpre

theorem Db.perform_stop {txs : List Transaction} {pre post : List ProcessAction} {e : Err}
    {r : (Int × List Transaction) × Db} (hpre : V.perform c b txs pre = .ok r)
    (hnew : ¬ r.2.Registered action.actionId) (hact : r.2.act c r.1.1 action = .error e) :
    V.perform c b txs (pre ++ action :: post) = .error e := by
  rw [perform_append, hpre]
  change r.2.perform c r.1.1 r.1.2 (action :: post) = _
  rw [perform, find?_eq_none.2 hnew, hact]
  rfl

end

section
variable {db V : Db} {c : Call} {b : Int} {action : ProcessAction} {pre : List ProcessAction}

theorem Call.exec_upTo (h : db.Consistent) : postgres.exec (c.upTo pre) db =
    (db.opened c.account).perform c (c.svc.load (db.balance c.account)) [] pre := by
  rw [upTo, exec_lockAccount]
  exact exec_processActions (h.opened_account c.account)

theorem Call.serveRust_eq (hc : c.svc = rust) : c.serveRust db = c.serve db := by
  rw [serveRust, serve, Call.body_rust hc]

theorem Db.InRange.opened (h : db.Consistent) (hV : db.Bounded maxI64) (a : Account)
    (hb : 0 ≤ db.balance a ∧ db.balance a ≤ maxI64) : (db.opened a).InRange (db.balance a) := by
  constructor
  · exact h.opened_account a
  · rw [Db.opened]
    split
    · exact hV
    · exact hV
  · exact hb

theorem Call.upTo_rust (hc : c.svc = rust) (h : db.Consistent)
    (hV : (db.opened c.account).InRange (db.balance c.account))
    (hactions : ∀ action ∈ pre, action.IsI64) :
    postgres.exec (c.upTo pre) db = postgres.exec (c.exact.upTo pre) db ∨
      ∃ pre' action post V b, pre = pre' ++ action :: post ∧ c.GetsTo db pre' V b ∧
        maxI64 < b + V.delta c.svc.exact action ∧
        postgres.exec (c.upTo (pre' ++ [action])) db = .error .insufficientFunds ∧
        postgres.exec (c.upTo pre) db = .error .insufficientFunds := by
  have hload : c.svc.load (db.balance c.account) = db.balance c.account := by
    rw [hc]
    rfl
  rw [exec_upTo h, exec_upTo h, hload]
  rcases Db.perform_rust [] hc hV hactions with
    heq | ⟨pre', action, post, r, rfl, hpre, hnew, hover, hstop⟩
  · exact Or.inl heq
  · right
    refine ⟨pre', action, post, r.2, r.1.1, rfl, ⟨r.1.2, ?_⟩, hover, ?_, ?_⟩
    · rw [exec_upTo h, hload]
      exact hpre
    · rw [exec_upTo h, hload]
      exact Db.perform_stop hpre hnew hstop
    · exact Db.perform_stop hpre hnew hstop

theorem Call.load_rust (hc : c.svc = rust) (x : Int) : c.svc.load x = x := by
  rw [hc]
  rfl

theorem exec_body_rust (hc : c.svc = rust) (h : db.Consistent)
    (hV : (db.opened c.account).InRange (db.balance c.account)) (hne : c.actions ≠ []) :
    postgres.exec c.body db = (postgres.exec (c.upTo c.actions) db).map fun r =>
      (.actions c.request.gameId r.1.2 r.1.1, r.2.stored c.account r.1.1) := by
  rw [exec_body h hne, c.exec_upTo h, c.load_rust hc]
  cases hr : (db.opened c.account).perform c (db.balance c.account) [] c.actions with
  | error e => rfl
  | ok r =>
    have hrange : 0 ≤ r.1.1 ∧ r.1.1 ≤ maxI64 := (hV.perform hc hr).balance
    have hparam : c.svc.param r.1.1 = .ok r.1.1 := by
      rw [hc]
      apply Service.param_eq_ok.2 (rust_exactTo.bind (abs_le.2 _))
      unfold maxI64 at hrange
      omega
    change (c.svc.param r.1.1 >>= _) = _
    rw [hparam]
    exact if_neg (not_lt.2 hrange.1)

/-- A request that does the same actions with exact integers has the same answer and leaves the
same tables. -/
theorem exec_body_of_upTo (hc : c.svc = rust) (h : db.Consistent)
    (hV : (db.opened c.account).InRange (db.balance c.account))
    (heq : postgres.exec (c.upTo c.actions) db = postgres.exec (c.exact.upTo c.actions) db) :
    postgres.exec c.body db = postgres.exec c.exact.body db := by
  by_cases hnil : c.actions = []
  · rw [exec_body_empty hnil, exec_body_empty (c := c.exact) hnil, c.load_rust hc]
    rfl
  · rw [exec_body_rust hc h hV hnil, heq, Call.exec_upTo h]
    exact (exec_body_exact (c := c.exact) (fun N => c.svc.exact_exactTo N) h hV.balance.1
      hnil).symm

/-- A request fails as the first of its actions that fails does, or when its balance is stored. -/
theorem exec_body_error (h : db.Consistent) {e : Err} (hrange : e ≠ .outOfRange)
    (hcheck : e ≠ .checkViolation) :
    postgres.exec c.body db = .error e ↔ postgres.exec (c.upTo c.actions) db = .error e := by
  rw [c.exec_upTo h]
  by_cases hnil : c.actions = []
  · rw [exec_body_empty hnil, hnil]
    constructor
    · intro herror
      cases herror
    · intro herror
      cases herror
  · rw [exec_body h hnil]
    constructor
    · intro hbody
      rcases bind_eq_error.1 hbody with hperform | ⟨r, _, hbody⟩
      · exact hperform
      · rcases bind_eq_error.1 hbody with hparam | ⟨stored, _, hbody⟩
        · exact absurd (Service.param_error hparam) hrange
        · split at hbody
          · cases hbody
            exact absurd rfl hcheck
          · cases hbody
    · intro hperform
      rw [hperform]
      rfl

theorem transact_error {p : Tx α} {e : Err} :
    (postgres.transact p db).1 = .error e ↔ postgres.exec p db = .error e := by
  rw [Engine.transact]
  cases postgres.exec p db with
  | error e' =>
    constructor
    · intro h
      cases h
      rfl
    · intro h
      cases h
      rfl
  | ok r =>
    constructor
    · intro h
      cases h
    · intro h
      cases h

/-- What is paid out does not lower the balance. -/
theorem Db.PaysOut.delta_nonneg (hV : V.Consistent) (h : V.PaysOut action)
    (hrefused : ¬ action.Refused rust) : 0 ≤ V.delta rust.exact action := by
  cases action with
  | bet x amount => cases h
  | win x amount =>
    have hpos : ¬ amount ≤ 0 := fun h => hrefused (decide_eq_true h)
    rw [delta]
    split
    · exact le_refl 0
    · exact (not_le.1 hpos).le
  | rollback r o =>
    obtain ⟨row, hrow, rfl, htype⟩ := h
    rw [delta]
    split
    · exact le_refl 0
    cases hfind : V.original? row.actionId with
    | none => exact le_refl 0
    | some row' =>
      obtain ⟨hid, hmem, _⟩ := original?_registry hfind
      obtain rfl := hV.ledger_inj hmem hrow hid
      rw [Option.elim_some]
      split
      · rename_i hst
        cases hV.shape row' hrow with
        | original _ _ hpos _ hstatus =>
          rcases hstatus with ⟨_, hdelta⟩ | ⟨hst', _⟩
          · change 0 ≤ -row'.balanceDelta
            rw [hdelta, htype, signed, if_pos rfl]
            omega
          · rw [hst] at hst'
            cases hst'
        | rollback htype' =>
          rw [htype] at htype'
          cases htype'
      · exact le_refl 0

theorem Call.Refuses.act (h : db.Consistent) (hs : c.Refuses db V b action) :
    ¬ V.Registered action.actionId ∧ V.act c b action = .error .insufficientFunds := by
  obtain ⟨pre, post, _, ⟨txs, hpre⟩, hstop⟩ := hs
  rw [c.exec_upTo h] at hpre hstop
  rw [Db.perform_append, hpre] at hstop
  change V.perform c b txs [action] = _ at hstop
  rw [Db.perform] at hstop
  cases hfind : V.actionRegistry.find? (·.actionId = action.actionId) with
  | some g =>
    rw [hfind] at hstop
    cases hstop
  | none =>
    rw [hfind] at hstop
    rcases bind_eq_error.1 hstop with hact | ⟨act, _, hstop⟩
    · exact ⟨Db.find?_eq_none.1 hfind, hact⟩
    · cases hstop

theorem Db.perform_prefix_ok {txs : List Transaction} {actions : List ProcessAction}
    {r : (Int × List Transaction) × Db} (hpre : pre <+: actions)
    (h : V.perform c b txs actions = .ok r) : ∃ r', V.perform c b txs pre = .ok r' := by
  obtain ⟨post, rfl⟩ := hpre
  rw [perform_append] at h
  obtain ⟨r', hr', _⟩ := bind_eq_ok.1 h
  exact ⟨r', hr'⟩

theorem Call.Refuses.unique {V' : Db} {b' : Int} {action' : ProcessAction} (h : db.Consistent)
    (hs : c.Refuses db V b action) (hs' : c.Refuses db V' b' action') :
    V = V' ∧ b = b' ∧ action = action' := by
  obtain ⟨pre, post, hactions, ⟨txs, hpre⟩, hstop⟩ := hs
  obtain ⟨pre', post', hactions', ⟨txs', hpre'⟩, hstop'⟩ := hs'
  have hlength : ∀ {pre post pre' post' : List ProcessAction} {action action'},
      c.actions = pre ++ action :: post → c.actions = pre' ++ action' :: post' →
      postgres.exec (c.upTo (pre ++ [action])) db = .error .insufficientFunds →
      (∃ r, postgres.exec (c.upTo pre') db = .ok r) → pre'.length ≤ pre.length := by
    intro pre post pre' post' action action' heq heq' hstop hok
    by_contra hlt
    have hstart : pre ++ [action] <+: c.actions := ⟨post, by rw [heq, List.append_assoc]; rfl⟩
    have hinside : pre ++ [action] <+: pre' := by
      apply List.prefix_of_prefix_length_le hstart ⟨action' :: post', heq'.symm⟩
      rw [List.length_append, List.length_singleton]
      omega
    obtain ⟨r, hr⟩ := hok
    rw [c.exec_upTo h] at hr hstop
    obtain ⟨r', hr'⟩ := Db.perform_prefix_ok hinside hr
    rw [hstop] at hr'
    cases hr'
  have hsame : pre.length = pre'.length :=
    Nat.le_antisymm (hlength hactions' hactions hstop' ⟨_, hpre⟩)
      (hlength hactions hactions' hstop ⟨_, hpre'⟩)
  obtain ⟨rfl, hcons⟩ := List.append_inj (hactions.symm.trans hactions') hsame
  obtain ⟨rfl, _⟩ := List.cons.inj hcons
  rw [hpre] at hpre'
  cases hpre'
  exact ⟨rfl, rfl, rfl⟩

section
variable (hc : c.svc = rust) (h : db.Consistent)
variable (hV : (db.opened c.account).InRange (db.balance c.account))
include hc h hV

theorem Call.GetsTo.inRange (hpre : c.GetsTo db pre V b) : V.InRange b := by
  obtain ⟨txs, hpre⟩ := hpre
  rw [c.exec_upTo h, c.load_rust hc] at hpre
  exact hV.perform hc hpre

variable (hactions : ∀ action ∈ c.actions, action.IsI64)
include hactions

theorem Call.GetsTo.exact (hpre : c.GetsTo db pre V b) (hstart : pre <+: c.actions) :
    c.exact.GetsTo db pre V b := by
  obtain ⟨txs, hpre⟩ := hpre
  rcases c.upTo_rust hc h hV (fun a ha => hactions a (hstart.subset ha)) with
    heq | ⟨_, _, _, _, _, _, _, _, _, hstop⟩
  · exact ⟨txs, heq ▸ hpre⟩
  · rw [hstop] at hpre
    cases hpre

theorem Call.commitsExactly : c.CommitsExactly db where
  getsTo pre V b hstart hpre :=
    ⟨hpre.exact hc h hV hactions hstart, (hpre.inRange hc h hV).balance⟩
  serve resp hok := by
    rw [serveRust_eq hc] at hok ⊢
    rcases c.upTo_rust hc h hV hactions with heq | ⟨_, _, _, _, _, _, _, _, _, hstop⟩
    · rw [serve, serve, Engine.transact, Engine.transact, exec_body_of_upTo hc h hV heq]
    · have herror := transact_error.2 ((exec_body_error h (by decide) (by decide)).2 hstop)
      rw [serve, herror] at hok
      cases hok

/-- The first balance that does not fit stops the request. -/
theorem Call.Overflows.refuses (ho : c.Overflows db) : ∃ V b action, c.Refuses db V b action ∧
    maxI64 < b + V.delta c.svc.exact action := by
  obtain ⟨pre, action, post, V, b, heq, ⟨txs, hpre⟩, hnew, hrefused, hover⟩ := ho
  have hstart : pre <+: c.actions := ⟨action :: post, heq.symm⟩
  rcases c.upTo_rust hc h hV (fun a ha => hactions a (hstart.subset ha)) with
    hsame | ⟨pre', action', post', V', b', hsplit, hgets, hover', hstop, _⟩
  · have hgets : c.GetsTo db pre V b := ⟨txs, hsame.trans hpre⟩
    have hrange := hgets.inRange hc h hV
    have haction : action.IsI64 := hactions action (by rw [heq]; simp)
    rcases Db.act_rust hc hrange.bounded hrange.balance haction with ⟨_, hle⟩ | ⟨_, _, hstop⟩
    · exact absurd (hle hrefused) (not_le.2 hover)
    · refine ⟨V, b, action, ⟨pre, post, heq, hgets, ?_⟩, hover⟩
      obtain ⟨txs', hgets⟩ := hgets
      rw [c.exec_upTo h] at hgets ⊢
      exact Db.perform_stop hgets hnew hstop
  · refine ⟨V', b', action', ⟨pre', post' ++ action :: post, ?_, hgets, hstop⟩, hover'⟩
    rw [heq, hsplit, List.append_assoc]
    rfl

theorem Call.fundsSound_iff : c.FundsSound db ↔ ¬ c.Overflows db := by
  have hanswer : (c.serveRust db).1 = .error .insufficientFunds ↔
      postgres.exec (c.upTo c.actions) db = .error .insufficientFunds := by
    rw [serveRust_eq hc, serve, transact_error, exec_body_error h (by decide) (by decide)]
  constructor
  · intro hsound ho
    obtain ⟨V, b, action, hstop, hover⟩ := ho.refuses hc h hV hactions
    have herror : (c.serveRust db).1 = .error .insufficientFunds := by
      obtain ⟨hnew, hact⟩ := hstop.act h
      obtain ⟨pre, post, heq, ⟨txs, hpre⟩, _⟩ := hstop
      rw [hanswer, heq, c.exec_upTo h]
      rw [c.exec_upTo h] at hpre
      exact Db.perform_stop hpre hnew hact
    obtain ⟨V', b', action', hstop', hneg, _⟩ := hsound herror
    obtain ⟨rfl, rfl, rfl⟩ := hstop.unique h hstop'
    unfold maxI64 at hover
    omega
  · intro hno herror
    rw [hanswer, c.exec_upTo h] at herror
    obtain ⟨pre, action, post, r, heq, hpre, hnew, hact⟩ := Db.perform_error herror
    have hgets : c.GetsTo db pre r.2 r.1.1 := ⟨r.1.2, by rw [c.exec_upTo h, hpre]⟩
    have hrange := hgets.inRange hc h hV
    have haction : action.IsI64 := hactions action (by rw [heq]; simp)
    have hrefused : ¬ action.Refused c.svc := (Db.act_insufficientFunds hact).1
    have hneg : r.1.1 + r.2.delta c.svc.exact action < 0 := by
      rcases Db.act_rust hc hrange.bounded hrange.balance haction with
        ⟨hsame, _⟩ | ⟨_, hover, _⟩
      · rw [hsame] at hact
        exact (Db.act_insufficientFunds hact).2
      · have hexact := hgets.exact hc h hV hactions ⟨action :: post, heq.symm⟩
        exact absurd ⟨pre, action, post, r.2, r.1.1, heq, hexact, hnew, hrefused, hover⟩ hno
    refine ⟨r.2, r.1.1, action, ⟨pre, post, heq, hgets, ?_⟩, hneg, ?_⟩
    · rw [c.exec_upTo h]
      exact Db.perform_stop hpre hnew hact
    · intro hpays
      rw [hc] at hrefused hneg
      have hnonneg := hpays.delta_nonneg hrange.consistent hrefused
      have hb := hrange.balance.1
      omega

end

end

/-- The Rust service commits exact balances only, on every reachable ledger and with every
balance; its answer that funds are missing is right exactly when no balance is too large. -/
theorem rust_money {db₀ : Db} (h₀ : db₀.Initial) {calls : List Call}
    (hsvc : ∀ c ∈ calls, c.svc.Deployed) {rows : List AccountRow}
    (hrows : (rows.map (·.account)).Nodup) {c : Call} (hc : c.svc = rust)
    (hactions : ∀ action ∈ c.actions, action.IsI64)
    (hb : 0 ≤ ((db₀.after calls).withAccounts rows).balance c.account ∧
      ((db₀.after calls).withAccounts rows).balance c.account ≤ maxI64) :
    c.CommitsExactly ((db₀.after calls).withAccounts rows) ∧
      (c.FundsSound ((db₀.after calls).withAccounts rows) ↔
        ¬ c.Overflows ((db₀.after calls).withAccounts rows)) := by
  have h := (h₀.consistent.after calls).withAccounts hrows
  have hV := Db.InRange.opened h (Db.Bounded.after h₀ hsvc) c.account hb
  exact ⟨c.commitsExactly hc h hV hactions, c.fundsSound_iff hc h hV hactions⟩

/-- A player with the largest balance. -/
def richPlayer : List AccountRow := [⟨⟨"a", "USD"⟩, 2 ^ 63 - 1⟩]

/-- A win of 1 on the largest balance is refused for lack of funds. -/
theorem win_refused : ∃ (db₀ : Db) (calls : List Call) (rows : List AccountRow) (c : Call),
    db₀.Initial ∧ (∀ c ∈ calls, c.svc.Deployed) ∧
    (rows.map AccountRow.account).Nodup ∧ c.svc = rust ∧ (∀ action ∈ c.actions, action.IsI64) ∧
    0 ≤ ((db₀.after calls).withAccounts rows).balance c.account ∧
    ((db₀.after calls).withAccounts rows).balance c.account ≤ maxI64 ∧
    ¬ (c.CommitsExactly ((db₀.after calls).withAccounts rows) ∧
      c.FundsSound ((db₀.after calls).withAccounts rows)) := by
  refine ⟨twoUsers, [], richPlayer, dollars rust "a" [.win 1 1], twoUsers_initial, by simp,
    by decide, rfl, ?_, by decide, by decide, ?_⟩
  · intro action haction
    obtain rfl := List.mem_singleton.1 haction
    exact (by decide : IsBigint 1)
  · rintro ⟨_, hsound⟩
    obtain ⟨V, b, action, ⟨pre, post, heq, _⟩, _, hpays⟩ := hsound (by decide +kernel)
    have hmem : action ∈ [ProcessAction.win 1 1] := by
      change action ∈ (dollars rust "a" [.win 1 1]).actions
      rw [heq]
      simp
    obtain rfl := List.mem_singleton.1 hmem
    exact hpays trivial

theorem rust_money_richPlayer :
    (dollars rust "a" [.bet 1 1]).CommitsExactly ((twoUsers.after []).withAccounts richPlayer) := by
  apply (@rust_money twoUsers twoUsers_initial [] (by simp) richPlayer (by decide)
    (dollars rust "a" [.bet 1 1]) rfl ?_ (by decide)).1
  intro action haction
  obtain rfl := List.mem_singleton.1 haction
  exact (by decide : IsBigint 1)

end BetProcessor
