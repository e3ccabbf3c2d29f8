import BetProcessor.Stability

namespace BetProcessor
set_option autoImplicit true
open Txn

/-- The registry row that belongs to a ledger row. -/
def ActionRow.registry (r : ActionRow) : RegistryRow :=
  ⟨r.actionId, r.txId, r.account, r.createdAt⟩

/-- The combinations of columns that occur in the ledger. -/
inductive ActionRow.Shape (r : ActionRow) : Prop where
  | original {v} (htype : r.actionType ≠ .rollback) (horiginal : r.originalActionId = none)
    (hpos : 0 < v) (hamount : r.amount = some v)
    (hstatus : (r.status = .applied ∧ r.balanceDelta = signed r.actionType v) ∨
      (r.status = .noopPrerolled ∧ r.balanceDelta = 0))
  | rollback {o} (htype : r.actionType = .rollback) (horiginal : r.originalActionId = some o)
    (hamount : r.amount = none)
    (hstatus : r.status = .applied ∨
      (r.status ≠ .applied ∧ r.status ≠ .noopPrerolled ∧ r.balanceDelta = 0))

/-- What holds of the tables in every committed state. -/
structure Db.Consistent (db : Db) : Prop where
  accounts_nodup : (db.accounts.map (·.account)).Nodup
  registry_nodup : (db.actionRegistry.map (·.actionId)).Nodup
  ledger_nodup : (db.ledger.map (·.actionId)).Nodup
  intents_nodup : (db.rollbackIntents.map (·.originalActionId)).Nodup
  registered : ∀ r ∈ db.ledger, r.registry ∈ db.actionRegistry
  recorded : ∀ g ∈ db.actionRegistry, ∃ r ∈ db.ledger, r.registry = g
  intent_row : ∀ t ∈ db.rollbackIntents, ∃ r ∈ db.ledger, r.actionType = .rollback ∧
    r.status ≠ .noopAlreadyRolledBack ∧ r.actionId = t.rollbackActionId ∧
    r.originalActionId = some t.originalActionId ∧ r.account = t.account
  row_intent : ∀ r ∈ db.ledger, r.actionType = .rollback →
    r.status ≠ .noopAlreadyRolledBack → ∃ t ∈ db.rollbackIntents,
      t.rollbackActionId = r.actionId ∧ r.originalActionId = some t.originalActionId
  shape : ∀ r ∈ db.ledger, r.Shape

/-- The database before the first request: accounts with their initial balances. -/
structure Db.Initial (db : Db) : Prop where
  accounts_nodup : (db.accounts.map (·.account)).Nodup
  balance_nonneg : ∀ row ∈ db.accounts, 0 ≤ row.balance
  actionRegistry : db.actionRegistry = []
  actions : db.actions = []
  rollbackIntents : db.rollbackIntents = []
  rtpOutbox : db.rtpOutbox = []

theorem Db.Initial.ledger {db : Db} (h : db.Initial) : db.ledger = [] := by
  rw [Db.ledger, h.actions]
  rfl

theorem Db.Initial.consistent {db : Db} (h : db.Initial) : db.Consistent := by
  refine ⟨h.accounts_nodup, ?_, ?_, ?_, ?_, ?_, ?_, ?_, ?_⟩
  all_goals simp [h.actionRegistry, h.ledger, h.rollbackIntents]

theorem find?_of_unique {l : List α} {p : α → Bool} {x : α} (hx : x ∈ l) (hp : p x = true)
    (huniq : ∀ y ∈ l, p y = true → y = x) : l.find? p = some x := by
  cases hf : l.find? p with
  | none => exact absurd hp (List.find?_eq_none.1 hf x hx)
  | some y => rw [huniq y (List.mem_of_find?_eq_some hf) (List.find?_some hf)]

theorem nodup_map_snoc {f : α → β} {l : List α} {x : α} (h : (l.map f).Nodup)
    (hx : ∀ y ∈ l, f y ≠ f x) : ((l ++ [x]).map f).Nodup := by
  rw [List.map_append, List.map_singleton]
  refine List.nodup_append.2 ⟨h, List.nodup_singleton _, ?_⟩
  rintro a ha b hb rfl
  obtain ⟨y, hy, hfy⟩ := List.mem_map.1 ha
  exact hx y hy (hfy.trans (List.mem_singleton.1 hb))

theorem Db.original?_of_unique {db : Db} (hregistry : (db.actionRegistry.map (·.actionId)).Nodup)
    (hledger : (db.ledger.map (·.actionId)).Nodup) {row : ActionRow} (hrow : row ∈ db.ledger)
    (hregistered : row.registry ∈ db.actionRegistry) (g : RegistryRow) :
    (db.apply (.insertRegistry g)).original? row.actionId = some row := by
  have hfind : db.actionRegistry.find? (·.actionId = row.actionId) = some row.registry := by
    apply find?_of_unique hregistered (by simp [ActionRow.registry])
    intro g' hg' hid
    exact List.inj_on_of_nodup_map hregistry hg' hregistered (of_decide_eq_true hid)
  have hclaim : (db.apply (.insertRegistry g)).actionRegistry.find?
      (·.actionId = row.actionId) = some row.registry := by
    rw [Db.apply_actionRegistry, List.find?_append, hfind]
    rfl
  rw [Db.original?, hclaim]
  apply find?_of_unique hrow (by simp [ActionRow.registry])
  intro r hr hid
  exact List.inj_on_of_nodup_map hledger hr hrow (by simp_all)

namespace Db.Consistent
variable {db : Db}

theorem ledger_inj (h : db.Consistent) {r r' : ActionRow} (hr : r ∈ db.ledger)
    (hr' : r' ∈ db.ledger) (hid : r.actionId = r'.actionId) : r = r' :=
  List.inj_on_of_nodup_map h.ledger_nodup hr hr' hid

/-- The lookup of an original finds the only row with its id, also when another id has just been
claimed. -/
theorem original?_of_mem (h : db.Consistent) {row : ActionRow} (hrow : row ∈ db.ledger)
    (g : RegistryRow) : (db.apply (.insertRegistry g)).original? row.actionId = some row :=
  Db.original?_of_unique h.registry_nodup h.ledger_nodup hrow (h.registered row hrow) g

end Db.Consistent

/-- What still holds of the tables when an action looked for a rollback of an id, or for its
ledger row, and found none. -/
structure Lookups where
  noIntent : Db → Uuid → Prop
  noRow : Db → Uuid → Prop

/-- A transaction alone: nothing has been added since it looked. -/
def Lookups.now : Lookups := ⟨fun V x => ¬ V.HasIntent x, fun V o => ∀ row ∈ V.ledger,
  row.actionId ≠ o⟩

/-- Next to other transactions anything may have been added. -/
def Lookups.stale : Lookups := ⟨fun _ _ => True, fun _ _ => True⟩

/-- What a newly claimed action does to the tables `V`: its ledger row, the record of a rollback,
the deltas of the report, and the balance after it. -/
inductive Effect (L : Lookups) (V : Db) (c : Call) (b : Int) :
    ProcessAction → ActionRow → Option IntentRow → List OutboxRow → Int → Prop where
  | applied {action type x amount v} (ha : ProcessAction.IsOriginal action type x amount)
    (hno : L.noIntent V x) (hv : c.svc.bind amount = some v) (hpos : 0 < v)
    (hb : 0 ≤ c.svc.add b (originalDelta c.svc type amount)) :
    Effect L V c b action (c.originalRow type x v (signed type v) .applied) none
      [appliedDelta (c.claimedAt x) c.account type v]
      (c.svc.add b (originalDelta c.svc type amount))
  | prerolled {action type x amount v} (ha : ProcessAction.IsOriginal action type x amount)
    (hseen : V.HasIntent x) (hv : c.svc.bind amount = some v) (hpos : 0 < v)
    (hb : 0 ≤ c.svc.add b 0) :
    Effect L V c b action (c.originalRow type x v 0 .noopPrerolled) none
      [rolledBackDelta (c.claimedAt x) c.account type v] (c.svc.add b 0)
  | already {r o} (hseen : V.HasIntent o) :
    Effect L V c b (.rollback r o) (c.rollbackRow r o 0 .noopAlreadyRolledBack) none [] b
  | tombstone {r o} (hno : ¬ V.HasIntent o)
    (hnone : L.noRow V o) :
    Effect L V c b (.rollback r o) (c.rollbackRow r o 0 .noopTombstone)
      (some ⟨o, r, c.account⟩) [rollbackCountDelta (c.claimedAt r) c.account] b
  | notApplied {r o row} (hno : ¬ V.HasIntent o) (hrow : row ∈ V.ledger)
    (hid : row.actionId = o)
    (hna : row.status ≠ .applied ∨ c.svc.load row.balanceDelta = 0) :
    Effect L V c b (.rollback r o) (c.rollbackRow r o 0 .noopOriginalNotApplied)
      (some ⟨o, r, c.account⟩) [rollbackCountDelta (c.claimedAt r) c.account] b
  | reversed {r o row d outs} (hno : ¬ V.HasIntent o) (hrow : row ∈ V.ledger)
    (hid : row.actionId = o) (hst : row.status = .applied)
    (hne : c.svc.load row.balanceDelta ≠ 0)
    (hb : 0 ≤ c.svc.add b (c.svc.neg (c.svc.load row.balanceDelta)))
    (hd : c.svc.bind (c.svc.neg (c.svc.load row.balanceDelta)) = some d)
    (hremoval : Removal c.svc row outs) :
    Effect L V c b (.rollback r o) (c.rollbackRow r o d .applied)
      (some ⟨o, r, c.account⟩) (outs ++ [rollbackCountDelta (c.claimedAt r) c.account])
      (c.svc.add b (c.svc.neg (c.svc.load row.balanceDelta)))

/-- The tables `V'` are `V` with the rows of one action. -/
structure Adds (V V' : Db) (row : ActionRow) (intent : Option IntentRow)
    (outs : List OutboxRow) : Prop where
  actionRegistry : V'.actionRegistry = V.actionRegistry ++ [row.registry]
  ledger : V'.ledger = V.ledger ++ [row]
  rollbackIntents : V'.rollbackIntents = V.rollbackIntents ++ intent.toList
  rtpOutbox : V'.rtpOutbox = V.rtpOutbox ++ outs
  accounts : V'.accounts = V.accounts

/-- A write that leaves the accounts alone. -/
def Write.SkipsAccounts : Write → Prop
  | .insertAccount _ | .updateBalance _ _ => False
  | _ => True

theorem view_skipsAccounts {db : Db} {ws : List Write} (h : ∀ w ∈ ws, w.SkipsAccounts) :
    (postgres.view db ws).accounts = db.accounts := by
  induction ws generalizing db with
  | nil => rfl
  | cons w ws ih =>
    apply (ih fun w' hw' => h w' (List.mem_cons_of_mem _ hw')).trans
    have hw := h w (List.mem_cons_self ..)
    cases w with
    | insertAccount => exact hw.elim
    | updateBalance => exact hw.elim
    | _ => rfl

theorem isMark_iff {w : Write} : w.IsMark ↔ ∃ x t r now, w = .updateRolledBack x t r now := by
  cases w <;> simp [Write.IsMark]

section
variable {intent : Option IntentRow} {outs : List OutboxRow} {marks : List Write}

theorem flatMap_record {f : Write → List β}
    (hf : ∀ x t r now, f (.updateRolledBack x t r now) = []) (hmarks : ∀ w ∈ marks, w.IsMark) :
    (intent.toList.map Write.insertIntent ++ marks ++ outs.map Write.insertOutbox).flatMap f =
      (intent.toList.flatMap fun t => f (.insertIntent t)) ++
        outs.flatMap fun out => f (.insertOutbox out) := by
  have hnil : marks.flatMap f = [] := by
    rw [List.flatMap_eq_nil_iff]
    intro w hw
    obtain ⟨x, t, r, now, rfl⟩ := isMark_iff.1 (hmarks w hw)
    exact hf x t r now
  rw [List.flatMap_append, List.flatMap_append, hnil, List.append_nil, List.flatMap_map,
    List.flatMap_map]

theorem Adds.of_writes {V : Db} (row : ActionRow) (intent : Option IntentRow)
    (outs : List OutboxRow) (hmarks : ∀ w ∈ marks, w.IsMark) (hcore : row.core = row) :
    Adds V (postgres.view V (.insertRegistry row.registry :: .insertAction row ::
      (intent.toList.map Write.insertIntent ++ marks ++ outs.map Write.insertOutbox)))
      row intent outs := by
  refine ⟨?_, ?_, ?_, ?_, view_skipsAccounts ?_⟩
  · rw [Db.view_actionRegistry, List.flatMap_cons, List.flatMap_cons,
      flatMap_record (fun _ _ _ _ => rfl) hmarks]
    simp [Write.registryRows]
  · rw [Db.view_ledger, List.flatMap_cons, List.flatMap_cons,
      flatMap_record (fun _ _ _ _ => rfl) hmarks]
    simp [Write.ledgerRows, hcore]
  · rw [Db.view_rollbackIntents, List.flatMap_cons, List.flatMap_cons,
      flatMap_record (fun _ _ _ _ => rfl) hmarks]
    simp [Write.intentRows]
  · rw [Db.view_rtpOutbox, List.flatMap_cons, List.flatMap_cons,
      flatMap_record (fun _ _ _ _ => rfl) hmarks]
    simp [Write.outboxRows]
  · intro w hw
    simp only [List.mem_cons, List.mem_append, List.mem_map] at hw
    rcases hw with rfl | rfl | (⟨t, _, rfl⟩ | hw) | ⟨out, _, rfl⟩
    · exact True.intro
    · exact True.intro
    · exact True.intro
    · obtain ⟨x, t, r, now, rfl⟩ := isMark_iff.1 (hmarks w hw)
      exact True.intro
    · exact True.intro

end

section
variable {past : Moment → Prop} {c : Call} {db V V' : Db} {ws new : List Write} {b b' : Int}
variable {action : ProcessAction} {txId : Uuid} {L : Lookups} {row : ActionRow}
variable {intent : Option IntentRow} {outs : List OutboxRow}

namespace Effect

theorem actionId (h : Effect L V c b action row intent outs b') :
    row.actionId = action.actionId := by
  cases h with
  | applied ha => exact ha.actionId_eq.symm
  | prerolled ha => exact ha.actionId_eq.symm
  | _ => rfl

theorem registry (h : Effect L V c b action row intent outs b') :
    row.registry = c.registryRow row.actionId := by
  cases h <;> rfl

theorem core (h : Effect L V c b action row intent outs b') : row.core = row := by
  cases h <;> rfl

theorem account (h : Effect L V c b action row intent outs b') :
    row.account = c.account := by
  cases h <;> rfl

theorem shape (h : Effect L V c b action row intent outs b') : row.Shape := by
  cases h with
  | applied ha _ hv hpos => exact .original ha.type_ne rfl hpos rfl (Or.inl ⟨rfl, rfl⟩)
  | prerolled ha _ hv hpos => exact .original ha.type_ne rfl hpos rfl (Or.inr ⟨rfl, rfl⟩)
  | already => exact .rollback rfl rfl rfl (Or.inr ⟨nofun, nofun, rfl⟩)
  | tombstone => exact .rollback rfl rfl rfl (Or.inr ⟨nofun, nofun, rfl⟩)
  | notApplied => exact .rollback rfl rfl rfl (Or.inr ⟨nofun, nofun, rfl⟩)
  | reversed => exact .rollback rfl rfl rfl (Or.inl rfl)

theorem intent_some {t : IntentRow} (h : Effect L V c b action row (some t) outs b') :
    action = .rollback t.rollbackActionId t.originalActionId ∧ row.actionType = .rollback ∧
      row.status ≠ .noopAlreadyRolledBack ∧ row.actionId = t.rollbackActionId ∧
      row.originalActionId = some t.originalActionId ∧ row.account = t.account ∧
      ¬ V.HasIntent t.originalActionId := by
  cases h with
  | tombstone hno => exact ⟨rfl, rfl, nofun, rfl, rfl, rfl, hno⟩
  | notApplied hno => exact ⟨rfl, rfl, nofun, rfl, rfl, rfl, hno⟩
  | reversed hno => exact ⟨rfl, rfl, nofun, rfl, rfl, rfl, hno⟩

theorem intent_none (h : Effect L V c b action row none outs b')
    (htype : row.actionType = .rollback) : row.status = .noopAlreadyRolledBack := by
  cases h with
  | applied ha => exact absurd htype ha.type_ne
  | prerolled ha => exact absurd htype ha.type_ne
  | already => rfl

end Effect

/-- A step repeats a known id and changes nothing, or has an effect under a new id. -/
inductive Stepped (L : Lookups) (V V' : Db) (c : Call) (b : Int) (action : ProcessAction) :
    Int → Uuid → Prop where
  | duplicate {g : RegistryRow} (hg : g ∈ V.actionRegistry) (hid : g.actionId = action.actionId)
    (hV : V' = V) : Stepped L V V' c b action b g.txId
  | fresh {row : ActionRow} {intent : Option IntentRow} {outs : List OutboxRow} {b' : Int}
    (hfresh : ¬ V.Registered action.actionId)
    (he : Effect L V c b action row intent outs b') (ha : Adds V V' row intent outs) :
    Stepped L V V' c b action b' (c.draws.txId action.actionId)

/-- What the lookups of a transaction saw, in the database at its end. -/
structure Sees (L : Lookups) (past : Moment → Prop) (c : Call) (db : Db) : Prop where
  noIntent : ∀ {ws g x}, (past fun st db => Stmt.selectIntent x ∈ st.hist ∧
    Key.registry x ∈ st.held ∧ Key.account c.account ∈ st.held ∧
    ¬ (postgres.view db (ws ++ [.insertRegistry g])).HasIntent x) →
    (postgres.view db ws).Consistent → L.noIntent (postgres.view db ws) x
  noRow : ∀ {ws g o}, (past fun st db => Stmt.selectActionForUpdate o ∈ st.hist ∧
    Key.account c.account ∈ st.held ∧
    (postgres.view db (ws ++ [.insertRegistry g])).original? o = none) →
    (postgres.view db ws).Consistent → L.noRow (postgres.view db ws) o

theorem Sees.stale : Sees .stale past c db := ⟨fun _ _ => trivial, fun _ _ => trivial⟩

theorem Outcome.effect (hp : Stable past db)
    (hsees : Sees L past c db)
    (hcons : (postgres.view db ws).Consistent)
    (ho : Outcome past c (ws ++ [.insertRegistry (c.registryRow action.actionId)]) b action
      new b') :
    ∃ row intent outs, Effect L (postgres.view db ws) c b action row intent outs b' ∧
      Adds (postgres.view db ws) (postgres.view db
        (ws ++ .insertRegistry (c.registryRow action.actionId) :: new)) row intent outs := by
  have hintent : ∀ o, (postgres.view db
      (ws ++ [.insertRegistry (c.registryRow action.actionId)])).HasIntent o ↔
      (postgres.view db ws).HasIntent o := by
    intro o
    rw [Engine.view_append]
    rfl
  have hledger : (postgres.view db
      (ws ++ [.insertRegistry (c.registryRow action.actionId)])).ledger =
      (postgres.view db ws).ledger := by
    rw [Engine.view_append]
    rfl
  have hmarks : ∀ w ∈ ([] : List Write), w.IsMark := by simp
  rw [Engine.view_append]
  cases ho with
  | @applied _ type x amount v ha hlook hv hpos hb =>
    refine ⟨_, _, _, .applied ha (hsees.noIntent hlook hcons) hv hpos hb, ?_⟩
    rw [ha.actionId_eq]
    exact Adds.of_writes (c.originalRow type x v (signed type v) .applied) none
      [appliedDelta (c.claimedAt x) c.account type v] hmarks rfl
  | @prerolled _ type x amount v ha hlook hv hpos hb =>
    refine ⟨_, _, _, .prerolled ha ((hintent _).1 (hp.hasIntent hlook)) hv hpos hb, ?_⟩
    rw [ha.actionId_eq]
    exact Adds.of_writes (c.originalRow type x v 0 .noopPrerolled) none
      [rolledBackDelta (c.claimedAt x) c.account type v] hmarks rfl
  | @already r o hlook =>
    refine ⟨_, _, _, .already ((hintent _).1 (hp.hasIntent hlook)), ?_⟩
    exact Adds.of_writes (c.rollbackRow r o 0 .noopAlreadyRolledBack) none [] hmarks rfl
  | @tombstone r o hlook hfree =>
    refine ⟨_, _, _, .tombstone ((hintent _).not.1 (hp.unrecorded hfree).1)
      (hsees.noRow hlook hcons), ?_⟩
    exact Adds.of_writes (c.rollbackRow r o 0 .noopTombstone) (some ⟨o, r, c.account⟩)
      [rollbackCountDelta (c.claimedAt r) c.account] hmarks rfl
  | @notApplied r o row hrow hna hfree =>
    obtain ⟨hid, hmem⟩ := hp.original hrow
    refine ⟨_, _, _, .notApplied ((hintent _).not.1 (hp.unrecorded hfree).1) (hledger ▸ hmem)
      hid hna, ?_⟩
    exact Adds.of_writes (c.rollbackRow r o 0 .noopOriginalNotApplied) (some ⟨o, r, c.account⟩)
      [rollbackCountDelta (c.claimedAt r) c.account] hmarks rfl
  | @reversed r o row d marks outs hrow hst hne hb hd hfree hmarks' hremoval =>
    obtain ⟨hid, hmem⟩ := hp.original hrow
    refine ⟨_, _, _, .reversed ((hintent _).not.1 (hp.unrecorded hfree).1) (hledger ▸ hmem)
      hid hst hne hb hd hremoval, ?_⟩
    have hadds := Adds.of_writes (V := postgres.view db ws) (c.rollbackRow r o d .applied)
      (some ⟨o, r, c.account⟩) (outs ++ [rollbackCountDelta (c.claimedAt r) c.account])
      hmarks' rfl
    rw [List.map_append, ← List.append_assoc] at hadds
    exact hadds

theorem Step.stepped (hp : Stable past db)
    (hsees : Sees L past c db)
    (hcons : (postgres.view db ws).Consistent) (hs : Step past c ws b action new b' txId) :
    Stepped L (postgres.view db ws) (postgres.view db (ws ++ new)) c b action b' txId := by
  cases hs with
  | duplicate hid hg => exact .duplicate (hp.registered hg) hid (by rw [List.append_nil])
  | fresh hfree ho =>
    obtain ⟨row, intent, outs, he, ha⟩ := ho.effect hp hsees hcons
    exact .fresh (hp.unregistered hfree) he ha

/-- The rows of one new action keep the tables consistent. -/
theorem Db.Consistent.adds (h : V.Consistent) (hfresh : ¬ V.Registered action.actionId)
    (he : Effect L V c b action row intent outs b') (ha : Adds V V' row intent outs) :
    V'.Consistent := by
  rw [← he.actionId] at hfresh
  have hrow : row ∈ V'.ledger := by
    rw [ha.ledger]
    exact List.mem_append_right _ (List.mem_singleton.2 rfl)
  refine ⟨?_, ?_, ?_, ?_, ?_, ?_, ?_, ?_, ?_⟩
  · rw [ha.accounts]
    exact h.accounts_nodup
  · rw [ha.actionRegistry]
    exact nodup_map_snoc h.registry_nodup fun g hg hid => hfresh ⟨g, hg, hid⟩
  · rw [ha.ledger]
    exact nodup_map_snoc h.ledger_nodup fun r hr hid =>
      hfresh ⟨r.registry, h.registered r hr, hid⟩
  · rw [ha.rollbackIntents]
    cases intent with
    | none => simpa using h.intents_nodup
    | some t =>
      obtain ⟨_, _, _, _, _, _, hnew⟩ := he.intent_some
      exact nodup_map_snoc h.intents_nodup fun t' ht' hid => hnew ⟨t', ht', hid⟩
  · intro r hr
    rw [ha.ledger] at hr
    rw [ha.actionRegistry]
    rcases List.mem_append.1 hr with hr | hr
    · exact List.mem_append_left _ (h.registered r hr)
    · rw [List.mem_singleton.1 hr]
      exact List.mem_append_right _ (List.mem_singleton.2 rfl)
  · intro g hg
    rw [ha.actionRegistry] at hg
    rcases List.mem_append.1 hg with hg | hg
    · obtain ⟨r, hr, hrg⟩ := h.recorded g hg
      exact ⟨r, ha.ledger ▸ List.mem_append_left _ hr, hrg⟩
    · exact ⟨row, hrow, (List.mem_singleton.1 hg).symm⟩
  · intro t ht
    rw [ha.rollbackIntents] at ht
    rcases List.mem_append.1 ht with ht | ht
    · obtain ⟨r, hr, hrt⟩ := h.intent_row t ht
      exact ⟨r, ha.ledger ▸ List.mem_append_left _ hr, hrt⟩
    · obtain rfl := Option.mem_toList.1 ht
      obtain ⟨_, htype, hst, hid, ho, hacc, _⟩ := he.intent_some
      exact ⟨row, hrow, htype, hst, hid, ho, hacc⟩
  · intro r hr htype hst
    rw [ha.ledger] at hr
    rw [ha.rollbackIntents]
    rcases List.mem_append.1 hr with hr | hr
    · obtain ⟨t, ht, htr⟩ := h.row_intent r hr htype hst
      exact ⟨t, List.mem_append_left _ ht, htr⟩
    · obtain rfl := List.mem_singleton.1 hr
      cases intent with
      | none => exact absurd (he.intent_none htype) hst
      | some t =>
        obtain ⟨_, _, _, hid, ho, _⟩ := he.intent_some
        exact ⟨t, List.mem_append_right _ (List.mem_singleton.2 rfl), hid.symm, ho⟩
  · intro r hr
    rw [ha.ledger] at hr
    rcases List.mem_append.1 hr with hr | hr
    · exact h.shape r hr
    · rw [List.mem_singleton.1 hr]
      exact he.shape

theorem Db.Consistent.stepped (h : V.Consistent) (hs : Stepped L V V' c b action b' txId) :
    V'.Consistent := by
  cases hs with
  | duplicate _ _ hV => rwa [hV]
  | fresh hfresh he ha => exact h.adds hfresh he ha

namespace Stepped

theorem registered {x : Uuid} (hs : Stepped L V V' c b action b' txId) :
    V'.Registered x ↔ V.Registered x ∨ action.actionId = x := by
  cases hs with
  | duplicate hg hid hV =>
    rw [hV]
    exact ⟨Or.inl, fun h => h.elim id fun hx => ⟨_, hg, hid.trans hx⟩⟩
  | fresh _ he ha =>
    rw [Db.Registered, ha.actionRegistry, ← he.actionId]
    simp [Db.Registered, ActionRow.registry, or_and_right, exists_or]

theorem registry (hs : Stepped L V V' c b action b' txId) :
    V.actionRegistry <+: V'.actionRegistry := by
  cases hs with
  | duplicate _ _ hV => rw [hV]
  | fresh _ _ ha =>
    rw [ha.actionRegistry]
    exact List.prefix_append _ _

theorem ledger (hs : Stepped L V V' c b action b' txId) : V.ledger <+: V'.ledger := by
  cases hs with
  | duplicate _ _ hV => rw [hV]
  | fresh _ _ ha =>
    rw [ha.ledger]
    exact List.prefix_append _ _

theorem intents (hs : Stepped L V V' c b action b' txId) :
    V.rollbackIntents <+: V'.rollbackIntents := by
  cases hs with
  | duplicate _ _ hV => rw [hV]
  | fresh _ _ ha =>
    rw [ha.rollbackIntents]
    exact List.prefix_append _ _

/-- Only a new rollback of the id records one. -/
theorem hasIntent {o : Uuid} (hs : Stepped L V V' c b action b' txId) (h : V'.HasIntent o) :
    V.HasIntent o ∨ ∃ r, action = .rollback r o ∧ ¬ V.Registered r := by
  cases hs with
  | duplicate _ _ hV => exact Or.inl (hV ▸ h)
  | @fresh row intent outs _ hfresh he ha =>
    rw [Db.HasIntent, ha.rollbackIntents] at h
    obtain ⟨t, ht, rfl⟩ := h
    rcases List.mem_append.1 ht with ht | ht
    · exact Or.inl ⟨t, ht, rfl⟩
    · obtain rfl := Option.mem_toList.1 ht
      obtain ⟨rfl, _⟩ := he.intent_some
      exact Or.inr ⟨_, rfl, hfresh⟩

theorem accounts (hs : Stepped L V V' c b action b' txId) : V'.accounts = V.accounts := by
  cases hs with
  | duplicate _ _ hV => rw [hV]
  | fresh _ _ ha => exact ha.accounts

theorem account {r : ActionRow} (hs : Stepped L V V' c b action b' txId)
    (hr : r ∈ V'.ledger) : r ∈ V.ledger ∨ r.account = c.account := by
  cases hs with
  | duplicate _ _ hV => exact Or.inl (hV ▸ hr)
  | fresh _ he ha =>
    rw [ha.ledger] at hr
    apply (List.mem_append.1 hr).imp_right
    intro hr
    rw [List.mem_singleton.1 hr]
    exact he.account

end Stepped

theorem Db.Consistent.opened {v : Int} (hp : Stable past db) (ho : Opened past c ws v)
    (h : db.Consistent) : (postgres.view db ws).Consistent := by
  rcases ho.insert with rfl | ⟨rfl, hnone⟩
  · exact h
  · have hnew := Db.account?_eq_none.1 (hp.newAccount hnone)
    refine ⟨?_, h.registry_nodup, h.ledger_nodup, h.intents_nodup, h.registered, h.recorded,
      h.intent_row, h.row_intent, h.shape⟩
    rw [Db.view_accounts]
    refine List.nodup_append.2 ⟨h.accounts_nodup, List.nodup_singleton _, ?_⟩
    rintro a ha a' ha' rfl
    obtain ⟨row, hrow, hacc⟩ := List.mem_map.1 ha
    exact hnew row hrow (hacc.trans (List.mem_singleton.1 ha'))

theorem Db.Consistent.updateBalance (h : db.Consistent) (a : Account) (v : Int) :
    (db.apply (.updateBalance a v)).Consistent := by
  refine ⟨?_, h.registry_nodup, h.ledger_nodup, h.intents_nodup, h.registered, h.recorded,
    h.intent_row, h.row_intent, h.shape⟩
  rw [Db.apply_accounts]
  simpa [Write.newAccounts] using h.accounts_nodup

/-- What every step of a request keeps of the tables and the balance in memory. -/
theorem Steps.tables {P : List ProcessAction → Db → Int → Prop} {ws' : List Write}
    {actions : List ProcessAction} {txs : List Transaction}
    (hs : Steps past c ws b actions ws' b' txs) (hp : Stable past db)
    (hsees : Sees L past c db)
    (hcons : (postgres.view db ws).Consistent) (h₀ : P [] (postgres.view db ws) b)
    (hstep : ∀ {pre action post V V' b b' txId}, actions = pre ++ action :: post →
      V.Consistent → (∀ r ∈ V'.ledger, r ∈ (postgres.view db ws').ledger) →
      (∀ a ∈ pre, V.Registered a.actionId) → P pre V b →
      Stepped L V V' c b action b' txId → P (pre ++ [action]) V' b') :
    (postgres.view db ws').Consistent ∧ P actions (postgres.view db ws') b' := by
  have hall := hs.history (P := fun pre ws b => (postgres.view db ws).Consistent ∧
    (∀ a ∈ pre, (postgres.view db ws).Registered a.actionId) ∧ P pre (postgres.view db ws) b)
    ⟨hcons, nofun, h₀⟩ ?_
  · exact ⟨hall.1, hall.2.2⟩
  · rintro pre action post ws b new b' txId heq ⟨more, rfl⟩ ⟨hcons, hreg, hP⟩ hst
    have hstepped := hst.stepped hp hsees hcons
    refine ⟨hcons.stepped hstepped, ?_, hstep heq hcons ?_ hreg hP hstepped⟩
    · intro a ha
      rcases List.mem_append.1 ha with ha | ha
      · exact hstepped.registered.2 (Or.inl (hreg a ha))
      · exact hstepped.registered.2 (Or.inr (by rw [List.mem_singleton.1 ha]))
    · intro r hr
      rw [postgres.view_append db (_ ++ _) more, Db.view_ledger _ more]
      exact List.mem_append_left _ hr

theorem Opened.balance_eq {v : Int} (hp : Stable past db) (ho : Opened past c ws v) :
    v = db.balance c.account ∧ ∀ a, (postgres.view db ws).balance a = db.balance a := by
  have hv := hp.balance ho.balance
  rcases ho.insert with rfl | ⟨rfl, hnone⟩
  · obtain ⟨row, hrow, rfl⟩ := Option.map_eq_some_iff.1 hv
    exact ⟨by rw [Db.balance, show db.account? c.account = some row from hrow]; rfl, fun _ => rfl⟩
  · have hacc : db.account? c.account = none := hp.newAccount hnone
    have hview : ∀ a, (postgres.view db [.insertAccount ⟨c.account, 0⟩]).balance a =
        db.balance a := by
      intro a
      rw [Db.balance, postgres.view_cons, postgres.view_nil, postgres_apply, Db.apply_account?]
      by_cases ha : c.account = a
      · subst ha
        simp [Write.onAccount, Db.balance, hacc]
      · simp [Write.onAccount, Db.balance, ha]
    obtain ⟨row, hrow, rfl⟩ := Option.map_eq_some_iff.1 hv
    refine ⟨?_, hview⟩
    rw [← hview, Db.balance, hrow]
    rfl

theorem Opened.isSome {v : Int} (hp : Stable past db) (ho : Opened past c ws v) :
    ((postgres.view db ws).account? c.account).isSome := by
  obtain ⟨row, hrow, _⟩ := Option.map_eq_some_iff.1 (hp.balance ho.balance)
  rw [hrow]
  rfl

theorem Db.balance_updateBalance {a : Account} {v : Int} (h : (db.account? a).isSome) :
    (db.apply (.updateBalance a v)).balance a = v := by
  obtain ⟨row, hrow⟩ := Option.isSome_iff_exists.1 h
  have hacc : row.account = a := by simpa using List.find?_some hrow
  simp [Db.balance, Write.onAccount, hrow, AccountRow.setBalance, hacc]

/-- What every step of a committed request keeps of the tables and the balance in memory, with
the balance that is stored in the end. -/
theorem Committed.balances {P : List ProcessAction → Db → Int → Prop} {resp : ProcessResponse}
    (hc : Committed past c ws resp) (hp : Stable past db)
    (hsees : Sees L past c db) (hcons : db.Consistent)
    (h₀ : P [] db (c.svc.load (db.balance c.account)))
    (hrows : ∀ {pre V b rows}, P pre V b → P pre { V with accounts := rows } b)
    (hstep : ∀ {pre action post V V' b b' txId}, c.actions = pre ++ action :: post →
      V.Consistent → (∀ r ∈ V'.ledger, r ∈ (postgres.view db ws).ledger) →
      (∀ a ∈ pre, V.Registered a.actionId) → P pre V b →
      Stepped L V V' c b action b' txId → P (pre ++ [action]) V' b') :
    (postgres.view db ws).Consistent ∧ ∃ b, P c.actions (postgres.view db ws) b ∧
      (∀ a, a ≠ c.account → (postgres.view db ws).balance a = db.balance a) ∧
      ((b = c.svc.load (db.balance c.account) ∧
          (postgres.view db ws).balance c.account = db.balance c.account) ∨
        (c.svc.bind b = some ((postgres.view db ws).balance c.account) ∧
          0 ≤ (postgres.view db ws).balance c.account)) := by
  have hopen : ∀ {ws v}, Opened past c ws v → P [] (postgres.view db ws) (c.svc.load v) := by
    intro ws v ho
    rw [(ho.balance_eq hp).1]
    rcases ho.insert with rfl | ⟨rfl, _⟩
    · exact h₀
    · exact hrows h₀
  cases hc with
  | balance ha ho =>
    rw [ha]
    exact ⟨hcons.opened hp ho, _, hopen ho, fun a _ => (ho.balance_eq hp).2 a,
      Or.inl ⟨by rw [(ho.balance_eq hp).1], (ho.balance_eq hp).2 _⟩⟩
  | @actions ws₀ v ws b txs stored ha ho hs hb hpos =>
    have hall := hs.tables (P := fun pre V b => P pre V b ∧
      V.accounts = (postgres.view db ws₀).accounts) hp hsees (hcons.opened hp ho)
      ⟨hopen ho, rfl⟩ ?_
    · obtain ⟨hend, hP, haccounts⟩ := hall
      have hsame : ∀ a, (postgres.view db ws).account? a = (postgres.view db ws₀).account? a :=
        fun a => by rw [Db.account?, haccounts]; rfl
      rw [Engine.view_append]
      refine ⟨hend.updateBalance _ _, b, hrows hP, ?_, Or.inr ?_⟩
      · intro a ha
        have hkey : Key.account a ∉ (Write.updateBalance c.account stored).keys := by
          simp [Write.keys, ha]
        rw [← (ho.balance_eq hp).2 a, Db.balance, Db.balance, ← hsame a]
        exact congrArg (Option.elim · 0 (·.balance)) (Key.Same.apply _ hkey).symm
      · have hstored : (postgres.view (postgres.view db ws)
            [.updateBalance c.account stored]).balance c.account = stored :=
          Db.balance_updateBalance (by rw [hsame]; exact ho.isSome hp)
        rw [hstored]
        exact ⟨hb, hpos⟩
    · rintro pre action post V V' b b' txId heq hV hsub hreg ⟨hP, haccounts⟩ hst
      exact ⟨hstep heq hV (by rw [Engine.view_append]; exact hsub) hreg hP hst,
        hst.accounts.trans haccounts⟩

theorem Committed.tables {P : List ProcessAction → Db → Prop} {resp : ProcessResponse}
    (hc : Committed past c ws resp) (hp : Stable past db)
    (hsees : Sees L past c db) (hcons : db.Consistent)
    (h₀ : P [] db) (hrows : ∀ {pre V rows}, P pre V → P pre { V with accounts := rows })
    (hstep : ∀ {pre action post V V' b b' txId}, c.actions = pre ++ action :: post →
      V.Consistent → (∀ r ∈ V'.ledger, r ∈ (postgres.view db ws).ledger) →
      (∀ a ∈ pre, V.Registered a.actionId) → P pre V →
      Stepped L V V' c b action b' txId → P (pre ++ [action]) V') :
    (postgres.view db ws).Consistent ∧ P c.actions (postgres.view db ws) := by
  obtain ⟨hend, _, hP, _⟩ := hc.balances (P := fun pre V _ => P pre V) hp hsees hcons h₀ hrows
    hstep
  exact ⟨hend, hP⟩

theorem Db.Consistent.commit {resp : ProcessResponse} (h : db.Consistent) (hp : Stable past db)
    (hc : Committed past c ws resp) : (postgres.view db ws).Consistent :=
  (hc.tables (P := fun _ _ => True) hp Sees.stale h trivial (fun h => h)
    fun _ _ _ _ _ _ => trivial).1

/-- A committed request leaves a balance as it was, or stores one that is not negative. -/
theorem Committed.balance_cases {resp : ProcessResponse} (hc : Committed past c ws resp)
    (hp : Stable past db) (h : db.Consistent) (a : Account) :
    (postgres.view db ws).balance a = db.balance a ∨
      ∃ b, c.svc.bind b = some ((postgres.view db ws).balance a) ∧
        0 ≤ (postgres.view db ws).balance a := by
  obtain ⟨_, b, _, hother, hown⟩ := hc.balances (P := fun _ _ _ => True) hp Sees.stale h trivial
    (fun h => h) fun _ _ _ _ _ _ => trivial
  by_cases ha : a = c.account
  · subst ha
    rcases hown with ⟨_, heq⟩ | hstored
    · exact Or.inl heq
    · exact Or.inr ⟨b, hstored⟩
  · exact Or.inl (hother a ha)

end

/-- Every applied rollback reverses an applied row of the ledger, and `Q` holds of the two. -/
def Linked (Q : ActionRow → ActionRow → Prop) (db : Db) : Prop :=
  ∀ r ∈ db.ledger, r.actionType = .rollback → r.status = .applied →
    ∃ o ∈ db.ledger, r.originalActionId = some o.actionId ∧ o.status = .applied ∧ Q r o

section
variable {Q : ActionRow → ActionRow → Prop} {V V' : Db} {c : Call} {b b' : Int}
variable {action : ProcessAction} {txId : Uuid} {L : Lookups}

theorem Linked.initial {db : Db} (h : db.Initial) : Linked Q db := by
  rw [Linked, h.ledger]
  simp

theorem Linked.of_mem (h : Linked Q V) (hV : V.Consistent) {r o : ActionRow} (hr : r ∈ V.ledger)
    (htype : r.actionType = .rollback) (hst : r.status = .applied) (ho : o ∈ V.ledger)
    (hro : r.originalActionId = some o.actionId) : o.status = .applied ∧ Q r o := by
  obtain ⟨o', ho', hro', hst', hQ⟩ := h r hr htype hst
  obtain rfl := hV.ledger_inj ho ho' (Option.some.inj (hro.symm.trans hro'))
  exact ⟨hst', hQ⟩

/-- Only a new applied rollback has to be checked. -/
theorem Linked.stepped (h : Linked Q V) (hs : Stepped L V V' c b action b' txId)
    (hQ : ∀ {r o row d}, action = .rollback r o → ¬ V.Registered r → ¬ V.HasIntent o →
      row ∈ V.ledger → row.actionId = o → row.status = .applied →
      c.svc.load row.balanceDelta ≠ 0 →
      c.svc.bind (c.svc.neg (c.svc.load row.balanceDelta)) = some d →
      Q (c.rollbackRow r o d .applied) row) : Linked Q V' := by
  cases hs with
  | duplicate _ _ hV => rwa [hV]
  | fresh hfresh he ha =>
    have hgrow : ∀ {row}, row ∈ V.ledger → row ∈ V'.ledger := fun hrow =>
      ha.ledger ▸ List.mem_append_left _ hrow
    intro r hr htype hst
    rw [ha.ledger] at hr
    rcases List.mem_append.1 hr with hr | hr
    · obtain ⟨o, ho, hro, hst', hQ'⟩ := h r hr htype hst
      exact ⟨o, hgrow ho, hro, hst', hQ'⟩
    · obtain rfl := List.mem_singleton.1 hr
      cases he with
      | applied horiginal => exact absurd htype horiginal.type_ne
      | prerolled horiginal => exact absurd htype horiginal.type_ne
      | already => cases hst
      | tombstone => cases hst
      | notApplied => cases hst
      | @reversed r o row d outs hno hrow hid hst' hne _ hd =>
        exact ⟨row, hgrow hrow, by rw [hid]; rfl, hst', hQ rfl hfresh hno hrow hid hst' hne hd⟩

/-- A row is the target of at most one rollback that is not a repetition. -/
theorem Db.Consistent.reversal_unique (hV : V.Consistent) {r r' : ActionRow} {o : Uuid}
    (hr : r ∈ V.ledger) (htype : r.actionType = .rollback)
    (hst : r.status ≠ .noopAlreadyRolledBack) (hro : r.originalActionId = some o)
    (hr' : r' ∈ V.ledger) (htype' : r'.actionType = .rollback)
    (hst' : r'.status ≠ .noopAlreadyRolledBack) (hro' : r'.originalActionId = some o) :
    r = r' := by
  obtain ⟨t, ht, htr, hto⟩ := hV.row_intent r hr htype hst
  obtain ⟨t', ht', htr', hto'⟩ := hV.row_intent r' hr' htype' hst'
  have heq : t = t' := List.inj_on_of_nodup_map hV.intents_nodup ht ht'
    (Option.some.inj (hto.symm.trans (hro.trans (hro'.symm.trans hto'))))
  exact hV.ledger_inj hr hr' (by rw [← htr, ← htr', heq])

end
end BetProcessor
