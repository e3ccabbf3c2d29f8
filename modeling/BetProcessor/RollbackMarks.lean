import BetProcessor.Bookkeeping
import BetProcessor.OwnReversals
import BetProcessor.Perform

namespace BetProcessor
set_option autoImplicit true
open Txn

/-- An applied rollback `r` of the id is in the ledger. -/
def Db.ReversedBy (db : Db) (o r : Uuid) : Prop :=
  ∃ row ∈ db.ledger, row.actionId = r ∧ row.actionType = .rollback ∧ row.status = .applied ∧
    row.originalActionId = some o

instance (db : Db) (o r : Uuid) : Decidable (db.ReversedBy o r) :=
  inferInstanceAs (Decidable (∃ row ∈ db.ledger, _ ∧ _ ∧ _ ∧ _))

/-- The ledger rows are marked with the rollbacks that reverse them, one for each. -/
structure Db.Marked (db : Db) : Prop where
  marks : ∀ o ∈ db.actions, ∀ r, o.rolledBackBy = some r ↔ db.ReversedBy o.actionId r
  once : ∀ r ∈ db.ledger, r.actionType = .rollback → r.status = .applied →
    ∃ o, db.actions.filter (·.rolledBackBy = some r.actionId) = [o]

/-- The request reverses the row: the first action under an id that is not known yet is a
rollback of the applied row, which nobody has rolled back. -/
def Db.Reverses (db : Db) (c : Call) (row : ActionRow) : Prop :=
  row.status = .applied ∧ c.svc.load row.balanceDelta ≠ 0 ∧ ¬ db.HasIntent row.actionId ∧
    ∃ pre r post, c.actions = pre ++ .rollback r row.actionId :: post ∧
      (∀ action ∈ pre, action.actionId ≠ r) ∧ ¬ db.Registered r

/-- The request reverses a row whose timestamp its date type does not hold. -/
def Db.MissesMark (db : Db) (c : Call) : Prop :=
  ∃ row ∈ db.actions, db.Reverses c row ∧ c.svc.date row.createdAt ≠ row.createdAt

section
variable {V V' : Db} {c : Call} {b b' : Int} {action : ProcessAction} {act : Act} {txId : Uuid}

theorem view_outbox_actions (outs : List OutboxRow) :
    (postgres.view V (outs.map .insertOutbox)).actions = V.actions := by
  induction outs generalizing V with
  | nil => rfl
  | cons out outs ih => exact ih

theorem Db.performed_actions : (V.performed c act).actions =
    (V.actions ++ [act.row]).map fun row => act.mark.elim row fun key =>
      row.setRolledBack key.1 key.2 act.row.actionId c.draws.now := by
  rw [performed, Act.writes, Engine.view_cons, Engine.view_cons, Engine.view_append,
    view_outbox_actions]
  cases act.intent with
  | none =>
    cases act.mark with
    | none => exact (List.map_id' _).symm
    | some key => rfl
  | some t =>
    cases act.mark with
    | none => exact (List.map_id' _).symm
    | some key => rfl

theorem ActionRow.setRolledBack_other {row : ActionRow} {x : Uuid} {t : Int} {r : Uuid}
    {now : Int} (h : ¬ (row.actionId = x ∧ row.createdAt = t)) :
    row.setRolledBack x t r now = row := if_neg h

theorem ActionRow.setRolledBack_actionId {row : ActionRow} {x : Uuid} {t : Int} {r : Uuid}
    {now : Int} : (row.setRolledBack x t r now).actionId = row.actionId := by
  rw [← core_actionId, setRolledBack_core, core_actionId]

theorem Effect.row_unmarked {L : Lookups} {row : ActionRow} {intent : Option IntentRow}
    {outs : List OutboxRow} (he : Effect L V c b action row intent outs b') :
    row.rolledBackBy = none := by
  rw [← he.core]
  rfl

theorem Effect.reversal {L : Lookups} {row : ActionRow} {intent : Option IntentRow}
    {outs : List OutboxRow} (he : Effect L V c b action row intent outs b')
    (htype : row.actionType = .rollback) (hst : row.status = .applied) :
    ∃ o ∈ V.ledger, action = .rollback row.actionId o.actionId ∧ o.status = .applied ∧
      c.svc.load o.balanceDelta ≠ 0 ∧ ¬ V.HasIntent o.actionId ∧
      row.originalActionId = some o.actionId := by
  cases he with
  | applied ha => exact absurd htype ha.type_ne
  | prerolled ha => exact absurd htype ha.type_ne
  | already => cases hst
  | tombstone => cases hst
  | notApplied => cases hst
  | reversed hno hrow hid hst' hne =>
    subst hid
    exact ⟨_, hrow, rfl, hst', hne, hno, rfl⟩

theorem Db.ReversedBy.hasIntent {o r : Uuid} (h : V.ReversedBy o r) (hV : V.Consistent) :
    V.HasIntent o := by
  obtain ⟨row, hrow, _, htype, hst, ho⟩ := h
  obtain ⟨t, ht, _, hto⟩ := hV.row_intent row hrow htype (by rw [hst]; nofun)
  exact ⟨t, ht, Option.some.inj (hto.symm.trans ho)⟩

theorem Adds.reversedBy {row : ActionRow} {intent : Option IntentRow} {outs : List OutboxRow}
    (ha : Adds V V' row intent outs) {o r : Uuid} : V'.ReversedBy o r ↔ V.ReversedBy o r ∨
      (row.actionId = r ∧ row.actionType = .rollback ∧ row.status = .applied ∧
        row.originalActionId = some o) := by
  rw [Db.ReversedBy, ha.ledger]
  simp [Db.ReversedBy, or_and_right, exists_or]

theorem Stepped.createdAt {L : Lookups} (hs : Stepped L V V' c b action b' txId)
    {row : ActionRow} (hrow : row ∈ V'.ledger) :
    row ∈ V.ledger ∨ row.createdAt = c.claimedAt row.actionId := by
  cases hs with
  | duplicate _ _ hV => exact Or.inl (hV ▸ hrow)
  | fresh _ he ha =>
    rw [ha.ledger] at hrow
    apply (List.mem_append.1 hrow).imp_right
    intro hrow
    rw [List.mem_singleton.1 hrow]
    cases he <;> rfl

/-- Every mark belongs to a rollback that reverses the row. -/
def Db.MarksSound (db : Db) : Prop :=
  ∀ o ∈ db.actions, ∀ r, o.rolledBackBy = some r → db.ReversedBy o.actionId r

/-- A row after the next action: as it was, new, or with the mark of the new rollback. -/
theorem Db.Performs.row (hV : V.Consistent) (h : V.Performs c b action V' b' txId)
    {x : ActionRow} (hx : x ∈ V'.actions) :
    x ∈ V.actions ∨ (¬ V.Registered x.actionId ∧ x.rolledBackBy = none) ∨
      (x.rolledBackBy = some action.actionId ∧ ¬ V.HasIntent x.actionId ∧
        V'.ReversedBy x.actionId action.actionId) := by
  cases h with
  | duplicate => exact Or.inl hx
  | @fresh new hnew hact =>
    obtain ⟨he, hmarks⟩ := Db.act_effect hV hact
    have ha := Act.writes_performed he
    rw [performed_actions] at hx
    obtain ⟨y, hy, rfl⟩ := List.mem_map.1 hx
    have hold : y ∈ V.actions ∨ (¬ V.Registered y.actionId ∧ y.rolledBackBy = none) := by
      apply (List.mem_append.1 hy).imp_right
      intro hy
      obtain rfl := List.mem_singleton.1 hy
      exact ⟨by rwa [he.actionId], he.row_unmarked⟩
    rcases hmarks with ⟨hmark, _⟩ | ⟨o, ho, htype, hst, hro, hmark⟩
    · rw [hmark]
      exact hold.imp_right Or.inl
    · rw [hmark, Option.elim_some]
      by_cases hkey : y.actionId = o.actionId ∧ y.createdAt = c.svc.date o.createdAt
      · obtain ⟨o', _, _, _, _, hno, hro'⟩ := he.reversal htype hst
        have hid : o'.actionId = o.actionId := Option.some.inj (hro'.symm.trans hro)
        rw [ActionRow.setRolledBack, if_pos hkey]
        refine Or.inr (Or.inr ⟨by rw [he.actionId], ?_, ?_⟩)
        · rwa [hid, ← hkey.1] at hno
        · rw [ha.reversedBy]
          exact Or.inr ⟨he.actionId, htype, hst, by rw [hro, ← hkey.1]⟩
      · rw [ActionRow.setRolledBack_other hkey]
        exact hold.imp_right Or.inl

theorem Db.Performs.marksSound (hV : V.Consistent) (h : V.Performs c b action V' b' txId)
    (hsound : V.MarksSound) : V'.MarksSound := by
  intro x hx r hr
  rcases h.row hV hx with hold | ⟨_, hnone⟩ | ⟨hmark, _, hrev⟩
  · obtain ⟨row, hrow, hrest⟩ := hsound x hold r hr
    exact ⟨row, (h.stepped hV).ledger.subset hrow, hrest⟩
  · rw [hnone] at hr
    cases hr
  · rw [hmark] at hr
    cases hr
    exact hrev

/-- The mark of a new rollback hits its original when the service holds its timestamp. -/
theorem Db.Performs.marked (hV : V.Consistent) (h : V.Performs c b action V' b' txId)
    (hlinked : Linked (fun _ _ => True) V)
    (hmarked : ∀ o ∈ V.actions, ∀ r, V.ReversedBy o.actionId r → o.rolledBackBy = some r)
    (hdate : ∀ r o, action = .rollback r o.actionId → ¬ V.Registered r → o ∈ V.ledger →
      o.status = .applied → c.svc.load o.balanceDelta ≠ 0 → ¬ V.HasIntent o.actionId →
      c.svc.date o.createdAt = o.createdAt) :
    ∀ o ∈ V'.actions, ∀ r, V'.ReversedBy o.actionId r → o.rolledBackBy = some r := by
  intro x hx r hr
  have hrow := h.row hV hx
  cases h with
  | duplicate => exact hmarked x hx r hr
  | @fresh new hnew hact =>
    obtain ⟨he, hmarks⟩ := Db.act_effect hV hact
    have ha := Act.writes_performed he
    rcases ha.reversedBy.1 hr with hr | ⟨rfl, htype, hst, hro⟩
    · rcases hrow with hold | ⟨hunreg, _⟩ | ⟨_, hno, _⟩
      · exact hmarked x hold r hr
      · obtain ⟨row, hrow, _, htype, hst, hro⟩ := hr
        obtain ⟨o, ho, hro', _⟩ := hlinked row hrow htype hst
        have hid : o.actionId = x.actionId := Option.some.inj (hro'.symm.trans hro)
        exact absurd ⟨o.registry, hV.registered o ho, hid⟩ hunreg
      · exact absurd (hr.hasIntent hV) hno
    · rcases hmarks with ⟨_, hnot⟩ | ⟨o, ho, _, _, hro', hmark⟩
      · exact absurd ⟨htype, hst⟩ hnot
      have hid : o.actionId = x.actionId := Option.some.inj (hro'.symm.trans hro)
      have hexact : c.svc.date o.createdAt = o.createdAt := by
        obtain ⟨o', ho', haction, hst', hne, hno, hro''⟩ := he.reversal htype hst
        obtain rfl := hV.ledger_inj ho ho' (Option.some.inj (hro'.symm.trans hro''))
        exact hdate _ o haction (by rwa [he.actionId]) ho hst' hne hno
      rw [performed_actions, hmark, hexact] at hx
      obtain ⟨y, hy, rfl⟩ := List.mem_map.1 hx
      have hid : o.actionId = y.actionId := hid.trans ActionRow.setRolledBack_actionId
      rcases List.mem_append.1 hy with hy | hy
      · have hcore : y.core = o := hV.ledger_inj (V.mem_ledger hy) ho hid.symm
        have hcreated : y.createdAt = o.createdAt := by rw [← hcore, ActionRow.core_createdAt]
        rw [Option.elim_some, ActionRow.setRolledBack, if_pos ⟨hid.symm, hcreated⟩]
      · obtain rfl := List.mem_singleton.1 hy
        have hreg : V.Registered new.row.actionId := ⟨o.registry, hV.registered o ho, hid⟩
        rw [he.actionId] at hreg
        exact absurd hreg hnew

end

section
variable {db V : Db} {c : Call} {resp : ProcessResponse}

theorem Db.Marked.of_marks (hV : V.Consistent) (hlinked : Linked (fun _ _ => True) V)
    (hmarks : ∀ o ∈ V.actions, ∀ r, o.rolledBackBy = some r ↔ V.ReversedBy o.actionId r) :
    V.Marked := by
  refine ⟨hmarks, fun r hr htype hst => ?_⟩
  obtain ⟨o, ho, hro, _⟩ := hlinked r hr htype hst
  obtain ⟨raw, hraw, rfl⟩ := V.exists_of_mem_ledger ho
  refine ⟨raw, ?_⟩
  rw [← filter_of_unique hV.actions_nodup hraw]
  apply List.filter_congr
  intro x hx
  apply decide_eq_decide.2
  rw [hmarks x hx]
  constructor
  · rintro ⟨r', hr', hid, _, _, hro'⟩
    obtain rfl := hV.ledger_inj hr' hr hid
    exact Option.some.inj (hro'.symm.trans hro)
  · intro hid
    exact ⟨r, hr, rfl, htype, hst, hid ▸ hro⟩

theorem Db.MarksSound.serve (h : db.Consistent) (hsound : db.MarksSound)
    (hok : (c.serve db).1 = .ok resp) : (c.serve db).2.MarksSound := by
  apply Call.serve_history (P := fun _ V => V.MarksSound) h hok hsound (fun h => h)
  intro pre action post V b V' b' txId _ hV hP hperf
  exact hperf.marksSound hV hP

theorem Db.MarksSound.after {db₀ : Db} (h₀ : db₀.Initial) (calls : List Call) :
    (db₀.after calls).MarksSound := by
  apply Db.after_run (P := fun _ V => V.MarksSound) db₀ calls
  · intro o ho
    rw [h₀.actions] at ho
    cases ho
  · intro pre c post _ hP
    rcases c.serve_cases (db₀.after pre) with ⟨e, he⟩ | ⟨resp, ws, he, _⟩
    · rwa [he]
    · apply hP.serve (h₀.consistent.after pre)
      rw [he]

theorem Db.Marked.serve (h : db.Consistent) (hlinked : Linked (fun _ _ => True) db)
    (hsound : db.MarksSound) (hmarked : db.Marked) (hno : ¬ db.MissesMark c)
    (hok : (c.serve db).1 = .ok resp) : (c.serve db).2.Marked := by
  have hend := Call.serve_history (P := fun done V => Linked (fun _ _ => True) V ∧
    (∀ o ∈ V.actions, ∀ r, V.ReversedBy o.actionId r → o.rolledBackBy = some r) ∧
    db.actionRegistry <+: V.actionRegistry ∧ db.rollbackIntents <+: V.rollbackIntents ∧
    (∀ a ∈ done, V.Registered a.actionId) ∧
    ∀ o ∈ V.ledger, o ∈ db.ledger ∨ c.svc.date o.createdAt = o.createdAt) h hok
    ⟨hlinked, fun o ho r => (hmarked.marks o ho r).2, List.prefix_rfl, List.prefix_rfl, by simp,
      fun _ => Or.inl⟩ (fun h => h) ?_
  · apply Db.Marked.of_marks (h.after [c]) hend.1
    intro o ho r
    exact ⟨hsound.serve h hok o ho r, hend.2.1 o ho r⟩
  · rintro pre action post V b V' b' txId heq hV ⟨hlinked, hmarked, hreg, hint, hpre, hrows⟩ hperf
    have hst := hperf.stepped hV
    refine ⟨hlinked.stepped hst fun _ _ _ _ _ _ _ _ => trivial, ?_, hreg.trans hst.registry,
      hint.trans hst.intents, ?_, ?_⟩
    · apply hperf.marked hV hlinked hmarked
      rintro r o rfl hr ho hstatus hne hno'
      apply (hrows o ho).elim _ id
      intro hdb
      by_contra hdate
      obtain ⟨raw, hraw, rfl⟩ := db.exists_of_mem_ledger hdb
      refine hno ⟨raw, hraw, ⟨hstatus, hne, ?_, pre, r, post, heq, ?_, ?_⟩, hdate⟩
      · exact fun ⟨t, ht, hto⟩ => hno' ⟨t, hint.subset ht, hto⟩
      · exact fun a ha har => hr (har ▸ hpre a ha)
      · exact fun ⟨g, hg, hgr⟩ => hr ⟨g, hreg.subset hg, hgr⟩
    · intro a ha
      rw [hst.registered]
      rcases List.mem_append.1 ha with ha | ha
      · exact Or.inl (hpre a ha)
      · exact Or.inr (congrArg _ (List.mem_singleton.1 ha)).symm
    · intro o ho
      rcases hst.createdAt ho with ho | hnew
      · exact hrows o ho
      · right
        rw [hnew]
        exact c.svc.date_stamp _

/-- The row has been reversed but not marked. -/
def Db.Missed (V : Db) (x : Uuid) : Prop :=
  (∃ r, V.ReversedBy x r) ∧ ∀ o ∈ V.actions, o.actionId = x → o.rolledBackBy = none

theorem Db.Missed.performs {V' : Db} {b b' : Int} {action : ProcessAction} {txId x : Uuid}
    (hV : V.Consistent) (h : V.Performs c b action V' b' txId) (hmissed : V.Missed x) :
    V'.Missed x := by
  obtain ⟨⟨r, hr⟩, hnone⟩ := hmissed
  refine ⟨⟨r, ?_⟩, ?_⟩
  · obtain ⟨row, hrow, hrest⟩ := hr
    exact ⟨row, (h.stepped hV).ledger.subset hrow, hrest⟩
  · rintro o ho rfl
    rcases h.row hV ho with ho | ⟨_, hunmarked⟩ | ⟨_, hno, _⟩
    · exact hnone o ho rfl
    · exact hunmarked
    · exact absurd (hr.hasIntent hV) hno

/-- The new rollback of a row whose timestamp its service does not hold marks nothing. -/
theorem Db.Performs.missed {V' : Db} {b b' : Int} {r : Uuid} {txId : Uuid} {row : ActionRow}
    (hV : V.Consistent) (h : V.Performs c b (.rollback r row.actionId) V' b' txId)
    (hsound : V.MarksSound) (hr : ¬ V.Registered r) (ho : ¬ V.HasIntent row.actionId)
    (hrow : row.core ∈ V.ledger) (hst : row.status = .applied)
    (hne : c.svc.load row.balanceDelta ≠ 0) (hdate : c.svc.date row.createdAt ≠ row.createdAt) :
    V'.Missed row.actionId := by
  constructor
  · obtain ⟨d, hd⟩ := (h.stepped hV).reverses hV hr ho hrow rfl hst hne
    exact ⟨r, _, hd, rfl, rfl, rfl, rfl⟩
  · intro x hx hid
    cases h with
    | @duplicate g hg =>
      have hid : g.actionId = (ProcessAction.rollback r row.actionId).actionId := by
        simpa using List.find?_some hg
      exact absurd ⟨_, List.mem_of_find?_eq_some hg, hid⟩ hr
    | @fresh new hnew hact =>
      obtain ⟨he, hmarks⟩ := Db.act_effect hV hact
      rw [performed_actions] at hx
      obtain ⟨y, hy, rfl⟩ := List.mem_map.1 hx
      have hunmarked : y.actionId = row.actionId → y.rolledBackBy = none := by
        intro hid
        rcases List.mem_append.1 hy with hy | hy
        · cases hmark : y.rolledBackBy with
          | none => rfl
          | some r' => exact absurd (hid ▸ (hsound y hy r' hmark).hasIntent hV) ho
        · obtain rfl := List.mem_singleton.1 hy
          exact he.row_unmarked
      rcases hmarks with ⟨hmark, _⟩ | ⟨o, hmem, htype, happlied, hro, hmark⟩
      · rw [hmark] at hid ⊢
        exact hunmarked hid
      · rw [hmark, Option.elim_some] at hid ⊢
        rw [ActionRow.setRolledBack_actionId] at hid
        obtain ⟨o', hmem', haction, _, _, _, hro'⟩ := he.reversal htype happlied
        obtain rfl := hV.ledger_inj hmem hmem' (Option.some.inj (hro.symm.trans hro'))
        obtain rfl : o = row.core :=
          hV.ledger_inj hmem hrow (ProcessAction.rollback.inj haction).2.symm
        rw [ActionRow.setRolledBack_other]
        · exact hunmarked hid
        · rintro ⟨_, hcreated⟩
          rcases List.mem_append.1 hy with hy | hy
          · have hcore : y.core = row.core := hV.ledger_inj (V.mem_ledger hy) hrow hid
            rw [← ActionRow.core_createdAt, hcore, ActionRow.core_createdAt] at hcreated
            exact hdate hcreated.symm
          · obtain rfl := List.mem_singleton.1 hy
            rw [he.actionId] at hid
            exact hnew ⟨_, hV.registered _ hrow, hid.symm⟩

/-- The first rollback of the row in the request misses it, and so does every later one. -/
theorem Db.MissesMark.serve (h : db.Consistent) (hsound : db.MarksSound) (hx : db.MissesMark c)
    (hok : (c.serve db).1 = .ok resp) :
    ∃ x, (c.serve db).2.Missed x ∧ ∃ o ∈ (c.serve db).2.actions, o.actionId = x := by
  obtain ⟨row, hrow, ⟨hst, hne, ho, pre₀, r, post₀, hactions, hpre₀, hr⟩, hdate⟩ := hx
  refine ⟨row.actionId, ?_⟩
  have hend := Call.serve_history (P := fun done V => V.MarksSound ∧ db.ledger <+: V.ledger ∧
    (V.Missed row.actionId ∨ Awaiting db pre₀ r row.actionId done V)) h hok
    ⟨hsound, List.prefix_rfl, Or.inr (.start ho pre₀ r)⟩ ?_ ?_
  · constructor
    · apply hend.2.2.resolve_right
      intro hwait
      exact hwait.before ⟨post₀, by rw [hactions, List.append_assoc]; rfl⟩
    · obtain ⟨o, hmem, hcore⟩ := Db.exists_of_mem_ledger _ (hend.2.1.subset (db.mem_ledger hrow))
      refine ⟨o, hmem, ?_⟩
      rw [← ActionRow.core_actionId, hcore, ActionRow.core_actionId]
  · intro done V rows hP
    exact ⟨hP.1, hP.2.1, hP.2.2.imp id fun h => ⟨h.unrecorded, h.registered, h.before⟩⟩
  · intro done action post V b V' b' txId _ hV hP hperf
    obtain ⟨hsound, hledger, hor⟩ := hP
    have hstep := hperf.stepped hV
    refine ⟨hperf.marksSound hV hsound, hledger.trans hstep.ledger, ?_⟩
    rcases hor with hmissed | hwait
    · exact Or.inl (hmissed.performs hV hperf)
    obtain ⟨r', rfl, hr'⟩ | hwait' := hwait.stepped hpre₀ hr hstep
    · exact Or.inl (hperf.missed hV hsound hr' hwait.unrecorded
        (hledger.subset (db.mem_ledger hrow)) hst hne hdate)
    · exact Or.inr hwait'

theorem Db.Missed.not_marked {x : Uuid} (h : V.Missed x)
    (ho : ∃ o ∈ V.actions, o.actionId = x) : ¬ V.Marked := by
  intro hmarked
  obtain ⟨⟨r, hr⟩, hnone⟩ := h
  obtain ⟨o, ho, rfl⟩ := ho
  have hmark := (hmarked.marks o ho r).2 hr
  rw [hnone o ho rfl] at hmark
  cases hmark

end

theorem Linked.after {db₀ : Db} (h₀ : db₀.Initial) (calls : List Call) :
    Linked (fun _ _ => True) (db₀.after calls) := by
  apply Db.after_history db₀ calls (Linked.initial h₀)
  intro pre c post ws resp _ hlinked hc
  apply (hc.tables (P := fun _ V => Linked (fun _ _ => True) V) (stable_now _) (sees_now _ _)
    (h₀.consistent.after pre) hlinked (fun h => h) _).2
  intro _ _ _ _ _ _ _ _ _ _ _ _ hP hst
  exact hP.stepped hst fun _ _ _ _ _ _ _ _ => trivial

theorem Db.Initial.marked {db : Db} (h : db.Initial) : db.Marked := by
  constructor
  · intro o ho
    rw [h.actions] at ho
    cases ho
  · intro r hr
    rw [h.ledger] at hr
    cases hr

/-- Rows are marked with the rollbacks that reverse them in every state of a run in which every
service holds the timestamps of the rows that it reverses; a request that reverses another row
breaks this. -/
theorem marked_of_no_missesMark {db₀ : Db} (h₀ : db₀.Initial) (calls : List Call) :
    (Along (fun db c => ¬ db.MissesMark c) db₀ calls →
      ∀ pre, pre <+: calls → (db₀.after pre).Marked) ∧
    ∀ pre c post resp, calls = pre ++ c :: post →
      (c.serve (db₀.after pre)).1 = .ok resp → (db₀.after pre).MissesMark c →
      ¬ (db₀.after (pre ++ [c])).Marked := by
  constructor
  · rintro hno pre ⟨post, rfl⟩
    apply Db.after_run (P := fun _ V => V.Marked) db₀ pre h₀.marked
    intro pre' c post' heq hmarked
    rcases c.serve_cases (db₀.after pre') with ⟨e, he⟩ | ⟨resp, ws, he, _⟩
    · rwa [he]
    · apply hmarked.serve (h₀.consistent.after pre') (Linked.after h₀ pre')
        (Db.MarksSound.after h₀ pre') (hno.of_append pre' c post' heq)
      rw [he]
  · intro pre c post resp _ hok hx
    obtain ⟨x, hmissed, hrow⟩ := hx.serve (h₀.consistent.after pre) (Db.MarksSound.after h₀ pre) hok
    rw [Db.after_append, Db.after_cons, Db.after_nil]
    exact hmissed.not_marked hrow

/-- A bet at a microsecond that a JavaScript `Date` rounds away is rolled back unmarked. -/
theorem rollback_unmarked : ∃ db₀ calls, db₀.Initial ∧ (∀ c ∈ calls, c.svc.Deployed) ∧
    ¬ (Db.after db₀ calls).Marked := by
  refine ⟨twoUsers,
    [dollars rust "a" [.bet 1000 60], dollars typescript "a" [.rollback 2000 1000]],
    twoUsers_initial, ?_, fun h => ?_⟩
  · simp [dollars, Service.Deployed]
  · have hrow : ∃ o ∈ (twoUsers.after [dollars rust "a" [.bet 1000 60],
        dollars typescript "a" [.rollback 2000 1000]]).actions, o.rolledBackBy ≠ some 2000 ∧
        (twoUsers.after [dollars rust "a" [.bet 1000 60],
          dollars typescript "a" [.rollback 2000 1000]]).ReversedBy o.actionId 2000 := by
      decide +kernel
    obtain ⟨o, ho, hmark, hrev⟩ := hrow
    exact hmark ((h.marks o ho 2000).2 hrev)

theorem millisecond_marked : (twoUsers.after
    [dollars rust "a" [.bet 1 60], dollars typescript "a" [.rollback 2 1]]).Marked := by
  apply (marked_of_no_missesMark twoUsers_initial _).1 _ _ List.prefix_rfl
  rintro pre c post heq ⟨row, hrow, _, hdate⟩
  have hheld : ∀ row ∈ (twoUsers.after [dollars rust "a" [.bet 1 60]]).actions,
      typescript.date row.createdAt = row.createdAt := by decide +kernel
  rcases pre with _ | ⟨c₁, _ | ⟨c₂, pre⟩⟩
  · cases hrow
  · cases heq
    exact hdate (hheld row hrow)
  · simp at heq

end BetProcessor
