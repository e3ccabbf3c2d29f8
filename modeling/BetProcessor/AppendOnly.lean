import BetProcessor.RollbackMarks

namespace BetProcessor
set_option autoImplicit true
open Txn

/-- The row is as it was, or has got its mark. -/
def ActionRow.Kept (row row' : ActionRow) : Prop :=
  row' = row ∨ (row.rolledBackBy = none ∧ row.rolledBackAt = none ∧
    ∃ r t, row' = { row with rolledBackBy := some r, rolledBackAt := some t })

/-- No row has gone, and none has changed but for its mark. -/
structure Db.Keeps (db db' : Db) : Prop where
  actionRegistry : db.actionRegistry <+: db'.actionRegistry
  rollbackIntents : db.rollbackIntents <+: db'.rollbackIntents
  actions : ∀ {i : Nat} {row : ActionRow}, db.actions[i]? = some row →
    ∃ row', db'.actions[i]? = some row' ∧ row.Kept row'

/-- The applied rollback `r` of `o` and its intent are new. -/
structure Db.InsertsReversal (db db' : Db) (r o : Uuid) : Prop where
  row_new : ∀ row ∈ db.actions, row.actionId ≠ r
  row : ∃ row ∈ db'.actions, row.actionId = r ∧ row.actionType = .rollback ∧
    row.status = .applied ∧ row.originalActionId = some o
  intent_new : ∀ t ∈ db.rollbackIntents, t.originalActionId ≠ o
  intent : ∃ t ∈ db'.rollbackIntents, t.originalActionId = o ∧ t.rollbackActionId = r

/-- The effect of one request on the rows that it finds. -/
structure Call.Appends (c : Call) (db db' : Db) : Prop extends db.Keeps db' where
  marks : ∀ {i : Nat} {row row' : ActionRow}, db.actions[i]? = some row →
    db'.actions[i]? = some row' → row' ≠ row → ∃ r, row'.rolledBackBy = some r ∧
      .rollback r row.actionId ∈ c.actions ∧ db.InsertsReversal db' r row.actionId
  accounts : ∀ a, a ≠ c.account → db'.account? a = db.account? a

/-- The two columns of a mark are filled in together. -/
def Db.Dated (db : Db) : Prop :=
  ∀ row ∈ db.actions, row.rolledBackBy = none → row.rolledBackAt = none

theorem ActionRow.Kept.trans {row row' row'' : ActionRow} (h : row.Kept row')
    (h' : row'.Kept row'') : row.Kept row'' := by
  rcases h with rfl | ⟨hby, hat, r, t, rfl⟩
  · exact h'
  · rcases h' with rfl | ⟨hnone, _⟩
    · exact Or.inr ⟨hby, hat, r, t, rfl⟩
    · cases hnone

theorem ActionRow.Kept.actionId {row row' : ActionRow} (h : row.Kept row') :
    row'.actionId = row.actionId := by
  rcases h with rfl | ⟨_, _, r, t, rfl⟩
  · rfl
  · rfl

theorem ActionRow.Kept.unchanged {row row' : ActionRow} (h : row.Kept row')
    (hnone : row'.rolledBackBy = none) : row' = row := by
  rcases h with rfl | ⟨_, _, r, t, rfl⟩
  · rfl
  · cases hnone

namespace Db.Keeps
variable {db db' db'' : Db}

theorem refl (db : Db) : db.Keeps db :=
  ⟨List.prefix_rfl, List.prefix_rfl, fun h => ⟨_, h, Or.inl rfl⟩⟩

theorem trans (h : db.Keeps db') (h' : db'.Keeps db'') : db.Keeps db'' := by
  constructor
  · exact h.actionRegistry.trans h'.actionRegistry
  · exact h.rollbackIntents.trans h'.rollbackIntents
  · intro i row hrow
    obtain ⟨row', hrow', hkept⟩ := h.actions hrow
    obtain ⟨row'', hrow'', hkept'⟩ := h'.actions hrow'
    exact ⟨row'', hrow'', hkept.trans hkept'⟩

end Db.Keeps

theorem Call.Appends.refl (c : Call) (db : Db) : c.Appends db db where
  toKeeps := .refl db
  marks h h' hne := by
    rw [h] at h'
    exact absurd (Option.some.inj h').symm hne
  accounts _ _ := rfl

section
variable {V V' : Db} {c : Call} {b b' : Int} {action : ProcessAction} {txId : Uuid}

/-- The rows after an action: the old ones, one of them perhaps with its first mark, and new
ones without. -/
theorem Db.Performs.actions (hV : V.Consistent) (h : V.Performs c b action V' b' txId) :
    ∃ (f : ActionRow → ActionRow) (new : List ActionRow), V'.actions = (V.actions ++ new).map f ∧
      (∀ row ∈ new, row.core = row) ∧ ∀ row, f row = row ∨
        (f row = { row with
            rolledBackBy := some action.actionId
            rolledBackAt := some c.draws.now } ∧
          action = .rollback action.actionId row.actionId ∧ ¬ V.Registered action.actionId ∧
          ¬ V.HasIntent row.actionId ∧ V'.ReversedBy row.actionId action.actionId) := by
  cases h with
  | duplicate => exact ⟨id, [], by simp, by simp, fun row => Or.inl rfl⟩
  | @fresh new hnew hact =>
    obtain ⟨he, hmarks⟩ := Db.act_effect hV hact
    have ha := Act.writes_performed he
    refine ⟨_, [new.row], performed_actions, by simpa using he.core, fun row => ?_⟩
    rcases hmarks with ⟨hmark, _⟩ | ⟨o, ho, htype, hst, hro, hmark⟩
    · rw [hmark]
      exact Or.inl rfl
    · rw [hmark, Option.elim_some]
      by_cases hkey : row.actionId = o.actionId ∧ row.createdAt = c.svc.date o.createdAt
      · obtain ⟨o', _, haction, _, _, hno, hro'⟩ := he.reversal htype hst
        have hid : o'.actionId = row.actionId :=
          (Option.some.inj (hro'.symm.trans hro)).trans hkey.1.symm
        rw [he.actionId, hid] at haction
        rw [hid] at hno
        rw [ActionRow.setRolledBack, if_pos hkey, he.actionId]
        refine Or.inr ⟨rfl, haction, hnew, hno, ?_⟩
        rw [ha.reversedBy]
        exact Or.inr ⟨he.actionId, htype, hst, by rw [hro, hkey.1]⟩
      · exact Or.inl (ActionRow.setRolledBack_other hkey)

theorem Db.Dated.performs (hV : V.Consistent) (h : V.Performs c b action V' b' txId)
    (hdated : V.Dated) : V'.Dated := by
  obtain ⟨f, new, hactions, hcore, hf⟩ := h.actions hV
  intro row hrow hnone
  rw [hactions] at hrow
  obtain ⟨old, hold, rfl⟩ := List.mem_map.1 hrow
  rcases hf old with hsame | ⟨hset, _⟩
  · rw [hsame] at hnone ⊢
    rcases List.mem_append.1 hold with hold | hnew
    · exact hdated old hold hnone
    · rw [← hcore old hnew]
      rfl
  · rw [hset] at hnone
    cases hnone

/-- An action leaves every row, and marks at most one that has no intent yet. -/
theorem Db.Performs.keeps (hV : V.Consistent) (h : V.Performs c b action V' b' txId)
    (hdated : V.Dated) (hsound : V.MarksSound) : V.Keeps V' := by
  obtain ⟨f, new, hactions, _, hf⟩ := h.actions hV
  constructor
  · exact (h.stepped hV).registry
  · exact (h.stepped hV).intents
  · intro i row hrow
    have hi : (V.actions ++ new)[i]? = some row := by
      rw [List.getElem?_append_left (List.getElem?_eq_some_iff.1 hrow).1, hrow]
    refine ⟨f row, by rw [hactions, List.getElem?_map, hi]; rfl, ?_⟩
    rcases hf row with hsame | ⟨hset, _, _, hno, _⟩
    · exact Or.inl hsame
    · have hnone : row.rolledBackBy = none := by
        cases hmark : row.rolledBackBy with
        | none => rfl
        | some r =>
          exact absurd ((hsound row (List.mem_of_getElem? hrow) r hmark).hasIntent hV) hno
      exact Or.inr ⟨hnone, hdated row (List.mem_of_getElem? hrow) hnone, _, _, hset⟩

end

section
variable {db V : Db} {c : Call} {resp : ProcessResponse}

theorem Call.serve_account? (h : db.Consistent) {a : Account} (ha : a ≠ c.account) :
    (c.serve db).2.account? a = db.account? a := by
  have hopened : (db.opened c.account).account? a = db.account? a := by
    rw [Db.opened]
    split
    · rfl
    · simp [Write.onAccount, ha.symm]
  rcases c.serve_cases db with ⟨e, he⟩ | ⟨resp, ws, he, _⟩
  · rw [he]
  · have hok : (c.serve db).1 = .ok resp := by rw [he]
    rcases Call.serve_perform h hok with ⟨_, hdb⟩ | ⟨r, stored, hr, _, _, _, hdb⟩
    · rw [hdb, hopened]
    · have haccounts : r.2.account? a = (db.opened c.account).account? a := by
        rw [Db.account?, Db.perform_accounts (h.opened_account _) hr]
        rfl
      rw [hdb, Db.apply_account?, haccounts, hopened, Write.onAccount]
      cases hrow : db.account? a with
      | none => rfl
      | some row =>
        have hacc : row.account = a := by simpa using List.find?_some hrow
        rw [Option.map_some, AccountRow.setBalance, if_neg (by rwa [hacc])]

/-- What a request has done to the rows that it found, after some of its actions. -/
structure Call.Appending (c : Call) (db V : Db) : Prop extends db.Keeps V where
  dated : V.Dated
  sound : V.MarksSound
  marks : ∀ {i : Nat} {row row' : ActionRow}, db.actions[i]? = some row →
    V.actions[i]? = some row' → row' ≠ row → ∃ r, row'.rolledBackBy = some r ∧
      .rollback r row.actionId ∈ c.actions ∧ ¬ db.Registered r ∧ ¬ db.HasIntent row.actionId

theorem Call.Appending.performs {V' : Db} {b b' : Int} {action : ProcessAction} {txId : Uuid}
    (hV : V.Consistent) (h : V.Performs c b action V' b' txId) (haction : action ∈ c.actions)
    (happ : c.Appending db V) : c.Appending db V' where
  toKeeps := happ.toKeeps.trans (h.keeps hV happ.dated happ.sound)
  dated := happ.dated.performs hV h
  sound := h.marksSound hV happ.sound
  marks := by
    intro i row row'' hrow hrow'' hne
    obtain ⟨row', hrow', hkept⟩ := happ.actions hrow
    obtain ⟨f, new, hactions, _, hf⟩ := h.actions hV
    have hi : (V.actions ++ new)[i]? = some row' := by
      rw [List.getElem?_append_left (List.getElem?_eq_some_iff.1 hrow').1, hrow']
    rw [hactions, List.getElem?_map, hi] at hrow''
    obtain rfl : f row' = row'' := Option.some.inj hrow''
    rcases hf row' with hsame | ⟨hset, haction', hreg, hno, _⟩
    · rw [hsame] at hne ⊢
      exact happ.marks hrow hrow' hne
    · have hold : row' = row := by
        apply hkept.unchanged
        cases hmark : row'.rolledBackBy with
        | none => rfl
        | some r =>
          exact absurd ((happ.sound row' (List.mem_of_getElem? hrow') r hmark).hasIntent hV) hno
      subst hold
      rw [hset]
      refine ⟨action.actionId, rfl, haction' ▸ haction, ?_, ?_⟩
      · rintro ⟨g, hg, hid⟩
        exact hreg ⟨g, happ.actionRegistry.subset hg, hid⟩
      · rintro ⟨t, ht, hid⟩
        exact hno ⟨t, happ.rollbackIntents.subset ht, hid⟩

theorem Call.appending (h : db.Consistent) (hdated : db.Dated) (hsound : db.MarksSound)
    (hok : (c.serve db).1 = .ok resp) : c.Appending db (c.serve db).2 := by
  apply Call.serve_history (P := fun _ V => c.Appending db V) h hok
  · constructor
    · exact .refl db
    · exact hdated
    · exact hsound
    · intro i row row' hrow hrow' hne
      rw [hrow] at hrow'
      exact absurd (Option.some.inj hrow').symm hne
  · intro pre V rows happ
    exact ⟨⟨happ.actionRegistry, happ.rollbackIntents, happ.actions⟩, happ.dated, happ.sound,
      happ.marks⟩
  · intro pre action post V b V' b' txId heq hV happ hperf
    exact happ.performs hV hperf (heq ▸ List.mem_append_right _ (List.mem_cons_self ..))

theorem Call.Appending.insertsReversal {r o : Uuid} (h : db.Consistent) (hV : V.Consistent)
    (hr : ¬ db.Registered r) (ho : ¬ db.HasIntent o) (hrev : V.ReversedBy o r) :
    db.InsertsReversal V r o where
  row_new := by
    rintro row hrow rfl
    exact hr ⟨row.core.registry, h.registered _ (db.mem_ledger hrow), rfl⟩
  row := by
    obtain ⟨row, hrow, hrest⟩ := hrev
    obtain ⟨raw, hraw, rfl⟩ := V.exists_of_mem_ledger hrow
    exact ⟨raw, hraw, hrest⟩
  intent_new := by
    rintro t ht rfl
    exact ho ⟨t, ht, rfl⟩
  intent := by
    obtain ⟨row, hrow, rfl, htype, hst, hro⟩ := hrev
    obtain ⟨t, ht, hr, hto⟩ := hV.row_intent row hrow htype (by rw [hst]; nofun)
    exact ⟨t, ht, Option.some.inj (hto.symm.trans hro), hr⟩

/-- A request only appends, and marks what it reverses. -/
theorem Call.appends (h : db.Consistent) (hdated : db.Dated) (hsound : db.MarksSound) :
    c.Appends db (c.serve db).2 := by
  rcases c.serve_cases db with ⟨e, he⟩ | ⟨resp, ws, he, _⟩
  · rw [he]
    exact .refl c db
  · have happ : c.Appending db (c.serve db).2 := c.appending h hdated hsound (by rw [he])
    refine ⟨happ.toKeeps, ?_, fun a ha => Call.serve_account? h ha⟩
    intro i row row' hrow hrow' hne
    obtain ⟨r, hmark, hmem, hr, ho⟩ := happ.marks hrow hrow' hne
    refine ⟨r, hmark, hmem, ?_⟩
    apply Call.Appending.insertsReversal h (h.after [c]) hr ho
    have hid : row'.actionId = row.actionId := by
      obtain ⟨row₁, hrow₁, hkept⟩ := happ.actions hrow
      obtain rfl : row₁ = row' := Option.some.inj (hrow₁.symm.trans hrow')
      exact hkept.actionId
    rw [← hid]
    exact happ.sound row' (List.mem_of_getElem? hrow') r hmark

end

theorem Db.Dated.after {db₀ : Db} (h₀ : db₀.Initial) (calls : List Call) :
    (db₀.after calls).Dated := by
  apply Db.after_run (P := fun _ V => V.Dated) db₀ calls
  · intro row hrow
    rw [h₀.actions] at hrow
    cases hrow
  · intro pre c post _ hP
    rcases c.serve_cases (db₀.after pre) with ⟨e, he⟩ | ⟨resp, ws, he, _⟩
    · rwa [he]
    · have hsound := Db.MarksSound.after h₀ pre
      exact (c.appending (h₀.consistent.after pre) hP hsound (by rw [he])).dated

/-- The requests of a run that change the row at a position of the ledger. -/
def Db.Changes (db₀ : Db) (calls : List Call) (i k : Nat) : Prop :=
  ∃ row, (db₀.after (calls.take k)).actions[i]? = some row ∧
    (db₀.after (calls.take (k + 1))).actions[i]? ≠ some row

theorem Db.after_keeps {db₀ : Db} (h₀ : db₀.Initial) (calls post : List Call) :
    (db₀.after calls).Keeps (db₀.after (calls ++ post)) := by
  induction post using List.reverseRecOn with
  | nil =>
    rw [List.append_nil]
    exact .refl _
  | append_singleton post c ih =>
    rw [← List.append_assoc, Db.after_append _ (calls ++ post)]
    have happ := Call.appends (c := c) (h₀.consistent.after (calls ++ post))
      (Db.Dated.after h₀ (calls ++ post)) (Db.MarksSound.after h₀ (calls ++ post))
    exact ih.trans happ.toKeeps

theorem Db.keeps_take {db₀ : Db} (h₀ : db₀.Initial) (calls : List Call) {k k' : Nat}
    (hk : k ≤ k') : (db₀.after (calls.take k)).Keeps (db₀.after (calls.take k')) := by
  obtain ⟨d, rfl⟩ := Nat.exists_eq_add_of_le hk
  rw [List.take_add]
  exact Db.after_keeps h₀ _ _

/-- A row that has been changed once never changes again. -/
theorem Db.Changes.not_lt {db₀ : Db} {calls : List Call} {i k k' : Nat} (h₀ : db₀.Initial)
    (h : db₀.Changes calls i k) (h' : db₀.Changes calls i k') : ¬ k < k' := by
  intro hlt
  obtain ⟨row, hrow, hchange⟩ := h
  obtain ⟨row', hrow', hchange'⟩ := h'
  obtain ⟨row₁, hrow₁, hkept⟩ := (Db.keeps_take h₀ calls (Nat.le_succ k)).actions hrow
  obtain ⟨row₂, hrow₂, hkept₂⟩ := (Db.keeps_take h₀ calls hlt).actions hrow₁
  obtain ⟨row₃, hrow₃, hkept₃⟩ := (Db.keeps_take h₀ calls (Nat.le_succ k')).actions hrow'
  obtain rfl : row' = row₂ := Option.some.inj (hrow'.symm.trans hrow₂)
  have hmarked : row₁.rolledBackBy ≠ none := by
    intro hnone
    rw [hkept.unchanged hnone] at hrow₁
    exact hchange hrow₁
  have hmarked' : row'.rolledBackBy ≠ none := by
    intro hnone
    rw [← hkept₂.unchanged hnone] at hmarked
    exact hmarked hnone
  rcases hkept₃ with rfl | ⟨hnone, _⟩
  · exact hchange' hrow₃
  · exact hmarked' hnone

/-- The ledger only grows.  No request removes a row or changes a column of one, except for the
mark of a row that it reverses, and a row is marked at most once. -/
theorem append_only {db₀ : Db} (h₀ : db₀.Initial) (calls : List Call) :
    (∀ pre c post, calls = pre ++ c :: post →
      c.Appends (db₀.after pre) (c.serve (db₀.after pre)).2) ∧
    (∀ pre post, calls = pre ++ post → (db₀.after pre).Keeps (db₀.after calls)) ∧
    ∀ i k k', db₀.Changes calls i k → db₀.Changes calls i k' → k = k' := by
  constructor
  · intro pre c post _
    exact c.appends (h₀.consistent.after pre) (Db.Dated.after h₀ pre) (Db.MarksSound.after h₀ pre)
  constructor
  · intro pre post heq
    rw [heq]
    exact Db.after_keeps h₀ pre post
  · intro i k k' h h'
    exact Nat.le_antisymm (not_lt.1 (h'.not_lt h₀ h)) (not_lt.1 (h.not_lt h₀ h'))

/-- The rollback of another user marks the bet, a second one leaves it. -/
theorem append_only_twoUsers : (dollars rust "a" [.rollback 3 1]).Appends
    (twoUsers.after [dollars rust "a" [.bet 1 60], dollars typescript "b" [.rollback 2 1]])
    (twoUsers.after [dollars rust "a" [.bet 1 60], dollars typescript "b" [.rollback 2 1],
      dollars rust "a" [.rollback 3 1]]) :=
  (append_only twoUsers_initial [dollars rust "a" [.bet 1 60],
    dollars typescript "b" [.rollback 2 1], dollars rust "a" [.rollback 3 1]]).1
    [dollars rust "a" [.bet 1 60], dollars typescript "b" [.rollback 2 1]] _ [] rfl

end BetProcessor
