import BetProcessor.ConcurrentRuns
import BetProcessor.SerialRuns

namespace BetProcessor
set_option autoImplicit true
open Txn

/-- A bet or win whose rollback came first has moved nothing. -/
def Db.TombstonesKept (db : Db) : Prop :=
  ∀ t ∈ db.rollbackIntents, ∀ r ∈ db.actions, r.actionId = t.rollbackActionId →
    r.status = .noopTombstone → ∀ o ∈ db.actions, o.actionId = t.originalActionId →
      o.actionType ≠ .rollback → o.status = .noopPrerolled ∧ o.balanceDelta = 0

instance (db : Db) : Decidable db.TombstonesKept :=
  inferInstanceAs (Decidable (∀ t ∈ db.rollbackIntents, ∀ r ∈ db.actions, _ → _ →
    ∀ o ∈ db.actions, _ → _ → _))

/-- A bet or win that counts. -/
def ActionRow.Moves (r : ActionRow) : Prop := r.actionType ≠ .rollback ∧ r.status = .applied

instance (r : ActionRow) : Decidable r.Moves :=
  inferInstanceAs (Decidable (r.actionType ≠ .rollback ∧ r.status = .applied))

/-- The same of the ledger: no tombstone is about a bet or win that counts. -/
def Db.Tombstones (db : Db) : Prop :=
  ∀ t ∈ db.rollbackIntents, ∀ r ∈ db.ledger, r.actionId = t.rollbackActionId →
    r.status = .noopTombstone → ∀ o ∈ db.ledger, o.actionId = t.originalActionId → ¬ o.Moves

theorem Db.Initial.tombstones {db : Db} (h : db.Initial) : db.Tombstones := by
  rw [Db.Tombstones, h.rollbackIntents]
  simp

theorem Db.Tombstones.kept {db : Db} (h : db.Tombstones) (hcons : db.Consistent) :
    db.TombstonesKept := by
  intro t ht r hr hrt hst o ho hot htype
  have hmoves : ¬ o.core.Moves := h t ht _ (db.mem_ledger hr) hrt hst _ (db.mem_ledger ho) hot
  cases hcons.shape _ (db.mem_ledger ho) with
  | original _ _ _ _ hstatus =>
    rcases hstatus with ⟨happlied, _⟩ | hnoop
    · exact absurd ⟨htype, happlied⟩ hmoves
    · exact hnoop
  | rollback htype' => exact absurd htype' htype

/-- What an open request has looked up without seeing it among the writes: a bet or win that it
rolls back, or a rollback of an id that it has claimed. -/
def Overlooks (st : Sess Stmt Write Key) (ws : List Write) : Prop :=
  (∃ row ∈ ws.flatMap Write.ledgerRows, row.Moves ∧
    Stmt.selectActionForUpdate row.actionId ∈ st.hist) ∨
  ∃ t ∈ ws.flatMap Write.intentRows, Stmt.selectIntent t.originalActionId ∈ st.hist ∧
    Key.registry t.originalActionId ∈ st.held

instance (st : Sess Stmt Write Key) (ws : List Write) : Decidable (Overlooks st ws) :=
  inferInstanceAs (Decidable (_ ∨ _))

/-- No commit brings what a request of another account has looked up before. -/
def Timely {ι : Type} (calls : ι → Call) (c : Requests ι) : Label ι Stmt Err → Prop
  | .commit j => ∀ i, (calls i).account ≠ (calls j).account →
    ¬ Overlooks (c.sess i).state (c.sess j).writes
  | _ => True

instance {ι : Type} [Fintype ι] (calls : ι → Call) (c : Requests ι) (l : Label ι Stmt Err) :
    Decidable (Timely calls c l) :=
  match l with
  | .commit _ => inferInstanceAs (Decidable (∀ _, _ → ¬ Overlooks _ _))
  | .start _ | .finish _ _ | .rollback _ | .abort _ _ => instDecidableTrue

/-- The lookups of a request would find no more in `b` than in `a`. -/
structure Unmissed (st : Sess Stmt Write Key) (a b : Db) : Prop where
  original : ∀ row ∈ b.ledger, row.Moves → Stmt.selectActionForUpdate row.actionId ∈ st.hist →
    row ∈ a.ledger
  intent : ∀ x, Stmt.selectIntent x ∈ st.hist → Key.registry x ∈ st.held → b.HasIntent x →
    a.HasIntent x

namespace Unmissed
variable {st st' : Sess Stmt Write Key} {a b d : Db}

theorem refl : Unmissed st a a := ⟨fun _ h _ _ => h, fun _ _ _ h => h⟩

theorem trans (h : Unmissed st a b) (h' : Unmissed st b d) : Unmissed st a d := by
  constructor
  · intro row hrow hm hs
    exact h.original row (h'.original row hrow hm hs) hm hs
  · intro x hs hk hx
    exact h.intent x hs hk (h'.intent x hs hk hx)

theorem anti (hle : st ≤ st') (h : Unmissed st' a b) : Unmissed st a b := by
  constructor
  · intro row hrow hm hs
    exact h.original row hrow hm (hle.1.subset hs)
  · intro x hs hk hx
    exact h.intent x (hle.1.subset hs) (hle.2.2 hk) hx

theorem of_commit {ws : List Write} (h : ¬ Overlooks st ws) :
    Unmissed st a (postgres.view a ws) := by
  obtain ⟨horiginal, hintent⟩ := not_or.1 h
  constructor
  · intro row hrow hm hs
    rw [Db.view_ledger] at hrow
    rcases List.mem_append.1 hrow with hrow | hrow
    · exact hrow
    · exact absurd ⟨row, hrow, hm, hs⟩ horiginal
  · intro x hs hk hx
    rcases Db.view_hasIntent.1 hx with hx | ⟨t, ht, rfl⟩
    · exact hx
    · exact absurd ⟨t, ht, hs, hk⟩ hintent

end Unmissed

/-- What still holds of the lookups when nothing has been missed. -/
def Lookups.unmissed : Lookups :=
  ⟨fun V x => ¬ V.HasIntent x, fun V o => ∀ row ∈ V.ledger, row.actionId = o → ¬ row.Moves⟩

section
variable {V V' db db₀ : Db} {c : Call} {b b' : Int} {action : ProcessAction} {txId : Uuid}
variable {ws : List Write}

/-- The lookup of an original in an earlier database with the own writes finds every row that it
had already. -/
theorem Db.Consistent.original?_of_earlier (h₀ : db₀.Consistent) (h : db.Consistent)
    (hV : (postgres.view db ws).Consistent) (hregistry : db₀.actionRegistry <+: db.actionRegistry)
    (hledger : db₀.ledger <+: db.ledger) {row : ActionRow}
    (hrow : row ∈ (postgres.view db ws).ledger) (hold : row ∈ db.ledger → row ∈ db₀.ledger)
    (g : RegistryRow) :
    ((postgres.view db₀ ws).apply (.insertRegistry g)).original? row.actionId = some row := by
  have hregs : (postgres.view db₀ ws).actionRegistry.Sublist
      (postgres.view db ws).actionRegistry := by
    rw [Db.view_actionRegistry, Db.view_actionRegistry]
    exact hregistry.sublist.append_right _
  have hrows : (postgres.view db₀ ws).ledger.Sublist (postgres.view db ws).ledger := by
    rw [Db.view_ledger, Db.view_ledger]
    exact hledger.sublist.append_right _
  have hfound : row ∈ (postgres.view db₀ ws).ledger ∧
      row.registry ∈ (postgres.view db₀ ws).actionRegistry := by
    have hregistered := hV.registered row hrow
    have hin := hrow
    rw [Db.view_ledger, List.mem_append] at hrow ⊢
    rw [Db.view_actionRegistry, List.mem_append] at hregistered ⊢
    by_cases hmem : row ∈ db.ledger
    · exact ⟨Or.inl (hold hmem), Or.inl (h₀.registered row (hold hmem))⟩
    · refine ⟨Or.inr (hrow.resolve_left hmem), Or.inr (hregistered.resolve_left fun hg => ?_)⟩
      -- an id that was committed before has its row in the ledger
      obtain ⟨r, hr, hreg⟩ := h.recorded _ hg
      have hr' : r ∈ (postgres.view db ws).ledger := by
        rw [Db.view_ledger]
        exact List.mem_append_left _ hr
      have heq : r = row := hV.ledger_inj hr' hin (congrArg RegistryRow.actionId hreg)
      exact hmem (heq ▸ hr)
  exact Db.original?_of_unique (hV.registry_nodup.sublist (hregs.map _))
    (hV.ledger_nodup.sublist (hrows.map _)) hfound.1 hfound.2 g

theorem sees_unmissed {J : Db → Prop} (hJ : ∀ {db}, J db → db.Consistent)
    {X : Sess Stmt Write Key → Db → Db → Prop} (hX : Steady X)
    (hun : ∀ {st a b}, X st a b → Key.account c.account ∈ st.held → Unmissed st a b)
    (st : Sess Stmt Write Key) : Sees .unmissed ((requestRely J hX).Past st db) c db where
  noIntent := by
    rintro ws g x ⟨st₀, db₀, ⟨hs, hk, hacc, hno⟩, _, _, _, hrel⟩ _ hx
    rw [Engine.view_append] at hno
    rw [Db.view_hasIntent] at hx
    have hseen : (postgres.view db₀ ws).HasIntent x :=
      Db.view_hasIntent.2 (hx.imp_left ((hun hrel hacc).intent x hs hk))
    exact hno hseen
  noRow := by
    rintro ws g o ⟨st₀, db₀, ⟨hs, hacc, hnone⟩, _, hgrows, hinv, hrel⟩ hV row hrow rfl hm
    rw [Engine.view_append] at hnone
    have hfound := (hJ hinv.1).original?_of_earlier (hJ hinv.2) hV hgrows.registry hgrows.ledger
      hrow (fun hmem => (hun hrel hacc).original row hmem hm hs) g
    exact Option.some_ne_none _ (hfound.symm.trans hnone)

/-- One action of a request that has missed nothing. -/
theorem Db.Tombstones.stepped (h : V.Tombstones) (hV : V.Consistent)
    (hs : Stepped .unmissed V V' c b action b' txId) : V'.Tombstones := by
  have hV' := hV.stepped hs
  cases hs with
  | duplicate _ _ heq => rwa [heq]
  | @fresh row intent outs _ hfresh he ha =>
    have hnew : row ∈ V'.ledger := ha.ledger ▸ List.mem_append_right _ (List.mem_singleton.2 rfl)
    have hid : ∀ {r}, r ∈ V.ledger → r.actionId ≠ row.actionId := by
      intro r hr heq
      exact hfresh ⟨r.registry, hV.registered r hr, heq.trans he.actionId⟩
    intro t ht r hr hrt hst o ho hot hm
    rw [ha.rollbackIntents, List.mem_append] at ht
    rw [ha.ledger, List.mem_append, List.mem_singleton] at ho
    rcases ht with ht | ht
    · -- a tombstone that was there: only a new bet or win could break it
      obtain ⟨r', hr', _, _, hrt', _⟩ := hV.intent_row t ht
      have hold : r ∈ V.ledger := by
        have heq : r = r' := hV'.ledger_inj hr (ha.ledger ▸ List.mem_append_left _ hr')
          (hrt.trans hrt'.symm)
        exact heq ▸ hr'
      rcases ho with ho | rfl
      · exact h t ht r hold hrt hst o ho hot hm
      · cases he with
        | applied horiginal hno => exact hno ⟨t, ht, hot.symm⟩
        | prerolled => exact absurd hm.2 (by simp [Call.originalRow])
        | _ => exact hm.1 rfl
    · -- a new tombstone: its original was not there when it was looked up
      obtain rfl := Option.mem_toList.1 ht
      obtain ⟨_, htype, _, hrow, _⟩ := he.intent_some
      obtain rfl : r = row := hV'.ledger_inj hr hnew (hrt.trans hrow.symm)
      rcases ho with ho | rfl
      · cases he with
        | tombstone _ hnone => exact hnone o ho hot hm
        | notApplied => cases hst
        | reversed => cases hst
      · exact hm.1 htype

theorem Db.Tombstones.commit {past : Moment → Prop} {resp : ProcessResponse}
    (h : db.Tombstones) (hcons : db.Consistent) (hp : Stable past db)
    (hsees : Sees .unmissed past c db) (hc : Committed past c ws resp) :
    (postgres.view db ws).Consistent ∧ (postgres.view db ws).Tombstones := by
  apply hc.tables (P := fun _ => Db.Tombstones) hp hsees hcons h fun h => h
  intro pre action post V V' b b' txId _ hV _ _ hP hst
  exact hP.stepped hV hst

end

section
variable {ι : Type} (calls : ι → Call)

theorem steady_unmissed (a : Account) :
    Steady fun st db db' => Key.account a ∈ st.held → Unmissed st db db' where
  refl _ := .refl
  trans h h' hk := (h hk).trans (h' hk)
  anti hle h hk := (h (hle.2.2 hk)).anti hle

/-- A request relies on the others not to bring what it has looked up. -/
def lookupAgreement : Agreement calls where
  inv db := db.Consistent ∧ db.Tombstones
  also i st db db' := Key.account (calls i).account ∈ st.held → Unmissed st db db'
  steady i := steady_unmissed (calls i).account
  compat i st j st' := (calls i).account ≠ (calls j).account → ¬ Overlooks st st'.writes
  commit h hc := h.2.commit h.1 (Sound.stable (sound_requestRely _) _ _)
    (sees_unmissed And.left _ (fun h => h) _) hc
  guarantee := by
    intro i j st st' db resp hij hlock hacc hcompat _ _ hk
    apply Unmissed.of_commit
    apply hcompat
    intro heq
    exact hlock _ hk (heq ▸ hacc)

end

/-- A committed tombstone and an applied original never coexist, in every committed state of a
run of any concurrent requests in which no commit brings what a request of another account has
looked up before. -/
theorem tombstones_kept {ι : Type} [Fintype ι] [DecidableEq ι] (calls : ι → Call) {db₀ : Db}
    (h₀ : db₀.Initial) {ls : List (Label ι Stmt Err)} {c : Requests ι}
    (hr : postgres.Run (Timely calls) (.init (fun i => (calls i).body) db₀) ls c) :
    c.db.TombstonesKept := by
  have hholds := (lookupAgreement calls).holds ⟨h₀.consistent, h₀.tombstones⟩
    (fun {c l} hl => ?_) hr
  · exact hholds.1.2.kept hholds.1.1
  · cases l with
    | commit j =>
      intro i _ st snap p st' snap' p' hi hj hne
      have hlate := hl i hne
      rwa [hi, hj] at hlate
    | _ => exact True.intro

/-- A bet of one user, and the rollback of it by another. -/
def betAndForeignRollback (i : Fin 2) : Call :=
  if i.val = 0 then dollars typescript "a" [.bet 1 60] else dollars typescript "b" [.rollback 2 1]

/-- Both requests look for the other before the other commits. -/
theorem bet_beside_tombstone : ∃ db₀ ls c, db₀.Initial ∧
    postgres.Run (fun _ _ => True) (.init (fun i => (betAndForeignRollback i).body) db₀) ls c ∧
    ¬ c.db.TombstonesKept := by
  obtain ⟨ls, c, hr, hc⟩ := Engine.Run.exists_of_drive postgres
    (c := .init (fun i => (betAndForeignRollback i).body) twoUsers)
    (List.replicate 16 0 ++ List.replicate 20 1 ++ [0, 1])
    (p := fun r => decide (¬ r.2.db.TombstonesKept)) (by decide +kernel)
  exact ⟨twoUsers, ls, c, twoUsers_initial, hr, of_decide_eq_true hc⟩

/-- The rollback commits before the bet looks for it. -/
theorem late_bet_kept : ∃ ls c,
    postgres.Run (Timely betAndForeignRollback)
      (.init (fun i => (betAndForeignRollback i).body) twoUsers) ls c ∧
    c.db.rollbackIntents ≠ [] ∧ c.db.actions.length = 2 ∧ c.db.TombstonesKept := by
  obtain ⟨ls, c, hr, hc⟩ := Engine.Run.exists_of_driveIf postgres
    (Timely betAndForeignRollback)
    (c := .init (fun i => (betAndForeignRollback i).body) twoUsers)
    (List.replicate 6 0 ++ List.replicate 21 1 ++ List.replicate 11 0)
    (p := fun r => decide (r.2.db.rollbackIntents ≠ [] ∧ r.2.db.actions.length = 2))
    (by decide +kernel)
  obtain ⟨hintents, hactions⟩ := of_decide_eq_true hc
  exact ⟨ls, c, hr, hintents, hactions, tombstones_kept _ twoUsers_initial hr⟩

end BetProcessor
