import BetProcessor.Outcomes

namespace BetProcessor
set_option autoImplicit true
open Txn

/-- What a lock protects has not changed. -/
def Key.Same : Key → Db → Db → Prop
  | .account a, db, db' => db.account? a = db'.account? a
  | .registry x, db, db' => db.Registered x ↔ db'.Registered x
  | .intent o, db, db' => db.HasIntent o ↔ db'.HasIntent o
  | .intentBy r, db, db' => db.HasIntentBy r ↔ db'.HasIntentBy r
  | .action _, _, _ => True

/-- What the commits of the others do to a transaction: they add rows, and leave alone what its
locks protect. -/
structure Grows (st : Sess Stmt Write Key) (db db' : Db) : Prop where
  registry : db.actionRegistry <+: db'.actionRegistry
  ledger : db.ledger <+: db'.ledger
  intents : db.rollbackIntents <+: db'.rollbackIntents
  same : ∀ k ∈ st.held, k.Same db db'

theorem Key.Same.refl (k : Key) (db : Db) : k.Same db db := by
  cases k <;> simp [Key.Same]

theorem Key.Same.trans {k : Key} {a b c : Db} (h : k.Same a b) (h' : k.Same b c) :
    k.Same a c := by
  cases k with
  | account => exact Eq.trans h h'
  | action => trivial
  | registry | intent | intentBy => exact Iff.trans h h'

/-- A write that does not need the lock leaves alone what it protects. -/
theorem Key.Same.apply {k : Key} {w : Write} (db : Db) (h : k ∉ w.keys) :
    k.Same db (db.apply w) := by
  cases k with
  | account a =>
    rw [Key.Same, Db.apply_account?]
    cases w with
    | insertAccount row =>
      have hne : row.account ≠ a := fun he => h (by simp [Write.keys, he])
      simp [Write.onAccount, hne]
    | updateBalance b v =>
      have hne : b ≠ a := fun he => h (by simp [Write.keys, he])
      have hset : ∀ row ∈ db.account? a, row = row.setBalance b v := by
        intro row hrow
        have hacc : row.account = a := by simpa using List.find?_some hrow
        rw [AccountRow.setBalance, if_neg (by rw [hacc]; exact hne.symm)]
      cases hrow : db.account? a with
      | none => rfl
      | some row => exact congrArg some (hset row hrow)
    | _ => rfl
  | registry x =>
    cases w <;> simp_all [Key.Same, Db.Registered, Write.registryRows, Write.keys, or_and_right,
      exists_or, eq_comm]
  | intent o =>
    cases w <;> simp_all [Key.Same, Db.HasIntent, Write.intentRows, Write.keys, or_and_right,
      exists_or, eq_comm]
  | intentBy r =>
    cases w <;> simp_all [Key.Same, Db.HasIntentBy, Write.intentRows, Write.keys, or_and_right,
      exists_or, eq_comm]
  | action => trivial

namespace Grows
variable {st st' : Sess Stmt Write Key} {db db' : Db}

theorem refl (st : Sess Stmt Write Key) (db : Db) : Grows st db db :=
  ⟨List.prefix_rfl, List.prefix_rfl, List.prefix_rfl, fun k _ => Key.Same.refl k db⟩

theorem trans {db'' : Db} (h : Grows st db db') (h' : Grows st db' db'') : Grows st db db'' :=
  ⟨h.registry.trans h'.registry, h.ledger.trans h'.ledger, h.intents.trans h'.intents,
    fun k hk => (h.same k hk).trans (h'.same k hk)⟩

theorem anti (hle : st ≤ st') (h : Grows st' db db') : Grows st db db' :=
  ⟨h.registry, h.ledger, h.intents, fun k hk => h.same k (hle.2.2 hk)⟩

theorem of_commit (db : Db) {ws : List Write} (hlock : ∀ k ∈ st.held, k ∉ st'.held)
    (hcov : ∀ w ∈ ws, ∀ k ∈ w.keys, k ∈ st'.held) : Grows st db (postgres.view db ws) := by
  refine ⟨?_, ?_, ?_, fun k hk => ?_⟩
  · rw [Db.view_actionRegistry]; exact List.prefix_append _ _
  · rw [Db.view_ledger]; exact List.prefix_append _ _
  · rw [Db.view_rollbackIntents]; exact List.prefix_append _ _
  · induction ws generalizing db with
    | nil => exact Key.Same.refl k db
    | cons w ws ih =>
      have hw : k ∉ w.keys := fun h => hlock k hk (hcov w (List.mem_cons_self ..) k h)
      exact (Key.Same.apply db hw).trans
        (ih _ fun w' hw' => hcov w' (List.mem_cons_of_mem _ hw'))

end Grows

namespace Db
variable {db db' : Db} {ws : List Write}

theorem view_registered {x : Uuid} : (postgres.view db ws).Registered x ↔
    db.Registered x ∨ ∃ g ∈ ws.flatMap Write.registryRows, g.actionId = x := by
  rw [Registered, view_actionRegistry]
  simp [Registered, or_and_right, exists_or]

theorem view_hasIntent {o : Uuid} : (postgres.view db ws).HasIntent o ↔
    db.HasIntent o ∨ ∃ t ∈ ws.flatMap Write.intentRows, t.originalActionId = o := by
  rw [HasIntent, view_rollbackIntents]
  simp [HasIntent, or_and_right, exists_or]

theorem view_hasIntentBy {r : Uuid} : (postgres.view db ws).HasIntentBy r ↔
    db.HasIntentBy r ∨ ∃ t ∈ ws.flatMap Write.intentRows, t.rollbackActionId = r := by
  rw [HasIntentBy, view_rollbackIntents]
  simp [HasIntentBy, or_and_right, exists_or]

theorem view_account?_congr {a : Account} (h : db.account? a = db'.account? a) :
    (postgres.view db ws).account? a = (postgres.view db' ws).account? a := by
  induction ws generalizing db db' with
  | nil => exact h
  | cons w ws ih => exact ih (by simp [h])

theorem original?_registry {o : Uuid} {row : ActionRow} (h : db.original? o = some row) :
    row.actionId = o ∧ row ∈ db.ledger ∧
      ∃ g ∈ db.actionRegistry, g.actionId = o ∧ g.ledgerCreatedAt = row.createdAt := by
  obtain ⟨g, hg, hrow⟩ := Option.bind_eq_some_iff.1 h
  have hp := List.find?_some hrow
  simp only [decide_eq_true_eq] at hp
  exact ⟨hp.1, List.mem_of_find?_eq_some hrow, g, List.mem_of_find?_eq_some hg,
    by simpa using List.find?_some hg, hp.2.symm⟩

end Db

/-- The commits of the others only let the database grow. -/
def Sound {I : Db → Prop} (R : Rely I Stmt Write Key) : Prop :=
  ∀ {st a b}, R.rel st a b → Grows st a b

theorem sound_still : Sound (Rely.still (D := Db) Stmt Write Key) := by
  rintro st a b rfl
  exact Grows.refl _ _

/-- What a transaction saw that still holds in the database `db`, at the end. -/
structure Stable (past : Moment → Prop) (db : Db) : Prop where
  registered : ∀ {ws g}, (past fun _ db => g ∈ (postgres.view db ws).actionRegistry) →
    g ∈ (postgres.view db ws).actionRegistry
  unregistered : ∀ {ws x}, (past fun st db => ¬ (postgres.view db ws).Registered x ∧
    Key.registry x ∈ st.held) → ¬ (postgres.view db ws).Registered x
  hasIntent : ∀ {ws o}, (past fun _ db => (postgres.view db ws).HasIntent o) →
    (postgres.view db ws).HasIntent o
  unrecorded : ∀ {ws r o}, Unrecorded past ws r o →
    ¬ (postgres.view db ws).HasIntent o ∧ ¬ (postgres.view db ws).HasIntentBy r
  original : ∀ {ws o row}, FoundOriginal past ws o row →
    row.actionId = o ∧ row ∈ (postgres.view db ws).ledger
  balance : ∀ {ws a v}, (past fun st db => Key.account a ∈ st.held ∧
    ((postgres.view db ws).account? a).map (·.balance) = some v) →
    ((postgres.view db ws).account? a).map (·.balance) = some v
  newAccount : ∀ {a}, (past fun st db => db.account? a = none ∧ Key.account a ∈ st.held) →
    db.account? a = none

theorem Sound.stable {I : Db → Prop} {R : Rely I Stmt Write Key} (hR : Sound R)
    (st : Sess Stmt Write Key) (db : Db) : Stable (R.Past st db) db where
  registered := by
    rintro ws g ⟨st₀, db₀, hg, _, hrel⟩
    rw [Db.view_actionRegistry] at hg ⊢
    rcases List.mem_append.1 hg with hg | hg
    · exact List.mem_append_left _ ((hR hrel).registry.subset hg)
    · exact List.mem_append_right _ hg
  unregistered := by
    rintro ws x ⟨st₀, db₀, ⟨hx, hkey⟩, _, hrel⟩
    rw [Db.view_registered] at hx ⊢
    exact fun h => hx (h.imp_left ((hR hrel).same _ hkey).2)
  hasIntent := by
    rintro ws o ⟨st₀, db₀, ho, _, hrel⟩
    rw [Db.view_hasIntent] at ho ⊢
    apply ho.imp_left
    rintro ⟨t, ht, hto⟩
    exact ⟨t, (hR hrel).intents.subset ht, hto⟩
  unrecorded := by
    rintro ws r o ⟨st₀, db₀, ⟨⟨ho, hr⟩, hko, hkr⟩, _, hrel⟩
    rw [Db.view_hasIntent] at ho ⊢
    rw [Db.view_hasIntentBy] at hr ⊢
    exact ⟨fun h => ho (h.imp_left ((hR hrel).same _ hko).2),
      fun h => hr (h.imp_left ((hR hrel).same _ hkr).2)⟩
  original := by
    rintro ws o row ⟨st₀, db₀, hrow, _, hrel⟩
    obtain ⟨hid, hmem, _⟩ := Db.original?_registry hrow
    refine ⟨hid, ?_⟩
    rw [Db.view_ledger] at hmem ⊢
    rcases List.mem_append.1 hmem with hmem | hmem
    · exact List.mem_append_left _ ((hR hrel).ledger.subset hmem)
    · exact List.mem_append_right _ hmem
  balance := by
    rintro ws a v ⟨st₀, db₀, ⟨hkey, hv⟩, _, hrel⟩
    rwa [← Db.view_account?_congr ((hR hrel).same _ hkey)]
  newAccount := by
    rintro a ⟨st₀, db₀, ⟨hnone, hkey⟩, _, hrel⟩
    rwa [← (hR hrel).same _ hkey]

end BetProcessor
