import BetProcessor.Txn.Concurrent

namespace Txn
set_option autoImplicit true

/-- What the database does with statements that may skip rows: one engine for each set of locks
that other open transactions hold.  All of them write alike. -/
structure SkipEngine (σ : Type) (ρ : σ → Type) (ε D W L : Type) where
  engine : (L → Bool) → Engine σ ρ ε D W L
  apply : D → W → D
  keys : W → List L
  apply_eq : ∀ locked, (engine locked).apply = apply
  keys_eq : ∀ locked, (engine locked).keys = keys

/-- Another open transaction holds the lock. -/
def Config.locked {ρ : σ → Type} [Fintype ι] [DecidableEq ι] [DecidableEq L]
    (c : Config ι σ ρ ε D W L α) (i : ι) (k : L) : Bool :=
  decide (∃ j, j ≠ i ∧ k ∈ (c.sess j).held)

/-- The session can end with no other results than those of `Q`. -/
def Session.EndsIn {ρ : σ → Type} (Q : α → Prop) : Session σ ρ ε D W L α → Prop
  | .active _ _ p => p.Within (fun _ => True) (fun _ _ => True) Q fun _ => True
  | .done (.ok a) => Q a
  | .done (.error _) => True

namespace SkipEngine
variable {ι σ : Type} {ρ : σ → Type} {ε D W L α : Type}
variable (S : SkipEngine σ ρ ε D W L)

def view (db : D) (ws : List W) : D := ws.foldl S.apply db

@[simp] theorem view_nil (db : D) : S.view db [] = db := rfl

@[simp] theorem view_cons (db : D) (w : W) (ws : List W) :
    S.view db (w :: ws) = S.view (S.apply db w) ws := rfl

@[simp] theorem view_append (db : D) (ws ws' : List W) :
    S.view db (ws ++ ws') = S.view (S.view db ws) ws' := List.foldl_append

theorem engine_view (locked : L → Bool) (db : D) (ws : List W) :
    (S.engine locked).view db ws = S.view db ws := by
  rw [Engine.view, S.apply_eq]
  rfl

/-- Every uncommitted write is protected by locks of its transaction. -/
def Covered (c : Config ι σ ρ ε D W L α) : Prop :=
  ∀ i, ∀ w ∈ (c.sess i).writes, ∀ k ∈ S.keys w, k ∈ (c.sess i).held

theorem covered_iff {c : Config ι σ ρ ε D W L α} (locked : L → Bool) :
    (S.engine locked).Covered c ↔ S.Covered c := by
  rw [Engine.Covered, S.keys_eq]
  rfl

variable [Fintype ι] [DecidableEq ι] [DecidableEq L] [DecidableEq σ]

/-- One step of the scheduler. -/
def step (c : Config ι σ ρ ε D W L α) (l : Label ι σ ε) : Option (Config ι σ ρ ε D W L α) :=
  (S.engine (c.locked l.session)).step c l

def Moves (c : Config ι σ ρ ε D W L α) (l : Label ι σ ε) (c' : Config ι σ ρ ε D W L α) : Prop :=
  (S.engine (c.locked l.session)).Moves c l c'

theorem moves_of_step {c c' : Config ι σ ρ ε D W L α} {l : Label ι σ ε}
    (h : S.step c l = some c') : S.Moves c l c' := Engine.moves_of_step _ h

omit [DecidableEq σ] in
/-- Only a commit changes the database. -/
theorem Moves.db_cases {c c' : Config ι σ ρ ε D W L α} {l : Label ι σ ε} (h : S.Moves c l c') :
    c'.db = c.db ∨ ∃ i st a, l = .commit i ∧ c.sess i = .active st none (.pure a) ∧
      c'.db = S.view c.db st.writes := by
  cases h with
  | @commit i st a hi =>
    rw [engine_view]
    exact Or.inr ⟨i, st, a, rfl, hi, rfl⟩
  | _ => exact Or.inl rfl

omit [DecidableEq σ] in
theorem Moves.other {c c' : Config ι σ ρ ε D W L α} {l : Label ι σ ε} {k : ι}
    (h : S.Moves c l c') (hk : k ≠ l.session) : c'.sess k = c.sess k := by
  cases h with
  | _ => exact Config.set_other _ hk _

omit [DecidableEq σ] in
/-- A session that can only end in `Q` still can only end in `Q`. -/
theorem Moves.endsIn {c c' : Config ι σ ρ ε D W L α} {l : Label ι σ ε} {Q : α → Prop} {k : ι}
    (h : S.Moves c l c') (hq : (c.sess k).EndsIn Q) : (c'.sess k).EndsIn Q := by
  by_cases hk : k = l.session
  · cases h with
    | @start i st s k' hi =>
      obtain rfl : k = i := hk
      rw [hi] at hq
      rw [Config.set_self]
      exact hq
    | @finish i st snap s k' r ws hi hf he =>
      obtain rfl : k = i := hk
      rw [hi] at hq
      rw [Config.set_self]
      exact hq.2 _ trivial
    | @fail i st snap s k' e hi hf he =>
      obtain rfl : k = i := hk
      rw [Config.set_self]
      trivial
    | @commit i st a hi =>
      obtain rfl : k = i := hk
      rw [hi] at hq
      rw [Config.install_sess, Config.set_self]
      exact hq
    | @rollback i st e hi =>
      obtain rfl : k = i := hk
      rw [Config.set_self]
      trivial
    | @abort i st snap p e hi =>
      obtain rfl : k = i := hk
      rw [Config.set_self]
      trivial
  · rwa [h.other S hk]

/-- The open transactions hold different locks that cover their writes, `I` holds of each of
them and `J` of the committed database. -/
structure Guarded (I : ι → Sess σ W L → Option D → Prog σ ρ ε α → D → Prop) (J : D → Prop)
    (c : Config ι σ ρ ε D W L α) : Prop where
  exclusive : Engine.Exclusive c
  covered : S.Covered c
  sessions : Engine.Sessions I c
  database : J c.db

section
variable {S} {I : ι → Sess σ W L → Option D → Prog σ ρ ε α → D → Prop} {J : D → Prop}
variable {c c' : Config ι σ ρ ε D W L α} {l : Label ι σ ε}

omit [Fintype ι] [DecidableEq L] [DecidableEq σ] [DecidableEq ι] in
theorem Guarded.init {progs : ι → Prog σ ρ ε α} {db : D}
    (h : ∀ i, I i .fresh none (progs i) db) (hdb : J db) : S.Guarded I J (.init progs db) where
  exclusive := by
    intro i j _ k hk
    cases hk
  covered := by
    intro i w hw
    cases hw
  sessions := by
    intro i st snap p hi
    cases hi
    exact h i
  database := hdb

omit [Fintype ι] [DecidableEq L] [DecidableEq σ] [DecidableEq ι] in
/-- Others may change the database in a way that every open transaction tolerates. -/
theorem Guarded.install (h : S.Guarded I J c) {db : D}
    (hI : ∀ {i st snap p}, I i st snap p c.db → I i st snap p db) (hJ : J db) :
    S.Guarded I J (c.install db) where
  exclusive := h.exclusive
  covered := h.covered
  sessions i st snap p hi := hI (h.sessions i st snap p hi)
  database := hJ

omit [DecidableEq σ] in
/-- What every transaction keeps by its own steps and through the commits of the others is kept
by every step. -/
theorem Guarded.moves (h : S.Guarded I J c) (hm : S.Moves c l c')
    (start : ∀ {i st s k}, I i st none (.exec s k) c.db →
      I i (st.start s) (some c.db) (.exec s k) c.db)
    (finish : ∀ {i st snap s k r ws}, c.sess i = .active st (some snap) (.exec s k) →
      J c.db → I i st (some snap) (.exec s k) c.db →
      (S.engine (c.locked i)).eval s (S.view snap st.writes) (S.view c.db st.writes) =
        .ok (r, ws) →
      I i (st.finish ws ((S.engine (c.locked i)).locks s (S.view snap st.writes)
        (S.view c.db st.writes))) none (k r) c.db)
    (fail : ∀ {i st snap s k e}, I i st (some snap) (.exec s k) c.db →
      I i st none (.throw e) c.db)
    (commit : ∀ {i st a}, c.sess i = .active st none (.pure a) → J c.db →
      I i st none (.pure a) c.db → J (S.view c.db st.writes))
    (others : ∀ {i j st snap p st' a}, J c.db → I i st snap p c.db → I j st' none (.pure a) c.db →
      (∀ w ∈ st'.writes, ∀ k ∈ S.keys w, k ∈ st'.held) → (∀ k ∈ st.held, k ∉ st'.held) →
      I i st snap p (S.view c.db st'.writes)) : S.Guarded I J c' := by
  have hcovered := (S.covered_iff _).1
    (Engine.Covered.moves (S.engine (c.locked l.session)) ((S.covered_iff _).2 h.covered) hm)
  have hexclusive := Engine.Exclusive.moves (S.engine (c.locked l.session)) h.exclusive hm
  cases hm with
  | @start i st s k hi =>
    refine ⟨hexclusive, hcovered, ?_, h.database⟩
    apply h.sessions.set
    intro st' snap p hx
    cases hx
    exact start (h.sessions _ _ _ _ hi)
  | @finish i st snap s k r ws hi hf he =>
    refine ⟨hexclusive, hcovered, ?_, h.database⟩
    apply h.sessions.set
    intro st' snap' p hx
    cases hx
    simp only [engine_view] at he ⊢
    exact finish hi h.database (h.sessions _ _ _ _ hi) he
  | @fail i st snap s k e hi hf he =>
    refine ⟨hexclusive, hcovered, ?_, h.database⟩
    apply h.sessions.set
    intro st' snap' p hx
    cases hx
    exact fail (h.sessions _ _ _ _ hi)
  | @commit i st a hi =>
    rw [engine_view] at hexclusive hcovered ⊢
    refine ⟨hexclusive, hcovered, ?_, commit hi h.database (h.sessions _ _ _ _ hi)⟩
    intro j st' snap p hj
    rw [Config.install_sess] at hj
    by_cases hji : j = i
    · subst hji
      rw [Config.set_self] at hj
      cases hj
    · rw [Config.set_other _ hji] at hj
      have hlock := h.exclusive j i hji
      have hother := h.covered i
      rw [hj, hi] at hlock
      rw [hi] at hother
      exact others h.database (h.sessions _ _ _ _ hj) (h.sessions _ _ _ _ hi) hother hlock
  | rollback hi =>
    refine ⟨hexclusive, hcovered, ?_, h.database⟩
    apply h.sessions.set
    intro st' snap p hx
    cases hx
  | abort hi =>
    refine ⟨hexclusive, hcovered, ?_, h.database⟩
    apply h.sessions.set
    intro st' snap p hx
    cases hx

end
end SkipEngine
end Txn
