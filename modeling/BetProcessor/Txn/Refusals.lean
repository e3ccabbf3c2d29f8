import BetProcessor.Txn.Issued
import BetProcessor.Txn.Concurrent

namespace Txn
set_option autoImplicit true

namespace Engine
variable {σ : Type} {ρ : σ → Type} {ε D W L α : Type} (E : Engine σ ρ ε D W L)

theorem bind_elim_eq_ok {x : Except ε α} {o : Option ε} {a : α} :
    (x >>= fun r => o.elim (.ok r) .error) = .ok a ↔ x = .ok a ∧ o = none := by
  cases x with
  | error e =>
    constructor
    · intro h
      cases h
    · rintro ⟨h, _⟩
      cases h
  | ok r =>
    cases o with
    | none => exact ⟨fun h => ⟨h, rfl⟩, fun h => h.1⟩
    | some e =>
      constructor
      · intro h
        cases h
      · rintro ⟨_, h⟩
        cases h

/-- The same database, which turns down the statements for which `refuses` has an error. -/
def refusing (refuses : σ → D → D → Option ε) : Engine σ ρ ε D W L where
  eval s snap cur :=
    E.eval s snap cur >>= fun r => (refuses s snap cur).elim (.ok r) .error
  locks := E.locks
  apply := E.apply
  keys := E.keys
  covered h := E.covered (bind_elim_eq_ok.1 h).1

section
variable {E} {refuses : σ → D → D → Option ε} {s : σ} {snap cur : D}

@[simp] theorem refusing_view (db : D) (ws : List W) :
    (E.refusing refuses).view db ws = E.view db ws := rfl

theorem refusing_eq_ok {r : ρ s × List W} : (E.refusing refuses).eval s snap cur = .ok r ↔
    E.eval s snap cur = .ok r ∧ refuses s snap cur = none := bind_elim_eq_ok

theorem refusing_of_none (h : refuses s snap cur = none) :
    (E.refusing refuses).eval s snap cur = E.eval s snap cur := by
  change (E.eval s snap cur >>= fun r => (refuses s snap cur).elim (.ok r) .error) = _
  rw [h]
  cases E.eval s snap cur with
  | error e => rfl
  | ok r => rfl

theorem refusing_of_some {r : ρ s × List W} {e : ε} (hr : E.eval s snap cur = .ok r)
    (h : refuses s snap cur = some e) : (E.refusing refuses).eval s snap cur = .error e := by
  change (E.eval s snap cur >>= fun r => (refuses s snap cur).elim (.ok r) .error) = _
  rw [hr, h]
  rfl

theorem refusing_eq_error {e : ε} (h : (E.refusing refuses).eval s snap cur = .error e) :
    E.eval s snap cur = .error e ∨ refuses s snap cur = some e := by
  change (E.eval s snap cur >>= fun r => (refuses s snap cur).elim (.ok r) .error) = _ at h
  cases heval : E.eval s snap cur with
  | error e' =>
    rw [heval] at h
    exact Or.inl h
  | ok r =>
    rw [heval] at h
    cases hrefuses : refuses s snap cur with
    | none =>
      rw [hrefuses] at h
      cases h
    | some e' =>
      rw [hrefuses] at h
      cases h
      exact Or.inr rfl

/-- Alone on the database, a body does what it did or fails. -/
theorem exec_refusing (p : Prog σ ρ ε α) (db : D) :
    (E.refusing refuses).exec p db = E.exec p db ∨
      ∃ e, (E.refusing refuses).exec p db = .error e := by
  induction p generalizing db with
  | pure a => exact Or.inl rfl
  | throw e => exact Or.inl rfl
  | exec s k ih =>
    cases heval : (E.refusing refuses).eval s db db with
    | error e => exact Or.inr ⟨e, (E.refusing refuses).exec_error heval⟩
    | ok r =>
      rw [(E.refusing refuses).exec_exec heval, E.exec_exec (refusing_eq_ok.1 heval).1]
      exact ih r.1 _

theorem transact_refusing (p : Prog σ ρ ε α) (db : D) :
    (E.refusing refuses).transact p db = E.transact p db ∨
      ∃ e, (E.refusing refuses).transact p db = (.error e, db) := by
  have hexec : (E.refusing refuses).exec p db = E.exec p db ∨
      ∃ e, (E.refusing refuses).exec p db = .error e := exec_refusing p db
  rcases hexec with h | ⟨e, h⟩
  · left
    rw [transact, transact, h]
  · right
    refine ⟨e, ?_⟩
    rw [transact, h]

variable {P : σ → D → Prop} {F : ε → Prop} {db : D}

/-- A body whose statements are not refused does what it did. -/
theorem Issues.exec_refusing {p : Prog σ ρ ε α} (h : E.Issues P F p db)
    (hP : ∀ {s db}, P s db → refuses s db db = none) :
    (E.refusing refuses).exec p db = E.exec p db := by
  induction p generalizing db with
  | pure a => rfl
  | throw e => rfl
  | exec s k ih =>
    have hsame := refusing_of_none (E := E) (hP h.1)
    cases heval : E.eval s db db with
    | error e =>
      rw [heval] at hsame
      rw [(E.refusing refuses).exec_error hsame, E.exec_error heval]
    | ok r =>
      rw [heval] at hsame
      rw [(E.refusing refuses).exec_exec hsame, E.exec_exec heval]
      exact ih r.1 (h.2 r.1 r.2 heval)

theorem Issues.refusing {P' : σ → D → Prop} {F' : ε → Prop} {p : Prog σ ρ ε α}
    (h : E.Issues P F p db) (hP : ∀ {s db}, P s db → P' s db) (hF : ∀ {e}, F e → F' e) :
    (E.refusing refuses).Issues P' F' p db := by
  induction p generalizing db with
  | pure a => trivial
  | throw e => exact hF h
  | exec s k ih =>
    constructor
    · exact hP h.1
    · intro r ws heval
      exact ih r (h.2 r ws (refusing_eq_ok.1 heval).1)

end
end Engine

/-- A session of the refusing database and the one that follows it on the other: the same, or still
at the statement that was refused. -/
inductive Session.Lags {σ : Type} {ρ : σ → Type} {ε D W L α : Type} :
    Session σ ρ ε D W L α → Session σ ρ ε D W L α → Prop where
  | same (x : Session σ ρ ε D W L α) : Lags x x
  | refused {st snap s k e} : Lags (.active st none (.throw e)) (.active st (some snap) (.exec s k))

theorem Session.Lags.held {σ : Type} {ρ : σ → Type} {ε D W L α : Type}
    {x x' : Session σ ρ ε D W L α} (h : x.Lags x') : x'.held = x.held := by
  cases h with
  | same => rfl
  | refused => rfl

structure Config.Lags {ι σ : Type} {ρ : σ → Type} {ε D W L α : Type}
    (c c' : Config ι σ ρ ε D W L α) : Prop where
  db : c'.db = c.db
  sess : ∀ i, (c.sess i).Lags (c'.sess i)

section
variable {ι σ : Type} {ρ : σ → Type} {ε D W L α : Type} [DecidableEq ι]
variable {E : Engine σ ρ ε D W L} {refuses : σ → D → D → Option ε}
variable {c c' c₁ : Config ι σ ρ ε D W L α}

theorem Config.Lags.set (h : c.Lags c') {i : ι} {x x' : Session σ ρ ε D W L α} (hx : x.Lags x') :
    (c.set i x).Lags (c'.set i x') where
  db := h.db
  sess j := by
    by_cases hj : j = i
    · subst hj
      rw [set_self, set_self]
      exact hx
    · rw [set_other _ hj, set_other _ hj]
      exact h.sess j

/-- A refused statement leaves its session behind. -/
theorem Config.Lags.refuse (h : c.Lags c') {i : ι} {st : Sess σ W L} {snap : D} {s : σ}
    {k : ρ s → Prog σ ρ ε α} (hi : c'.sess i = .active st (some snap) (.exec s k)) (e : ε) :
    (c.set i (.active st none (.throw e))).Lags c' where
  db := h.db
  sess j := by
    by_cases hj : j = i
    · subst hj
      rw [set_self, hi]
      exact .refused
    · rw [set_other _ hj]
      exact h.sess j

omit [DecidableEq ι] in
theorem Config.Lags.free (h : c.Lags c') {i : ι} {ls : List L} (hf : Engine.Free c i ls) :
    Engine.Free c' i ls := by
  intro j hj k hk
  rw [(h.sess j).held]
  exact hf j hj k hk

theorem Session.Lags.eq_active {x : Session σ ρ ε D W L α} {st : Sess σ W L} {snap : Option D}
    {p : Prog σ ρ ε α} (h : (Session.active st snap p).Lags x) (hp : ∀ e, p ≠ .throw e) :
    x = .active st snap p := by
  cases h with
  | same => rfl
  | refused => exact absurd rfl (hp _)

/-- What a step on the refusing database is on the other: the same one, nothing where a statement
is refused, and an abort where its exception is rolled back. -/
theorem Engine.Moves.lags {l : Label ι σ ε} (h : c.Lags c')
    (hm : (E.refusing refuses).Moves c l c₁) :
    c₁.Lags c' ∨ ∃ l' c₁', E.Moves c' l' c₁' ∧ c₁.Lags c₁' := by
  cases hm with
  | @start i st s k hi =>
    have hi' := (hi ▸ h.sess i).eq_active (by simp)
    refine Or.inr ⟨_, _, .start hi', ?_⟩
    rw [h.db]
    exact h.set (.same _)
  | @finish i st snap s k r ws hi hf he =>
    have hi' := (hi ▸ h.sess i).eq_active (by simp)
    have hdb := h.db
    have he' := (Engine.refusing_eq_ok.1 he).1
    rw [Engine.refusing_view, Engine.refusing_view, ← hdb] at he'
    have hf' := h.free hf
    change Free c' i (E.locks s (E.view snap st.writes) (E.view c.db st.writes)) at hf'
    rw [← hdb] at hf'
    refine Or.inr ⟨_, _, .finish hi' hf' he', ?_⟩
    rw [hdb]
    exact h.set (.same _)
  | @fail i st snap s k e hi hf he =>
    have hi' := (hi ▸ h.sess i).eq_active (by simp)
    have hdb := h.db
    rcases Engine.refusing_eq_error he with he | _
    · rw [Engine.refusing_view, Engine.refusing_view, ← hdb] at he
      have hf' := h.free hf
      change Free c' i (E.locks s (E.view snap st.writes) (E.view c.db st.writes)) at hf'
      rw [← hdb] at hf'
      exact Or.inr ⟨_, _, .fail hi' hf' he, h.set (.same _)⟩
    · exact Or.inl (h.refuse hi' e)
  | @commit i st a hi =>
    have hi' := (hi ▸ h.sess i).eq_active (by simp)
    refine Or.inr ⟨_, _, .commit hi', ?_, (h.set (.same _)).sess⟩
    rw [Config.install_db, Config.install_db, h.db]
    rfl
  | @rollback i st e hi =>
    have hlag := h.sess i
    rw [hi] at hlag
    generalize hx : c'.sess i = x at hlag
    cases hlag with
    | same => exact Or.inr ⟨_, _, .rollback hx, h.set (.same _)⟩
    | refused => exact Or.inr ⟨_, _, .abort hx, h.set (.same _)⟩
  | @abort i st snap p e hi =>
    have hlag := h.sess i
    rw [hi] at hlag
    generalize hx : c'.sess i = x at hlag
    cases hlag with
    | same => exact Or.inr ⟨_, _, .abort hx, h.set (.same _)⟩
    | refused => exact Or.inr ⟨_, _, .abort hx, h.set (.same _)⟩

variable [Fintype ι] [DecidableEq L] [DecidableEq σ]

theorem Engine.Run.lags {c₀ : Config ι σ ρ ε D W L α} {ls : List (Label ι σ ε)}
    (hr : (E.refusing refuses).Run (fun _ _ => True) c₀ ls c) :
    ∃ ls' c', E.Run (fun _ _ => True) c₀ ls' c' ∧ c.Lags c' := by
  refine hr.invariant (E.refusing refuses) (P := fun c => ∃ ls' c',
    E.Run (fun _ _ => True) c₀ ls' c' ∧ c.Lags c') ⟨[], c₀, .nil, rfl, fun i => .same _⟩ ?_
  rintro c l c₁ ⟨ls', c', hr', hlags⟩ _ hm
  rcases hm.lags hlags with hlags' | ⟨l', c₁', hm', hlags'⟩
  · exact ⟨ls', c', hr', hlags'⟩
  · exact ⟨ls' ++ [l'], c₁', .snoc hr' trivial (E.step_of_moves hm'), hlags'⟩

/-- Every run on the refusing database has the committed tables and the results of one on the other,
where the refused transactions are aborted. -/
theorem Engine.Run.of_refusing {c₀ : Config ι σ ρ ε D W L α} {ls : List (Label ι σ ε)}
    (hr : (E.refusing refuses).Run (fun _ _ => True) c₀ ls c) :
    ∃ ls' c', E.Run (fun _ _ => True) c₀ ls' c' ∧ c'.db = c.db ∧
      ∀ i r, c.sess i = .done r → c'.sess i = .done r := by
  obtain ⟨ls', c', hr', hlags⟩ := hr.lags
  refine ⟨ls', c', hr', hlags.db, fun i r hi => ?_⟩
  have hlag := hlags.sess i
  rw [hi] at hlag
  generalize c'.sess i = x at hlag
  cases hlag with
  | same => rfl

end
end Txn
