import BetProcessor.Txn.Program

namespace Txn
set_option autoImplicit true

namespace Engine
variable {σ : Type} {ρ : σ → Type} {ε D W L α β : Type} (E : Engine σ ρ ε D W L)

/-- Run alone on the database, the body sends only statements that satisfy `P` where they run,
and throws only exceptions that satisfy `F`. -/
def Issues (P : σ → D → Prop) (F : ε → Prop) : Prog σ ρ ε α → D → Prop
  | .pure _, _ => True
  | .throw e, _ => F e
  | .exec s k, db => P s db ∧ ∀ r ws, E.eval s db db = .ok (r, ws) →
    Issues P F (k r) (E.view db ws)

/-- All that the body writes, even if it fails in the end. -/
def written : Prog σ ρ ε α → D → List W
  | .pure _, _ => []
  | .throw _, _ => []
  | .exec s k, db =>
    match E.eval s db db with
    | .ok (r, ws) => ws ++ written (k r) (E.view db ws)
    | .error _ => []

theorem exec_written {p : Prog σ ρ ε α} {db db' : D} {a : α} (h : E.exec p db = .ok (a, db')) :
    db' = E.view db (E.written p db) := by
  induction p generalizing db with
  | pure a =>
    cases h
    rfl
  | throw e => cases h
  | exec s k ih =>
    cases heval : E.eval s db db with
    | error e =>
      rw [E.exec_error heval] at h
      cases h
    | ok r =>
      obtain ⟨r, ws⟩ := r
      rw [E.exec_exec heval] at h
      simp only [written, heval, E.view_append]
      exact ih r h

theorem transact_written {p : Prog σ ρ ε α} {db : D} {a : α}
    (h : (E.transact p db).1 = .ok a) : (E.transact p db).2 = E.view db (E.written p db) := by
  rw [transact] at h ⊢
  cases hexec : E.exec p db with
  | error e =>
    rw [hexec] at h
    cases h
  | ok r => exact E.exec_written hexec

theorem transact_failed {p : Prog σ ρ ε α} {db : D} {e : ε} (h : (E.transact p db).1 = .error e) :
    (E.transact p db).2 = db := by
  rw [transact] at h ⊢
  cases hexec : E.exec p db with
  | error e => rfl
  | ok r =>
    rw [hexec] at h
    cases h

theorem transact_view (p : Prog σ ρ ε α) (db : D) :
    ∃ ws, (E.transact p db).2 = E.view db ws := by
  cases h : (E.transact p db).1 with
  | ok a => exact ⟨_, E.transact_written h⟩
  | error e => exact ⟨[], E.transact_failed h⟩

section
variable {E} {P : σ → D → Prop} {F : ε → Prop} {db : D}

theorem Issues.bind {p : Prog σ ρ ε α} {f : α → Prog σ ρ ε β} (hp : E.Issues P F p db)
    (hf : ∀ a db', E.exec p db = .ok (a, db') → E.Issues P F (f a) db') :
    E.Issues P F (p >>= f) db := by
  induction p generalizing db with
  | pure a => exact hf a db rfl
  | throw e => exact hp
  | exec s k ih =>
    constructor
    · exact hp.1
    · intro r ws he
      apply ih r (hp.2 r ws he)
      intro a db' hexec
      apply hf
      rw [E.exec_exec he]
      exact hexec

theorem Issues.mono {P' : σ → D → Prop} {p : Prog σ ρ ε α} (h : E.Issues P F p db)
    (hP : ∀ s db, P s db → P' s db) : E.Issues P' F p db := by
  induction p generalizing db with
  | pure a => exact h
  | throw e => exact h
  | exec s k ih => exact ⟨hP s db h.1, fun r ws he => ih r (h.2 r ws he)⟩

/-- What every statement keeps holds in the end. -/
theorem Issues.keeps {J : D → Prop} {p : Prog σ ρ ε α} {a : α} {db' : D}
    (h : E.Issues P F p db) (hJ : J db)
    (hs : ∀ {s db r ws}, P s db → J db → E.eval s db db = .ok (r, ws) → J (E.view db ws))
    (he : E.exec p db = .ok (a, db')) : J db' := by
  induction p generalizing db with
  | pure a =>
    cases he
    exact hJ
  | throw e => cases he
  | exec s k ih =>
    cases heval : E.eval s db db with
    | error e =>
      rw [E.exec_error heval] at he
      cases he
    | ok r =>
      obtain ⟨r, ws⟩ := r
      rw [E.exec_exec heval] at he
      exact ih r (h.2 r ws heval) (hs h.1 hJ heval) he

/-- If the statements fail only in the ways of `F`, then so does the transaction. -/
theorem Issues.error {p : Prog σ ρ ε α} {e : ε} (h : E.Issues P F p db)
    (hs : ∀ {s db e}, P s db → E.eval s db db = .error e → F e)
    (he : (E.transact p db).1 = .error e) : F e := by
  have hexec : E.exec p db = .error e := by
    rw [transact] at he
    cases hx : E.exec p db with
    | error e' =>
      rw [hx] at he
      cases he
      rfl
    | ok r =>
      rw [hx] at he
      cases he
  clear he
  induction p generalizing db with
  | pure a => cases hexec
  | throw e' =>
    cases hexec
    exact h
  | exec s k ih =>
    cases heval : E.eval s db db with
    | error e' =>
      rw [E.exec_error heval] at hexec
      cases hexec
      exact hs h.1 heval
    | ok r =>
      obtain ⟨r, ws⟩ := r
      rw [E.exec_exec heval] at hexec
      exact ih r (h.2 r ws heval) hexec

end
end Engine
end Txn
