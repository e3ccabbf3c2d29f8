import BetProcessor.ProcessorSpec
import BetProcessor.Ledger

namespace BetProcessor
set_option autoImplicit true
open Txn

/-- What a transaction sees when it is alone: the database does not move. -/
def Now (db : Db) : Moment → Prop := fun P => ∃ st, P st db

theorem sees_now (c : Call) (db : Db) : Sees .now (Now db) c db where
  noIntent := by
    intro ws g x h _
    obtain ⟨st, _, _, _, hno⟩ := h
    rwa [Engine.view_append] at hno
  noRow := by
    intro ws g o h hcons row hrow hid
    obtain ⟨st, _, _, hnone⟩ := h
    rw [Engine.view_append, ← hid] at hnone
    exact Option.some_ne_none _ ((hcons.original?_of_mem hrow g).symm.trans hnone)

theorem stable_now (db : Db) : Stable (Now db) db where
  registered := fun ⟨_, h⟩ => h
  unregistered := fun ⟨_, h⟩ => h.1
  hasIntent := fun ⟨_, h⟩ => h
  unrecorded := fun ⟨_, h⟩ => h.1
  original := fun ⟨_, h⟩ => ⟨(Db.original?_registry h).1, (Db.original?_registry h).2.1⟩
  balance := fun ⟨_, h⟩ => h.2
  newAccount := fun ⟨_, h⟩ => h.1

/-- A request alone either fails and leaves no trace, or commits. -/
theorem Call.serve_cases (c : Call) (db : Db) : (∃ e, c.serve db = (.error e, db)) ∨
    ∃ resp ws, c.serve db = (.ok resp, postgres.view db ws) ∧ Committed (Now db) c ws resp := by
  cases hx : postgres.exec c.body db with
  | error e => exact Or.inl ⟨e, by rw [Call.serve, Engine.transact, hx]⟩
  | ok r =>
    obtain ⟨resp, db'⟩ := r
    obtain ⟨st', _, hdb, _, hc⟩ := Engine.exec_of_wp (wp_body c sound_still) hx
    refine Or.inr ⟨resp, st'.writes, ?_, hc.mono fun P hP => hP.still⟩
    rw [Call.serve, Engine.transact, hx, hdb]

theorem Call.serve_ok {c : Call} {db : Db} {resp : ProcessResponse}
    (h : (c.serve db).1 = .ok resp) :
    ∃ ws, (c.serve db).2 = postgres.view db ws ∧ Committed (Now db) c ws resp := by
  rcases c.serve_cases db with ⟨e, he⟩ | ⟨resp', ws, hs, hc⟩
  · rw [he] at h
    cases h
  · rw [hs] at h
    cases h
    exact ⟨ws, by rw [hs], hc⟩

/-- What every request keeps holds after any sequence of them. -/
theorem Db.after_run {P : List Call → Db → Prop} (db : Db) (calls : List Call) (h₀ : P [] db)
    (hs : ∀ {pre c post}, calls = pre ++ c :: post → P pre (db.after pre) →
      P (pre ++ [c]) (c.serve (db.after pre)).2) : P calls (db.after calls) := by
  induction calls using List.reverseRecOn with
  | nil => exact h₀
  | append_singleton calls c ih =>
    rw [Db.after_append, Db.after_cons, Db.after_nil]
    apply hs rfl
    apply ih
    intro pre c' post heq hP
    exact hs (by rw [heq, List.append_assoc]; rfl) hP

/-- What every committed request keeps holds after any sequence of requests. -/
theorem Db.after_history {P : Db → Prop} (db : Db) (calls : List Call) (h₀ : P db)
    (hs : ∀ {pre c post ws resp}, calls = pre ++ c :: post → P (db.after pre) →
      Committed (Now (db.after pre)) c ws resp → P (postgres.view (db.after pre) ws)) :
    P (db.after calls) := by
  apply Db.after_run (P := fun _ => P) db calls h₀
  intro pre c post heq hP
  rcases c.serve_cases (db.after pre) with ⟨e, he⟩ | ⟨resp, ws, he, hc⟩
  · rwa [he]
  · rw [he]
    exact hs heq hP hc

theorem Db.after_invariant {P : Db → Prop} (db : Db) (calls : List Call) (h₀ : P db)
    (hs : ∀ {db c ws resp}, c ∈ calls → P db → Committed (Now db) c ws resp →
      P (postgres.view db ws)) : P (db.after calls) :=
  Db.after_history db calls h₀ fun heq =>
    hs (heq ▸ List.mem_append_right _ (List.mem_cons_self ..))

theorem Db.Consistent.after {db : Db} (h : db.Consistent) (calls : List Call) :
    (db.after calls).Consistent :=
  Db.after_invariant db calls h fun _ h hc => h.commit (stable_now _) hc

theorem Db.Initial.balance_at_nonneg {db : Db} (h : db.Initial) (a : Account) :
    0 ≤ db.balance a := by
  rw [Db.balance]
  cases hrow : db.account? a with
  | none => exact le_refl _
  | some row => exact h.balance_nonneg row (List.mem_of_find?_eq_some hrow)

theorem Db.after_balance_nonneg {db : Db} (h : db.Initial) (calls : List Call) (a : Account) :
    0 ≤ (db.after calls).balance a := by
  apply (Db.after_invariant (P := fun V => V.Consistent ∧ ∀ a, 0 ≤ V.balance a) db calls
    ⟨h.consistent, h.balance_at_nonneg⟩ ?_).2
  intro db c ws resp _ hV hc
  refine ⟨hV.1.commit (stable_now db) hc, fun a => ?_⟩
  rcases hc.balance_cases (stable_now db) hV.1 a with heq | ⟨_, _, hpos⟩
  · rw [heq]
    exact hV.2 a
  · exact hpos

/-- The request succeeds. -/
def Call.Succeeds (c : Call) (db : Db) : Prop := ∃ resp, (c.serve db).1 = .ok resp

instance (c : Call) (db : Db) : Decidable (c.Succeeds db) :=
  decidable_of_iff ((c.serve db).1.isOk = true) (by
    rw [Call.Succeeds]
    cases (c.serve db).1 with
    | ok resp => simp [Except.isOk, Except.toBool]
    | error e => simp [Except.isOk, Except.toBool])

/-- Every request of the sequence meets the condition in the state that it finds. -/
def Along (P : Db → Call → Prop) (db : Db) (calls : List Call) : Prop :=
  ∀ pre c post, calls = pre ++ c :: post → P (db.after pre) c

theorem Along.nil {P : Db → Call → Prop} {db : Db} : Along P db [] := by
  intro pre c post heq
  simp at heq

theorem Along.cons {P : Db → Call → Prop} {db : Db} {c : Call} {calls : List Call} (h : P db c)
    (hs : Along P (c.serve db).2 calls) : Along P db (c :: calls) := by
  intro pre c' post heq
  cases pre with
  | nil =>
    cases heq
    exact h
  | cons c₀ pre =>
    cases heq
    exact hs pre c' post rfl

theorem Along.of_append {P : Db → Call → Prop} {db : Db} {calls calls' : List Call}
    (h : Along P db (calls ++ calls')) : Along P db calls := by
  intro pre c post heq
  exact h pre c (post ++ calls') (by rw [heq, List.append_assoc]; rfl)

/-- A request of one user, in dollars. -/
def dollars (svc : Service) (user : String) (actions : List ProcessAction) : Call :=
  ⟨svc, plainDraws, ⟨user, "USD", "g", none, some actions⟩⟩

def twoUsers : Db := ⟨[⟨⟨"a", "USD"⟩, 100⟩, ⟨⟨"b", "USD"⟩, 0⟩], [], [], [], []⟩

theorem twoUsers_initial : twoUsers.Initial := ⟨by decide, by decide, rfl, rfl, rfl, rfl⟩

end BetProcessor
