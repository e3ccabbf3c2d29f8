import BetProcessor.ConcurrentRuns
import BetProcessor.RtpOutbox

namespace BetProcessor
set_option autoImplicit true
open Txn

/-- The requests and the calls of the worker on one database: `inserted` has the rows of
`rtp_outbox` that each request has inserted and not committed, `nextId` is the sequence of
their ids. -/
structure System (ι κ : Type) where
  requests : Requests ι
  reports : Reports κ
  nextId : Nat
  inserted : ι → List RtpOutboxRow

inductive Event (ι κ : Type) where
  | request (l : Label ι Stmt Err)
  | report (l : Label κ RtpStmt RtpErr)

namespace System
variable {ι κ : Type}

/-- All transactions at their first statement. -/
def start (calls : ι → Call) (jobs : κ → RtpJob) (db : Db) (rtp : RtpDb) (nextId : Nat) :
    System ι κ where
  requests := .init (fun i => (calls i).body) db
  reports := .init (fun k => (jobs k).body) rtp
  nextId := nextId
  inserted _ := []

variable [DecidableEq ι]

/-- What a step of a request means for `rtp_outbox`. -/
def record (sys : System ι κ) (requests : Requests ι) : Label ι Stmt Err → System ι κ
  | .finish i (.insertOutbox delta) => { sys with
      requests
      nextId := sys.nextId + 1
      inserted := Function.update sys.inserted i
        (sys.inserted i ++ [{ id := sys.nextId, delta }]) }
  | .commit i => { sys with
      requests
      reports := sys.reports.install (sys.reports.db.enqueue (sys.inserted i))
      inserted := Function.update sys.inserted i [] }
  | _ => { sys with requests }

@[simp] theorem record_requests (sys : System ι κ) (requests : Requests ι)
    (l : Label ι Stmt Err) : (sys.record requests l).requests = requests := by
  rw [record.eq_def]
  split <;> rfl

theorem record_cases (sys : System ι κ) (requests : Requests ι) (l : Label ι Stmt Err) :
    (∃ i delta, l = .finish i (.insertOutbox delta)) ∨ (∃ i, l = .commit i) ∨
      sys.record requests l = { sys with requests } := by
  rw [record.eq_def]
  split
  · exact Or.inl ⟨_, _, rfl⟩
  · exact Or.inr (Or.inl ⟨_, rfl⟩)
  · exact Or.inr (Or.inr rfl)

variable [DecidableEq κ] [Fintype ι] [Fintype κ]

def step (sys : System ι κ) : Event ι κ → Option (System ι κ)
  | .request l => (postgres.step sys.requests l).map (sys.record · l)
  | .report l => (postgresRtp.step sys.reports l).map fun reports => { sys with reports }

/-- A run from `sys₀`, every step of which satisfies `ok` in the state it starts from. -/
inductive Run (ok : System ι κ → Event ι κ → Prop) (sys₀ : System ι κ) :
    List (Event ι κ) → System ι κ → Prop where
  | nil : Run ok sys₀ [] sys₀
  | snoc {es sys e sys'} : Run ok sys₀ es sys → ok sys e → sys.step e = some sys' →
    Run ok sys₀ (es ++ [e]) sys'

section
variable {ok : System ι κ → Event ι κ → Prop} {sys₀ sys sys' : System ι κ}
variable {es es' : List (Event ι κ)} {e : Event ι κ}

theorem step_cases (h : sys.step e = some sys') :
    (∃ l requests, e = .request l ∧ postgres.Moves sys.requests l requests ∧
      sys' = sys.record requests l) ∨
    ∃ l reports, e = .report l ∧ postgresRtp.Moves sys.reports l reports ∧
      sys' = { sys with reports } := by
  cases e with
  | request l =>
    obtain ⟨requests, hl, he⟩ := Option.map_eq_some_iff.1 h
    exact Or.inl ⟨l, requests, rfl, Engine.moves_of_step _ hl, he.symm⟩
  | report l =>
    obtain ⟨reports, hl, he⟩ := Option.map_eq_some_iff.1 h
    exact Or.inr ⟨l, reports, rfl, postgresRtp.moves_of_step hl, he.symm⟩

theorem Run.invariant {P : System ι κ → Prop} (hr : Run ok sys₀ es sys) (h₀ : P sys₀)
    (hs : ∀ {sys e sys'}, P sys → ok sys e → sys.step e = some sys' → P sys') : P sys := by
  induction hr with
  | nil => exact h₀
  | snoc _ hok h ih => exact hs ih hok h

theorem Run.trans (hr : Run ok sys₀ es sys) (hr' : Run ok sys es' sys') :
    Run ok sys₀ (es ++ es') sys' := by
  induction hr' with
  | nil => rwa [List.append_nil]
  | snoc _ hok hs ih =>
    rw [← List.append_assoc]
    exact .snoc ih hok hs

/-- The requests run as if there were no reports. -/
theorem Run.requests (hr : Run ok sys₀ es sys) :
    ∃ ls, postgres.Run (fun _ _ => True) sys₀.requests ls sys.requests := by
  induction hr with
  | nil => exact ⟨[], .nil⟩
  | @snoc es sys e sys' _ _ hs ih =>
    obtain ⟨ls, ih⟩ := ih
    cases e with
    | request l =>
      obtain ⟨requests, hl, he⟩ := Option.map_eq_some_iff.1 hs
      rw [← he, record_requests]
      exact ⟨ls ++ [l], .snoc ih trivial hl⟩
    | report l =>
      obtain ⟨reports, _, he⟩ := Option.map_eq_some_iff.1 hs
      rw [← he]
      exact ⟨ls, ih⟩

/-- The next step of a request or of a call of the worker by itself. -/
def next (sys : System ι κ) : ι ⊕ κ → Option (Event ι κ)
  | .inl i => (Engine.next sys.requests i).map .request
  | .inr k => (Engine.next sys.reports k).map .report

/-- Let the requests and the calls step in the given order, as long as their steps satisfy
`ok`. -/
def driveIf (ok : System ι κ → Event ι κ → Prop) [∀ sys e, Decidable (ok sys e)]
    (sys : System ι κ) : List (ι ⊕ κ) → Option (System ι κ)
  | [] => some sys
  | x :: xs =>
    (sys.next x).bind fun e =>
      if ok sys e then (sys.step e).bind fun sys' => driveIf ok sys' xs else none

theorem next_session {k : κ} {x : ι ⊕ κ} (hx : x ≠ .inr k) (hn : sys.next x = some e)
    (hs : sys.step e = some sys') : sys'.reports.sess k = sys.reports.sess k := by
  cases x with
  | inl i =>
    obtain ⟨l, _, rfl⟩ := Option.map_eq_some_iff.1 hn
    obtain ⟨requests, _, rfl⟩ := Option.map_eq_some_iff.1 hs
    rw [record.eq_def]
    split <;> rfl
  | inr j =>
    obtain ⟨l, hl, rfl⟩ := Option.map_eq_some_iff.1 hn
    obtain ⟨reports, hstep, rfl⟩ := Option.map_eq_some_iff.1 hs
    have hj : j = l.session := by
      rw [Engine.next.eq_def] at hl
      split at hl <;> cases hl <;> rfl
    apply (postgresRtp.moves_of_step hstep).other
    intro hk
    exact hx (congrArg Sum.inr (hj.trans hk.symm))

theorem Run.of_drive [∀ sys e, Decidable (ok sys e)] {xs : List (ι ⊕ κ)}
    (h : sys.driveIf ok xs = some sys') : (∃ es, Run ok sys es sys') ∧
      ∀ k, .inr k ∉ xs → sys'.reports.sess k = sys.reports.sess k := by
  induction xs generalizing sys with
  | nil =>
    cases h
    exact ⟨⟨[], .nil⟩, fun _ _ => rfl⟩
  | cons x xs ih =>
    obtain ⟨e, hn, h⟩ := Option.bind_eq_some_iff.1 h
    split at h
    · rename_i hok
      obtain ⟨sys₁, hs, h⟩ := Option.bind_eq_some_iff.1 h
      obtain ⟨⟨es, hr⟩, hsame⟩ := ih h
      refine ⟨⟨[e] ++ es, (Run.snoc .nil hok hs).trans hr⟩, ?_⟩
      intro k hk
      rw [List.mem_cons, not_or] at hk
      exact (hsame k hk.2).trans (next_session (Ne.symm hk.1) hn hs)
    · cases h

/-- A schedule that can be driven is a run, and a call of the worker that is not in it does
nothing. -/
theorem Run.exists_of_drive (ok : System ι κ → Event ι κ → Prop) [∀ sys e, Decidable (ok sys e)]
    (sys : System ι κ) (xs : List (ι ⊕ κ)) {p : System ι κ → Bool}
    (h : (sys.driveIf ok xs).any p = true) :
    ∃ es sys', Run ok sys es sys' ∧ (∀ k, .inr k ∉ xs → sys'.reports.sess k = sys.reports.sess k) ∧
      p sys' = true := by
  cases hd : sys.driveIf ok xs with
  | none =>
    rw [hd] at h
    cases h
  | some sys' =>
    rw [hd] at h
    obtain ⟨⟨es, hr⟩, hsame⟩ := Run.of_drive hd
    exact ⟨es, sys', hr, hsame, h⟩

end

end System
end BetProcessor
