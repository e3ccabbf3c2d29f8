import Mathlib.Data.List.Basic

namespace Txn
set_option autoImplicit true

/-- The body of a transaction: statements sent to the database, results and exceptions. -/
inductive Prog (σ : Type) (ρ : σ → Type) (ε α : Type) where
  | pure (a : α)
  | throw (e : ε)
  | exec (s : σ) (k : ρ s → Prog σ ρ ε α)

namespace Prog
variable {σ : Type} {ρ : σ → Type} {ε α β γ : Type}

def bind : Prog σ ρ ε α → (α → Prog σ ρ ε β) → Prog σ ρ ε β
  | .pure a, f => f a
  | .throw e, _ => .throw e
  | .exec s k, f => .exec s fun r => (k r).bind f

instance : Monad (Prog σ ρ ε) where
  pure := .pure
  bind := .bind

/-- Send one statement and return its answer. -/
def call (s : σ) : Prog σ ρ ε (ρ s) := .exec s .pure

@[simp] theorem pure_bind (a : α) (f : α → Prog σ ρ ε β) :
    (Pure.pure a : Prog σ ρ ε α) >>= f = f a := rfl

@[simp] theorem throw_bind (e : ε) (f : α → Prog σ ρ ε β) :
    (throw e : Prog σ ρ ε α) >>= f = .throw e := rfl

@[simp] theorem exec_bind (s : σ) (k : ρ s → Prog σ ρ ε α) (f : α → Prog σ ρ ε β) :
    exec s k >>= f = .exec s fun r => k r >>= f := rfl

@[simp] theorem call_bind (s : σ) (f : ρ s → Prog σ ρ ε β) :
    (call s : Prog σ ρ ε (ρ s)) >>= f = .exec s f := rfl

theorem bind_assoc (p : Prog σ ρ ε α) (f : α → Prog σ ρ ε β) (g : β → Prog σ ρ ε γ) :
    p >>= f >>= g = p >>= fun a => f a >>= g := by
  induction p with
  | pure => rfl
  | throw => rfl
  | exec s k ih => simp only [exec_bind, ih]

/-- When answers satisfy `V`, every statement sent satisfies `P`, every result `Q` and every
exception `F`. -/
def Within (P : σ → Prop) (V : (s : σ) → ρ s → Prop) (Q : α → Prop) (F : ε → Prop) :
    Prog σ ρ ε α → Prop
  | .pure a => Q a
  | .throw e => F e
  | .exec s k => P s ∧ ∀ r, V s r → (k r).Within P V Q F

theorem Within.bind {P : σ → Prop} {V : (s : σ) → ρ s → Prop} {Q : α → Prop} {Q' : β → Prop}
    {F : ε → Prop} {p : Prog σ ρ ε α} {f : α → Prog σ ρ ε β} (hp : p.Within P V Q F)
    (hf : ∀ a, Q a → (f a).Within P V Q' F) : (p >>= f).Within P V Q' F := by
  induction p with
  | pure a => exact hf a hp
  | throw => exact hp
  | exec s k ih => exact ⟨hp.1, fun r hr => ih r (hp.2 r hr)⟩

end Prog

/-- What the database does with the statements of one transaction.  A statement reads plain
rows from the snapshot taken when it starts, and re-reads locked rows and conflicting keys in
their latest versions. -/
structure Engine (σ : Type) (ρ : σ → Type) (ε D W L : Type) where
  eval : (s : σ) → D → D → Except ε (ρ s × List W)
  locks : σ → D → D → List L
  apply : D → W → D
  keys : W → List L
  covered : ∀ {s snap cur r ws}, eval s snap cur = .ok (r, ws) →
    ∀ w ∈ ws, ∀ k ∈ keys w, k ∈ locks s snap cur

namespace Engine
variable {σ : Type} {ρ : σ → Type} {ε D W L α β : Type} (E : Engine σ ρ ε D W L)

/-- The database as seen through uncommitted writes. -/
def view (db : D) (ws : List W) : D := ws.foldl E.apply db

@[simp] theorem view_nil (db : D) : E.view db [] = db := rfl

@[simp] theorem view_cons (db : D) (w : W) (ws : List W) :
    E.view db (w :: ws) = E.view (E.apply db w) ws := rfl

@[simp] theorem view_append (db : D) (ws ws' : List W) :
    E.view db (ws ++ ws') = E.view (E.view db ws) ws' := List.foldl_append

/-- A body run with no other transaction, from its first statement to its result. -/
def exec : Prog σ ρ ε α → D → Except ε (α × D)
  | .pure a, db => .ok (a, db)
  | .throw e, _ => .error e
  | .exec s k, db =>
    match E.eval s db db with
    | .ok (r, ws) => exec (k r) (E.view db ws)
    | .error e => .error e

/-- BEGIN, the body, and COMMIT or ROLLBACK. -/
def transact (p : Prog σ ρ ε α) (db : D) : Except ε α × D :=
  match E.exec p db with
  | .ok (a, db') => (.ok a, db')
  | .error e => (.error e, db)

@[simp] theorem exec_pure (a : α) (db : D) :
    E.exec (Pure.pure a : Prog σ ρ ε α) db = .ok (a, db) := rfl

@[simp] theorem exec_throw (e : ε) (db : D) :
    E.exec (.throw e : Prog σ ρ ε α) db = .error e := rfl

theorem exec_exec {s : σ} {k : ρ s → Prog σ ρ ε α} {db : D} {r : ρ s} {ws : List W}
    (h : E.eval s db db = .ok (r, ws)) :
    E.exec (.exec s k) db = E.exec (k r) (E.view db ws) := by
  simp only [exec, h]

theorem exec_error {s : σ} {k : ρ s → Prog σ ρ ε α} {db : D} {e : ε}
    (h : E.eval s db db = .error e) : E.exec (.exec s k) db = .error e := by
  simp only [exec, h]

theorem exec_bind (p : Prog σ ρ ε α) (f : α → Prog σ ρ ε β) (db : D) :
    E.exec (p >>= f) db = E.exec p db >>= fun r => E.exec (f r.1) r.2 := by
  induction p generalizing db with
  | pure => rfl
  | throw => rfl
  | exec s k ih =>
    simp only [Prog.exec_bind, exec]
    cases E.eval s db db with
    | error e => rfl
    | ok r => exact ih _ _

end Engine
end Txn
