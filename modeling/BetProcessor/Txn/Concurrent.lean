import Mathlib.Data.Fintype.Basic
import Mathlib.Order.Basic
import BetProcessor.Txn.Program

namespace Txn
set_option autoImplicit true

/-- What an open transaction has done: the statements it has started, its uncommitted writes
and the locks it holds until it ends. -/
structure Sess (σ W L : Type) where
  hist : List σ
  writes : List W
  held : List L

namespace Sess

def fresh : Sess σ W L := ⟨[], [], []⟩

def start (st : Sess σ W L) (s : σ) : Sess σ W L := { st with hist := st.hist ++ [s] }

def finish (st : Sess σ W L) (ws : List W) (ls : List L) : Sess σ W L :=
  { st with writes := st.writes ++ ws, held := st.held ++ ls }

@[simp] theorem start_hist (st : Sess σ W L) (s : σ) : (st.start s).hist = st.hist ++ [s] := rfl
@[simp] theorem start_writes (st : Sess σ W L) (s : σ) : (st.start s).writes = st.writes := rfl
@[simp] theorem start_held (st : Sess σ W L) (s : σ) : (st.start s).held = st.held := rfl
@[simp] theorem finish_hist (st : Sess σ W L) (ws : List W) (ls : List L) :
    (st.finish ws ls).hist = st.hist := rfl
@[simp] theorem finish_writes (st : Sess σ W L) (ws : List W) (ls : List L) :
    (st.finish ws ls).writes = st.writes ++ ws := rfl
@[simp] theorem finish_held (st : Sess σ W L) (ws : List W) (ls : List L) :
    (st.finish ws ls).held = st.held ++ ls := rfl

/-- A later moment of the same open transaction. -/
instance : Preorder (Sess σ W L) where
  le st st' := st.hist <+: st'.hist ∧ st.writes <+: st'.writes ∧ st.held ⊆ st'.held
  le_refl _ := ⟨List.prefix_rfl, List.prefix_rfl, List.Subset.refl _⟩
  le_trans _ _ _ h h' := ⟨h.1.trans h'.1, h.2.1.trans h'.2.1, fun _ hk => h'.2.2 (h.2.2 hk)⟩

theorem le_start (st : Sess σ W L) (s : σ) : st ≤ st.start s :=
  ⟨List.prefix_append _ _, List.prefix_rfl, List.Subset.refl _⟩

theorem le_finish (st : Sess σ W L) (ws : List W) (ls : List L) : st ≤ st.finish ws ls :=
  ⟨List.prefix_rfl, List.prefix_append _ _, List.subset_append_left _ _⟩

theorem le_run (st : Sess σ W L) (s : σ) (ws : List W) (ls : List L) :
    st ≤ (st.start s).finish ws ls := le_trans (le_start _ _) (le_finish _ _ _)

end Sess

/-- One client of the database.  Between the start and the end of a statement the session
keeps the snapshot that the statement took. -/
inductive Session (σ : Type) (ρ : σ → Type) (ε D W L α : Type) where
  | active (st : Sess σ W L) (snap : Option D) (p : Prog σ ρ ε α)
  | done (r : Except ε α)

namespace Session
variable {σ : Type} {ρ : σ → Type} {ε D W L α : Type}

/-- What the transaction has done; a closed one holds and leaves nothing. -/
def state : Session σ ρ ε D W L α → Sess σ W L
  | .active st _ _ => st
  | .done _ => .fresh

/-- The snapshot of the statement that has started. -/
def snapshot? : Session σ ρ ε D W L α → Option D
  | .active _ snap _ => snap
  | .done _ => none

def held : Session σ ρ ε D W L α → List L
  | .active st _ _ => st.held
  | .done _ => []

def writes : Session σ ρ ε D W L α → List W
  | .active st _ _ => st.writes
  | .done _ => []

def result? : Session σ ρ ε D W L α → Option (Except ε α)
  | .active _ _ _ => none
  | .done r => some r

theorem eq_done {x : Session σ ρ ε D W L α} {r : Except ε α} (h : x.result? = some r) :
    x = .done r := by
  cases x with
  | active => cases h
  | done r' => exact congrArg done (Option.some.inj h)

theorem done_of_result? {x : Session σ ρ ε D W L α} (h : x.result?.isSome) :
    ∃ r, x = .done r := by
  cases x with
  | active => cases h
  | done r => exact ⟨r, rfl⟩

@[simp] theorem held_active (st : Sess σ W L) (snap : Option D) (p : Prog σ ρ ε α) :
    (active st snap p).held = st.held := rfl
@[simp] theorem held_done (r : Except ε α) :
    (done r : Session σ ρ ε D W L α).held = [] := rfl
@[simp] theorem writes_active (st : Sess σ W L) (snap : Option D) (p : Prog σ ρ ε α) :
    (active st snap p).writes = st.writes := rfl
@[simp] theorem writes_done (r : Except ε α) :
    (done r : Session σ ρ ε D W L α).writes = [] := rfl

end Session

/-- The committed database and the sessions. -/
structure Config (ι σ : Type) (ρ : σ → Type) (ε D W L α : Type) where
  db : D
  sess : ι → Session σ ρ ε D W L α

inductive Label (ι σ ε : Type) where
  | start (i : ι)
  | finish (i : ι) (s : σ)
  | commit (i : ι)
  | rollback (i : ι)
  | abort (i : ι) (e : ε)

def Label.session : Label ι σ ε → ι
  | .start i | .finish i _ | .commit i | .rollback i | .abort i _ => i

def Label.IsAbort : Label ι σ ε → Prop
  | .abort _ _ => True
  | _ => False

instance : DecidablePred (Label.IsAbort : Label ι σ ε → Prop)
  | .abort _ _ => instDecidableTrue
  | .start _ | .finish _ _ | .commit _ | .rollback _ => instDecidableFalse

section
variable {ι σ : Type} {ρ : σ → Type} {ε D W L α : Type}
variable [DecidableEq ι]

def Config.set (c : Config ι σ ρ ε D W L α) (i : ι) (x : Session σ ρ ε D W L α) :
    Config ι σ ρ ε D W L α := ⟨c.db, Function.update c.sess i x⟩

/-- A new committed database. -/
def Config.install (c : Config ι σ ρ ε D W L α) (db : D) : Config ι σ ρ ε D W L α :=
  ⟨db, c.sess⟩

omit [DecidableEq ι] in
@[simp] theorem Config.install_db (c : Config ι σ ρ ε D W L α) (db : D) :
    (c.install db).db = db := rfl

omit [DecidableEq ι] in
@[simp] theorem Config.install_sess (c : Config ι σ ρ ε D W L α) (db : D) :
    (c.install db).sess = c.sess := rfl

@[simp] theorem Config.set_db (c : Config ι σ ρ ε D W L α) (i : ι)
    (x : Session σ ρ ε D W L α) : (c.set i x).db = c.db := rfl

@[simp] theorem Config.set_self (c : Config ι σ ρ ε D W L α) (i : ι)
    (x : Session σ ρ ε D W L α) : (c.set i x).sess i = x := Function.update_self ..

theorem Config.set_other (c : Config ι σ ρ ε D W L α) {i j : ι} (h : j ≠ i)
    (x : Session σ ρ ε D W L α) : (c.set i x).sess j = c.sess j := Function.update_of_ne h ..

end

/-- All transactions at their first statement. -/
def Config.init {ρ : σ → Type} (progs : ι → Prog σ ρ ε α) (db : D) :
    Config ι σ ρ ε D W L α := ⟨db, fun i => .active .fresh none (progs i)⟩

namespace Engine
variable {ι σ : Type} {ρ : σ → Type} {ε D W L α : Type}
variable (E : Engine σ ρ ε D W L)

/-- No other open transaction holds a lock the statement needs. -/
def Free (c : Config ι σ ρ ε D W L α) (i : ι) (ls : List L) : Prop :=
  ∀ j, j ≠ i → ∀ k ∈ ls, k ∉ (c.sess j).held

instance [Fintype ι] [DecidableEq ι] [DecidableEq L] (c : Config ι σ ρ ε D W L α) (i : ι)
    (ls : List L) : Decidable (Free c i ls) :=
  inferInstanceAs (Decidable (∀ j, j ≠ i → ∀ k ∈ ls, k ∉ (c.sess j).held))

/-- One step of the scheduler.  A statement that needs a lock held elsewhere cannot finish, so
it waits with the snapshot it has. -/
def step [Fintype ι] [DecidableEq ι] [DecidableEq L] [DecidableEq σ]
    (c : Config ι σ ρ ε D W L α) : Label ι σ ε → Option (Config ι σ ρ ε D W L α)
  | .start i =>
    match c.sess i with
    | .active st none (.exec s k) =>
      some (c.set i (.active (st.start s) (some c.db) (.exec s k)))
    | _ => none
  | .finish i s =>
    match c.sess i with
    | .active st (some snap) (.exec s' k) =>
      if s' = s ∧ Free c i (E.locks s' (E.view snap st.writes) (E.view c.db st.writes)) then
        match E.eval s' (E.view snap st.writes) (E.view c.db st.writes) with
        | .ok (r, ws) => some (c.set i (.active (st.finish ws
            (E.locks s' (E.view snap st.writes) (E.view c.db st.writes))) none (k r)))
        | .error e => some (c.set i (.active st none (.throw e)))
      else none
    | _ => none
  | .commit i =>
    match c.sess i with
    | .active st none (.pure a) =>
      some ((c.set i (.done (.ok a))).install (E.view c.db st.writes))
    | _ => none
  | .rollback i =>
    match c.sess i with
    | .active _ none (.throw e) => some (c.set i (.done (.error e)))
    | _ => none
  | .abort i e =>
    match c.sess i with
    | .active _ _ _ => some (c.set i (.done (.error e)))
    | .done _ => none

/-- The six things a step can do. -/
inductive Moves [DecidableEq ι] (c : Config ι σ ρ ε D W L α) :
    Label ι σ ε → Config ι σ ρ ε D W L α → Prop where
  | start {i st s k} (h : c.sess i = .active st none (.exec s k)) :
    Moves c (.start i) (c.set i (.active (st.start s) (some c.db) (.exec s k)))
  | finish {i st snap s k r ws} (h : c.sess i = .active st (some snap) (.exec s k))
    (hf : Free c i (E.locks s (E.view snap st.writes) (E.view c.db st.writes)))
    (he : E.eval s (E.view snap st.writes) (E.view c.db st.writes) = .ok (r, ws)) :
    Moves c (.finish i s) (c.set i (.active (st.finish ws
      (E.locks s (E.view snap st.writes) (E.view c.db st.writes))) none (k r)))
  | fail {i st snap s k e} (h : c.sess i = .active st (some snap) (.exec s k))
    (hf : Free c i (E.locks s (E.view snap st.writes) (E.view c.db st.writes)))
    (he : E.eval s (E.view snap st.writes) (E.view c.db st.writes) = .error e) :
    Moves c (.finish i s) (c.set i (.active st none (.throw e)))
  | commit {i st a} (h : c.sess i = .active st none (.pure a)) :
    Moves c (.commit i) ((c.set i (.done (.ok a))).install (E.view c.db st.writes))
  | rollback {i st e} (h : c.sess i = .active st none (.throw e)) :
    Moves c (.rollback i) (c.set i (.done (.error e)))
  | abort {i st snap p e} (h : c.sess i = .active st snap p) :
    Moves c (.abort i e) (c.set i (.done (.error e)))

variable [Fintype ι] [DecidableEq ι] [DecidableEq L] [DecidableEq σ]

theorem moves_of_step {c c' : Config ι σ ρ ε D W L α} {l : Label ι σ ε}
    (h : E.step c l = some c') : E.Moves c l c' := by
  cases l with
  | start i =>
    simp only [step] at h
    split at h
    · cases h; exact .start ‹_›
    · cases h
  | finish i s =>
    simp only [step] at h
    split at h
    · split at h
      · obtain ⟨rfl, hf⟩ := ‹_ ∧ _›
        split at h
        · cases h; exact .finish ‹_› hf ‹_›
        · cases h; exact .fail ‹_› hf ‹_›
      · cases h
    · cases h
  | commit i =>
    simp only [step] at h
    split at h
    · cases h; exact .commit ‹_›
    · cases h
  | rollback i =>
    simp only [step] at h
    split at h
    · cases h; exact .rollback ‹_›
    · cases h
  | abort i e =>
    simp only [step] at h
    split at h
    · cases h; exact .abort ‹_›
    · cases h

theorem step_of_moves {c c' : Config ι σ ρ ε D W L α} {l : Label ι σ ε}
    (h : E.Moves c l c') : E.step c l = some c' := by
  cases h with
  | start hi => simp only [step, hi]
  | finish hi hf he => simp only [step, hi, he, hf, and_self, if_true]
  | fail hi hf he => simp only [step, hi, he, hf, and_self, if_true]
  | commit hi => simp only [step, hi]
  | rollback hi => simp only [step, hi]
  | abort hi => simp only [step, hi]

/-- A run from `c₀`, every step of which satisfies `ok` in the configuration it starts from. -/
inductive Run (ok : Config ι σ ρ ε D W L α → Label ι σ ε → Prop)
    (c₀ : Config ι σ ρ ε D W L α) : List (Label ι σ ε) → Config ι σ ρ ε D W L α → Prop where
  | nil : Run ok c₀ [] c₀
  | snoc {ls c l c'} : Run ok c₀ ls c → ok c l → E.step c l = some c' →
    Run ok c₀ (ls ++ [l]) c'

theorem Run.history {ok : Config ι σ ρ ε D W L α → Label ι σ ε → Prop}
    {P : List (Label ι σ ε) → Config ι σ ρ ε D W L α → Prop} {c₀ c : Config ι σ ρ ε D W L α}
    {ls : List (Label ι σ ε)} (hr : E.Run ok c₀ ls c) (h₀ : P [] c₀)
    (hs : ∀ {ls c l c'}, P ls c → ok c l → E.Moves c l c' → P (ls ++ [l]) c') : P ls c := by
  induction hr with
  | nil => exact h₀
  | snoc _ hok h ih => exact hs ih hok (E.moves_of_step h)

theorem Run.invariant {ok : Config ι σ ρ ε D W L α → Label ι σ ε → Prop}
    {P : Config ι σ ρ ε D W L α → Prop} {c₀ c : Config ι σ ρ ε D W L α}
    {ls : List (Label ι σ ε)} (hr : E.Run ok c₀ ls c) (h₀ : P c₀)
    (hs : ∀ {c l c'}, P c → ok c l → E.Moves c l c' → P c') : P c :=
  hr.history E (P := fun _ c => P c) h₀ hs

theorem Run.split {ok : Config ι σ ρ ε D W L α → Label ι σ ε → Prop}
    {c₀ c : Config ι σ ρ ε D W L α} {ls ls' : List (Label ι σ ε)}
    (hr : E.Run ok c₀ (ls ++ ls') c) : ∃ c₁, E.Run ok c₀ ls c₁ ∧ E.Run ok c₁ ls' c := by
  induction ls' using List.reverseRecOn generalizing c with
  | nil => exact ⟨c, by simpa using hr, .nil⟩
  | append_singleton ls' l ih =>
    rw [← List.append_assoc] at hr
    generalize hks : ls ++ ls' ++ [l] = ks at hr
    cases hr with
    | nil => simp at hks
    | @snoc ks' c' l' _ hr' hok hstep =>
      obtain ⟨rfl, hl⟩ := List.append_inj' hks rfl
      obtain rfl : l = l' := by simpa using hl
      obtain ⟨c₁, h₁, h₂⟩ := ih hr'
      exact ⟨c₁, h₁, .snoc h₂ hok hstep⟩

theorem Run.mono {ok ok' : Config ι σ ρ ε D W L α → Label ι σ ε → Prop}
    {c₀ c : Config ι σ ρ ε D W L α} {ls : List (Label ι σ ε)} (hr : E.Run ok c₀ ls c)
    (h : ∀ {c l}, ok c l → ok' c l) : E.Run ok' c₀ ls c := by
  induction hr with
  | nil => exact .nil
  | snoc _ hok hs ih => exact .snoc ih (h hok) hs

theorem Run.single {ok : Config ι σ ρ ε D W L α → Label ι σ ε → Prop}
    {c c' : Config ι σ ρ ε D W L α} {l : Label ι σ ε} (hr : E.Run ok c [l] c') :
    E.Moves c l c' := by
  generalize hks : [l] = ks at hr
  cases hr with
  | nil => simp at hks
  | @snoc ks' c₁ l' _ hr' hok hstep =>
    obtain ⟨rfl, hl⟩ := List.append_inj' (show [] ++ [l] = ks' ++ [l'] from hks) rfl
    obtain rfl : l = l' := by simpa using hl
    generalize hnil : ([] : List (Label ι σ ε)) = ks at hr'
    cases hr' with
    | nil => exact E.moves_of_step hstep
    | snoc => simp at hnil

theorem Run.trans {ok : Config ι σ ρ ε D W L α → Label ι σ ε → Prop}
    {c c₁ c₂ : Config ι σ ρ ε D W L α} {ls ls' : List (Label ι σ ε)} (hr : E.Run ok c ls c₁)
    (hr' : E.Run ok c₁ ls' c₂) : E.Run ok c (ls ++ ls') c₂ := by
  induction hr' with
  | nil => rwa [List.append_nil]
  | snoc _ hok hs ih =>
    rw [← List.append_assoc]
    exact .snoc ih hok hs

/-- The next step of a session by itself. -/
def next (c : Config ι σ ρ ε D W L α) (i : ι) : Option (Label ι σ ε) :=
  match c.sess i with
  | .active _ none (.exec _ _) => some (.start i)
  | .active _ (some _) (.exec s _) => some (.finish i s)
  | .active _ none (.pure _) => some (.commit i)
  | .active _ none (.throw _) => some (.rollback i)
  | _ => none

/-- Let the sessions step in the given order, as long as their steps satisfy `ok`. -/
def driveIf (ok : Config ι σ ρ ε D W L α → Label ι σ ε → Prop) [∀ c l, Decidable (ok c l)]
    (c : Config ι σ ρ ε D W L α) :
    List ι → Option (List (Label ι σ ε) × Config ι σ ρ ε D W L α)
  | [] => some ([], c)
  | i :: is =>
    (next c i).bind fun l =>
      if ok c l then (E.step c l).bind fun c' => (driveIf ok c' is).map fun r => (l :: r.1, r.2)
      else none

/-- Let the sessions step in the given order. -/
def drive (c : Config ι σ ρ ε D W L α) (is : List ι) :
    Option (List (Label ι σ ε) × Config ι σ ρ ε D W L α) := E.driveIf (fun _ _ => True) c is

section
variable (ok : Config ι σ ρ ε D W L α → Label ι σ ε → Prop) [∀ c l, Decidable (ok c l)]

theorem Run.of_drive {c c' : Config ι σ ρ ε D W L α} {is : List ι} {ls : List (Label ι σ ε)}
    (h : E.driveIf ok c is = some (ls, c')) : E.Run ok c ls c' := by
  induction is generalizing c ls with
  | nil => cases h; exact .nil
  | cons i is ih =>
    obtain ⟨l, _, h⟩ := Option.bind_eq_some_iff.1 h
    split at h
    · obtain ⟨c₁, hl, h⟩ := Option.bind_eq_some_iff.1 h
      obtain ⟨⟨ls', c₂⟩, hd, he⟩ := Option.map_eq_some_iff.1 h
      cases he
      exact Run.trans E (.snoc .nil ‹ok c l› hl) (ih hd)
    · cases h

theorem Run.exists_of_driveIf {c : Config ι σ ρ ε D W L α} (is : List ι)
    {p : List (Label ι σ ε) × Config ι σ ρ ε D W L α → Bool}
    (h : (E.driveIf ok c is).any p = true) :
    ∃ ls c', E.Run ok c ls c' ∧ p (ls, c') = true := by
  cases hd : E.driveIf ok c is with
  | none => rw [hd] at h; cases h
  | some r => rw [hd] at h; exact ⟨r.1, r.2, Run.of_drive E ok hd, h⟩

end

theorem Run.exists_of_drive {c : Config ι σ ρ ε D W L α} (is : List ι)
    {p : List (Label ι σ ε) × Config ι σ ρ ε D W L α → Bool} (h : (E.drive c is).any p = true) :
    ∃ ls c', E.Run (fun _ _ => True) c ls c' ∧ p (ls, c') = true :=
  exists_of_driveIf E _ is h

/-- Two open transactions never hold the same lock. -/
def Exclusive (c : Config ι σ ρ ε D W L α) : Prop :=
  ∀ i j, i ≠ j → ∀ k ∈ (c.sess i).held, k ∉ (c.sess j).held

/-- Every uncommitted write is protected by locks of its transaction. -/
def Covered (c : Config ι σ ρ ε D W L α) : Prop :=
  ∀ i, ∀ w ∈ (c.sess i).writes, ∀ k ∈ E.keys w, k ∈ (c.sess i).held

omit [Fintype ι] [DecidableEq L] [DecidableEq σ] in
theorem Exclusive.set {c : Config ι σ ρ ε D W L α} {i : ι} {x : Session σ ρ ε D W L α}
    (h : Exclusive c) (hx : ∀ j, j ≠ i → ∀ k ∈ x.held, k ∉ (c.sess j).held) :
    Exclusive (c.set i x) := by
  intro j₁ j₂ hne k hk
  by_cases h₁ : j₁ = i
  · subst h₁
    rw [Config.set_self] at hk
    rw [Config.set_other _ hne.symm]
    exact hx _ hne.symm _ hk
  · rw [Config.set_other _ h₁] at hk
    by_cases h₂ : j₂ = i
    · subst h₂
      rw [Config.set_self]
      exact fun hk' => hx _ h₁ _ hk' hk
    · rw [Config.set_other _ h₂]
      exact h _ _ hne _ hk

omit [Fintype ι] [DecidableEq L] [DecidableEq σ] in
theorem Covered.set {c : Config ι σ ρ ε D W L α} {i : ι} {x : Session σ ρ ε D W L α}
    (h : E.Covered c) (hx : ∀ w ∈ x.writes, ∀ k ∈ E.keys w, k ∈ x.held) :
    E.Covered (c.set i x) := by
  intro j
  by_cases hj : j = i
  · subst hj; rw [Config.set_self]; exact hx
  · rw [Config.set_other _ hj]; exact h j

omit [Fintype ι] [DecidableEq L] [DecidableEq σ] [DecidableEq ι] in
theorem Exclusive.install {c : Config ι σ ρ ε D W L α} (h : Exclusive c) (db : D) :
    Exclusive (c.install db) := h

omit [Fintype ι] [DecidableEq L] [DecidableEq σ] [DecidableEq ι] in
theorem Covered.install {c : Config ι σ ρ ε D W L α} (h : E.Covered c) (db : D) :
    E.Covered (c.install db) := h

omit [Fintype ι] [DecidableEq L] [DecidableEq σ] in
theorem Exclusive.moves {c c' : Config ι σ ρ ε D W L α} {l : Label ι σ ε}
    (h : Exclusive c) (hm : E.Moves c l c') : Exclusive c' := by
  cases hm with
  | start hi => exact h.set fun j hj k hk => h _ j hj.symm k (by rw [hi]; exact hk)
  | finish hi hf he =>
    apply h.set
    intro j hj k hk
    rcases List.mem_append.1 hk with hk | hk
    · exact h _ j hj.symm k (by rw [hi]; exact hk)
    · exact hf j hj k hk
  | fail hi hf he => exact h.set fun j hj k hk => h _ j hj.symm k (by rw [hi]; exact hk)
  | commit hi => exact Exclusive.install (h.set fun j hj k hk => by cases hk) _
  | rollback hi => exact h.set fun j hj k hk => by cases hk
  | abort hi => exact h.set fun j hj k hk => by cases hk

omit [Fintype ι] [DecidableEq L] [DecidableEq σ] in
theorem Covered.moves {c c' : Config ι σ ρ ε D W L α} {l : Label ι σ ε}
    (h : E.Covered c) (hm : E.Moves c l c') : E.Covered c' := by
  cases hm with
  | @start i st s k hi =>
    have hc := h i
    rw [hi] at hc
    exact h.set E hc
  | @finish i st snap s k r ws hi hf he =>
    apply h.set
    intro w hw k hk
    have hc := h i
    rw [hi] at hc
    rcases List.mem_append.1 hw with hw | hw
    · exact List.mem_append_left _ (hc w hw k hk)
    · exact List.mem_append_right _ (E.covered he w hw k hk)
  | @fail i st snap s k e hi hf he =>
    have hc := h i
    rw [hi] at hc
    exact h.set E hc
  | commit hi => exact Covered.install E (h.set E fun w hw => by cases hw) _
  | rollback hi => exact h.set E fun w hw => by cases hw
  | abort hi => exact h.set E fun w hw => by cases hw

/-- The session holds the lock, or has ended. -/
def Keeps (c : Config ι σ ρ ε D W L α) (i : ι) (k : L) : Prop :=
  k ∈ (c.sess i).held ∨ ∃ r, c.sess i = .done r

omit [Fintype ι] [DecidableEq L] [DecidableEq σ] in
theorem Keeps.set {c : Config ι σ ρ ε D W L α} {i j : ι} {k : L} (h : Keeps c i k)
    {x : Session σ ρ ε D W L α} {st : Sess σ W L} {snap : Option D} {p : Prog σ ρ ε α}
    (hj : c.sess j = .active st snap p) (hx : k ∈ st.held → k ∈ x.held ∨ ∃ r, x = .done r) :
    Keeps (c.set j x) i k := by
  by_cases hij : i = j
  · subst hij
    rw [Keeps, Config.set_self]
    rcases h with h | ⟨r, h⟩
    · rw [hj] at h
      exact hx h
    · rw [hj] at h
      cases h
  · rw [Keeps, Config.set_other _ hij]
    exact h

omit [Fintype ι] [DecidableEq L] [DecidableEq σ] in
theorem Keeps.moves {c c' : Config ι σ ρ ε D W L α} {l : Label ι σ ε} {i : ι} {k : L}
    (h : Keeps c i k) (hm : E.Moves c l c') : Keeps c' i k := by
  cases hm with
  | start hi => exact h.set hi Or.inl
  | finish hi hf he => exact h.set hi fun hk => Or.inl (List.mem_append_left _ hk)
  | fail hi hf he => exact h.set hi Or.inl
  | commit hi => exact h.set hi fun _ => Or.inr ⟨_, rfl⟩
  | rollback hi => exact h.set hi fun _ => Or.inr ⟨_, rfl⟩
  | abort hi => exact h.set hi fun _ => Or.inr ⟨_, rfl⟩

theorem Run.keeps {ok : Config ι σ ρ ε D W L α → Label ι σ ε → Prop}
    {c c' : Config ι σ ρ ε D W L α} {ls : List (Label ι σ ε)} {i : ι} {k : L}
    (hr : E.Run ok c ls c') (h : Keeps c i k) : Keeps c' i k :=
  hr.invariant E (P := fun c => Keeps c i k) h fun h _ hm => h.moves E hm

/-- What holds of every open transaction and the committed database. -/
def Sessions (I : ι → Sess σ W L → Option D → Prog σ ρ ε α → D → Prop)
    (c : Config ι σ ρ ε D W L α) : Prop :=
  ∀ i st snap p, c.sess i = .active st snap p → I i st snap p c.db

section
variable {I : ι → Sess σ W L → Option D → Prog σ ρ ε α → D → Prop}

omit [Fintype ι] [DecidableEq L] [DecidableEq σ] in
theorem Sessions.set {c : Config ι σ ρ ε D W L α} {i : ι} {x : Session σ ρ ε D W L α}
    (h : Sessions I c) (hx : ∀ st snap p, x = .active st snap p → I i st snap p c.db) :
    Sessions I (c.set i x) := by
  intro j st snap p hj
  by_cases hij : j = i
  · subst hij
    rw [Config.set_self] at hj
    exact hx st snap p hj
  · rw [Config.set_other _ hij] at hj
    exact h j st snap p hj

/-- What every open transaction keeps by its own steps and through the commits of the others
holds in every run. -/
theorem Run.sessions {ok : Config ι σ ρ ε D W L α → Label ι σ ε → Prop}
    {progs : ι → Prog σ ρ ε α} {db₀ : D} {c : Config ι σ ρ ε D W L α} {ls : List (Label ι σ ε)}
    (hr : E.Run ok (.init progs db₀) ls c) (h₀ : ∀ i, I i .fresh none (progs i) db₀)
    (start : ∀ {i st s k db}, I i st none (.exec s k) db →
      I i (st.start s) (some db) (.exec s k) db)
    (finish : ∀ {c i st snap s k r ws}, c.sess i = .active st (some snap) (.exec s k) →
      ok c (.finish i s) → I i st (some snap) (.exec s k) c.db →
      E.eval s (E.view snap st.writes) (E.view c.db st.writes) = .ok (r, ws) →
      I i (st.finish ws (E.locks s (E.view snap st.writes) (E.view c.db st.writes))) none (k r)
        c.db)
    (fail : ∀ {i st snap s k db e}, I i st (some snap) (.exec s k) db →
      E.eval s (E.view snap st.writes) (E.view db st.writes) = .error e →
      I i st none (.throw e) db)
    (others : ∀ {i j st snap p st' a db}, I i st snap p db → I j st' none (.pure a) db →
      (∀ w ∈ st.writes, ∀ k ∈ E.keys w, k ∈ st.held) →
      (∀ w ∈ st'.writes, ∀ k ∈ E.keys w, k ∈ st'.held) → (∀ k ∈ st.held, k ∉ st'.held) →
      I i st snap p (E.view db st'.writes)) : Sessions I c := by
  have hall : Exclusive c ∧ E.Covered c ∧ Sessions I c := by
    apply hr.invariant E (P := fun c => Exclusive c ∧ E.Covered c ∧ Sessions I c)
    · refine ⟨?_, ?_, ?_⟩
      · intro i j _ k hk
        cases hk
      · intro i w hw
        cases hw
      · intro i st snap p hi
        cases hi
        exact h₀ i
    · rintro c l c' ⟨hex, hcov, h⟩ hok hm
      refine ⟨Exclusive.moves E hex hm, Covered.moves E hcov hm, ?_⟩
      cases hm with
      | start hi =>
        apply h.set
        rintro st snap p ⟨⟩
        exact start (h _ _ _ _ hi)
      | finish hi _ he =>
        apply h.set
        rintro st snap p ⟨⟩
        exact finish hi hok (h _ _ _ _ hi) he
      | fail hi _ he =>
        apply h.set
        rintro st snap p ⟨⟩
        exact fail (h _ _ _ _ hi) he
      | @commit i st a hi =>
        intro j st' snap p hj
        rw [Config.install_sess] at hj
        by_cases hji : j = i
        · subst hji
          rw [Config.set_self] at hj
          cases hj
        · rw [Config.set_other _ hji] at hj
          have hlock := hex j i hji
          have hown := hcov j
          have hother := hcov i
          rw [hj, hi] at hlock
          rw [hj] at hown
          rw [hi] at hother
          exact others (h _ _ _ _ hj) (h _ _ _ _ hi) hown hother hlock
      | rollback =>
        apply h.set
        rintro st snap p ⟨⟩
      | abort =>
        apply h.set
        rintro st snap p ⟨⟩
  exact hall.2.2

theorem Run.failed {ok : Config ι σ ρ ε D W L α → Label ι σ ε → Prop}
    {progs : ι → Prog σ ρ ε α} {db₀ : D} {c : Config ι σ ρ ε D W L α} {ls : List (Label ι σ ε)}
    {i : ι} {e : ε} (hr : E.Run ok (.init progs db₀) ls c) (hi : c.sess i = .done (.error e)) :
    Label.abort i e ∈ ls ∨ ∃ ls' c' st, E.Run ok (.init progs db₀) ls' c' ∧
      c'.sess i = .active st none (.throw e) := by
  induction hr with
  | nil => cases hi
  | @snoc ls c l c' hr hok hs ih =>
    have hback : ∀ {j x}, (c.set j x).sess i = .done (.error e) → x ≠ .done (.error e) →
        Label.abort i e ∈ ls ++ [l] ∨ ∃ ls' c' st, E.Run ok (.init progs db₀) ls' c' ∧
          c'.sess i = .active st none (.throw e) := by
      intro j x hx hne
      by_cases hij : i = j
      · subst hij
        rw [Config.set_self] at hx
        exact absurd hx hne
      · rw [Config.set_other _ hij] at hx
        exact (ih hx).imp_left (List.mem_append_left _)
    have hm := E.moves_of_step hs
    cases hm with
    | start => exact hback hi nofun
    | finish => exact hback hi nofun
    | fail => exact hback hi nofun
    | commit => exact hback hi nofun
    | @rollback j st e' hj =>
      by_cases he : j = i ∧ e' = e
      · obtain ⟨rfl, rfl⟩ := he
        exact Or.inr ⟨ls, c, st, hr, hj⟩
      · by_cases hij : i = j
        · subst hij
          rw [Config.set_self] at hi
          cases hi
          exact absurd ⟨rfl, rfl⟩ he
        · rw [Config.set_other _ hij] at hi
          exact (ih hi).imp_left (List.mem_append_left _)
    | @abort j st snap p e' hj =>
      by_cases hij : i = j
      · subst hij
        rw [Config.set_self] at hi
        cases hi
        exact Or.inl (List.mem_append_right _ (List.mem_singleton.2 rfl))
      · rw [Config.set_other _ hij] at hi
        exact (ih hi).imp_left (List.mem_append_left _)

end

end Engine
end Txn
