import Mathlib.Algebra.BigOperators.Group.Finset.Basic
import Mathlib.Algebra.Order.BigOperators.Group.Finset
import BetProcessor.Txn.Progress

namespace Txn
set_option autoImplicit true

/-- Where a transaction is with the client that it needs from its pool. -/
inductive Client where
  | idle
  | waiting
  | lent
  | returned
  deriving DecidableEq, Repr

/-- How many steps the client is away from its return. -/
def Client.distance : Client → Nat
  | idle => 3
  | waiting => 2
  | lent => 1
  | returned => 0

/-- Transactions that run on the clients of pools. -/
structure Pooled (ι σ : Type) (ρ : σ → Type) (ε D W L α : Type) where
  config : Config ι σ ρ ε D W L α
  client : ι → Client

inductive PoolEvent (ι σ ε : Type) where
  | ask (i : ι)
  | lend (i : ι)
  | run (l : Label ι σ ε)
  | giveBack (i : ι)
  | giveUp (i : ι)

namespace PoolEvent
variable {ι σ ε : Type}

/-- An abort by the database, or a transaction that stops waiting for a client. -/
def IsFailure : PoolEvent ι σ ε → Prop
  | run l => l.IsAbort
  | giveUp _ => True
  | _ => False

def label? : PoolEvent ι σ ε → Option (Label ι σ ε)
  | run l => some l
  | _ => none

end PoolEvent

namespace Pooled
variable {ι π σ : Type} {ρ : σ → Type} {ε D W L α : Type}

def start (progs : ι → Prog σ ρ ε α) (db : D) : Pooled ι σ ρ ε D W L α where
  config := .init progs db
  client _ := .idle

variable [Fintype ι] [DecidableEq ι] [DecidableEq π]
variable (E : Engine σ ρ ε D W L) (pool : ι → π) (size : π → Nat)

/-- How many clients of a pool are lent. -/
def lentBy (s : Pooled ι σ ρ ε D W L α) (p : π) : Nat :=
  (Finset.univ.filter fun i => pool i = p ∧ s.client i = .lent).card

def move (s : Pooled ι σ ρ ε D W L α) (i : ι) (x : Client) : Pooled ι σ ρ ε D W L α :=
  { s with client := Function.update s.client i x }

/-- A client is lent to some transaction that waits for one of its pool, as long as the pool has
one left, and given back when the transaction has ended. -/
def step [DecidableEq L] [DecidableEq σ] (s : Pooled ι σ ρ ε D W L α) :
    PoolEvent ι σ ε → Option (Pooled ι σ ρ ε D W L α)
  | .ask i => if s.client i = .idle then some (s.move i .waiting) else none
  | .lend i =>
    if s.client i = .waiting ∧ s.lentBy pool (pool i) < size (pool i) then
      some (s.move i .lent)
    else none
  | .run l =>
    if s.client l.session = .lent then
      (E.step s.config l).map fun config => { s with config }
    else none
  | .giveBack i =>
    if s.client i = .lent ∧ (s.config.sess i).result?.isSome then
      some (s.move i .returned)
    else none
  | .giveUp i => if s.client i = .waiting then some (s.move i .returned) else none

/-- What each event does. -/
inductive Moves (s : Pooled ι σ ρ ε D W L α) :
    PoolEvent ι σ ε → Pooled ι σ ρ ε D W L α → Prop where
  | ask {i} (h : s.client i = .idle) : Moves s (.ask i) (s.move i .waiting)
  | lend {i} (h : s.client i = .waiting) (hroom : s.lentBy pool (pool i) < size (pool i)) :
    Moves s (.lend i) (s.move i .lent)
  | run {l config} (h : s.client l.session = .lent) (hm : E.Moves s.config l config) :
    Moves s (.run l) { s with config }
  | giveBack {i r} (h : s.client i = .lent) (hdone : s.config.sess i = .done r) :
    Moves s (.giveBack i) (s.move i .returned)
  | giveUp {i} (h : s.client i = .waiting) : Moves s (.giveUp i) (s.move i .returned)

section
variable [DecidableEq L] [DecidableEq σ]

/-- A run, every event of which satisfies `ok`. -/
inductive Run (ok : PoolEvent ι σ ε → Prop) (s₀ : Pooled ι σ ρ ε D W L α) :
    List (PoolEvent ι σ ε) → Pooled ι σ ρ ε D W L α → Prop where
  | nil : Run ok s₀ [] s₀
  | snoc {es s e s'} : Run ok s₀ es s → ok e → s.step E pool size e = some s' →
    Run ok s₀ (es ++ [e]) s'

/-- `s'` comes right after `s` in some run. -/
def OneStep (s' s : Pooled ι σ ρ ε D W L α) : Prop := ∃ e, s.step E pool size e = some s'

/-- The state after the events, when they can happen in this order. -/
def drive (s : Pooled ι σ ρ ε D W L α) (es : List (PoolEvent ι σ ε)) :
    Option (Pooled ι σ ρ ε D W L α) :=
  es.foldlM (fun s e => s.step E pool size e) s

end

variable {E pool size} {s s' : Pooled ι σ ρ ε D W L α} {e : PoolEvent ι σ ε} {i j : ι} {x : Client}
variable {progs : ι → Prog σ ρ ε α}

omit [Fintype ι] in
@[simp] theorem move_config : (s.move i x).config = s.config := rfl

omit [Fintype ι] in
@[simp] theorem move_self : (s.move i x).client i = x := Function.update_self ..

omit [Fintype ι] in
theorem move_other (h : j ≠ i) : (s.move i x).client j = s.client j :=
  Function.update_of_ne h ..

theorem moves_of_step [DecidableEq L] [DecidableEq σ] (h : s.step E pool size e = some s') :
    Moves E pool size s e s' := by
  cases e with
  | ask i =>
    obtain ⟨hidle, h⟩ := Option.ite_none_right_eq_some.1 h
    cases h
    exact .ask hidle
  | lend i =>
    obtain ⟨⟨hwaiting, hroom⟩, h⟩ := Option.ite_none_right_eq_some.1 h
    cases h
    exact .lend hwaiting hroom
  | run l =>
    obtain ⟨hlent, h⟩ := Option.ite_none_right_eq_some.1 h
    obtain ⟨config, hstep, rfl⟩ := Option.map_eq_some_iff.1 h
    exact .run hlent (E.moves_of_step hstep)
  | giveBack i =>
    obtain ⟨⟨hlent, hdone⟩, h⟩ := Option.ite_none_right_eq_some.1 h
    cases h
    obtain ⟨r, hr⟩ := Session.done_of_result? hdone
    exact .giveBack hlent hr
  | giveUp i =>
    obtain ⟨hwaiting, h⟩ := Option.ite_none_right_eq_some.1 h
    cases h
    exact .giveUp hwaiting

theorem lentBy_move_le (hx : x ≠ .lent) (p : π) :
    (s.move i x).lentBy pool p ≤ s.lentBy pool p := by
  apply Finset.card_le_card
  intro j hj
  simp only [Finset.mem_filter, Finset.mem_univ, true_and] at hj ⊢
  by_cases hji : j = i
  · rw [hji, move_self] at hj
    exact absurd hj.2 hx
  · rwa [move_other hji] at hj

theorem lentBy_lend_le (p : π) (hroom : s.lentBy pool (pool i) < size (pool i))
    (hsize : s.lentBy pool p ≤ size p) : (s.move i .lent).lentBy pool p ≤ size p := by
  by_cases hp : pool i = p
  · subst hp
    have hle : (s.move i .lent).lentBy pool (pool i) ≤ s.lentBy pool (pool i) + 1 := by
      refine (Finset.card_le_card ?_).trans (Finset.card_insert_le i _)
      intro j hj
      simp only [Finset.mem_insert, Finset.mem_filter, Finset.mem_univ, true_and] at hj ⊢
      by_cases hji : j = i
      · exact Or.inl hji
      · rw [move_other hji] at hj
        exact Or.inr hj
    omega
  · refine le_trans (Finset.card_le_card ?_) hsize
    intro j hj
    simp only [Finset.mem_filter, Finset.mem_univ, true_and] at hj ⊢
    have hji : j ≠ i := by
      rintro rfl
      exact hp hj.1
    rwa [move_other hji] at hj

/-- What a transaction has done by the place of its client. -/
def Stage (es : List (PoolEvent ι σ ε)) (progs : ι → Prog σ ρ ε α) (i : ι) :
    Client → Session σ ρ ε D W L α → Prop
  | .idle, y | .waiting, y => y = .active .fresh none (progs i)
  | .lent, _ => True
  | .returned, y =>
    .giveUp i ∈ es ∧ y = .active .fresh none (progs i) ∨ ∃ r, y = .done r

/-- What holds at any time: no pool lends more clients than it has, and only transactions with a
client have done anything. -/
structure Inv (pool : ι → π) (size : π → Nat) (progs : ι → Prog σ ρ ε α)
    (es : List (PoolEvent ι σ ε)) (s : Pooled ι σ ρ ε D W L α) : Prop where
  size : ∀ p, s.lentBy pool p ≤ size p
  stage : ∀ i, Stage es progs i (s.client i) (s.config.sess i)

omit [DecidableEq ι] in
theorem Inv.start {db : D} :
    (start progs db : Pooled ι σ ρ ε D W L α).Inv pool size progs [] where
  size p := by simp [lentBy, Pooled.start]
  stage i := rfl

omit [Fintype ι] [DecidableEq ι] in
theorem Stage.append {es : List (PoolEvent ι σ ε)} {y : Session σ ρ ε D W L α}
    (h : Stage es progs i x y) : Stage (es ++ [e]) progs i x y := by
  cases x with
  | returned => exact h.imp_left fun h => ⟨List.mem_append_left _ h.1, h.2⟩
  | _ => exact h

theorem Inv.move {es : List (PoolEvent ι σ ε)} (h : s.Inv pool size progs es)
    (hsize : ∀ p, (s.move i x).lentBy pool p ≤ size p)
    (hstage : Stage (es ++ [e]) progs i x (s.config.sess i)) :
    (s.move i x).Inv pool size progs (es ++ [e]) := by
  refine ⟨hsize, fun j => ?_⟩
  by_cases hji : j = i
  · rw [hji, move_self]
    exact hstage
  · rw [move_other hji]
    exact (h.stage j).append

theorem Inv.moves {es : List (PoolEvent ι σ ε)} (h : s.Inv pool size progs es)
    (hm : Moves E pool size s e s') : s'.Inv pool size progs (es ++ [e]) := by
  cases hm with
  | @ask i hidle =>
    apply h.move
    · exact fun p => (lentBy_move_le (by decide) p).trans (h.size p)
    · have hstage := h.stage i
      rw [hidle] at hstage
      exact hstage
  | @lend i hwaiting hroom => exact h.move (fun p => lentBy_lend_le p hroom (h.size p)) trivial
  | @run l config hlent hm =>
    refine ⟨h.size, fun i => ?_⟩
    by_cases hi : i = l.session
    · change Stage _ _ i (s.client i) _
      rw [hi, hlent]
      trivial
    · change Stage _ _ i (s.client i) (config.sess i)
      rw [hm.onward.2 i hi]
      exact (h.stage i).append
  | @giveBack i r hlent hdone =>
    apply h.move
    · exact fun p => (lentBy_move_le (by decide) p).trans (h.size p)
    · exact Or.inr ⟨r, hdone⟩
  | @giveUp i hwaiting =>
    apply h.move
    · exact fun p => (lentBy_move_le (by decide) p).trans (h.size p)
    · have hstage := h.stage i
      rw [hwaiting] at hstage
      exact Or.inl ⟨List.mem_append_right _ (List.mem_singleton_self _), hstage⟩

omit [DecidableEq ι] in
theorem lentBy_pos {p : π} (h : 0 < s.lentBy pool p) : ∃ i, s.client i = .lent := by
  obtain ⟨i, hi⟩ := Finset.card_pos.1 h
  exact ⟨i, (Finset.mem_filter.1 hi).2.2⟩

omit [DecidableEq ι] in
theorem Inv.lent_of_held {es : List (PoolEvent ι σ ε)} (h : s.Inv pool size progs es) {k : L}
    (hk : k ∈ (s.config.sess i).held) : s.client i = .lent := by
  have hstage := h.stage i
  cases hi : s.client i with
  | lent => rfl
  | idle | waiting =>
    rw [hi] at hstage
    rw [show s.config.sess i = _ from hstage] at hk
    cases hk
  | returned =>
    rw [hi] at hstage
    rcases hstage with ⟨_, hfresh⟩ | ⟨r, hdone⟩
    · rw [hfresh] at hk
      cases hk
    · rw [hdone] at hk
      cases hk

theorem sum_distance_move (hx : x.distance < (s.client i).distance) :
    ∑ j, ((s.move i x).client j).distance < ∑ j, (s.client j).distance := by
  apply Finset.sum_lt_sum
  · intro j _
    by_cases hji : j = i
    · rw [hji, move_self]
      exact hx.le
    · rw [move_other hji]
  · refine ⟨i, Finset.mem_univ i, ?_⟩
    rw [move_self]
    exact hx

section
variable [DecidableEq L] [DecidableEq σ]
variable {ok : PoolEvent ι σ ε → Prop} {s₀ : Pooled ι σ ρ ε D W L α}
variable {es es' : List (PoolEvent ι σ ε)}

theorem Run.inv {db : D} (hr : Run E pool size ok (start progs db) es s) :
    s.Inv pool size progs es := by
  induction hr with
  | nil => exact .start
  | snoc _ _ hs ih => exact ih.moves (moves_of_step hs)

theorem Run.trans (hr : Run E pool size ok s₀ es s) (hr' : Run E pool size ok s es' s') :
    Run E pool size ok s₀ (es ++ es') s' := by
  induction hr' with
  | nil => rwa [List.append_nil]
  | snoc _ hok hs ih =>
    rw [← List.append_assoc]
    exact .snoc ih hok hs

theorem Run.mono {ok' : PoolEvent ι σ ε → Prop} (hr : Run E pool size ok s₀ es s)
    (h : ∀ {e}, ok e → ok' e) : Run E pool size ok' s₀ es s := by
  induction hr with
  | nil => exact .nil
  | snoc _ hok hs ih => exact .snoc ih (h hok) hs

theorem Run.forall (hr : Run E pool size ok s₀ es s) : ∀ e ∈ es, ok e := by
  induction hr with
  | nil => nofun
  | snoc _ hok _ ih =>
    intro e he
    rcases List.mem_append.1 he with he | he
    · exact ih e he
    · rwa [List.mem_singleton.1 he]

theorem Run.of_drive (h : s₀.drive E pool size es = some s) :
    Run E pool size (fun _ => True) s₀ es s := by
  induction es generalizing s₀ with
  | nil =>
    obtain rfl := Option.some.inj h
    exact .nil
  | cons e es ih =>
    rw [drive, List.foldlM_cons] at h
    obtain ⟨s₁, hs₁, h⟩ := Option.bind_eq_some_iff.1 h
    exact Run.trans (.snoc .nil trivial hs₁) (ih h)

theorem Run.exists_of_drive (es : List (PoolEvent ι σ ε)) {p : Pooled ι σ ρ ε D W L α → Bool}
    (h : (s₀.drive E pool size es).any p = true) :
    ∃ s, Run E pool size (fun _ => True) s₀ es s ∧ p s = true := by
  obtain ⟨s, hs, hp⟩ := (Option.any_eq_true _ _).1 h
  exact ⟨s, .of_drive hs, hp⟩

/-- Without its pools, a run is one of the transactions alone. -/
theorem Run.config (hr : Run E pool size ok s₀ es s) :
    E.Run (fun _ _ => True) s₀.config (es.filterMap PoolEvent.label?) s.config := by
  induction hr with
  | nil => exact .nil
  | @snoc es s e s' _ _ hs ih =>
    rw [List.filterMap_append]
    cases e with
    | run l =>
      obtain ⟨_, h⟩ := Option.ite_none_right_eq_some.1 hs
      obtain ⟨config, hstep, rfl⟩ := Option.map_eq_some_iff.1 h
      exact .snoc ih trivial hstep
    | _ =>
      cases moves_of_step hs
      rwa [List.filterMap_cons_none rfl, List.filterMap_nil, List.append_nil]

/-- No run goes on forever. -/
theorem oneStep_wellFounded : WellFounded (OneStep E pool size :
    Pooled ι σ ρ ε D W L α → Pooled ι σ ρ ε D W L α → Prop) := by
  refine Subrelation.wf ?_ (InvImage.wf
    (fun s : Pooled ι σ ρ ε D W L α => (∑ j, (s.client j).distance, s.config))
    (WellFounded.prod_lex Nat.lt_wfRel.wf E.oneStep_wellFounded))
  rintro s' s ⟨e, hs⟩
  cases e with
  | run l =>
    obtain ⟨_, h⟩ := Option.ite_none_right_eq_some.1 hs
    obtain ⟨config, hstep, rfl⟩ := Option.map_eq_some_iff.1 h
    exact Prod.Lex.right _ ⟨l, hstep⟩
  | _ =>
    cases moves_of_step hs with
    | _ h =>
      apply Prod.Lex.left
      apply sum_distance_move
      rw [h]
      decide

section
variable {P : Discipline E ι α} {T : P.Territories}

/-- When nothing but a failure can happen, every client is back. -/
theorem Inv.returned_of_stuck (h : s.Inv pool size progs es) (ho : T.Orderly s.config)
    (hsize : ∀ p, 1 ≤ size p) (hstuck : ∀ e, ¬ e.IsFailure → s.step E pool size e = none) :
    ∀ i, s.client i = .returned := by
  have hblocked : ∀ {i st snap p}, s.client i = .lent → s.config.sess i = .active st snap p →
      E.Blocked s.config i := by
    intro i st snap p hlent hi
    by_contra hb
    obtain ⟨l, hl, hnot, hstep⟩ := Engine.step_of_not_blocked ho.started hi hb
    have hnone := hstuck (.run l) hnot
    rw [step, if_pos (hl ▸ hlent), Option.map_eq_none_iff] at hnone
    rw [hnone] at hstep
    cases hstep
  have hnot_lent : ∀ i, s.client i ≠ .lent := by
    intro i hlent
    cases hi : s.config.sess i with
    | done r =>
      have hnone := hstuck (.giveBack i) id
      rw [step, if_pos ⟨hlent, by rw [hi]; rfl⟩] at hnone
      cases hnone
    | active st snap p =>
      -- The transaction it waits for has a lock, so it has a client as well.
      obtain ⟨j, _, hlock, hheld⟩ := ho.holder (hblocked hlent hi)
      have hlent' := h.lent_of_held hheld
      cases hj : s.config.sess j with
      | done r =>
        rw [hj] at hheld
        cases hheld
      | active st' snap' p' =>
        rw [← hlock] at hheld
        exact absurd (hblocked hlent' hj) (ho.not_blocked hheld)
  intro i
  cases hi : s.client i with
  | idle =>
    have hnone := hstuck (.ask i) id
    rw [step, if_pos hi] at hnone
    cases hnone
  | waiting =>
    have hroom : s.lentBy pool (pool i) < size (pool i) := by
      by_contra hfull
      obtain ⟨j, hj⟩ := lentBy_pos
        (Nat.lt_of_lt_of_le (Nat.lt_of_lt_of_le Nat.zero_lt_one (hsize _)) (not_lt.1 hfull))
      exact hnot_lent j hj
    have hnone := hstuck (.lend i) id
    rw [step, if_pos ⟨hi, hroom⟩] at hnone
    cases hnone
  | lent => exact absurd hi (hnot_lent i)
  | returned => rfl

theorem orderly_run {db : D} (hr : Run E pool size ok (start P.progs db) es s) :
    T.Orderly s.config :=
  Discipline.Territories.orderly_run hr.config

/-- From every state of a run every client can come back, without a failure. -/
theorem Run.completes {db : D} (T : P.Territories) (hsize : ∀ p, 1 ≤ size p)
    (hr : Run E pool size ok (start P.progs db) es s) : ∃ es' s',
      Run E pool size (fun e => ¬ e.IsFailure) s es' s' ∧ ∀ i, s'.client i = .returned := by
  replace hr := hr.mono (fun _ => trivial : ∀ {e}, ok e → True)
  have hwf : WellFounded (OneStep E pool size :
      Pooled ι σ ρ ε D W L α → Pooled ι σ ρ ε D W L α → Prop) := oneStep_wellFounded
  revert es
  refine WellFounded.induction (C := fun s => ∀ {es},
    Run E pool size (fun _ => True) (start P.progs db) es s → ∃ es' s',
      Run E pool size (fun e => ¬ e.IsFailure) s es' s' ∧ ∀ i, s'.client i = .returned) hwf s ?_
  intro s ih es hr
  by_cases hstuck : ∀ e, ¬ e.IsFailure → s.step E pool size e = none
  · exact ⟨[], s, .nil, hr.inv.returned_of_stuck (orderly_run (T := T) hr) hsize hstuck⟩
  · simp only [not_forall] at hstuck
    obtain ⟨e, he, hne⟩ := hstuck
    obtain ⟨s₁, hstep⟩ := Option.ne_none_iff_exists'.1 hne
    obtain ⟨es', s', hr', hdone⟩ := ih s₁ ⟨e, hstep⟩ (.snoc hr trivial hstep)
    exact ⟨[e] ++ es', s', Run.trans (.snoc .nil he hstep) hr', hdone⟩

end

end

end Pooled
end Txn
