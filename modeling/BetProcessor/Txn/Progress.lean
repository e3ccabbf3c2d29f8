import Mathlib.Logic.Hydra
import BetProcessor.Txn.Serializability

namespace Txn
set_option autoImplicit true

namespace Session
variable {σ : Type} {ρ : σ → Type} {ε D W L α : Type}

/-- What a step makes of the session that takes it. -/
inductive Onward : Session σ ρ ε D W L α → Session σ ρ ε D W L α → Prop where
  | start {st st' s k snap} :
    Onward (.active st none (.exec s k)) (.active st' (some snap) (.exec s k))
  | finish {st st' snap s k r} :
    Onward (.active st (some snap) (.exec s k)) (.active st' none (k r))
  | fail {st st' snap s k e} :
    Onward (.active st (some snap) (.exec s k)) (.active st' none (.throw e))
  | done {st snap p r} : Onward (.active st snap p) (.done r)

/-- `x` is closer to its end than `y`. -/
def Nearer (x y : Session σ ρ ε D W L α) : Prop := Onward y x

theorem acc_done (r : Except ε α) : Acc Nearer (.done r : Session σ ρ ε D W L α) :=
  ⟨_, fun _ h => by cases h⟩

theorem acc_throw (st : Sess σ W L) (snap : Option D) (e : ε) :
    Acc Nearer (.active st snap (.throw e) : Session σ ρ ε D W L α) := by
  constructor
  intro x h
  cases h
  exact acc_done _

/-- A transaction body comes to an end. -/
theorem acc_active (p : Prog σ ρ ε α) (st : Sess σ W L) (snap : Option D) :
    Acc Nearer (.active st snap p : Session σ ρ ε D W L α) := by
  induction p generalizing st snap with
  | pure a =>
    constructor
    intro x h
    cases h
    exact acc_done _
  | throw e => exact acc_throw st snap e
  | exec s k ih =>
    have hstarted : ∀ (st : Sess σ W L) (snap : D),
        Acc Nearer (.active st (some snap) (.exec s k) : Session σ ρ ε D W L α) := by
      intro st snap
      constructor
      intro x h
      cases h with
      | finish => exact ih _ _ _
      | fail => exact acc_throw _ _ _
      | done => exact acc_done _
    constructor
    intro x h
    cases h with
    | start => exact hstarted _ _
    | finish => exact ih _ _ _
    | fail => exact acc_throw _ _ _
    | done => exact acc_done _

theorem nearer_wellFounded :
    WellFounded (Nearer : Session σ ρ ε D W L α → Session σ ρ ε D W L α → Prop) := by
  constructor
  intro x
  cases x with
  | active st snap p => exact acc_active p st snap
  | done r => exact acc_done r

end Session

namespace Engine
variable {ι σ : Type} {ρ : σ → Type} {ε D W L α : Type}
variable (E : Engine σ ρ ε D W L)
variable [DecidableEq ι]

/-- A step brings its own session closer to the end and leaves the others where they are. -/
theorem Moves.onward {c c' : Config ι σ ρ ε D W L α} {l : Label ι σ ε} (h : E.Moves c l c') :
    (c'.sess l.session).Nearer (c.sess l.session) ∧ ∀ j, j ≠ l.session → c'.sess j = c.sess j := by
  cases h with
  | @start i st s k hi =>
    refine ⟨?_, fun j hj => Config.set_other _ hj _⟩
    change ((c.set i _).sess i).Nearer (c.sess i)
    rw [Config.set_self, hi]
    exact .start
  | @finish i st snap s k r ws hi hf he =>
    refine ⟨?_, fun j hj => Config.set_other _ hj _⟩
    change ((c.set i _).sess i).Nearer (c.sess i)
    rw [Config.set_self, hi]
    exact .finish
  | @fail i st snap s k e hi hf he =>
    refine ⟨?_, fun j hj => Config.set_other _ hj _⟩
    change ((c.set i _).sess i).Nearer (c.sess i)
    rw [Config.set_self, hi]
    exact .fail
  | @commit i st a hi =>
    refine ⟨?_, fun j hj => Config.set_other _ hj _⟩
    change ((c.set i _).sess i).Nearer (c.sess i)
    rw [Config.set_self, hi]
    exact .done
  | @rollback i st e hi =>
    refine ⟨?_, fun j hj => Config.set_other _ hj _⟩
    change ((c.set i _).sess i).Nearer (c.sess i)
    rw [Config.set_self, hi]
    exact .done
  | @abort i st snap p e hi =>
    refine ⟨?_, fun j hj => Config.set_other _ hj _⟩
    change ((c.set i _).sess i).Nearer (c.sess i)
    rw [Config.set_self, hi]
    exact .done

variable [Fintype ι] [DecidableEq L] [DecidableEq σ]

theorem Run.aborted {ok : Config ι σ ρ ε D W L α → Label ι σ ε → Prop}
    {c₀ c : Config ι σ ρ ε D W L α} {ls : List (Label ι σ ε)} (hr : E.Run ok c₀ ls c) {i : ι}
    {e : ε} (h : Label.abort i e ∈ ls) : ∃ e', c.sess i = .done (.error e') := by
  refine hr.history E (P := fun ls c => Label.abort i e ∈ ls → ∃ e', c.sess i = .done (.error e'))
    nofun ?_ h
  intro ls c l c' ih _ hm hmem
  rcases List.mem_append.1 hmem with hmem | hmem
  · obtain ⟨e', he'⟩ := ih hmem
    obtain ⟨hnearer, hother⟩ := hm.onward
    by_cases hi : i = l.session
    · rw [← hi, he'] at hnearer
      cases hnearer
    · exact ⟨e', (hother i hi).trans he'⟩
  · obtain rfl := List.mem_singleton.1 hmem
    cases hm with
    | abort => exact ⟨e, Config.set_self ..⟩

theorem Run.labels {ok : Label ι σ ε → Prop} {c₀ c : Config ι σ ρ ε D W L α}
    {ls : List (Label ι σ ε)} (hr : E.Run (fun _ => ok) c₀ ls c) : ∀ l ∈ ls, ok l := by
  refine hr.history E (P := fun ls _ => ∀ l ∈ ls, ok l) nofun ?_
  intro ls c l c' ih hok _ l' hl'
  rcases List.mem_append.1 hl' with hl' | hl'
  · exact ih l' hl'
  · rwa [List.mem_singleton.1 hl']

/-- `c'` comes right after `c` in some run. -/
def OneStep (c' c : Config ι σ ρ ε D W L α) : Prop := ∃ l, E.step c l = some c'

theorem cutExpand_of_oneStep {c c' : Config ι σ ρ ε D W L α} (h : E.OneStep c' c) :
    Relation.CutExpand Session.Nearer (Finset.univ.val.map c'.sess)
      (Finset.univ.val.map c.sess) := by
  obtain ⟨l, h⟩ := h
  obtain ⟨hself, hother⟩ := (E.moves_of_step h).onward
  have hsplit : ∀ f : ι → Session σ ρ ε D W L α, Finset.univ.val.map f =
      (Finset.univ.erase l.session).val.map f + {f l.session} := by
    intro f
    rw [← Finset.insert_erase (Finset.mem_univ l.session),
      Finset.insert_val_of_notMem (Finset.notMem_erase _ _), Multiset.map_cons, add_comm,
      Multiset.singleton_add, Finset.insert_erase (Finset.mem_univ l.session)]
  have hrest : (Finset.univ.erase l.session).val.map c'.sess =
      (Finset.univ.erase l.session).val.map c.sess := by
    apply Multiset.map_congr rfl
    intro j hj
    exact hother j (Finset.ne_of_mem_erase hj)
  rw [hsplit c'.sess, hsplit c.sess, hrest]
  exact Relation.cutExpand_add_single _ hself

/-- No run goes on forever. -/
theorem oneStep_wellFounded :
    WellFounded (E.OneStep : Config ι σ ρ ε D W L α → Config ι σ ρ ε D W L α → Prop) :=
  Subrelation.wf (fun h => E.cutExpand_of_oneStep h)
    (InvImage.wf (fun c : Config ι σ ρ ε D W L α => Finset.univ.val.map c.sess)
      Session.nearer_wellFounded.cutExpand)

/-- The session waits for a lock that another one holds. -/
def Blocked (c : Config ι σ ρ ε D W L α) (i : ι) : Prop :=
  ∃ st snap s k, c.sess i = .active st (some snap) (.exec s k) ∧
    ¬ Free c i (E.locks s (E.view snap st.writes) (E.view c.db st.writes))

/-- Only a session in front of a statement has started one. -/
def Started (c : Config ι σ ρ ε D W L α) : Prop :=
  ∀ i st snap p, c.sess i = .active st (some snap) p → ∃ s k, p = .exec s k

variable {E}

omit [Fintype ι] [DecidableEq L] [DecidableEq σ] in
theorem Started.set {c : Config ι σ ρ ε D W L α} (h : Started c) {i : ι}
    {x : Session σ ρ ε D W L α}
    (hx : ∀ st snap p, x = .active st (some snap) p → ∃ s k, p = .exec s k) :
    Started (c.set i x) := by
  intro j st snap p hj
  by_cases hji : j = i
  · subst hji
    rw [Config.set_self] at hj
    exact hx st snap p hj
  · rw [Config.set_other _ hji] at hj
    exact h j st snap p hj

omit [Fintype ι] [DecidableEq L] [DecidableEq σ] in
theorem Started.moves {c c' : Config ι σ ρ ε D W L α} {l : Label ι σ ε} (h : Started c)
    (hm : E.Moves c l c') : Started c' := by
  cases hm with
  | start hi =>
    apply h.set
    rintro st snap p ⟨⟩
    exact ⟨_, _, rfl⟩
  | commit hi => exact Started.set (c := c) h nofun
  | _ => exact h.set nofun

theorem step_of_not_blocked {c : Config ι σ ρ ε D W L α} {i : ι} {st : Sess σ W L}
    {snap : Option D} {p : Prog σ ρ ε α} (hs : Started c) (hi : c.sess i = .active st snap p)
    (h : ¬ E.Blocked c i) : ∃ l, l.session = i ∧ ¬ l.IsAbort ∧ (E.step c l).isSome := by
  cases snap with
  | none =>
    cases p with
    | pure a =>
      refine ⟨.commit i, rfl, id, ?_⟩
      simp only [step, hi]
      rfl
    | throw e =>
      refine ⟨.rollback i, rfl, id, ?_⟩
      simp only [step, hi]
      rfl
    | exec s k =>
      refine ⟨.start i, rfl, id, ?_⟩
      simp only [step, hi]
      rfl
  | some snap =>
    obtain ⟨s, k, rfl⟩ := hs i st snap p hi
    have hfree : Free c i (E.locks s (E.view snap st.writes) (E.view c.db st.writes)) := by
      by_contra hfree
      exact h ⟨st, snap, s, k, hi, hfree⟩
    cases he : E.eval s (E.view snap st.writes) (E.view c.db st.writes) with
    | ok r =>
      refine ⟨.finish i s, rfl, id, ?_⟩
      simp only [step, hi, hfree, and_self, if_true, he]
      rfl
    | error e =>
      refine ⟨.finish i s, rfl, id, ?_⟩
      simp only [step, hi, hfree, and_self, if_true, he]
      rfl

end Engine

namespace Discipline
variable {ι σ : Type} {ρ : σ → Type} {ε D W L α : Type} {E : Engine σ ρ ε D W L}

/-- The locks of the transactions under one lock are theirs alone, and a transaction that waits for
its lock asks for no other one. -/
structure Territories (P : Discipline E ι α) where
  owns : ι → L → Prop
  owned : ∀ {i j k}, owns i k → owns j k → P.lock i = P.lock j
  own_lock : ∀ i, owns i (P.lock i)
  locks : ∀ {i s snap cur}, P.reads i s → ∀ k ∈ E.locks s snap cur, owns i k
  waiting : ∀ {i s k snap cur}, P.waiting i (.exec s k) snap → P.later snap cur →
    ∀ l ∈ E.locks s snap cur, l = P.lock i

namespace Territories
variable {P : Discipline E ι α} (T : P.Territories)

/-- A session holds its lock and what else it owns, or nothing. -/
def Settled (i : ι) (held : List L) : Prop :=
  (∀ k ∈ held, T.owns i k) ∧ (P.lock i ∈ held ∨ held = [])

theorem settled_nil (i : ι) : T.Settled i [] := ⟨nofun, Or.inr rfl⟩

/-- What a session needs for its statement it owns, and it needs nothing else before its lock. -/
theorem needs {c : Config ι σ ρ ε D W L α} {i : ι} {st : Sess σ W L} {snap : D} {s : σ}
    {k : ρ s → Prog σ ρ ε α} (hp : P.Phase i (.active st (some snap) (.exec s k)) c.db) :
    (∀ l ∈ E.locks s (E.view snap st.writes) (E.view c.db st.writes), T.owns i l) ∧
      (P.lock i ∈ st.held ∨
        ∀ l ∈ E.locks s (E.view snap st.writes) (E.view c.db st.writes), l = P.lock i) := by
  rcases hp with ⟨hlocked, _⟩ | ⟨h₀, hwait, hlater⟩
  · exact ⟨T.locks hlocked.2.2.1.1, Or.inl hlocked.1⟩
  · rw [h₀, E.view_nil, E.view_nil]
    have hlock := T.waiting hwait hlater
    refine ⟨fun l hl => ?_, Or.inr hlock⟩
    rw [hlock l hl]
    exact T.own_lock i

variable {T}

theorem Settled.append {i : ι} {held ls : List L} (h : T.Settled i held)
    (howns : ∀ l ∈ ls, T.owns i l) (hlock : P.lock i ∈ held ∨ ∀ l ∈ ls, l = P.lock i) :
    T.Settled i (held ++ ls) := by
  constructor
  · intro l hl
    rcases List.mem_append.1 hl with hl | hl
    · exact h.1 l hl
    · exact howns l hl
  · rcases hlock with hlock | hlock
    · exact Or.inl (List.mem_append_left _ hlock)
    · rcases h.2 with hmem | rfl
      · exact Or.inl (List.mem_append_left _ hmem)
      · cases ls with
        | nil => exact Or.inr rfl
        | cons l ls =>
          rw [← hlock l (List.mem_cons_self ..)]
          exact Or.inl (List.mem_cons_self ..)

variable [DecidableEq ι]

theorem settled_moves {c c' : Config ι σ ρ ε D W L α} {l : Label ι σ ε} (hinv : P.Inv c)
    (h : ∀ i, T.Settled i (c.sess i).held) (hm : E.Moves c l c') (i : ι) :
    T.Settled i (c'.sess i).held := by
  by_cases hi : i = l.session
  · cases hm with
    | @start j st s k hj =>
      obtain rfl : i = j := hi
      have hset := h i
      rw [hj] at hset
      rw [Config.set_self]
      exact hset
    | @finish j st snap s k r ws hj hf he =>
      obtain rfl : i = j := hi
      have hset := h i
      have hphase := hinv.phase i
      rw [hj] at hset hphase
      rw [Config.set_self]
      exact hset.append (T.needs hphase).1 (T.needs hphase).2
    | @fail j st snap s k e hj hf he =>
      obtain rfl : i = j := hi
      have hset := h i
      rw [hj] at hset
      rw [Config.set_self]
      exact hset
    | @commit j st a hj =>
      obtain rfl : i = j := hi
      rw [Config.install_sess, Config.set_self]
      exact T.settled_nil i
    | @rollback j st e hj =>
      obtain rfl : i = j := hi
      rw [Config.set_self]
      exact T.settled_nil i
    | @abort j st snap p e hj =>
      obtain rfl : i = j := hi
      rw [Config.set_self]
      exact T.settled_nil i
  · rw [hm.onward.2 i hi]
    exact h i

variable (T) in
/-- What every run of the transactions keeps. -/
structure Orderly (c : Config ι σ ρ ε D W L α) : Prop where
  inv : P.Inv c
  started : Engine.Started c
  settled : ∀ i, T.Settled i (c.sess i).held

theorem Orderly.moves {c c' : Config ι σ ρ ε D W L α} {l : Label ι σ ε} (h : T.Orderly c)
    (hm : E.Moves c l c') : T.Orderly c' :=
  ⟨h.inv.moves hm, h.started.moves hm, settled_moves h.inv h.settled hm⟩

section
variable {c : Config ι σ ρ ε D W L α} {i j : ι}

omit [DecidableEq ι] in
/-- A transaction waits only for one under the same lock, which holds it. -/
theorem Orderly.holder (h : T.Orderly c) (hb : E.Blocked c i) :
    ∃ j, j ≠ i ∧ P.lock j = P.lock i ∧ P.lock i ∈ (c.sess j).held := by
  obtain ⟨st, snap, s, k, hi, hfree⟩ := hb
  have hphase := h.inv.phase i
  rw [hi] at hphase
  simp only [Engine.Free, not_forall, not_not] at hfree
  obtain ⟨j, hji, l, hl, hheld⟩ := hfree
  have hlock : P.lock j = P.lock i :=
    T.owned ((h.settled j).1 l hheld) ((T.needs hphase).1 l hl)
  refine ⟨j, hji, hlock, ?_⟩
  rcases (h.settled j).2 with hmem | hnil
  · rwa [← hlock]
  · rw [hnil] at hheld
    cases hheld

omit [DecidableEq ι] in
/-- The one that holds the lock does not wait. -/
theorem Orderly.not_blocked (h : T.Orderly c) (hj : P.lock j ∈ (c.sess j).held) :
    ¬ E.Blocked c j := by
  intro hb
  obtain ⟨i, hij, _, hheld⟩ := h.holder hb
  exact h.inv.exclusive i j hij _ hheld hj

variable [Fintype ι] [DecidableEq L] [DecidableEq σ]

/-- When no transaction can step by itself, all have ended. -/
theorem Orderly.ended_of_stuck (h : T.Orderly c)
    (hstuck : ∀ l, ¬ l.IsAbort → E.step c l = none) : ∀ i, ∃ r, c.sess i = .done r := by
  have hblocked : ∀ {i st snap p}, c.sess i = .active st snap p → E.Blocked c i := by
    intro i st snap p hi
    by_contra hb
    obtain ⟨l, _, hl, hstep⟩ := Engine.step_of_not_blocked h.started hi hb
    rw [hstuck l hl] at hstep
    cases hstep
  intro i
  cases hi : c.sess i with
  | done r => exact ⟨r, rfl⟩
  | active st snap p =>
    obtain ⟨j, _, hlock, hheld⟩ := h.holder (hblocked hi)
    cases hj : c.sess j with
    | done r =>
      rw [hj] at hheld
      cases hheld
    | active st' snap' p' =>
      rw [← hlock] at hheld
      exact absurd (hblocked hj) (h.not_blocked hheld)

/-- From every state of a run the transactions can all end, without an abort. -/
theorem Orderly.completes (h : T.Orderly c) : ∃ ls c',
    E.Run (fun _ l => ¬ l.IsAbort) c ls c' ∧ ∀ i, ∃ r, c'.sess i = .done r := by
  revert h
  refine WellFounded.induction (C := fun c => T.Orderly c → ∃ ls c',
    E.Run (fun _ l => ¬ l.IsAbort) c ls c' ∧ ∀ i, ∃ r, c'.sess i = .done r)
    E.oneStep_wellFounded c ?_
  intro c ih h
  by_cases hstuck : ∀ l, ¬ l.IsAbort → E.step c l = none
  · exact ⟨[], c, .nil, h.ended_of_stuck hstuck⟩
  · simp only [not_forall] at hstuck
    obtain ⟨l, hl, hne⟩ := hstuck
    obtain ⟨c₁, hstep⟩ := Option.ne_none_iff_exists'.1 hne
    obtain ⟨ls, c', hr, hdone⟩ := ih c₁ ⟨l, hstep⟩ (h.moves (E.moves_of_step hstep))
    exact ⟨[l] ++ ls, c', Engine.Run.trans E (.snoc .nil hl hstep) hr, hdone⟩

theorem orderly_run {ok : Config ι σ ρ ε D W L α → Label ι σ ε → Prop} {db₀ : D}
    {ls : List (Label ι σ ε)} (hr : E.Run ok (.init P.progs db₀) ls c) : T.Orderly c := by
  have hinit : E.Run ok (.init P.progs db₀) [] (.init P.progs db₀) := .nil
  refine hr.invariant E (P := T.Orderly) ⟨(replayed hinit).inv, ?_, ?_⟩ (fun h _ hm => h.moves hm)
  · intro i st snap p hi
    cases hi
  · exact T.settled_nil

end

end Territories
end Discipline
end Txn
