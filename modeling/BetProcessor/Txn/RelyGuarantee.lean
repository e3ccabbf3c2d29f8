import BetProcessor.Txn.Concurrent

namespace Txn
set_option autoImplicit true

/-- What a session assumes of the commits of the others: the committed database moves along
`rel st`, where `st` is what the session has done so far, and keeps the invariant `I`. -/
structure Rely (I : D → Prop) (σ W L : Type) where
  rel : Sess σ W L → D → D → Prop
  refl : I a → rel st a a
  keeps : rel st a b → I b
  trans : rel st a b → rel st b c → rel st a c
  anti : st ≤ st' → rel st' a b → rel st a b

/-- Nothing is committed by the others. -/
def Rely.still (σ W L : Type) : Rely (fun _ : D => True) σ W L where
  rel _ a b := a = b
  refl _ := rfl
  keeps _ := trivial
  trans := Eq.trans
  anti _ h := h

/-- It held at some moment of the session up to now. -/
def Rely.Past {I : D → Prop} (R : Rely I σ W L) (st : Sess σ W L) (db : D)
    (P : Sess σ W L → D → Prop) : Prop :=
  ∃ st₀ db₀, P st₀ db₀ ∧ st₀ ≤ st ∧ R.rel st₀ db₀ db

namespace Rely
variable {I : D → Prop} {R : Rely I σ W L} {st st' : Sess σ W L} {db db' : D}
variable {P P' : Sess σ W L → D → Prop}

theorem Past.mono (h : R.Past st db P) (hP : ∀ {st db}, P st db → P' st db) :
    R.Past st db P' := by
  obtain ⟨st₀, db₀, h₀, hle, hrel⟩ := h
  exact ⟨st₀, db₀, hP h₀, hle, hrel⟩

theorem Past.later (h : R.Past st db P) (hle : st ≤ st') (hrel : R.rel st db db') :
    R.Past st' db' P := by
  obtain ⟨st₀, db₀, h₀, hle₀, hrel₀⟩ := h
  exact ⟨st₀, db₀, h₀, le_trans hle₀ hle, R.trans hrel₀ (R.anti hle₀ hrel)⟩

theorem Past.inv (h : R.Past st db P) : I db := by
  obtain ⟨st₀, db₀, _, _, hrel⟩ := h
  exact R.keeps hrel

theorem Past.still (h : (Rely.still σ W L).Past st db P) : ∃ st₀, P st₀ db := by
  obtain ⟨st₀, db₀, h₀, _, rfl⟩ := h
  exact ⟨st₀, h₀⟩

end Rely

namespace Engine
variable {σ : Type} {ρ : σ → Type} {ε D W L α β : Type}
variable (E : Engine σ ρ ε D W L) {I : D → Prop} (R : Rely I σ W L)

/-- Every commit of the body, whatever the others commit meanwhile, satisfies `Q`. -/
def wp : Prog σ ρ ε α → (α → Sess σ W L → D → Prop) → Sess σ W L → D → Prop
  | .pure a, Q, st, db => ∀ db', R.rel st db db' → Q a st db'
  | .throw _, _, _, _ => True
  | .exec s k, Q, st, db => ∀ snap cur r ws, R.rel st db snap → R.rel (st.start s) snap cur →
    E.eval s (E.view snap st.writes) (E.view cur st.writes) = .ok (r, ws) →
    wp (k r) Q ((st.start s).finish ws
      (E.locks s (E.view snap st.writes) (E.view cur st.writes))) cur

variable {E R}

theorem wp_pure {a : α} {Q : α → Sess σ W L → D → Prop} {st : Sess σ W L} {db : D}
    (h : ∀ db', R.rel st db db' → Q a st db') : E.wp R (Pure.pure a) Q st db := h

theorem wp_throw {e : ε} {Q : α → Sess σ W L → D → Prop} {st : Sess σ W L} {db : D} :
    E.wp R (.throw e) Q st db := trivial

theorem wp_stable {p : Prog σ ρ ε α} {Q : α → Sess σ W L → D → Prop} {st : Sess σ W L}
    {db db' : D} (h : E.wp R p Q st db) (hr : R.rel st db db') : E.wp R p Q st db' := by
  cases p with
  | pure a => exact fun _ h' => h _ (R.trans hr h')
  | throw => trivial
  | exec s k => exact fun _ _ _ _ h' => h _ _ _ _ (R.trans hr h')

theorem wp_mono {p : Prog σ ρ ε α} {Q Q' : α → Sess σ W L → D → Prop} {st : Sess σ W L}
    {db : D} (h : E.wp R p Q st db)
    (hQ : ∀ a st' db', st ≤ st' → R.rel st db db' → Q a st' db' → Q' a st' db') :
    E.wp R p Q' st db := by
  induction p generalizing st db with
  | pure a => exact fun _ h' => hQ _ _ _ (le_refl _) h' (h _ h')
  | throw => trivial
  | exec s k ih =>
    intro snap cur r ws hs hc he
    have hle : st ≤ (st.start s).finish ws
        (E.locks s (E.view snap st.writes) (E.view cur st.writes)) := Sess.le_run _ _ _ _
    apply ih r (h _ _ _ _ hs hc he)
    intro a st' db' hst hrel
    exact hQ _ _ _ (le_trans hle hst)
      (R.trans (R.trans hs (R.anti (Sess.le_start _ _) hc)) (R.anti hle hrel))

theorem wp_bind {p : Prog σ ρ ε α} {f : α → Prog σ ρ ε β} {Q : β → Sess σ W L → D → Prop}
    {st : Sess σ W L} {db : D} (hI : I db)
    (h : E.wp R p (fun a st db => E.wp R (f a) Q st db) st db) : E.wp R (p >>= f) Q st db := by
  induction p generalizing st db with
  | pure a => exact h db (R.refl hI)
  | throw => trivial
  | exec s k ih => exact fun _ _ _ _ hs hc he => ih _ (R.keeps hc) (h _ _ _ _ hs hc he)

theorem wp_seq {p : Prog σ ρ ε α} {f : α → Prog σ ρ ε β} {Q : α → Sess σ W L → D → Prop}
    {Q' : β → Sess σ W L → D → Prop} {st : Sess σ W L} {db : D} (hI : I db)
    (hp : E.wp R p Q st db) (hf : ∀ a st' db', st ≤ st' → R.rel st db db' → Q a st' db' →
      E.wp R (f a) Q' st' db') : E.wp R (p >>= f) Q' st db :=
  wp_bind hI (wp_mono hp hf)

/-- What held at some moment of the session still did so at its end. -/
theorem wp_past {p : Prog σ ρ ε α} {Q : α → Sess σ W L → D → Prop} {st : Sess σ W L} {db : D}
    {P : Sess σ W L → D → Prop} (hP : R.Past st db P)
    (h : E.wp R p (fun a st' db' => R.Past st' db' P → Q a st' db') st db) :
    E.wp R p Q st db :=
  wp_mono h fun _ _ _ hle hrel hQ => hQ (hP.later hle hrel)

/-- Alone, the logic is about the serial run. -/
theorem exec_of_wp {p : Prog σ ρ ε α} {Q : α → Sess σ W L → D → Prop} {st : Sess σ W L}
    {db : D} {a : α} {db' : D} (h : E.wp (Rely.still σ W L) p Q st db)
    (he : E.exec p (E.view db st.writes) = .ok (a, db')) :
    ∃ st', st ≤ st' ∧ db' = E.view db st'.writes ∧ Q a st' db := by
  induction p generalizing st with
  | pure a' => cases he; exact ⟨st, le_refl _, rfl, h db rfl⟩
  | throw => cases he
  | exec s k ih =>
    simp only [exec] at he
    split at he
    · rename_i r ws hr
      rw [← E.view_append] at he
      obtain ⟨st', hle, hdb, hQ⟩ := ih r (h db db r ws rfl rfl hr) he
      exact ⟨st', le_trans (Sess.le_run _ _ _ _) hle, hdb, hQ⟩
    · cases he

variable (E R)

/-- The logic holds of the rest of a session, also in the middle of a statement. -/
def Good (Q : α → Sess σ W L → D → Prop) : Session σ ρ ε D W L α → D → Prop
  | .active st none p, db => E.wp R p Q st db
  | .active st (some snap) (.exec s k), db => R.rel st snap db ∧
    ∀ cur r ws, R.rel st snap cur →
      E.eval s (E.view snap st.writes) (E.view cur st.writes) = .ok (r, ws) →
      E.wp R (k r) Q (st.finish ws
        (E.locks s (E.view snap st.writes) (E.view cur st.writes))) cur
  | .active _ (some _) _, _ => False
  | .done _, _ => True

variable {E R}

theorem Good.stable {Q : α → Sess σ W L → D → Prop} {x : Session σ ρ ε D W L α} {db db' : D}
    (h : E.Good R Q x db) (hr : ∀ st snap p, x = .active st snap p → R.rel st db db') :
    E.Good R Q x db' := by
  cases x with
  | done => trivial
  | active st snap p =>
    replace hr := hr _ _ _ rfl
    cases snap with
    | none => exact wp_stable h hr
    | some snap =>
      cases p with
      | pure => exact h
      | throw => exact h
      | exec s k => exact ⟨R.trans h.1 hr, h.2⟩

end Engine

/-- A rely-guarantee proof about a family of transactions: what each of them establishes when
it commits keeps the invariant and is what the others rely on.  `compat` is a condition on
pairs of open transactions, required when one of them commits. -/
structure Protocol {σ : Type} {ρ : σ → Type} {ε D W L : Type} (E : Engine σ ρ ε D W L)
    (ι α : Type) where
  inv : D → Prop
  rely : ι → Rely inv σ W L
  post : ι → α → Sess σ W L → D → Prop
  compat : ι → Sess σ W L → ι → Sess σ W L → Prop
  commit : ∀ {i a st db}, inv db → post i a st db → inv (E.view db st.writes)
  guarantee : ∀ {i j a st st' db}, i ≠ j → (∀ k ∈ st.held, k ∉ st'.held) →
    (∀ w ∈ st'.writes, ∀ k ∈ E.keys w, k ∈ st'.held) → compat i st j st' → inv db →
    post j a st' db → (rely i).rel st db (E.view db st'.writes)

namespace Protocol
variable {ι σ : Type} {ρ : σ → Type} {ε D W L α : Type} {E : Engine σ ρ ε D W L}
variable (P : Protocol E ι α)

/-- The condition of the protocol on a step: a commit happens only next to compatible
transactions. -/
def Compatible (c : Config ι σ ρ ε D W L α) : Label ι σ ε → Prop
  | .commit j => ∀ i, i ≠ j → ∀ st snap p st' snap' p', c.sess i = .active st snap p →
    c.sess j = .active st' snap' p' → P.compat i st j st'
  | _ => True

def Holds (c : Config ι σ ρ ε D W L α) : Prop :=
  P.inv c.db ∧ (∀ i, E.Good (P.rely i) (P.post i) (c.sess i) c.db) ∧
    Engine.Exclusive c ∧ E.Covered c

variable {P}

theorem Holds.set [DecidableEq ι] {c : Config ι σ ρ ε D W L α} (h : P.Holds c) {i : ι}
    {x : Session σ ρ ε D W L α} (hx : E.Good (P.rely i) (P.post i) x c.db)
    (hm : Engine.Exclusive (c.set i x) ∧ E.Covered (c.set i x)) : P.Holds (c.set i x) := by
  refine ⟨h.1, fun j => ?_, hm⟩
  by_cases hj : j = i
  · subst hj; rw [Config.set_self]; exact hx
  · rw [Config.set_other _ hj]; exact h.2.1 j

theorem Holds.moves [DecidableEq ι] {c c' : Config ι σ ρ ε D W L α} {l : Label ι σ ε}
    (h : P.Holds c) (hok : P.Compatible c l) (hm : E.Moves c l c') : P.Holds c' := by
  have hlock : Engine.Exclusive c' ∧ E.Covered c' :=
    ⟨Engine.Exclusive.moves E h.2.2.1 hm, Engine.Covered.moves E h.2.2.2 hm⟩
  cases hm with
  | @start i st s k hi =>
    have hg := h.2.1 i
    rw [hi] at hg
    exact h.set ⟨(P.rely i).refl h.1,
      fun cur r ws hc he => hg _ _ _ _ ((P.rely i).refl h.1) hc he⟩ hlock
  | @finish i st snap s k r ws hi hf he =>
    have hg := h.2.1 i
    rw [hi] at hg
    exact h.set (hg.2 _ _ _ hg.1 he) hlock
  | fail hi hf he => exact h.set trivial hlock
  | @commit i st a hi =>
    have hg := h.2.1 i
    rw [hi] at hg
    have hQ := hg _ ((P.rely i).refl h.1)
    refine ⟨P.commit h.1 hQ, fun j => ?_, hlock⟩
    rw [Config.install_sess, Config.install_db]
    by_cases hj : j = i
    · subst hj; rw [Config.set_self]; trivial
    · rw [Config.set_other _ hj]
      apply (h.2.1 j).stable
      intro st' snap p hj'
      have hex := h.2.2.1 j i hj
      have hcov := h.2.2.2 i
      rw [hj', hi] at hex
      rw [hi] at hcov
      exact P.guarantee hj hex hcov (hok j hj _ _ _ _ _ _ hj' hi) h.1 hQ
  | rollback hi => exact h.set trivial hlock
  | abort hi => exact h.set trivial hlock

/-- Soundness: the invariant holds in every committed state of every compatible run. -/
theorem sound [Fintype ι] [DecidableEq ι] [DecidableEq L] [DecidableEq σ]
    {progs : ι → Prog σ ρ ε α}
    (hp : ∀ i db, P.inv db → E.wp (P.rely i) (progs i) (P.post i) .fresh db) {db₀ : D}
    (h₀ : P.inv db₀) {ok : Config ι σ ρ ε D W L α → Label ι σ ε → Prop}
    (hok : ∀ {c l}, ok c l → P.Compatible c l) {ls : List (Label ι σ ε)}
    {c : Config ι σ ρ ε D W L α} (hr : E.Run ok (.init progs db₀) ls c) : P.Holds c := by
  apply Engine.Run.invariant E hr
  · refine ⟨h₀, fun i => hp i _ h₀, ?_, ?_⟩
    · intro i j _ k hk; cases hk
    · intro i w hw; cases hw
  · intro c l c' h hl hm
    exact h.moves (hok hl) hm

end Protocol
end Txn
