import Mathlib.Data.List.Sublists
import BetProcessor.Txn.Concurrent

namespace Txn
set_option autoImplicit true

/-- A locking discipline.  A transaction writes nothing while it waits for its own lock; once
it holds the lock, its statements stay in a footprint that only transactions under the same
lock write. -/
structure Discipline {σ : Type} {ρ : σ → Type} {ε D W L : Type} (E : Engine σ ρ ε D W L)
    (ι α : Type) where
  progs : ι → Prog σ ρ ε α
  lock : ι → L
  /-- The two databases have the same footprint of a transaction. -/
  agree : ι → D → D → Prop
  later : D → D → Prop
  reads : ι → σ → Prop
  writes : ι → W → Prop
  answers : (s : σ) → ρ s → Prop
  /-- What is left of a transaction that does not hold its lock yet. -/
  waiting : ι → Prog σ ρ ε α → D → Prop
  agree_refl : ∀ i db, agree i db db
  agree_trans : ∀ {i a b c}, agree i a b → agree i b c → agree i a c
  agree_apply : ∀ {i a b} w, agree i a b → agree i (E.apply a w) (E.apply b w)
  agree_foreign : ∀ {i j w} db, lock i ≠ lock j → writes j w → agree i db (E.apply db w)
  eval_agree : ∀ {i s snap cur snap' cur'}, reads i s → agree i snap snap' →
    agree i cur cur' → E.eval s snap cur = E.eval s snap' cur'
  eval_within : ∀ {i s snap cur r ws}, reads i s → E.eval s snap cur = .ok (r, ws) →
    answers s r ∧ ∀ w ∈ ws, writes i w
  later_refl : ∀ db, later db db
  later_trans : ∀ {a b c}, later a b → later b c → later a c
  later_apply : ∀ {i w} db, writes i w → later db (E.apply db w)
  waiting_start : ∀ i db, waiting i (progs i) db
  waiting_exec : ∀ {i p db}, waiting i p db → ∃ s k, p = .exec s k
  waiting_later : ∀ {i p db db'}, waiting i p db → later db db' → waiting i p db'
  waiting_error : ∀ {i s k snap cur e}, waiting i (.exec s k) snap → later snap cur →
    E.eval s snap cur ≠ .error e
  waiting_next : ∀ {i s k snap cur r ws}, waiting i (.exec s k) snap → later snap cur →
    E.eval s snap cur = .ok (r, ws) → (ws = [] ∧ waiting i (k r) cur) ∨
      (lock i ∈ E.locks s snap cur ∧ (∀ w ∈ ws, writes i w) ∧
        (k r).Within (reads i) answers (fun _ => True) (fun _ => True) ∧
        ∀ db', agree i cur db' → E.exec (progs i) db' = E.exec (k r) (E.view db' ws))

/-- The transaction that ends with a step by its own commit or rollback. -/
def Label.ended? : Label ι σ ε → Option ι
  | .commit i | .rollback i => some i
  | _ => none

/-- The transactions that ended by themselves, in order. -/
def ended (ls : List (Label ι σ ε)) : List ι := ls.filterMap Label.ended?

theorem ended_snoc (ls : List (Label ι σ ε)) (l : Label ι σ ε) :
    ended (ls ++ [l]) = ended ls ++ (Label.ended? l).toList := by
  rw [ended, List.filterMap_append]
  cases h : Label.ended? l <;> simp [ended, h]

namespace Discipline
variable {ι σ : Type} {ρ : σ → Type} {ε D W L α : Type} {E : Engine σ ρ ε D W L}
variable (P : Discipline E ι α)

/-- The transaction holds its lock, and from any database with the same footprint it would have
come to the point where it is. -/
def Locked (i : ι) (st : Sess σ W L) (p : Prog σ ρ ε α) (db : D) : Prop :=
  P.lock i ∈ st.held ∧ (∀ w ∈ st.writes, P.writes i w) ∧
    p.Within (P.reads i) P.answers (fun _ => True) (fun _ => True) ∧
    ∀ db', P.agree i db db' → E.exec (P.progs i) db' = E.exec p (E.view db' st.writes)

def Phase (i : ι) : Session σ ρ ε D W L α → D → Prop
  | .active st none p, db => P.Locked i st p db ∨ (st.writes = [] ∧ P.waiting i p db)
  | .active st (some snap) p, db =>
    (P.Locked i st p db ∧ P.agree i snap db) ∨
      (st.writes = [] ∧ P.waiting i p snap ∧ P.later snap db)
  | .done _, _ => True

structure Inv (c : Config ι σ ρ ε D W L α) : Prop where
  exclusive : Engine.Exclusive c
  phase : ∀ i, P.Phase i (c.sess i) c.db

/-- One transaction after the other. -/
def serial (order : List ι) (db : D) : D :=
  order.foldl (fun db i => (E.transact (P.progs i) db).2) db

variable {P}

@[simp] theorem serial_nil (db : D) : P.serial [] db = db := rfl

theorem serial_snoc (order : List ι) (i : ι) (db : D) :
    P.serial (order ++ [i]) db = (E.transact (P.progs i) (P.serial order db)).2 := by
  simp [serial]

theorem agree_view {a b : D} (h : P.agree i a b) (ws : List W) :
    P.agree i (E.view a ws) (E.view b ws) := by
  induction ws generalizing a b with
  | nil => exact h
  | cons w ws ih => exact ih (P.agree_apply w h)

theorem agree_foreign_view (db : D) {ws : List W} (hij : P.lock i ≠ P.lock j)
    (hw : ∀ w ∈ ws, P.writes j w) : P.agree i db (E.view db ws) := by
  induction ws generalizing db with
  | nil => exact P.agree_refl i db
  | cons w ws ih =>
    exact P.agree_trans (P.agree_foreign db hij (hw w (List.mem_cons_self ..)))
      (ih _ fun w' hw' => hw w' (List.mem_cons_of_mem _ hw'))

theorem later_view (db : D) {ws : List W} (hw : ∀ w ∈ ws, P.writes i w) :
    P.later db (E.view db ws) := by
  induction ws generalizing db with
  | nil => exact P.later_refl db
  | cons w ws ih =>
    exact P.later_trans (P.later_apply db (hw w (List.mem_cons_self ..)))
      (ih _ fun w' hw' => hw w' (List.mem_cons_of_mem _ hw'))

theorem Locked.agree {st : Sess σ W L} {p : Prog σ ρ ε α} {db db' : D}
    (h : P.Locked i st p db) (ha : P.agree i db db') : P.Locked i st p db' :=
  ⟨h.1, h.2.1, h.2.2.1, fun _ h' => h.2.2.2 _ (P.agree_trans ha h')⟩

theorem Locked.start {st : Sess σ W L} {p : Prog σ ρ ε α} {db : D} {s : σ}
    (h : P.Locked i st p db) : P.Locked i (st.start s) p db := h

theorem Locked.finish {st : Sess σ W L} {s : σ} {k : ρ s → Prog σ ρ ε α} {snap db : D}
    {r : ρ s} {ws : List W} {ls : List L} (h : P.Locked i st (.exec s k) db)
    (ha : P.agree i snap db)
    (he : E.eval s (E.view snap st.writes) (E.view db st.writes) = .ok (r, ws)) :
    P.Locked i (st.finish ws ls) (k r) db := by
  obtain ⟨hl, hw, ⟨hs, hk⟩, hx⟩ := h
  obtain ⟨hr, hws⟩ := P.eval_within hs he
  refine ⟨List.mem_append_left _ hl, ?_, hk r hr, ?_⟩
  · intro w hmem
    rcases List.mem_append.1 hmem with hmem | hmem
    · exact hw w hmem
    · exact hws w hmem
  · intro db' hdb'
    have he' : E.eval s (E.view db' st.writes) (E.view db' st.writes) = .ok (r, ws) := by
      rw [← he]
      exact (P.eval_agree hs (agree_view (P.agree_trans ha hdb') _)
        (agree_view hdb' _)).symm
    rw [hx db' hdb', E.exec_exec he', Sess.finish_writes, E.view_append]

theorem Locked.fail {st : Sess σ W L} {s : σ} {k : ρ s → Prog σ ρ ε α} {snap db : D} {e : ε}
    (h : P.Locked i st (.exec s k) db) (ha : P.agree i snap db)
    (he : E.eval s (E.view snap st.writes) (E.view db st.writes) = .error e) :
    P.Locked i st (.throw e) db := by
  obtain ⟨hl, hw, ⟨hs, _⟩, hx⟩ := h
  refine ⟨hl, hw, trivial, ?_⟩
  intro db' hdb'
  have he' : E.eval s (E.view db' st.writes) (E.view db' st.writes) = .error e := by
    rw [← he]
    exact (P.eval_agree hs (agree_view (P.agree_trans ha hdb') _) (agree_view hdb' _)).symm
  rw [hx db' hdb', E.exec_error he', E.exec_throw]

theorem Phase.ended {st : Sess σ W L} {p : Prog σ ρ ε α} {db : D}
    (h : P.Phase i (.active st none p) db) (hp : ∀ s k, p ≠ .exec s k) : P.Locked i st p db := by
  rcases h with h | ⟨_, h⟩
  · exact h
  · obtain ⟨s, k, rfl⟩ := P.waiting_exec h
    exact absurd rfl (hp s k)

/-- A transaction keeps its phase when another one commits. -/
theorem Phase.commit {x : Session σ ρ ε D W L α} {db : D} {ws : List W}
    (h : P.Phase i x db) (hw : ∀ w ∈ ws, P.writes j w) (hj : P.lock j ∉ x.held) :
    P.Phase i x (E.view db ws) := by
  have hagree : P.lock i ∈ x.held → P.agree i db (E.view db ws) := by
    intro hi
    apply agree_foreign_view db _ hw
    intro hij
    exact hj (hij ▸ hi)
  cases x with
  | done => trivial
  | active st snap p =>
    cases snap with
    | none =>
      rcases h with h | ⟨h₀, h⟩
      · exact Or.inl (h.agree (hagree h.1))
      · exact Or.inr ⟨h₀, P.waiting_later h (later_view db hw)⟩
    | some snap =>
      rcases h with ⟨h, ha⟩ | ⟨h₀, h, hl⟩
      · exact Or.inl ⟨h.agree (hagree h.1), P.agree_trans ha (hagree h.1)⟩
      · exact Or.inr ⟨h₀, h, P.later_trans hl (later_view db hw)⟩

variable [DecidableEq ι]

theorem Inv.set {c : Config ι σ ρ ε D W L α} (h : P.Inv c) {i : ι}
    {x : Session σ ρ ε D W L α} (hx : P.Phase i x c.db)
    (he : Engine.Exclusive (c.set i x)) : P.Inv (c.set i x) := by
  refine ⟨he, fun j => ?_⟩
  by_cases hj : j = i
  · subst hj; rw [Config.set_self]; exact hx
  · rw [Config.set_other _ hj]; exact h.phase j

theorem Inv.moves {c c' : Config ι σ ρ ε D W L α} {l : Label ι σ ε} (h : P.Inv c)
    (hm : E.Moves c l c') : P.Inv c' := by
  have hex : Engine.Exclusive c' := Engine.Exclusive.moves E h.exclusive hm
  cases hm with
  | @start i st s k hi =>
    have hp := h.phase i
    rw [hi] at hp
    apply h.set _ hex
    rcases hp with hp | ⟨h₀, hp⟩
    · exact Or.inl ⟨hp.start, P.agree_refl i _⟩
    · exact Or.inr ⟨h₀, hp, P.later_refl _⟩
  | @finish i st snap s k r ws hi hf he =>
    have hp := h.phase i
    rw [hi] at hp
    apply h.set _ hex
    rcases hp with ⟨hp, ha⟩ | ⟨h₀, hp, hl⟩
    · exact Or.inl (hp.finish ha he)
    · rw [h₀, E.view_nil, E.view_nil] at he
      rcases P.waiting_next hp hl he with ⟨rfl, hk⟩ | ⟨hlock, hw, hk, hx⟩
      · exact Or.inr ⟨by rw [Sess.finish_writes, h₀]; rfl, hk⟩
      · refine Or.inl ⟨?_, ?_, hk, ?_⟩
        · rw [h₀]
          exact List.mem_append_right _ hlock
        · rw [Sess.finish_writes, h₀]
          exact hw
        · rw [Sess.finish_writes, h₀]
          exact hx
  | @fail i st snap s k e hi hf he =>
    have hp := h.phase i
    rw [hi] at hp
    apply h.set _ hex
    rcases hp with ⟨hp, ha⟩ | ⟨h₀, hp, hl⟩
    · exact Or.inl (hp.fail ha he)
    · rw [h₀, E.view_nil, E.view_nil] at he
      exact absurd he (P.waiting_error hp hl)
  | @commit i st a hi =>
    have hp := h.phase i
    rw [hi] at hp
    have hlocked := hp.ended fun s k hsk => by cases hsk
    refine ⟨hex, fun j => ?_⟩
    rw [Config.install_sess, Config.install_db]
    by_cases hj : j = i
    · subst hj; rw [Config.set_self]; trivial
    · rw [Config.set_other _ hj]
      apply (h.phase j).commit hlocked.2.1
      have hne := h.exclusive i j (Ne.symm hj) (P.lock i)
      rw [hi] at hne
      exact hne hlocked.1
  | rollback hi => exact h.set trivial hex
  | abort hi => exact h.set trivial hex

/-- A run so far is the serial run of the transactions that have ended. -/
structure Replayed (P : Discipline E ι α) (db₀ : D) (ls : List (Label ι σ ε))
    (c : Config ι σ ρ ε D W L α) : Prop where
  inv : P.Inv c
  db : c.db = P.serial (ended ls) db₀
  result : ∀ pre i post, ended ls = pre ++ i :: post →
    c.sess i = .done (E.transact (P.progs i) (P.serial pre db₀)).1
  done : ∀ i r, c.sess i = .done r → i ∈ ended ls ∨ ∃ e, Label.abort i e ∈ ls
  aborted : ∀ i e, Label.abort i e ∈ ls → i ∉ ended ls ∧ ∃ r, c.sess i = .done r
  nodup : (ended ls).Nodup

omit [DecidableEq ι] in
theorem Replayed.not_ended {db₀ : D} {ls : List (Label ι σ ε)} {c : Config ι σ ρ ε D W L α}
    (h : P.Replayed db₀ ls c) {st : Sess σ W L} {snap : Option D} {p : Prog σ ρ ε α}
    (hi : c.sess i = .active st snap p) : i ∉ ended ls := by
  intro hmem
  obtain ⟨pre, post, heq⟩ := List.append_of_mem hmem
  rw [h.result _ _ _ heq] at hi
  cases hi

theorem Replayed.continue {db₀ : D} {ls : List (Label ι σ ε)} {c : Config ι σ ρ ε D W L α}
    (h : P.Replayed db₀ ls c) {l : Label ι σ ε} {st st' : Sess σ W L} {snap snap' : Option D}
    {p p' : Prog σ ρ ε α} (hi : c.sess i = .active st snap p)
    (hl : Label.ended? l = none) (ha : ¬ l.IsAbort)
    (hinv : P.Inv (c.set i (.active st' snap' p'))) :
    P.Replayed db₀ (ls ++ [l]) (c.set i (.active st' snap' p')) := by
  have hend : ended (ls ++ [l]) = ended ls := by rw [ended_snoc, hl]; simp
  refine ⟨hinv, ?_, ?_, ?_, ?_, ?_⟩
  · rw [hend]; exact h.db
  · intro pre j post heq
    rw [hend] at heq
    have hj : j ≠ i := by
      rintro rfl
      exact h.not_ended hi (heq ▸ List.mem_append_right _ (List.mem_cons_self ..))
    rw [Config.set_other _ hj]
    exact h.result _ _ _ heq
  · intro j r hj
    rw [hend]
    by_cases hji : j = i
    · subst hji; rw [Config.set_self] at hj; cases hj
    · rw [Config.set_other _ hji] at hj
      rcases h.done _ _ hj with h' | ⟨e, h'⟩
      · exact Or.inl h'
      · exact Or.inr ⟨e, List.mem_append_left _ h'⟩
  · intro j e hj
    rw [hend]
    rcases List.mem_append.1 hj with hj | hj
    · obtain ⟨hne, r, hr⟩ := h.aborted _ _ hj
      have hji : j ≠ i := by
        rintro rfl
        rw [hi] at hr
        cases hr
      exact ⟨hne, r, by rw [Config.set_other _ hji]; exact hr⟩
    · obtain rfl := List.mem_singleton.1 hj
      exact absurd trivial ha
  · rw [hend]; exact h.nodup

/-- A transaction ends by its own commit or rollback, with what it would give alone. -/
theorem Replayed.end {db₀ : D} {ls : List (Label ι σ ε)} {c c' : Config ι σ ρ ε D W L α}
    (h : P.Replayed db₀ ls c) {l : Label ι σ ε} {st : Sess σ W L} {snap : Option D}
    {p : Prog σ ρ ε α} (hi : c.sess i = .active st snap p) (hl : Label.ended? l = some i)
    (ha : ¬ l.IsAbort) (hinv : P.Inv c')
    (hself : c'.sess i = .done (E.transact (P.progs i) c.db).1)
    (hother : ∀ j, j ≠ i → c'.sess j = c.sess j)
    (hdb : c'.db = (E.transact (P.progs i) c.db).2) : P.Replayed db₀ (ls ++ [l]) c' := by
  have hend : ended (ls ++ [l]) = ended ls ++ [i] := by rw [ended_snoc, hl]; rfl
  have hnot := h.not_ended hi
  refine ⟨hinv, ?_, ?_, ?_, ?_, ?_⟩
  · rw [hend, serial_snoc, ← h.db, hdb]
  · intro pre j post heq
    rw [hend] at heq
    rcases List.eq_nil_or_concat post with rfl | ⟨post, k, rfl⟩
    · obtain ⟨rfl, hij⟩ := List.append_inj' heq rfl
      obtain rfl : i = j := by simpa using hij
      rw [hself, h.db]
    · rw [List.concat_eq_append, ← List.cons_append, ← List.append_assoc] at heq
      obtain ⟨hpre, _⟩ := List.append_inj' heq rfl
      have hj : j ≠ i := by
        rintro rfl
        exact hnot (hpre ▸ List.mem_append_right _ (List.mem_cons_self ..))
      rw [hother j hj]
      exact h.result _ _ _ hpre
  · intro j r hj
    rw [hend]
    by_cases hji : j = i
    · exact Or.inl (List.mem_append_right _ (List.mem_singleton.2 hji))
    · rw [hother j hji] at hj
      rcases h.done _ _ hj with h' | ⟨e, h'⟩
      · exact Or.inl (List.mem_append_left _ h')
      · exact Or.inr ⟨e, List.mem_append_left _ h'⟩
  · intro j e hj
    rw [hend]
    rcases List.mem_append.1 hj with hj | hj
    · obtain ⟨hne, r, hr⟩ := h.aborted _ _ hj
      have hji : j ≠ i := by
        rintro rfl
        rw [hi] at hr
        cases hr
      refine ⟨?_, r, by rw [hother j hji]; exact hr⟩
      rw [List.mem_append, List.mem_singleton]
      rintro (h' | h')
      · exact hne h'
      · exact hji h'
    · obtain rfl := List.mem_singleton.1 hj
      exact absurd trivial ha
  · rw [hend]
    refine List.nodup_append.2 ⟨h.nodup, List.nodup_singleton _, ?_⟩
    rintro j hj k hk rfl
    exact hnot (List.mem_singleton.1 hk ▸ hj)

theorem Replayed.moves {db₀ : D} {ls : List (Label ι σ ε)} {c c' : Config ι σ ρ ε D W L α}
    {l : Label ι σ ε} (h : P.Replayed db₀ ls c) (hm : E.Moves c l c') :
    P.Replayed db₀ (ls ++ [l]) c' := by
  have hinv : P.Inv c' := h.inv.moves hm
  cases hm with
  | start hi => exact h.continue hi rfl id hinv
  | finish hi hf he => exact h.continue hi rfl id hinv
  | fail hi hf he => exact h.continue hi rfl id hinv
  | @commit i st a hi =>
    have hp := h.inv.phase i
    rw [hi] at hp
    have hx := (hp.ended fun s k hsk => by cases hsk).2.2.2 _ (P.agree_refl i _)
    have hx' : E.transact (P.progs i) c.db = (.ok a, E.view c.db st.writes) := by
      rw [Engine.transact, hx]
      rfl
    refine h.end hi rfl id hinv ?_ (fun j hj => ?_) ?_
    · rw [hx', Config.install_sess, Config.set_self]
    · rw [Config.install_sess, Config.set_other _ hj]
    · rw [hx', Config.install_db]
  | @rollback i st e hi =>
    have hp := h.inv.phase i
    rw [hi] at hp
    have hx := (hp.ended fun s k hsk => by cases hsk).2.2.2 _ (P.agree_refl i _)
    have hx' : E.transact (P.progs i) c.db = (.error e, c.db) := by
      rw [Engine.transact, hx]
      rfl
    refine h.end hi rfl id hinv ?_ (fun j hj => ?_) ?_
    · rw [hx', Config.set_self]
    · rw [Config.set_other _ hj]
    · rw [hx', Config.set_db]
  | @abort i st snap p e hi =>
    have hnot := h.not_ended hi
    have hend : ended (ls ++ [Label.abort i e]) = ended ls := by
      rw [ended_snoc]
      exact List.append_nil _
    refine ⟨hinv, ?_, ?_, ?_, ?_, ?_⟩
    · rw [hend]; exact h.db
    · intro pre j post heq
      rw [hend] at heq
      have hj : j ≠ i := by
        rintro rfl
        exact hnot (heq ▸ List.mem_append_right _ (List.mem_cons_self ..))
      rw [Config.set_other _ hj]
      exact h.result _ _ _ heq
    · intro j r hj
      rw [hend]
      by_cases hji : j = i
      · exact Or.inr ⟨e, List.mem_append_right _ (List.mem_singleton.2 (by rw [hji]))⟩
      · rw [Config.set_other _ hji] at hj
        rcases h.done _ _ hj with h' | ⟨e', h'⟩
        · exact Or.inl h'
        · exact Or.inr ⟨e', List.mem_append_left _ h'⟩
    · intro j e' hj
      rw [hend]
      by_cases hji : j = i
      · subst hji
        exact ⟨hnot, _, Config.set_self ..⟩
      · rw [Config.set_other _ hji]
        rcases List.mem_append.1 hj with hj | hj
        · exact h.aborted _ _ hj
        · obtain ⟨rfl, _⟩ := Label.abort.inj (List.mem_singleton.1 hj)
          exact absurd rfl hji
    · rw [hend]; exact h.nodup

variable [Fintype ι] [DecidableEq L] [DecidableEq σ]

theorem replayed {db₀ : D} {ok : Config ι σ ρ ε D W L α → Label ι σ ε → Prop}
    {ls : List (Label ι σ ε)} {c : Config ι σ ρ ε D W L α}
    (hr : E.Run ok (.init P.progs db₀) ls c) : P.Replayed db₀ ls c := by
  apply Engine.Run.history E hr
  · refine ⟨⟨?_, ?_⟩, rfl, ?_, ?_, ?_, List.nodup_nil⟩
    · intro i j _ k hk; cases hk
    · exact fun i => Or.inr ⟨rfl, P.waiting_start i db₀⟩
    · intro pre i post heq
      cases pre <;> cases heq
    · intro i r hi; cases hi
    · intro i e he; cases he
  · intro ls c l c' h _ hm
    exact h.moves hm

/-- Transactions under one lock end in the order in which they got past a statement that
takes it. -/
theorem lock_order {db₀ : D} {ok : Config ι σ ρ ε D W L α → Label ι σ ε → Prop}
    {ls : List (Label ι σ ε)} {c : Config ι σ ρ ε D W L α} {i j : ι} {s s' : σ}
    (hr : E.Run ok (.init P.progs db₀) ls c)
    (hs : ∀ {c c'}, P.Inv c → E.Moves c (.finish i s) c' → P.lock i ∈ (c'.sess i).held)
    (hs' : ∀ {c c'}, P.Inv c → E.Moves c (.finish j s') c' → P.lock j ∈ (c'.sess j).held)
    (hij : i ≠ j) (hlock : P.lock i = P.lock j)
    (hsub : [Label.finish i s, Label.finish j s'].Sublist ls) (hi : i ∈ ended ls)
    (hj : j ∈ ended ls) : [i, j].Sublist (ended ls) := by
  obtain ⟨l₁, l₂, rfl, h₁, h₂⟩ := List.cons_sublist_iff.1 hsub
  obtain ⟨l₂, l₃, rfl⟩ := List.append_of_mem (List.singleton_sublist.1 h₂)
  obtain ⟨l₀, l₁, rfl⟩ := List.append_of_mem h₁
  rw [show l₀ ++ .finish i s :: l₁ ++ (l₂ ++ .finish j s' :: l₃) =
    l₀ ++ [.finish i s] ++ (l₁ ++ l₂) ++ [.finish j s'] ++ l₃ by simp] at hr hi hj ⊢
  obtain ⟨c₃, hr₃, _⟩ := hr.split E
  obtain ⟨c₂, hr₂, hm₃⟩ := hr₃.split E
  obtain ⟨c₁, hr₁, hm₂⟩ := hr₂.split E
  obtain ⟨c₀, hr₀, hm₁⟩ := hr₁.split E
  have hrep := replayed hr₃
  have hheld : Engine.Keeps c₁ i (P.lock i) := Or.inl (hs (replayed hr₀).inv (hm₁.single E))
  have hkeep : Engine.Keeps c₃ i (P.lock i) := hm₃.keeps E (hm₂.keeps E hheld)
  have hheld' := hs' (replayed hr₂).inv (hm₃.single E)
  have hdone : ∃ r, c₃.sess i = .done r := by
    rcases hkeep with h | h
    · exact absurd (hlock ▸ hheld') (hrep.inv.exclusive i j hij _ h)
    · exact h
  have hi₃ : i ∈ ended (l₀ ++ [.finish i s] ++ (l₁ ++ l₂) ++ [.finish j s']) := by
    obtain ⟨r, hr'⟩ := hdone
    rcases hrep.done i r hr' with h | ⟨e, h⟩
    · exact h
    · exact absurd hi ((replayed hr).aborted i e (List.mem_append_left _ h)).1
  have hj₃ : j ∉ ended (l₀ ++ [.finish i s] ++ (l₁ ++ l₂) ++ [.finish j s']) := by
    intro h
    obtain ⟨pre, post, heq⟩ := List.append_of_mem h
    rw [hrep.result _ _ _ heq] at hheld'
    cases hheld'
  rw [ended, List.filterMap_append] at hj ⊢
  exact (List.singleton_sublist.2 hi₃).append
    (List.singleton_sublist.2 ((List.mem_append.1 hj).resolve_left hj₃))

end Discipline
end Txn
