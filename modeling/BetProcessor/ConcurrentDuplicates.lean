import BetProcessor.ConcurrentRuns
import BetProcessor.SerialRuns

namespace BetProcessor
set_option autoImplicit true
open Txn

/-- A claim returns one row: of the id that it claims, or of the first claim of this id. -/
inductive Claims (input : ClaimInput) (cur : Db) : List ClaimRow → Prop where
  | first {row} (hfree : ¬ cur.Registered input.actionId) (hclaimed : row.claimed = true)
    (htx : row.txId = input.txId) : Claims input cur [row]
  | again {g row} (hg : g ∈ cur.actionRegistry) (hid : g.actionId = input.actionId)
    (hclaimed : row.claimed = false) (htx : row.txId = g.txId) : Claims input cur [row]

/-- The id was committed after the statement of the request took its snapshot. -/
def Overtaken {ι : Type} (c : Requests ι) (i : ι) (x : Uuid) : Prop :=
  c.db.Registered x ∧ ∃ snap ∈ (c.sess i).snapshot?, ¬ snap.Registered x

instance {ι : Type} (c : Requests ι) (i : ι) (x : Uuid) : Decidable (Overtaken c i x) :=
  inferInstanceAs (Decidable (_ ∧ ∃ snap ∈ (c.sess i).snapshot?, ¬ snap.Registered x))

/-- The request and the id of a claim that ends. -/
def endingClaim? {ι : Type} : Label ι Stmt Err → Option (ι × Uuid)
  | .finish i (.claim input) => some (i, input.actionId)
  | _ => none

/-- No claim ends overtaken. -/
def Punctual {ι : Type} (c : Requests ι) (l : Label ι Stmt Err) : Prop :=
  ∀ claim ∈ endingClaim? l, ¬ Overtaken c claim.1 claim.2

instance {ι : Type} (c : Requests ι) (l : Label ι Stmt Err) : Decidable (Punctual c l) :=
  inferInstanceAs (Decidable (∀ claim ∈ endingClaim? l, ¬ Overtaken c claim.1 claim.2))

section
variable {snap cur db db' : Db} {input : ClaimInput} {ws : List Write}

theorem filter_of_nodup {f : α → β} [DecidableEq β] {l : List α} (h : (l.map f).Nodup) {x : α}
    (hx : x ∈ l) : (l.filter fun y => f y = f x) = [x] := by
  induction l with
  | nil => cases hx
  | cons y l ih =>
    obtain ⟨hy, hl⟩ := List.nodup_cons.1 h
    rcases List.mem_cons.1 hx with rfl | hx
    · have hnil : (l.filter fun y => decide (f y = f x)) = [] := by
        apply List.filter_eq_nil_iff.2
        intro z hz hfz
        exact hy (of_decide_eq_true hfz ▸ List.mem_map_of_mem hz)
      rw [List.filter_cons_of_pos (by simp), hnil]
    · have hne : f y ≠ f x := fun heq => hy (heq ▸ List.mem_map_of_mem hx)
      rw [List.filter_cons_of_neg (by simpa using hne), ih hl hx]

theorem claim_eval (input : ClaimInput) (snap cur : Db) :
    ∃ rows ws, (Stmt.claim input).eval snap cur = .ok (rows, ws) := by
  simp only [Stmt.eval]
  split
  · exact ⟨_, _, rfl⟩
  · exact ⟨_, _, rfl⟩

theorem claim_nonempty {rows : List ClaimRow}
    (he : (Stmt.claim input).eval snap cur = .ok (rows, ws))
    (h : cur.Registered input.actionId → snap.Registered input.actionId) : rows ≠ [] := by
  simp only [Stmt.eval] at he
  split at he
  · obtain ⟨g, hg, hid⟩ := h ‹_›
    cases he
    have hmem : g ∈ snap.actionRegistry.filter (·.actionId = input.actionId) :=
      List.mem_filter.2 ⟨hg, decide_eq_true hid⟩
    exact List.ne_nil_of_mem (List.mem_map_of_mem hmem)
  · cases he
    exact List.cons_ne_nil _ _

/-- The claim falls between its two branches exactly when the conflicting row is not in its
snapshot. -/
theorem claims_iff {rows : List ClaimRow}
    (he : (Stmt.claim input).eval snap cur = .ok (rows, ws))
    (hsub : snap.actionRegistry.Sublist cur.actionRegistry)
    (hnodup : (cur.actionRegistry.map (·.actionId)).Nodup) :
    Claims input cur rows ↔ (cur.Registered input.actionId → snap.Registered input.actionId) := by
  constructor
  · intro h hcur
    by_contra hsnap
    have hnil : snap.actionRegistry.filter (·.actionId = input.actionId) = [] := by
      apply List.filter_eq_nil_iff.2
      intro g hg hid
      exact hsnap ⟨g, hg, of_decide_eq_true hid⟩
    simp only [Stmt.eval, if_pos hcur, hnil] at he
    cases he
    cases h
  · intro h
    by_cases hcur : cur.Registered input.actionId
    · obtain ⟨g, hg, hid⟩ := h hcur
      have hone : snap.actionRegistry.filter (·.actionId = input.actionId) = [g] := by
        rw [← hid]
        exact filter_of_nodup (hnodup.sublist (hsub.map _)) hg
      simp only [Stmt.eval, if_pos hcur, hone] at he
      cases he
      exact .again (hsub.subset hg) hid rfl rfl
    · simp only [Stmt.eval, if_neg hcur] at he
      cases he
      exact .first hcur rfl rfl

theorem registered_views (hnodup : ((postgres.view cur ws).actionRegistry.map (·.actionId)).Nodup)
    (x : Uuid) : ((postgres.view cur ws).Registered x → (postgres.view snap ws).Registered x) ↔
      ¬ (cur.Registered x ∧ ¬ snap.Registered x) := by
  rw [Db.view_registered, Db.view_registered]
  constructor
  · rintro h ⟨⟨g, hg, hid⟩, hsnap⟩
    obtain ⟨g', hg', hid'⟩ := (h (Or.inl ⟨g, hg, hid⟩)).resolve_left hsnap
    rw [Db.view_actionRegistry, List.map_append, List.nodup_append] at hnodup
    exact hnodup.2.2 _ (List.mem_map_of_mem hg) _ (List.mem_map_of_mem hg') (hid.trans hid'.symm)
  · intro h
    exact Or.imp_left fun hcur => not_not.1 fun hsnap => h ⟨hcur, hsnap⟩

theorem Stmt.eval_registry {s : Stmt} {r : s.Reply} (h : s.eval snap cur = .ok (r, ws)) :
    ws.flatMap Write.registryRows = [] ∨
      ∃ g, ws.flatMap Write.registryRows = [g] ∧ ¬ cur.Registered g.actionId := by
  cases s with
  | claim input =>
    simp only [Stmt.eval] at h
    split at h
    · cases h
      exact Or.inl rfl
    · cases h
      exact Or.inr ⟨_, rfl, ‹_›⟩
  | _ =>
    left
    simp only [Stmt.eval] at h
    repeat' split at h
    all_goals cases h
    all_goals rfl

theorem Stmt.eval_ne_rowMissing (s : Stmt) : s.eval snap cur ≠ .error .rowMissing := by
  cases s <;> simp only [Stmt.eval] <;> repeat' split
  all_goals simp

theorem registry_key {g : RegistryRow} (hg : g ∈ ws.flatMap Write.registryRows) :
    ∃ w ∈ ws, Key.registry g.actionId ∈ w.keys := by
  obtain ⟨w, hw, hg⟩ := List.mem_flatMap.1 hg
  refine ⟨w, hw, ?_⟩
  cases w with
  | insertRegistry row =>
    obtain rfl := List.mem_singleton.1 hg
    exact List.mem_singleton.2 rfl
  | _ => cases hg

theorem insertAccount_isSome (snap : Db) {a : Account} {r : Unit}
    (h : (Stmt.insertAccount a).eval snap cur = .ok (r, ws)) :
    ((postgres.view cur ws).account? a).isSome := by
  simp only [Stmt.eval] at h
  split at h
  · cases h
    exact ‹_›
  · cases h
    simp [Write.onAccount]

theorem selectAccount_some {a : Account} {r : Option Int}
    (h : (Stmt.selectAccountForUpdate a).eval snap cur = .ok (r, ws))
    (hseen : (snap.account? a).isSome) (hsome : (cur.account? a).isSome) :
    ∃ b, r = some b ∧ Key.account a ∈ (Stmt.selectAccountForUpdate a).locks snap cur := by
  simp only [Stmt.eval, if_pos hseen] at h
  obtain ⟨row, hrow⟩ := Option.isSome_iff_exists.1 hsome
  rw [hrow] at h
  cases h
  refine ⟨row.balance, rfl, ?_⟩
  simp only [Stmt.locks, if_pos hseen, List.mem_singleton]

theorem account?_isSome_later {a : Account} (h : (db.account? a).isSome → (db'.account? a).isSome)
    (hsome : ((postgres.view db ws).account? a).isSome) :
    ((postgres.view db' ws).account? a).isSome := by
  induction ws generalizing db db' with
  | nil => exact h hsome
  | cons w ws ih =>
    refine ih ?_ hsome
    rw [postgres_apply, postgres_apply, Db.apply_account?, Db.apply_account?]
    cases w with
    | insertAccount row =>
      simp only [Write.onAccount, Option.isSome_or, Bool.or_eq_true]
      exact Or.imp_left h
    | updateBalance b v =>
      simp only [Write.onAccount, Option.isSome_map]
      exact h
    | _ => exact h

end

section
variable {ι : Type} [Fintype ι] [DecidableEq ι] {calls : ι → Call}
variable {ok : Requests ι → Label ι Stmt Err → Prop} {db₀ : Db} {c : Requests ι}
variable {ls : List (Label ι Stmt Err)}

/-- Every open request sees each id once, its own claims included. -/
theorem unique_run (h₀ : db₀.Initial)
    (hr : postgres.Run ok (.init (fun i => (calls i).body) db₀) ls c) :
    Engine.Sessions (fun _ st _ _ db =>
      ((postgres.view db st.writes).actionRegistry.map (·.actionId)).Nodup) c := by
  apply Engine.Run.sessions postgres (I := fun _ st _ _ db =>
    ((postgres.view db st.writes).actionRegistry.map (·.actionId)).Nodup) hr
  · intro i
    exact h₀.consistent.registry_nodup
  · intro i st s k db h
    exact h
  · intro c i st snap s k r ws _ _ h he
    rw [Sess.finish_writes, Engine.view_append, Db.view_actionRegistry _ ws]
    rcases Stmt.eval_registry he with hnil | ⟨g, hg, hfree⟩
    · rw [hnil, List.append_nil]
      exact h
    · rw [hg]
      exact nodup_map_snoc h fun g' hg' hid => hfree ⟨g', hg', hid⟩
  · intro i st snap s k db e h _
    exact h
  · intro i j st snap p st' a db h h' hcov hcov' hlock
    rw [Db.view_actionRegistry, List.map_append, List.nodup_append] at h ⊢
    refine ⟨h', h.2.1, ?_⟩
    rw [Db.view_actionRegistry, List.map_append]
    intro x hx y hy
    rcases List.mem_append.1 hx with hx | hx
    · exact h.2.2 x hx y hy
    · rintro rfl
      obtain ⟨g, hg, rfl⟩ := List.mem_map.1 hy
      obtain ⟨g', hg', hid⟩ := List.mem_map.1 hx
      obtain ⟨w, hw, hk⟩ := registry_key hg
      obtain ⟨w', hw', hk'⟩ := registry_key hg'
      rw [hid] at hk'
      exact hlock _ (hcov w hw _ hk) (hcov' w' hw' _ hk')

/-- A request before and after it has locked its account; then its body satisfies `Q`. -/
inductive Opening (c : Call) (Q : Tx ProcessResponse → Prop) (st : Sess Stmt Write Key)
    (snap : Option Db) (db : Db) : Tx ProcessResponse → Prop where
  | insert : Opening c Q st snap db c.body
  | select (hseen : ((postgres.view (snap.getD db) st.writes).account? c.account).isSome)
    (hsome : ((postgres.view db st.writes).account? c.account).isSome) :
    Opening c Q st snap db (afterInsert c.svc c.draws c.request)
  | locked {p} (hheld : Key.account c.account ∈ st.held) (hp : Q p) : Opening c Q st snap db p

theorem opening_run {Q : ι → Tx ProcessResponse → Prop}
    (hlock : ∀ i b, Q i (afterLock (calls i).svc (calls i).draws (calls i).request b))
    (hstep : ∀ {c i st snap s k r ws}, c.sess i = .active st (some snap) (.exec s k) →
      ok c (.finish i s) → Q i (.exec s k) →
      s.eval (postgres.view snap st.writes) (postgres.view c.db st.writes) = .ok (r, ws) →
      Q i (k r))
    (hfail : ∀ {i e}, e ≠ .rowMissing → Q i (.throw e))
    (hr : postgres.Run ok (.init (fun i => (calls i).body) db₀) ls c) :
    Engine.Sessions (fun i st snap p db => Opening (calls i) (Q i) st snap db p) c := by
  apply Engine.Run.sessions postgres (I := fun i st snap p db =>
    Opening (calls i) (Q i) st snap db p) hr
  · intro i
    exact .insert
  · intro i st s k db h
    generalize hp : Prog.exec s k = p at h ⊢
    cases h with
    | insert => exact .insert
    | select hseen hsome => exact .select hseen hsome
    | locked hheld hq => exact .locked hheld hq
  · intro c i st snap s k r ws hi hok h he
    generalize hp : Prog.exec s k = p at h
    cases h with
    | insert =>
      rw [Call.body, processAggregatorRequest_insert] at hp
      cases hp
      have hsome : ((postgres.view c.db (st.writes ++ ws)).account? (calls i).account).isSome := by
        rw [Engine.view_append]
        exact insertAccount_isSome (postgres.view snap st.writes) he
      exact .select hsome hsome
    | select hseen hsome =>
      cases hp
      obtain ⟨b, rfl, hheld⟩ := selectAccount_some he hseen hsome
      exact .locked (List.mem_append_right _ hheld) (hlock i ((calls i).svc.load b))
    | locked hheld hq =>
      subst hp
      exact .locked (List.mem_append_left _ hheld) (hstep hi hok hq he)
  · intro i st snap s k db e h he
    generalize hp : Prog.exec s k = p at h
    cases h with
    | insert =>
      rw [Call.body, processAggregatorRequest_insert] at hp
      cases hp
      simp only [postgres_eval, Stmt.eval] at he
      split at he <;> cases he
    | select hseen hsome =>
      cases hp
      simp only [postgres_eval, Stmt.eval] at he
      split at he <;> cases he
    | locked hheld hq =>
      refine .locked hheld (hfail ?_)
      rintro rfl
      exact s.eval_ne_rowMissing he
  · intro i j st snap p st' a db h _ _ _ _
    cases h with
    | insert => exact .insert
    | select hseen hsome =>
      have hlater := account?_isSome_later (Db.account?_isSome_view st'.writes) hsome
      refine .select ?_ hlater
      cases snap with
      | none => exact hlater
      | some snap => exact hseen
    | locked hheld hq => exact .locked hheld hq

end

section
variable {V V' db : Db} {c : Call} {b b' : Int} {action : ProcessAction} {txId : Uuid}
variable {L : Lookups} {ws : List Write}

theorem Stepped.registry_account {g : RegistryRow} (hs : Stepped L V V' c b action b' txId)
    (hg : g ∈ V'.actionRegistry) : g ∈ V.actionRegistry ∨ g.account = c.account := by
  cases hs with
  | duplicate _ _ heq => exact Or.inl (heq ▸ hg)
  | fresh _ he ha =>
    rw [ha.actionRegistry] at hg
    apply (List.mem_append.1 hg).imp_right
    intro hg
    rw [List.mem_singleton.1 hg]
    exact he.account

theorem Committed.registry_account {past : Moment → Prop} {resp : ProcessResponse}
    (hc : Committed past c ws resp) (hp : Stable past db) (hcons : db.Consistent) :
    ∀ g ∈ (postgres.view db ws).actionRegistry, g ∈ db.actionRegistry ∨ g.account = c.account := by
  refine (hc.tables (P := fun _ V => ∀ g ∈ V.actionRegistry, g ∈ db.actionRegistry ∨
    g.account = c.account) hp Sees.stale hcons (fun _ => Or.inl) (fun h => h) ?_).2
  intro pre action post V V' b b' txId _ _ _ _ hP hst g hg
  exact (hst.registry_account hg).elim (hP g) Or.inr

end

section
variable {ι : Type} (calls : ι → Call)

/-- The ids of an account come from the request that has locked it. -/
def claimAgreement : Agreement calls where
  inv := Db.Consistent
  also i st db db' := Key.account (calls i).account ∈ st.held →
    ∀ g ∈ db'.actionRegistry, g ∈ db.actionRegistry ∨ g.account ≠ (calls i).account
  steady i := by
    refine ⟨fun _ _ => Or.inl, ?_, ?_⟩
    · intro st db db' db'' h h' hk g hg
      exact (h' hk g hg).elim (h hk g) Or.inr
    · intro st st' db db' hle h hk
      exact h (hle.2.2 hk)
  compat _ _ _ _ := True
  commit h hc := h.commit (Sound.stable (sound_requestRely _) _ _) hc
  guarantee := by
    intro i j st st' db resp _ hlock hacc _ h hc hk g hg
    have hown := hc.registry_account (Sound.stable (sound_requestRely _) _ _) h g hg
    apply hown.imp_right
    intro hj heq
    rw [← hj, heq] at hacc
    exact hlock _ hk hacc

/-- The answers of a claim that was not overtaken. -/
def Regime.replied : Regime where
  answers
    | .claim _, rows => rows ≠ []
    | s, r => Answers s r
  raises e := e ≠ .rowMissing
  original := by
    intro s r h
    cases s with
    | claim => exact True.intro
    | _ => exact h
  missing h := absurd rfl h
  other h := h

end

section
variable {ι : Type} [Fintype ι] [DecidableEq ι] (calls : ι → Call) {db₀ : Db} {c : Requests ι}
variable {ls : List (Label ι Stmt Err)} {i : ι} {st : Sess Stmt Write Key} {snap : Db}
variable {input : ClaimInput} {k : (Stmt.claim input).Reply → Tx ProcessResponse}

theorem locked_of_claim (hr : postgres.Run (fun _ _ => True) (.init (fun i => (calls i).body) db₀)
      ls c) (hi : c.sess i = .active st (some snap) (.exec (.claim input) k)) :
    Key.account (calls i).account ∈ st.held := by
  have h := opening_run (Q := fun _ _ => True) (fun _ _ => True.intro) (fun _ _ _ _ => True.intro)
    (fun _ => True.intro) hr i st _ _ hi
  generalize hp : (Prog.exec (.claim input) k : Tx ProcessResponse) = p at h
  cases h with
  | insert =>
    rw [Call.body, processAggregatorRequest_insert] at hp
    cases hp
  | select => cases hp
  | locked hheld => exact hheld

omit [Fintype ι] [DecidableEq ι] in
theorem overtaken_iff (hi : c.sess i = .active st (some snap) (.exec (.claim input) k)) (x : Uuid) :
    Overtaken c i x ↔ c.db.Registered x ∧ ¬ snap.Registered x := by
  rw [Overtaken, hi]
  simp [Session.snapshot?]

/-- The registry at the start of a claim is a part of the registry at its end. -/
theorem claim_later (h₀ : db₀.Initial)
    (hr : postgres.Run (fun _ _ => True) (.init (fun i => (calls i).body) db₀) ls c)
    (hi : c.sess i = .active st (some snap) (.exec (.claim input) k)) :
    snap.actionRegistry <+: c.db.actionRegistry ∧
      ∀ g ∈ c.db.actionRegistry, g ∈ snap.actionRegistry ∨ g.account ≠ (calls i).account := by
  have hholds := (claimAgreement calls).holds h₀.consistent (fun {c l} _ => ?_) hr
  · have hgood := hholds.2.1 i
    rw [hi] at hgood
    exact ⟨hgood.1.1.registry, hgood.1.2.2 (locked_of_claim calls hr hi)⟩
  · cases l with
    | commit => exact fun _ _ _ _ _ _ _ _ _ _ => True.intro
    | _ => exact True.intro

/-- A request whose claims all return a row never misses one. -/
theorem keeps_run (hr : postgres.Run Punctual (.init (fun i => (calls i).body) db₀) ls c) :
    Engine.Sessions (fun i st snap p db => Opening (calls i)
      (Keeps .replied (calls i).account (calls i).request.ids) st snap db p) c := by
  refine opening_run ?_ ?_ ?_ hr
  · intro i b
    exact Keeps.afterLock _ _ _ b
  · intro c i st snap s k r ws hi hok hp he
    apply hp.2
    cases s with
    | claim input =>
      apply claim_nonempty he
      intro hcur
      rw [Db.view_registered] at hcur ⊢
      apply hcur.imp_left
      intro hcur
      by_contra hsnap
      exact hok (i, input.actionId) rfl ((overtaken_iff hi _).2 ⟨hcur, hsnap⟩)
    | _ => exact (Stmt.eval_within hp.1 he).1
  · intro i e he
    exact he

/-- A concurrent duplicate is replayed exactly when the first claim was committed before the
snapshot of the second, or by no other transaction; the first claim of an overtaken one is of
another account. In a run in which no claim is overtaken no request misses a row. -/
theorem duplicate_replayed (h₀ : db₀.Initial) :
    (∀ ls c, postgres.Run (fun _ _ => True) (.init (fun i => (calls i).body) db₀) ls c →
      ∀ i st snap input k, c.sess i = .active st (some snap) (.exec (.claim input) k) →
        ∃ rows ws, (Stmt.claim input).eval (postgres.view snap st.writes)
            (postgres.view c.db st.writes) = .ok (rows, ws) ∧
          (Claims input (postgres.view c.db st.writes) rows ↔ ¬ Overtaken c i input.actionId) ∧
          (Overtaken c i input.actionId → ∃ g ∈ c.db.actionRegistry,
            g.actionId = input.actionId ∧ g.account ≠ (calls i).account)) ∧
    ∀ ls c, postgres.Run Punctual (.init (fun i => (calls i).body) db₀) ls c →
      ∀ i, c.sess i = .done (.error .rowMissing) → Label.abort i .rowMissing ∈ ls := by
  constructor
  · intro ls c hr i st snap input k hi
    obtain ⟨rows, ws, he⟩ := claim_eval input (postgres.view snap st.writes)
      (postgres.view c.db st.writes)
    obtain ⟨hearlier, hown⟩ := claim_later calls h₀ hr hi
    have hnodup := unique_run h₀ hr i st _ _ hi
    refine ⟨rows, ws, he, ?_, ?_⟩
    · rw [overtaken_iff hi, ← registered_views hnodup]
      apply claims_iff he _ hnodup
      rw [Db.view_actionRegistry, Db.view_actionRegistry]
      exact hearlier.sublist.append_right _
    · intro h
      obtain ⟨⟨g, hg, hid⟩, hsnap⟩ := (overtaken_iff hi _).1 h
      exact ⟨g, hg, hid, (hown g hg).resolve_left fun hg => hsnap ⟨g, hg, hid⟩⟩
  · intro ls c hr i hi
    rcases Engine.Run.failed postgres hr hi with habort | ⟨ls', c', st, hr', hi'⟩
    · exact habort
    · have h := keeps_run calls hr' i st _ _ hi'
      generalize hp : Prog.throw Err.rowMissing = p at h
      cases h with
      | insert =>
        rw [Call.body, processAggregatorRequest_insert] at hp
        cases hp
      | select => cases hp
      | locked _ hkeeps =>
        rw [← hp] at hkeeps
        exact absurd rfl hkeeps

end
/-- What a pending claim would return now. -/
def claimRows? {ι : Type} (c : Requests ι) (i : ι) : Option (List ClaimRow) :=
  match c.sess i with
  | .active st (some snap) (.exec (.claim input) _) =>
    ((Stmt.claim input).eval (postgres.view snap st.writes)
      (postgres.view c.db st.writes)).toOption.map (·.1)
  | _ => none

theorem exists_of_claimRows? {ι : Type} {c : Requests ι} {i : ι} {rows : List ClaimRow}
    (h : claimRows? c i = some rows) : ∃ st snap input k ws,
      c.sess i = .active st (some snap) (.exec (.claim input) k) ∧
      (Stmt.claim input).eval (postgres.view snap st.writes) (postgres.view c.db st.writes) =
        .ok (rows, ws) := by
  unfold claimRows? at h
  split at h
  · rename_i st snap input k hi
    obtain ⟨rows', ws, he⟩ := claim_eval input (postgres.view snap st.writes)
      (postgres.view c.db st.writes)
    rw [he] at h
    cases h
    exact ⟨st, snap, input, k, ws, hi, he⟩
  · cases h

/-- Two users send the same action id. -/
def sameId (i : Fin 2) : Call :=
  if i.val = 0 then dollars typescript "a" [.bet 1 60] else dollars rust "b" [.win 1 60]

/-- The claim of one user is overtaken by the commit of the other, returns no row, and the request
fails. -/
theorem overtaken_fails :
    (∃ ls c st snap input k ws, postgres.Run (fun _ _ => True)
        (.init (fun i => (sameId i).body) twoUsers) ls c ∧
      c.sess 1 = .active st (some snap) (.exec (.claim input) k) ∧
      (Stmt.claim input).eval (postgres.view snap st.writes) (postgres.view c.db st.writes) =
        .ok ([], ws)) ∧
    ∃ ls c, postgres.Run (fun _ _ => True) (.init (fun i => (sameId i).body) twoUsers) ls c ∧
      (∀ l ∈ ls, ¬ l.IsAbort) ∧ c.sess 1 = .done (.error .rowMissing) := by
  constructor
  · obtain ⟨ls, c, hr, hc⟩ := Engine.Run.exists_of_drive postgres
      (c := .init (fun i => (sameId i).body) twoUsers)
      (List.replicate 5 1 ++ List.replicate 17 0)
      (p := fun r => decide (claimRows? r.2 1 = some [])) (by decide +kernel)
    obtain ⟨st, snap, input, k, ws, hi, he⟩ := exists_of_claimRows? (of_decide_eq_true hc)
    exact ⟨ls, c, st, snap, input, k, ws, hr, hi, he⟩
  · obtain ⟨ls, c, hr, hc⟩ := Engine.Run.exists_of_drive postgres
      (c := .init (fun i => (sameId i).body) twoUsers)
      (List.replicate 5 1 ++ List.replicate 17 0 ++ List.replicate 2 1)
      (p := fun r => decide ((∀ l ∈ r.1, ¬ l.IsAbort) ∧
        (r.2.sess 1).result? = some (.error .rowMissing))) (by decide +kernel)
    obtain ⟨habort, hfail⟩ := of_decide_eq_true hc
    exact ⟨ls, c, hr, habort, Session.eq_done hfail⟩

/-- A claim that starts after the commit returns the first one, and both requests succeed. -/
theorem later_claim_replayed :
    (∃ ls c st snap input k rows ws, postgres.Run (fun _ _ => True)
        (.init (fun i => (sameId i).body) twoUsers) ls c ∧
      c.sess 1 = .active st (some snap) (.exec (.claim input) k) ∧
      (Stmt.claim input).eval (postgres.view snap st.writes) (postgres.view c.db st.writes) =
        .ok (rows, ws) ∧ Claims input (postgres.view c.db st.writes) rows) ∧
    ∃ ls c, postgres.Run Punctual (.init (fun i => (sameId i).body) twoUsers) ls c ∧
      (∃ r, c.sess 0 = .done r) ∧ (∃ r, c.sess 1 = .done r) ∧
      c.sess 1 ≠ .done (.error .rowMissing) := by
  constructor
  · obtain ⟨ls, c, hr, hc⟩ := Engine.Run.exists_of_drive postgres
      (c := .init (fun i => (sameId i).body) twoUsers)
      (List.replicate 4 1 ++ List.replicate 17 0 ++ [1])
      (p := fun r => decide ((claimRows? r.2 1).isSome ∧ ∀ snap ∈ (r.2.sess 1).snapshot?,
        ∀ g ∈ r.2.db.actionRegistry, g ∈ snap.actionRegistry)) (by decide +kernel)
    obtain ⟨hsome, hseen⟩ := of_decide_eq_true hc
    obtain ⟨rows, hrows⟩ := Option.isSome_iff_exists.1 hsome
    obtain ⟨st, snap, input, k, _, hi, _⟩ := exists_of_claimRows? hrows
    obtain ⟨rows, ws, he, hiff, _⟩ := (duplicate_replayed sameId twoUsers_initial).1 ls c hr 1
      st snap input k hi
    refine ⟨ls, c, st, snap, input, k, rows, ws, hr, hi, he, hiff.2 ?_⟩
    rintro ⟨⟨g, hg, hid⟩, snap', hsnap, hno⟩
    exact hno ⟨g, hseen snap' hsnap g hg, hid⟩
  · obtain ⟨ls, c, hr, hc⟩ := Engine.Run.exists_of_driveIf postgres Punctual
      (c := .init (fun i => (sameId i).body) twoUsers)
      (List.replicate 4 1 ++ List.replicate 17 0 ++ List.replicate 5 1)
      (p := fun r => decide ((∀ i, (r.2.sess i).result?.isSome) ∧ ∀ l ∈ r.1, ¬ l.IsAbort))
      (by decide +kernel)
    obtain ⟨hdone, habort⟩ := of_decide_eq_true hc
    refine ⟨ls, c, hr, Session.done_of_result? (hdone 0), Session.done_of_result? (hdone 1), ?_⟩
    intro hfail
    exact habort _ ((duplicate_replayed sameId twoUsers_initial).2 ls c hr 1 hfail) True.intro

end BetProcessor
