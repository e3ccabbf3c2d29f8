import BetProcessor.Replay

namespace BetProcessor
set_option autoImplicit true
open Txn

def ProcessResponse.transactions : ProcessResponse → List Transaction
  | .balance _ => []
  | .actions _ transactions _ => transactions

/-- The ids that the successful requests of a run name. -/
def Db.named (db : Db) : List Call → List Uuid
  | [] => []
  | c :: calls =>
    (if c.Succeeds db then c.actions.map ProcessAction.actionId else []) ++
      ((c.serve db).2).named calls

/-- The `tx_id`s that are drawn for different actions differ. -/
def FreshTxIds (calls : List Call) : Prop :=
  ∀ c ∈ calls, ∀ c' ∈ calls, ∀ x y, c.draws.txId x = c'.draws.txId y → x = y

section
variable {past : Moment → Prop} {c : Call} {db : Db} {ws ws' : List Write} {b b' : Int}
variable {actions : List ProcessAction} {txs : List Transaction} {resp : ProcessResponse}

theorem Steps.transactions (h : Steps past c ws b actions ws' b' txs) :
    txs.map (·.actionId) = actions.map ProcessAction.actionId := by
  induction h with
  | nil => rfl
  | cons _ _ ih => rw [List.map_cons, List.map_cons, ih]

theorem Db.registry_view (ws : List Write) :
    db.actionRegistry <+: (postgres.view db ws).actionRegistry := by
  rw [Db.view_actionRegistry]
  exact List.prefix_append _ _

theorem Db.ledger_view (ws : List Write) : db.ledger <+: (postgres.view db ws).ledger := by
  rw [Db.view_ledger]
  exact List.prefix_append _ _

theorem Steps.registered (h : Steps past c ws b actions ws' b' txs) (hp : Stable past db) :
    ∀ t ∈ txs, ∃ g ∈ (postgres.view db ws').actionRegistry,
      g.actionId = t.actionId ∧ g.txId = t.txId := by
  induction h with
  | nil => simp
  | @cons ws b action rest new b' txId ws' b'' txs hstep hrest ih =>
    intro t ht
    rcases List.mem_cons.1 ht with rfl | ht
    · obtain ⟨more, rfl⟩ := hrest.extends_writes
      rw [Engine.view_append]
      cases hstep with
      | @duplicate g hid hg =>
        rw [List.append_nil]
        exact ⟨g, (Db.registry_view more).subset (hp.registered hg), hid, rfl⟩
      | fresh =>
        refine ⟨c.registryRow action.actionId, (Db.registry_view more).subset ?_, rfl, rfl⟩
        rw [Db.view_actionRegistry]
        exact List.mem_append_right _ (by simp [Write.registryRows])
    · exact ih t ht

theorem Committed.transactions (h : Committed past c ws resp) :
    resp.transactions.map (·.actionId) = c.actions.map ProcessAction.actionId := by
  cases h with
  | balance ha =>
    rw [ha]
    rfl
  | actions _ _ hs => exact hs.transactions

theorem Committed.registered (h : Committed past c ws resp) (hp : Stable past db) :
    ∀ t ∈ resp.transactions, ∃ g ∈ (postgres.view db ws).actionRegistry,
      g.actionId = t.actionId ∧ g.txId = t.txId := by
  cases h with
  | balance =>
    intro t ht
    cases ht
  | actions _ _ hs =>
    intro t ht
    obtain ⟨g, hg, hgt⟩ := hs.registered hp t ht
    rw [Engine.view_append]
    exact ⟨g, (Db.registry_view _).subset hg, hgt⟩

theorem Committed.adds (h : Committed (Now db) c ws resp) (hcons : db.Consistent) :
    (∀ g ∈ (postgres.view db ws).actionRegistry,
      g ∈ db.actionRegistry ∨ g = c.registryRow g.actionId) ∧
    (∀ row ∈ (postgres.view db ws).ledger,
      row ∈ db.ledger ∨ row.registry = c.registryRow row.actionId) ∧
    ∀ x, (postgres.view db ws).Registered x ↔
      db.Registered x ∨ x ∈ c.actions.map ProcessAction.actionId := by
  refine (h.tables (P := fun pre V => (∀ g ∈ V.actionRegistry, g ∈ db.actionRegistry ∨
    g = c.registryRow g.actionId) ∧ (∀ row ∈ V.ledger, row ∈ db.ledger ∨
      row.registry = c.registryRow row.actionId) ∧ ∀ x, V.Registered x ↔ db.Registered x ∨
        x ∈ pre.map ProcessAction.actionId) (stable_now db) (sees_now _ _) hcons
    ⟨fun _ => Or.inl, fun _ => Or.inl, by simp⟩ (fun h => h) ?_).2
  intro pre action post V V' b b' txId _ _ _ _ hP hst
  obtain ⟨hreg, hrow, hids⟩ := hP
  refine ⟨?_, ?_, ?_⟩
  · intro g hg
    cases hst with
    | duplicate _ _ hV => exact hreg g (hV ▸ hg)
    | fresh _ he ha =>
      rw [ha.actionRegistry] at hg
      rcases List.mem_append.1 hg with hg | hg
      · exact hreg g hg
      · rw [List.mem_singleton.1 hg, he.registry]
        exact Or.inr rfl
  · intro row hmem
    cases hst with
    | duplicate _ _ hV => exact hrow row (hV ▸ hmem)
    | fresh _ he ha =>
      rw [ha.ledger] at hmem
      rcases List.mem_append.1 hmem with hmem | hmem
      · exact hrow row hmem
      · rw [List.mem_singleton.1 hmem]
        exact Or.inr he.registry
  · intro x
    rw [hst.registered, hids, List.map_append, List.mem_append, or_assoc]
    simp [eq_comm]

end

namespace Db
variable {db : Db}

theorem named_append (db : Db) (calls calls' : List Call) :
    db.named (calls ++ calls') = db.named calls ++ (db.after calls).named calls' := by
  induction calls generalizing db with
  | nil => rfl
  | cons c calls ih =>
    rw [List.cons_append, named, named, ih, List.append_assoc]
    rfl

theorem serve_grows (c : Call) (db : Db) : db.actionRegistry <+: (c.serve db).2.actionRegistry ∧
    db.ledger <+: (c.serve db).2.ledger := by
  rcases c.serve_cases db with ⟨e, he⟩ | ⟨resp, ws, he, _⟩
  · rw [he]
    exact ⟨List.prefix_rfl, List.prefix_rfl⟩
  · rw [he]
    exact ⟨registry_view ws, ledger_view ws⟩

theorem after_grows (db : Db) (calls : List Call) :
    db.actionRegistry <+: (db.after calls).actionRegistry ∧
      db.ledger <+: (db.after calls).ledger := by
  induction calls generalizing db with
  | nil => exact ⟨List.prefix_rfl, List.prefix_rfl⟩
  | cons c calls ih =>
    have hserve := serve_grows c db
    have hrest := ih (c.serve db).2
    exact ⟨hserve.1.trans hrest.1, hserve.2.trans hrest.2⟩

/-- The registered ids are those that a successful request has named. -/
theorem registered_iff_named (h₀ : db.Initial) (calls : List Call) (x : Uuid) :
    (db.after calls).Registered x ↔ x ∈ db.named calls := by
  apply Db.after_run (P := fun pre V => V.Registered x ↔ x ∈ db.named pre) db calls
  · simp [Registered, h₀.actionRegistry, named]
  · intro pre c post _ hpre
    have hcons := h₀.consistent.after pre
    rw [named_append, List.mem_append, ← hpre, named, named, List.append_nil]
    rcases c.serve_cases (db.after pre) with ⟨e, he⟩ | ⟨resp, ws, he, hc⟩
    · have hfail : ¬ c.Succeeds (db.after pre) := by
        rintro ⟨resp, hresp⟩
        rw [he] at hresp
        cases hresp
      rw [he, if_neg hfail]
      simp
    · have hok : c.Succeeds (db.after pre) := ⟨resp, by rw [he]⟩
      rw [he, if_pos hok]
      exact (hc.adds hcons).2.2 x

theorem txId_drawn (h₀ : db.Initial) (calls : List Call) :
    ∀ g ∈ (db.after calls).actionRegistry, ∃ c ∈ calls, g.txId = c.draws.txId g.actionId := by
  have hall := Db.after_invariant (P := fun V => V.Consistent ∧ ∀ g ∈ V.actionRegistry,
    ∃ c ∈ calls, g.txId = c.draws.txId g.actionId) db calls
    ⟨h₀.consistent, by simp [h₀.actionRegistry]⟩ ?_
  · exact hall.2
  · intro V c ws resp hc hV hcommit
    refine ⟨hV.1.commit (stable_now V) hcommit, ?_⟩
    intro g hg
    rcases (hcommit.adds hV.1).1 g hg with hg | hg
    · exact hV.2 g hg
    · exact ⟨c, hc, by rw [hg]; rfl⟩

theorem after_account?_isSome {a : Account} (h : (db.account? a).isSome) (calls : List Call) :
    ((db.after calls).account? a).isSome := by
  induction calls generalizing db with
  | nil => exact h
  | cons c calls ih =>
    rw [after_cons]
    apply ih
    rcases c.serve_cases db with ⟨e, he⟩ | ⟨resp, ws, he, _⟩
    · rwa [he]
    · rw [he]
      exact account?_isSome_view ws h

end Db

theorem Committed.account?_isSome {c : Call} {db : Db} {ws : List Write}
    {resp : ProcessResponse} (h : Committed (Now db) c ws resp) :
    ((postgres.view db ws).account? c.account).isSome := by
  cases h with
  | balance _ ho => exact ho.isSome (stable_now db)
  | actions _ ho hs =>
    obtain ⟨more, rfl⟩ := hs.extends_writes
    rw [Engine.view_append, Engine.view_append]
    exact Db.account?_isSome_view _ (Db.account?_isSome_view _ (ho.isSome (stable_now db)))

/-- Every action is processed once, and answered the same way ever after. -/
structure ExactlyOnce (db : Db) (calls : List Call) : Prop where
  /-- A response lists one transaction for each action, in order. -/
  listed : ∀ {pre : List Call} {c : Call} {post : List Call} {resp : ProcessResponse},
    calls = pre ++ c :: post → (c.serve (db.after pre)).1 = .ok resp →
    resp.transactions.map Transaction.actionId = c.actions.map ProcessAction.actionId
  /-- Responses give one `tx_id` to an action, and different ones to different actions. -/
  replayed : ∀ {pre : List Call} {c : Call} {post : List Call} {resp : ProcessResponse}
    {pre' : List Call} {c' : Call} {post' : List Call} {resp' : ProcessResponse},
    calls = pre ++ c :: post → (c.serve (db.after pre)).1 = .ok resp → calls = pre' ++ c' :: post' →
    (c'.serve (db.after pre')).1 = .ok resp' → ∀ t ∈ resp.transactions,
    ∀ t' ∈ resp'.transactions, t.actionId = t'.actionId ↔ t.txId = t'.txId
  /-- The first successful request that names an id writes its only ledger row. -/
  recorded : ∀ {pre : List Call} {c : Call} {post : List Call},
    calls = pre ++ c :: post → c.Succeeds (db.after pre) →
    ∀ x ∈ c.actions.map ProcessAction.actionId, x ∉ db.named pre →
    ∃ row ∈ (db.after (pre ++ [c])).ledger, row ∉ (db.after pre).ledger ∧
      row.registry = c.registryRow x ∧
      ∀ row' ∈ (db.after calls).ledger, row'.actionId = x → row' = row
  named : ∀ row ∈ (db.after calls).ledger, row.actionId ∈ db.named calls
  /-- A request comes to the same without the actions that it only repeats. -/
  reduced : ∀ c : Call, (db.after calls).newActions c.actions ≠ [] ∨ c.actions = [] ∨
      c.svc.RoundTrips ((db.after calls).balance c.account) →
    (c.serve (db.after calls)).2 = ((c.withActions ((db.after calls).newActions c.actions)).serve
      (db.after calls)).2 ∧ (c.Succeeds (db.after calls) ↔
        (c.withActions ((db.after calls).newActions c.actions)).Succeeds (db.after calls))
  /-- A request that has succeeded succeeds again and changes nothing. -/
  resent : ∀ {pre : List Call} {c : Call} {post : List Call} {c' : Call},
    calls = pre ++ c :: post → c.Succeeds (db.after pre) → c'.request = c.request →
    (c'.actions = [] ∨ c'.svc.RoundTrips ((db.after calls).balance c'.account)) →
    c'.Succeeds (db.after calls) ∧ (c'.serve (db.after calls)).2 = db.after calls

section
variable {db : Db} {calls pre post : List Call} {c : Call} {resp : ProcessResponse}

/-- A transaction of a response stays in the registry. -/
theorem Db.answered (hcalls : calls = pre ++ c :: post)
    (h : (c.serve (db.after pre)).1 = .ok resp) : ∀ t ∈ resp.transactions,
      ∃ g ∈ (db.after calls).actionRegistry, g.actionId = t.actionId ∧ g.txId = t.txId := by
  intro t ht
  obtain ⟨ws, hws, hc⟩ := Call.serve_ok h
  obtain ⟨g, hg, hgt⟩ := hc.registered (stable_now _) t ht
  refine ⟨g, ?_, hgt⟩
  rw [hcalls, Db.after_append, Db.after_cons, hws]
  exact (Db.after_grows _ post).1.subset hg

theorem Db.recorded_once (h₀ : db.Initial) (hcalls : calls = pre ++ c :: post)
    (h : c.Succeeds (db.after pre)) {x : Uuid}
    (hx : x ∈ c.actions.map ProcessAction.actionId) (hnew : x ∉ db.named pre) :
    ∃ row ∈ (db.after (pre ++ [c])).ledger, row ∉ (db.after pre).ledger ∧
      row.registry = c.registryRow x ∧
      ∀ row' ∈ (db.after calls).ledger, row'.actionId = x → row' = row := by
  obtain ⟨resp, hresp⟩ := h
  obtain ⟨ws, hws, hc⟩ := Call.serve_ok hresp
  have hcons := h₀.consistent.after pre
  have hend := hcons.commit (stable_now _) hc
  have hfree := (Db.registered_iff_named h₀ pre x).not.2 hnew
  obtain ⟨_, hrows, hids⟩ := hc.adds hcons
  obtain ⟨g, hg, rfl⟩ := (hids x).2 (Or.inr hx)
  obtain ⟨row, hrow, rfl⟩ := hend.recorded g hg
  have hold : row ∉ (db.after pre).ledger := fun hold =>
    hfree ⟨row.registry, hcons.registered row hold, rfl⟩
  refine ⟨row, ?_, hold, (hrows row hrow).resolve_left hold, ?_⟩
  · rwa [Db.after_append, Db.after_cons, Db.after_nil, hws]
  · intro row' hrow' hid
    have hmem : row ∈ (db.after calls).ledger := by
      rw [hcalls, Db.after_append, Db.after_cons, hws]
      exact (Db.after_grows _ post).2.subset hrow
    exact (h₀.consistent.after calls).ledger_inj hrow' hmem hid

theorem Db.resent (h₀ : db.Initial) (hcalls : calls = pre ++ c :: post)
    (h : c.Succeeds (db.after pre)) {c' : Call} (hreq : c'.request = c.request)
    (hround : c'.actions = [] ∨ c'.svc.RoundTrips ((db.after calls).balance c'.account)) :
    c'.Succeeds (db.after calls) ∧ (c'.serve (db.after calls)).2 = db.after calls := by
  obtain ⟨resp, hresp⟩ := h
  obtain ⟨ws, hws, hc⟩ := Call.serve_ok hresp
  have hacc : c'.account = c.account := by rw [Call.account, hreq]; rfl
  have hactions : c'.actions = c.actions := by rw [Call.actions, hreq]; rfl
  apply Call.serve_known (h₀.consistent.after calls).accounts_nodup
    (Db.after_balance_nonneg h₀ calls _) _ _ hround
  · rw [hacc, hcalls, Db.after_append, Db.after_cons, hws]
    exact Db.after_account?_isSome hc.account?_isSome post
  · intro action haction
    rw [hactions] at haction
    obtain ⟨g, hg, hid⟩ := ((hc.adds (h₀.consistent.after pre)).2.2 action.actionId).2
      (Or.inr (List.mem_map_of_mem haction))
    refine ⟨g, ?_, hid⟩
    rw [hcalls, Db.after_append, Db.after_cons, hws]
    exact (Db.after_grows _ post).1.subset hg

end

/-- Exactly-once processing and stable replay, for every serial run. -/
theorem exactlyOnce {db₀ : Db} (h₀ : db₀.Initial) (calls : List Call) (hfresh : FreshTxIds calls) :
    ExactlyOnce db₀ calls where
  listed := by
    intro pre c post resp _ hresp
    obtain ⟨ws, _, hc⟩ := Call.serve_ok hresp
    exact hc.transactions
  replayed := by
    intro pre c post resp pre' c' post' resp' hcalls hresp hcalls' hresp' t ht t' ht'
    obtain ⟨g, hg, hid, htx⟩ := Db.answered hcalls hresp t ht
    obtain ⟨g', hg', hid', htx'⟩ := Db.answered hcalls' hresp' t' ht'
    rw [← hid, ← hid', ← htx, ← htx']
    constructor
    · intro heq
      rw [List.inj_on_of_nodup_map (h₀.consistent.after calls).registry_nodup hg hg' heq]
    · intro heq
      obtain ⟨c₁, hc₁, h₁⟩ := Db.txId_drawn h₀ calls g hg
      obtain ⟨c₂, hc₂, h₂⟩ := Db.txId_drawn h₀ calls g' hg'
      exact hfresh c₁ hc₁ c₂ hc₂ _ _ (h₁.symm.trans (heq.trans h₂))
  recorded := by
    intro pre c post hcalls hok x hx hnew
    exact Db.recorded_once h₀ hcalls hok hx hnew
  named := by
    intro row hrow
    exact (Db.registered_iff_named h₀ calls row.actionId).1
      ⟨row.registry, (h₀.consistent.after calls).registered row hrow, rfl⟩
  reduced := by
    intro c h
    exact Call.serve_congr (exec_newActions (h₀.consistent.after calls).accounts_nodup
      (Db.after_balance_nonneg h₀ calls _) h)
  resent := by
    intro pre c post c' hcalls hok hreq hround
    exact Db.resent h₀ hcalls hok hreq hround

/-- A Number cannot hold the balance that the other service has stored: a resent request
changes it. -/
theorem resent_rounds : ∃ db₀ calls pre c post, ∃ c' : Call, db₀.Initial ∧ FreshTxIds calls ∧
    calls = pre ++ c :: post ∧ c.Succeeds (Db.after db₀ pre) ∧ c'.request = c.request ∧
    (c'.serve (Db.after db₀ calls)).2 ≠ Db.after db₀ calls := by
  refine ⟨twoUsers, [dollars rust "b" [.win 1 (2 ^ 53 + 1)]], [], _, [],
    dollars typescript "b" [.win 1 (2 ^ 53 + 1)], twoUsers_initial, ?_, rfl, by decide +kernel,
    rfl, by decide +kernel⟩
  intro c hc c' hc' x y h
  rw [List.mem_singleton.1 hc, List.mem_singleton.1 hc'] at h
  exact Nat.add_right_cancel h

theorem lateBet_exactlyOnce : ExactlyOnce twoUsers
    [dollars typescript "a" [.bet 1 60, .bet 1 7], dollars rust "a" [.bet 1 60]] := by
  apply exactlyOnce twoUsers_initial
  intro c hc c' hc' x y h
  simp only [List.mem_cons, List.not_mem_nil, or_false] at hc hc'
  rcases hc with rfl | rfl <;> rcases hc' with rfl | rfl <;> exact Nat.add_right_cancel h

end BetProcessor
