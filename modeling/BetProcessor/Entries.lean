import Mathlib.Algebra.Order.BigOperators.Group.List
import BetProcessor.ConcurrentRuns
import BetProcessor.RtpRows

namespace BetProcessor
set_option autoImplicit true
open Txn

theorem sum_le_sum_of_subset {l l' : List α} {f : α → Int} (hl : l.Nodup) (h : l ⊆ l')
    (hf : ∀ x ∈ l', 0 ≤ f x) : (l.map f).sum ≤ (l'.map f).sum := by
  obtain ⟨l₁, hperm, hsub⟩ := List.subperm_of_subset hl h
  rw [← (hperm.map f).sum_eq]
  apply (hsub.map f).sum_le_sum
  intro y hy
  obtain ⟨x, hx, rfl⟩ := List.mem_map.1 hy
  exact hf x hx

/-- A sum is not negative when every negative element has a partner of its own that makes up for
it. -/
theorem sum_nonneg_of_partners {l : List α} {f : α → Int} (neg : α → Bool) (partner : α → α)
    (hf : ∀ x ∈ l, neg x = false → 0 ≤ f x)
    (hmem : ∀ x ∈ l, neg x = true → partner x ∈ l ∧ neg (partner x) = false)
    (hnodup : ((l.filter neg).map partner).Nodup)
    (hsum : ∀ x ∈ l, neg x = true → 0 ≤ f (partner x) + f x) : 0 ≤ (l.map f).sum := by
  have hsplit : (l.map f).sum = sumOf l (fun x => !neg x) f + sumOf l neg f := by
    rw [← sumOf_or, ← sumOf_true]
    · apply sumOf_sel_congr
      intro x _
      simp
    · intro x _ hx
      simpa using hx
  have hpartners : sumOf (l.filter neg) (fun _ => true) (fun x => f (partner x)) ≤
      sumOf l (fun x => !neg x) f := by
    rw [sumOf_true, ← Function.comp_def f partner, ← List.map_map]
    apply sum_le_sum_of_subset hnodup
    · intro y hy
      obtain ⟨x, hx, rfl⟩ := List.mem_map.1 hy
      obtain ⟨hx, hneg⟩ := List.mem_filter.1 hx
      obtain ⟨hpartner, hpos⟩ := hmem x hx hneg
      exact List.mem_filter.2 ⟨hpartner, by rw [hpos]; rfl⟩
    · intro x hx
      obtain ⟨hx, hpos⟩ := List.mem_filter.1 hx
      exact hf x hx (by simpa using hpos)
  have hpairs : 0 ≤ ((l.filter neg).map fun x => f (partner x) + f x).sum := by
    apply List.sum_nonneg
    intro y hy
    obtain ⟨x, hx, rfl⟩ := List.mem_map.1 hy
    obtain ⟨hx, hneg⟩ := List.mem_filter.1 hx
    exact hsum x hx hneg
  rw [List.sum_map_add] at hpairs
  rw [sumOf_true] at hpartners
  rw [hsplit]
  exact le_trans hpairs (Int.add_le_add_right hpartners _)

/-- What a row of the outbox stands for in the ledger: an applied original, its removal, or
something else. -/
inductive Entry where
  | applied (orig : ActionRow)
  | removed (orig : ActionRow)
  | other (row : OutboxRow)
  deriving DecidableEq

namespace Entry

def row : Entry → OutboxRow
  | .applied orig => appliedDelta orig.createdAt orig.account orig.actionType (orig.amount.getD 0)
  | .removed orig => removedDelta orig.createdAt orig.account orig.actionType
      (-orig.amount.getD 0) (orig.amount.getD 0)
  | .other row => row

def isRemoved : Entry → Bool
  | .removed _ => true
  | _ => false

/-- The entry that a removal takes back. -/
def partner : Entry → Entry
  | .removed orig => .applied orig
  | e => e

theorem isRemoved_iff {e : Entry} : e.isRemoved = true ↔ ∃ orig, e = .removed orig := by
  cases e <;> simp [isRemoved]

end Entry

/-- A bet or win of the ledger with its amount. -/
def ActionRow.IsPlay (r : ActionRow) : Prop :=
  r.actionType ≠ .rollback ∧ r.status = .applied ∧ ∃ v, 0 < v ∧ r.amount = some v

section
variable {orig : ActionRow}

theorem applied_nonneg (h : orig.IsPlay) (col : Column) :
    0 ≤ (Entry.applied orig).row.column col := by
  obtain ⟨_, _, v, hv, hamount⟩ := h
  cases col <;> simp only [Entry.row, appliedDelta, OutboxRow.column, hamount, Option.getD_some]
  all_goals try split
  all_goals omega

theorem applied_add_removed (h : orig.IsPlay) (col : Column) :
    0 ≤ (Entry.applied orig).row.column col + (Entry.removed orig).row.column col := by
  obtain ⟨_, _, v, hv, hamount⟩ := h
  cases col <;> simp only [Entry.row, appliedDelta, removedDelta, OutboxRow.column, hamount,
    Option.getD_some]
  all_goals try split
  all_goals omega

end

/-- The rows of the outbox in order, and what they stand for. -/
structure Db.Entered (V : Db) (es : List Entry) : Prop where
  rows : V.rtpOutbox = es.map Entry.row
  play : ∀ orig, .applied orig ∈ es ∨ .removed orig ∈ es → orig.IsPlay
  other : ∀ row, .other row ∈ es → ∀ col, 0 ≤ row.column col
  applied : ∀ r ∈ V.ledger, r.actionType ≠ .rollback → r.status = .applied → .applied r ∈ es
  removed : ∀ orig, .removed orig ∈ es → V.HasIntent orig.actionId
  once : (es.filter Entry.isRemoved).Nodup
  order : ∀ orig, .removed orig ∈ es → List.Sublist [.applied orig, .removed orig] es

section
variable {V V' : Db} {c : Call} {b b' : Int} {L : Lookups} {action : ProcessAction}
variable {row : ActionRow} {intent : Option IntentRow} {outs : List OutboxRow} {txId : Uuid}
variable {es : List Entry}

theorem Db.Entered.initial {db : Db} (h : db.Initial) : db.Entered [] where
  rows := h.rtpOutbox
  play orig h := by
    rcases h with h | h <;> cases h
  other row h := by cases h
  applied r hr := by
    rw [h.ledger] at hr
    cases hr
  removed orig h := by cases h
  once := List.nodup_nil
  order orig h := by cases h

theorem Db.Entered.adds (h : V.Entered es) (ha : Adds V V' row intent outs) {new : List Entry}
    (hrows : outs = new.map Entry.row) (hplay : ∀ orig, .applied orig ∈ new → orig.IsPlay)
    (hother : ∀ row, .other row ∈ new → ∀ col, 0 ≤ row.column col)
    (happlied : row.actionType ≠ .rollback → row.status = .applied → .applied row ∈ new)
    (hremoved : ∀ e ∈ new, e.isRemoved = false) : V'.Entered (es ++ new) := by
  have hold : ∀ {orig}, .removed orig ∈ es ++ new → .removed orig ∈ es := by
    intro orig ho
    rcases List.mem_append.1 ho with ho | ho
    · exact ho
    · cases hremoved _ ho
  constructor
  · rw [ha.rtpOutbox, h.rows, hrows, List.map_append]
  · intro orig ho
    rcases ho with ho | ho
    · rcases List.mem_append.1 ho with ho | ho
      · exact h.play orig (Or.inl ho)
      · exact hplay orig ho
    · exact h.play orig (Or.inr (hold ho))
  · intro out ho
    rcases List.mem_append.1 ho with ho | ho
    · exact h.other out ho
    · exact hother out ho
  · intro r hr htype hst
    rw [ha.ledger] at hr
    rcases List.mem_append.1 hr with hr | hr
    · exact List.mem_append_left _ (h.applied r hr htype hst)
    · obtain rfl := List.mem_singleton.1 hr
      exact List.mem_append_right _ (happlied htype hst)
  · intro orig ho
    obtain ⟨t, ht, hid⟩ := h.removed orig (hold ho)
    exact ⟨t, ha.rollbackIntents ▸ List.mem_append_left _ ht, hid⟩
  · have hnil : new.filter Entry.isRemoved = [] := by
      rw [List.filter_eq_nil_iff]
      intro e he
      rw [hremoved e he]
      exact Bool.false_ne_true
    rw [List.filter_append, hnil, List.append_nil]
    exact h.once
  · intro orig ho
    exact (h.order orig (hold ho)).trans (List.sublist_append_left ..)

theorem Db.Entered.removes (h : V.Entered es) {orig : ActionRow} {t : IntentRow}
    {out : OutboxRow} (ha : Adds V V' row (some t) ([(Entry.removed orig).row] ++ [out]))
    (horig : orig ∈ V.ledger) (hplay : orig.IsPlay) (hno : ¬ V.HasIntent orig.actionId)
    (ht : t.originalActionId = orig.actionId) (hout : ∀ col, 0 ≤ out.column col)
    (htype : row.actionType = .rollback) :
    V'.Entered (es ++ [.removed orig, .other out]) := by
  have hnew : .removed orig ∉ es := fun ho => hno (h.removed orig ho)
  have hold : ∀ {orig'}, .removed orig' ∈ es ++ [.removed orig, .other out] →
      .removed orig' ∈ es ∨ orig' = orig := by
    intro orig' ho
    rcases List.mem_append.1 ho with ho | ho
    · exact Or.inl ho
    · exact Or.inr (by simpa using ho)
  constructor
  · rw [ha.rtpOutbox, h.rows, List.map_append]
    rfl
  · intro orig' ho
    rcases ho with ho | ho
    · rcases List.mem_append.1 ho with ho | ho
      · exact h.play orig' (Or.inl ho)
      · simp at ho
    · rcases hold ho with ho | rfl
      · exact h.play orig' (Or.inr ho)
      · exact hplay
  · intro out' ho
    rcases List.mem_append.1 ho with ho | ho
    · exact h.other out' ho
    · obtain rfl : out' = out := by simpa using ho
      exact hout
  · intro r hr htype' hst
    rw [ha.ledger] at hr
    rcases List.mem_append.1 hr with hr | hr
    · exact List.mem_append_left _ (h.applied r hr htype' hst)
    · rw [List.mem_singleton.1 hr] at htype'
      exact absurd htype htype'
  · intro orig' ho
    rw [Db.HasIntent, ha.rollbackIntents]
    rcases hold ho with ho | rfl
    · obtain ⟨t', ht', hid⟩ := h.removed orig' ho
      exact ⟨t', List.mem_append_left _ ht', hid⟩
    · exact ⟨t, List.mem_append_right _ (List.mem_singleton.2 rfl), ht⟩
  · rw [List.filter_append]
    change (es.filter Entry.isRemoved ++ [Entry.removed orig]).Nodup
    rw [List.nodup_append]
    refine ⟨h.once, List.nodup_singleton _, ?_⟩
    rintro e he e' he' rfl
    rw [List.mem_singleton.1 he'] at he
    exact hnew (List.mem_filter.1 he).1
  · intro orig' ho
    rcases hold ho with ho | rfl
    · exact (h.order orig' ho).trans (List.sublist_append_left ..)
    · have happlied := h.applied orig' horig hplay.1 hplay.2.1
      exact (List.singleton_sublist.2 happlied).append
        (List.singleton_sublist.2 (List.mem_cons_self ..))

theorem count_nonneg (t : Int) (a : Account) (col : Column) :
    0 ≤ (rollbackCountDelta t a).column col := by
  cases col <;> simp [rollbackCountDelta, OutboxRow.column]

theorem prerolled_nonneg {type : ActionType} {v : Int} (hv : 0 < v) (t : Int) (a : Account)
    (col : Column) : 0 ≤ (rolledBackDelta t a type v).column col := by
  cases col <;> simp only [rolledBackDelta, OutboxRow.column]
  all_goals try split
  all_goals omega

theorem Db.Entered.counts (h : V.Entered es) {out : OutboxRow} (ha : Adds V V' row intent [out])
    (hout : ∀ col, 0 ≤ out.column col)
    (hrow : ¬ (row.actionType ≠ .rollback ∧ row.status = .applied)) :
    V'.Entered (es ++ [.other out]) := by
  apply h.adds ha rfl
  · intro orig ho
    simp at ho
  · intro out' ho
    obtain rfl : out' = out := by simpa using ho
    exact hout
  · intro htype hst
    exact absurd ⟨htype, hst⟩ hrow
  · intro e he
    rw [List.mem_singleton.1 he]
    rfl

theorem Db.Entered.stepped (h : V.Entered es) (hV : V.Consistent)
    (hs : Stepped L V V' c b action b' txId)
    (hround : ∀ r ∈ V.ledger, ∀ v ∈ r.amount, c.svc.RoundTrips v) : ∃ es', V'.Entered es' := by
  cases hs with
  | duplicate _ _ hV' =>
    rw [hV']
    exact ⟨es, h⟩
  | fresh hfresh he ha =>
    cases he with
    | @applied _ type x amount v horiginal _ _ hpos =>
      have hplay : (c.originalRow type x v (signed type v) .applied).IsPlay :=
        ⟨horiginal.type_ne, rfl, v, hpos, rfl⟩
      have hrows : [appliedDelta (c.claimedAt x) c.account type v] =
          [Entry.applied (c.originalRow type x v (signed type v) .applied)].map Entry.row := rfl
      refine ⟨_, h.adds ha hrows ?_ ?_ ?_ ?_⟩
      · intro orig ho
        obtain rfl : orig = _ := by simpa using ho
        exact hplay
      · intro out ho
        simp at ho
      · intro _ _
        exact List.mem_singleton.2 rfl
      · intro e he
        rw [List.mem_singleton.1 he]
        rfl
    | prerolled _ _ _ hpos =>
      exact ⟨_, h.counts ha (prerolled_nonneg hpos _ _) (by simp [Call.originalRow])⟩
    | already =>
      have hrows : [] = ([] : List Entry).map Entry.row := rfl
      refine ⟨_, h.adds ha hrows ?_ ?_ ?_ ?_⟩
      · intro orig ho
        cases ho
      · intro out ho
        cases ho
      · intro htype
        exact absurd rfl htype
      · intro e he
        cases he
    | tombstone =>
      exact ⟨_, h.counts ha (count_nonneg _ _) (by simp [Call.rollbackRow])⟩
    | notApplied =>
      exact ⟨_, h.counts ha (count_nonneg _ _) (by simp [Call.rollbackRow])⟩
    | @reversed r o orig d outs hno horig hid hst hne _ hd hremoval =>
      cases hremoval with
      | rollback =>
        exact ⟨_, h.counts ha (count_nonneg _ _) (by simp [Call.rollbackRow])⟩
      | @original n v htype hn hv =>
        cases hV.shape orig horig with
        | rollback htype' => exact absurd htype' htype
        | @original w _ _ hpos hamount =>
          have hw := hround orig horig w hamount
          rw [hamount] at hn hv
          obtain rfl : v = w := Option.some.inj (hv.symm.trans hw)
          obtain rfl : n = -v := Option.some.inj (hn.symm.trans (c.svc.bind_neg hw hpos))
          have hrow : removedDelta orig.createdAt orig.account orig.actionType (-v) v =
              (Entry.removed orig).row := by
            rw [Entry.row, hamount, Option.getD_some]
          rw [hrow] at ha
          exact ⟨_, h.removes ha horig ⟨htype, hst, v, hpos, hamount⟩ (hid ▸ hno) hid.symm
            (count_nonneg _ _) rfl⟩

end

/-- In every state of any concurrent requests that do not round an amount of the ledger, the
rows of the outbox can be told apart. -/
theorem entered_run {ι : Type} [Fintype ι] [DecidableEq ι] (calls : ι → Call) {db₀ : Db}
    (h₀ : db₀.Initial) {ls : List (Label ι Stmt Err)} {c : Requests ι}
    (hr : postgres.Run (fun _ _ => True) (.init (fun i => (calls i).body) db₀) ls c)
    (hround : ∀ i, ∀ r ∈ c.db.ledger, ∀ v ∈ r.amount, (calls i).svc.RoundTrips v) :
    ∃ es, c.db.Entered es := by
  have hall := Agreement.keeping_inv (J := fun db => db.Consistent ∧
    ((∀ i, ∀ r ∈ db.ledger, ∀ v ∈ r.amount, (calls i).svc.RoundTrips v) → ∃ es, db.Entered es))
    ?_ ⟨h₀.consistent, fun _ => ⟨[], .initial h₀⟩⟩ hr
  · exact hall.2 hround
  · intro i past db ws resp hJ hp hc
    apply hc.tables (P := fun _ V =>
      (∀ i, ∀ r ∈ V.ledger, ∀ v ∈ r.amount, (calls i).svc.RoundTrips v) → ∃ es, V.Entered es)
      hp Sees.stale hJ.1 hJ.2
    · intro pre V rows h hround
      obtain ⟨es, hes⟩ := h hround
      exact ⟨es, hes.rows, hes.play, hes.other, hes.applied, hes.removed, hes.once, hes.order⟩
    · intro pre action post V V' b b' txId _ hV _ _ hP hs hround
      have hbefore : ∀ i, ∀ r ∈ V.ledger, ∀ v ∈ r.amount, (calls i).svc.RoundTrips v :=
        fun i r hr => hround i r (hs.ledger.subset hr)
      obtain ⟨es, hes⟩ := hP hbefore
      exact hes.stepped hV hs (hbefore i)

end BetProcessor
