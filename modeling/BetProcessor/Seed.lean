import BetProcessor.Sql.Upsert
import BetProcessor.Schema
import BetProcessor.Service

namespace BetProcessor
set_option autoImplicit true

/-- What a parameter of a statement stands for. -/
inductive SqlValue where
  | text (s : String)
  | number (n : Int)
  deriving DecidableEq, Repr

/-- An `INSERT INTO accounts … ON CONFLICT` with rows of numbered placeholders. -/
structure InsertAccounts where
  values : List (Nat × Nat × Nat)
  params : List SqlValue
  deriving DecidableEq, Repr

inductive SeedErr where
  | tooManyParameters
  | noParameter
  | outOfRange
  /-- The check that no balance is negative. -/
  | checkViolation
  /-- One upsert would touch a row twice. -/
  | cardinalityViolation
  deriving DecidableEq, Repr

namespace InsertAccounts
variable (q : InsertAccounts)

/-- The parameter `$n`. -/
def param? (n : Nat) : Option SqlValue := if n = 0 then none else q.params[n - 1]?

def row (value : Nat × Nat × Nat) : Except SeedErr AccountRow :=
  match q.param? value.1, q.param? value.2.1, q.param? value.2.2 with
  | some (.text userId), some (.text currency), some (.number balance) =>
    if ¬ IsBigint balance then .error .outOfRange
    else if balance < 0 then .error .checkViolation
    else .ok ⟨⟨userId, currency⟩, balance⟩
  | _, _, _ => .error .noParameter

/-- The accounts after the statement, all or nothing. -/
def exec (accounts : List AccountRow) : Except SeedErr (List AccountRow) :=
  if 65535 < q.params.length then .error .tooManyParameters
  else do
    let rows ← q.values.mapM q.row
    if ¬ (rows.map (·.account)).Nodup then .error .cardinalityViolation
    else .ok (Sql.upsertAll (·.account) rows accounts)

end InsertAccounts

/-- The settings of `seed.ts`. -/
structure Seed where
  users : Nat := 1000
  balance : Int := 100000000
  currency : String := "USD"
  deriving DecidableEq, Repr

namespace Seed
variable (seed : Seed)

def user (n : Nat) : Account := ⟨"runner-user-" ++ toString n, seed.currency⟩

/-- The balance as it is bound: the setting is read as a Number and sent as `toString` prints it. -/
def boundBalance : Int := showNumber (toNumber seed.balance)

/-- The batch of up to 1000 users from the offset on. -/
def batch (offset : Nat) : InsertAccounts :=
  let batchSize := min 1000 (seed.users - offset)
  { params := (List.range batchSize).flatMap fun i =>
      [.text ("runner-user-" ++ toString (offset + i)), .text seed.currency,
        .number seed.boundBalance]
    values := (List.range batchSize).map fun i =>
      let base := i * 3
      (base + 1, base + 2, base + 3) }

/-- The loop over the batches: the accounts when it ends, or when a statement fails. -/
def insertBatches (offset : Nat) (accounts : List AccountRow) :
    Except SeedErr Unit × List AccountRow :=
  if offset < seed.users then
    match (seed.batch offset).exec accounts with
    | .error e => (.error e, accounts)
    | .ok accounts => insertBatches (offset + 1000) accounts
  else (.ok (), accounts)
termination_by seed.users - offset
decreasing_by omega

/-- The account of the acceptance tests. -/
def demo : AccountRow := ⟨⟨"8|USDT|USD", "USD"⟩, 74322001⟩

def main (accounts : List AccountRow) : Except SeedErr Unit × List AccountRow :=
  match seed.insertBatches 0 accounts with
  | (.error e, accounts) => (.error e, accounts)
  | (.ok (), accounts) => (.ok (), Sql.upsert (·.account) demo accounts)

/-- The row of a user. -/
def userRow (n : Nat) : AccountRow := ⟨seed.user n, seed.boundBalance⟩

/-- All rows that the script writes. -/
def rows : List AccountRow := (List.range seed.users).map seed.userRow ++ [demo]

/-- The column takes the balance. -/
def Fits : Prop := 0 ≤ seed.boundBalance ∧ IsBigint seed.boundBalance

instance : Decidable seed.Fits := inferInstanceAs (Decidable (_ ∧ _))

variable {seed} {offset : Nat} {accounts : List AccountRow}

theorem boundBalance_small (h : |seed.balance| ≤ 2 ^ 53) : seed.boundBalance = seed.balance := by
  rw [boundBalance, toNumber_small h, showNumber_small h]

theorem toString_injective {n m : Nat} (h : toString n = toString m) : n = m := by
  have hdigits := congrArg String.toList h
  rw [Nat.toString_eq_repr, Nat.toString_eq_repr, Nat.toList_repr, Nat.toList_repr] at hdigits
  rw [← @Nat.ofDigitChars_ten_toDigits n, hdigits, Nat.ofDigitChars_ten_toDigits]

theorem user_injective : Function.Injective seed.user := by
  intro n m h
  have hid := congrArg String.toList (congrArg Account.userId h)
  simp only [user, String.toList_append] at hid
  exact toString_injective (String.toList_injective (List.append_cancel_left hid))

theorem user_ne_demo (n : Nat) : seed.user n ≠ demo.account := by
  intro h
  have hid := congrArg String.toList (congrArg Account.userId h)
  simp only [user, String.toList_append] at hid
  cases hid

theorem rows_nodup : (seed.rows.map (·.account)).Nodup := by
  rw [rows, List.map_append, List.map_map]
  refine List.nodup_append.2 ⟨?_, List.nodup_singleton _, ?_⟩
  · exact List.nodup_range.map user_injective
  · intro a ha b hb
    obtain ⟨n, _, rfl⟩ := List.mem_map.1 ha
    obtain rfl := List.mem_singleton.1 hb
    exact user_ne_demo n

theorem getElem?_flatMap_three {f : Nat → List SqlValue} (hf : ∀ i, (f i).length = 3) {m i j : Nat}
    (hi : i < m) (hj : j < 3) : ((List.range m).flatMap f)[i * 3 + j]? = (f i)[j]? := by
  have hlength : ∀ m, ((List.range m).flatMap f).length = m * 3 := by
    intro m
    simp [List.length_flatMap, hf]
  induction m with
  | zero => cases hi
  | succ m ih =>
    rw [List.range_succ, List.flatMap_append, List.flatMap_singleton]
    rcases Nat.lt_succ_iff_lt_or_eq.1 hi with hlt | rfl
    · rw [List.getElem?_append_left (by rw [hlength]; omega)]
      exact ih hlt
    · rw [List.getElem?_append_right (by rw [hlength]; omega), hlength, Nat.add_sub_cancel_left]

theorem batch_row {i : Nat} (hi : i < min 1000 (seed.users - offset)) :
    (seed.batch offset).row (i * 3 + 1, i * 3 + 2, i * 3 + 3) =
      if ¬ IsBigint seed.boundBalance then .error .outOfRange
      else if seed.boundBalance < 0 then .error .checkViolation
      else .ok (seed.userRow (offset + i)) := by
  have hparam : ∀ {j}, j < 3 → (seed.batch offset).param? (i * 3 + (j + 1)) =
      ([.text ("runner-user-" ++ toString (offset + i)), .text seed.currency,
        .number seed.boundBalance] : List SqlValue)[j]? := by
    intro j hj
    rw [InsertAccounts.param?, if_neg (by omega)]
    exact getElem?_flatMap_three (fun _ => rfl) hi hj
  rw [InsertAccounts.row, @hparam 0 (by decide), @hparam 1 (by decide), @hparam 2 (by decide)]
  rfl

theorem mapM_ok {f : α → Except ε β} {g : α → β} {l : List α} (h : ∀ x ∈ l, f x = .ok (g x)) :
    l.mapM f = .ok (l.map g) := by
  induction l with
  | nil => rfl
  | cons x l ih =>
    rw [List.mapM_cons, h x (List.mem_cons_self ..),
      ih fun y hy => h y (List.mem_cons_of_mem _ hy)]
    rfl

theorem batch_params : ¬ 65535 < (seed.batch offset).params.length := by
  have hlength : (seed.batch offset).params.length = min 1000 (seed.users - offset) * 3 := by
    simp [batch, List.length_flatMap]
  omega

theorem batch_exec (hfits : seed.Fits) : (seed.batch offset).exec accounts =
    .ok (Sql.upsertAll (·.account) ((List.range (min 1000 (seed.users - offset))).map
      fun i => seed.userRow (offset + i)) accounts) := by
  have hrows : (seed.batch offset).values.mapM (seed.batch offset).row =
      .ok ((List.range (min 1000 (seed.users - offset))).map
        fun i => seed.userRow (offset + i)) := by
    rw [show (seed.batch offset).values = (List.range (min 1000 (seed.users - offset))).map
      fun i => (i * 3 + 1, i * 3 + 2, i * 3 + 3) from rfl, List.mapM_map]
    apply mapM_ok
    intro i hi
    rw [Function.comp_apply, batch_row (List.mem_range.1 hi), if_neg (not_not.2 hfits.2),
      if_neg (not_lt.2 hfits.1)]
  rw [InsertAccounts.exec, if_neg batch_params, hrows]
  refine if_neg (not_not.2 ?_)
  rw [List.map_map]
  exact List.nodup_range.map fun i j h => Nat.add_left_cancel (user_injective h)

theorem batch_exec_error (hfits : ¬ seed.Fits) (hoffset : offset < seed.users) :
    ∃ e, (seed.batch offset).exec accounts = .error e := by
  obtain ⟨b, hb⟩ : ∃ b, min 1000 (seed.users - offset) = b + 1 :=
    Nat.exists_eq_succ_of_ne_zero (by omega)
  have hrow := @batch_row seed offset 0 (by omega)
  obtain ⟨e, he⟩ : ∃ e, (seed.batch offset).row (0 * 3 + 1, 0 * 3 + 2, 0 * 3 + 3) = .error e := by
    rw [hrow]
    split
    · exact ⟨_, rfl⟩
    · next hbig =>
      split
      · exact ⟨_, rfl⟩
      · next hneg => exact absurd ⟨not_lt.1 hneg, not_not.1 hbig⟩ hfits
  refine ⟨e, ?_⟩
  rw [InsertAccounts.exec, if_neg batch_params,
    show (seed.batch offset).values = (List.range (min 1000 (seed.users - offset))).map
      fun i => (i * 3 + 1, i * 3 + 2, i * 3 + 3) from rfl, hb, List.range_succ_eq_map,
    List.map_cons, List.mapM_cons, he]
  rfl

theorem userRows_append (b m : Nat) : ((List.range b).map fun i => seed.userRow (offset + i)) ++
    ((List.range m).map fun i => seed.userRow (offset + b + i)) =
      (List.range (b + m)).map fun i => seed.userRow (offset + i) := by
  rw [List.range_add, List.map_append, List.map_map]
  congr 1
  apply List.map_congr_left
  intro i _
  rw [Function.comp_apply, Nat.add_assoc]

/-- The batches add up to one upsert of all users from the offset on. -/
theorem insertBatches_ok (hfits : seed.Fits) : seed.insertBatches offset accounts =
    (.ok (), Sql.upsertAll (·.account) ((List.range (seed.users - offset)).map
      fun i => seed.userRow (offset + i)) accounts) := by
  induction hn : seed.users - offset using Nat.strong_induction_on generalizing offset accounts with
  | _ n ih =>
    subst hn
    rw [insertBatches]
    split
    · next hlt =>
      rw [batch_exec hfits]
      dsimp only
      rw [ih _ (by omega) rfl, ← Sql.upsertAll_append]
      rcases le_total 1000 (seed.users - offset) with hle | hle
      · rw [min_eq_left hle, userRows_append,
          show 1000 + (seed.users - (offset + 1000)) = seed.users - offset by omega]
      · rw [min_eq_right hle, show seed.users - (offset + 1000) = 0 by omega, List.range_zero,
          List.map_nil, List.append_nil]
    · next hge =>
      rw [show seed.users - offset = 0 by omega]
      rfl

theorem main_ok (h : seed.users = 0 ∨ seed.Fits) :
    seed.main accounts = (.ok (), Sql.upsertAll (·.account) seed.rows accounts) := by
  have hbatches : seed.insertBatches 0 accounts = (.ok (), Sql.upsertAll (·.account)
      ((List.range seed.users).map seed.userRow) accounts) := by
    rcases h with hzero | hfits
    · rw [insertBatches, if_neg (by omega), hzero]
      rfl
    · rw [insertBatches_ok hfits]
      simp
  rw [main, hbatches, rows, Sql.upsertAll_append]
  rfl

theorem main_error (h : ¬ (seed.users = 0 ∨ seed.Fits)) :
    ∃ e, seed.main accounts = (.error e, accounts) := by
  obtain ⟨hpos, hfits⟩ := not_or.1 h
  obtain ⟨e, he⟩ := @batch_exec_error seed 0 accounts hfits (by omega)
  refine ⟨e, ?_⟩
  rw [main, insertBatches, if_pos (by omega), he]

theorem main_eq_ok {seeded : List AccountRow} (h : seed.main accounts = (.ok (), seeded)) :
    (seed.users = 0 ∨ seed.Fits) ∧ seeded = Sql.upsertAll (·.account) seed.rows accounts := by
  have hfits : seed.users = 0 ∨ seed.Fits := by
    by_contra hnot
    obtain ⟨e, he⟩ := @main_error seed accounts hnot
    rw [he] at h
    cases h
  rw [main_ok hfits] at h
  cases h
  exact ⟨hfits, rfl⟩

theorem find?_user {n : Nat} (hn : n < seed.users) :
    (Sql.upsertAll (·.account) seed.rows accounts).find? (·.account = seed.user n) =
      some (seed.userRow n) :=
  Sql.find?_upsertAll_of_mem rows_nodup
    (List.mem_append_left _ (List.mem_map_of_mem (List.mem_range.2 hn)))

/-- The seed script makes its users and the demo account with their balances, the users with the one
that a Number of the setting prints (the setting itself up to `2 ^ 53`), whatever the table held
under these accounts, leaves all others as they are and changes no balance when it runs again; when
the column does not take the balance, it fails and changes nothing. -/
theorem accounts_seeded (seed : Seed) {accounts : List AccountRow}
    (hkeys : (accounts.map (·.account)).Nodup) :
    (seed.users = 0 ∨ seed.Fits → ∃ seeded, seed.main accounts = (.ok (), seeded) ∧
      (seeded.map (·.account)).Nodup ∧
      (∀ n < seed.users, seeded.find? (·.account = seed.user n) =
        some ⟨seed.user n, seed.boundBalance⟩) ∧
      seeded.find? (·.account = demo.account) = some demo ∧
      (∀ a, a ≠ demo.account → (∀ n < seed.users, a ≠ seed.user n) →
        seeded.find? (·.account = a) = accounts.find? (·.account = a)) ∧
      seed.main seeded = (.ok (), seeded)) ∧
    (¬ (seed.users = 0 ∨ seed.Fits) → ∃ e, seed.main accounts = (.error e, accounts)) ∧
    (|seed.balance| ≤ 2 ^ 53 → seed.boundBalance = seed.balance) := by
  refine ⟨fun h => ?_, main_error, boundBalance_small⟩
  refine ⟨_, main_ok h, Sql.upsertAll_nodup hkeys, fun n hn => find?_user hn, ?_, ?_, ?_⟩
  · exact Sql.find?_upsertAll_of_mem rows_nodup
      (List.mem_append_right _ (List.mem_singleton_self _))
  · intro a hdemo huser
    have hnone : seed.rows.find? (·.account = a) = none := by
      simp only [List.find?_eq_none, decide_eq_true_eq]
      intro row hrow heq
      rcases List.mem_append.1 hrow with hrow | hrow
      · obtain ⟨n, hn, rfl⟩ := List.mem_map.1 hrow
        exact huser n (List.mem_range.1 hn) heq.symm
      · rw [List.mem_singleton.1 hrow] at heq
        exact hdemo heq.symm
    rw [Sql.find?_upsertAll rows_nodup, hnone]
    rfl
  · rw [main_ok h, Sql.upsertAll_idem rows_nodup]

/-- The balances of an earlier run are set back. -/
theorem twoUsers_seeded : ∃ seeded, Seed.main ⟨2, 1000, "USD"⟩
      [⟨⟨"runner-user-1", "USD"⟩, 7⟩, ⟨⟨"a", "USD"⟩, 5⟩] = (.ok (), seeded) ∧
    seeded.find? (·.account = ⟨"runner-user-1", "USD"⟩) =
      some ⟨⟨"runner-user-1", "USD"⟩, 1000⟩ ∧
    seeded.find? (·.account = ⟨"a", "USD"⟩) = some ⟨⟨"a", "USD"⟩, 5⟩ := by
  obtain ⟨seeded, hmain, _, husers, _, hothers, _⟩ := (@accounts_seeded ⟨2, 1000, "USD"⟩
    [⟨⟨"runner-user-1", "USD"⟩, 7⟩, ⟨⟨"a", "USD"⟩, 5⟩] (by decide)).1 (Or.inr (by decide))
  refine ⟨seeded, hmain, husers 1 (by decide), ?_⟩
  rw [hothers ⟨"a", "USD"⟩ (by decide) (by decide)]
  rfl

end Seed
end BetProcessor
