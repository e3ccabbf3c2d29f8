import Mathlib.Algebra.Order.BigOperators.Group.List
import BetProcessor.RtpReports

namespace BetProcessor
set_option autoImplicit true

namespace RtpTable
variable {Float8 : Type} (pg : Postgres Float8) (t : RtpTable)

theorem mem_window {row : RtpUserMinuteRow} : row ∈ t.window from_ to_ currency userId ↔
    row ∈ t.rows ∧ from_ ≤ row.key.bucketMinute ∧ row.key.bucketMinute < to_ ∧
      (∀ c ∈ currency, row.key.account.currency = c) ∧
      ∀ u ∈ userId, row.key.account.userId = u := by
  rw [window, List.mem_filter, decide_eq_true_eq]

theorem window_split {a b c : Int} (hab : a ≤ b) (hbc : b ≤ c) :
    (t.window a b currency userId ++ t.window b c currency userId).Perm
      (t.window a c currency userId) := by
  have hleft : t.window a b currency userId =
      (t.window a c currency userId).filter (·.key.bucketMinute < b) := by
    rw [window, window, List.filter_filter]
    apply List.filter_congr
    intro row _
    rw [← Bool.decide_and, decide_eq_decide]
    constructor
    · rintro ⟨ha, hb, hrest⟩
      exact ⟨hb, ha, hb.trans_le hbc, hrest⟩
    · rintro ⟨hb, ha, _, hrest⟩
      exact ⟨ha, hb, hrest⟩
  have hright : t.window b c currency userId =
      (t.window a c currency userId).filter fun row => !decide (row.key.bucketMinute < b) := by
    rw [window, window, List.filter_filter]
    apply List.filter_congr
    intro row _
    rw [← decide_not, ← Bool.decide_and, decide_eq_decide]
    constructor
    · rintro ⟨hb, hc, hrest⟩
      exact ⟨not_lt.2 hb, hab.trans hb, hc, hrest⟩
    · rintro ⟨hb, _, hc, hrest⟩
      exact ⟨not_lt.1 hb, hc, hrest⟩
  rw [hleft, hright]
  exact List.filter_append_perm ..

theorem sums_split {a b c : Int} (hab : a ≤ b) (hbc : b ≤ c) (x : Account) (col : Column) :
    sums (t.window a c currency userId) x col =
      sums (t.window a b currency userId) x col + sums (t.window b c currency userId) x col := by
  rw [sums, ← Sql.sumAt_perm (t.window_split hab hbc), Sql.sumAt_append]
  rfl

theorem allSums_split {a b c : Int} (hab : a ≤ b) (hbc : b ≤ c) (col : Column) :
    allSums (t.window a c currency userId) col =
      allSums (t.window a b currency userId) col + allSums (t.window b c currency userId) col := by
  rw [allSums, ← ((t.window_split hab hbc).map _).sum_eq, List.map_append, List.sum_append]
  rfl

/-- The accounts of a window, in the order of the report. -/
def accounts (a c : Int) (currency : Option String) : List Account :=
  Sql.keys pg.collation.accounts (·.key.account) (t.window a c currency none)

theorem mem_accounts {x : Account} : x ∈ t.accounts pg a c currency ↔
    ∃ row ∈ t.rows, row.key.account = x ∧ a ≤ row.key.bucketMinute ∧ row.key.bucketMinute < c ∧
      ∀ cur ∈ currency, x.currency = cur := by
  rw [accounts, Sql.mem_keys]
  constructor
  · rintro ⟨row, hrow, rfl⟩
    have hrow := t.mem_window.1 hrow
    exact ⟨row, hrow.1, rfl, hrow.2.1, hrow.2.2.1, hrow.2.2.2.1⟩
  · rintro ⟨row, hrow, rfl, ha, hc, hcur⟩
    refine ⟨row, t.mem_window.2 ⟨hrow, ha, hc, hcur, ?_⟩, rfl⟩
    intro u hu
    cases hu

theorem accounts_length : (t.accounts pg a c currency).length < 2 ^ 45 :=
  (Sql.keys_length_le.trans (List.length_filter_le ..)).trans_lt t.size

theorem sums_eq_zero {x : Account} (h : x ∉ t.accounts pg a c currency) (col : Column) :
    sums (t.window a c currency none) x col = 0 := by
  apply Sql.sumAt_eq_zero
  intro row hrow hx
  exact h (Sql.mem_keys.2 ⟨row, hrow, hx⟩)

/-- What the user report of a window holds, without pages. -/
def items (a c : Int) (currency : Option String) : List (RtpRow Float8) :=
  (t.accounts pg a c currency).map fun x =>
    .ofSums pg x (sums (t.window a c currency none) x)

/-- Every sum over the window is a `bigint`. -/
structure Fits (a c : Int) (currency : Option String) : Prop where
  users : ∀ x col, IsBigint (sums (t.window a c currency none) x col)
  casino : ∀ col, IsBigint (allSums (t.window a c currency none) col)

/-- The service reads every sum over the window unchanged. -/
structure ReadBy (svc : Service) (a c : Int) (currency : Option String) : Prop where
  users : ∀ x col, svc.load (sums (t.window a c currency none) x col) =
    sums (t.window a c currency none) x col
  casino : ∀ col, svc.load (allSums (t.window a c currency none) col) =
    allSums (t.window a c currency none) col

theorem selectUsers_eq {limit offset : Int} (h : t.Fits a c currency) (hlimit : 0 ≤ limit)
    (hoffset : 0 ≤ offset) :
    t.selectUsers pg a c currency none (some limit) (some offset) =
      .ok (Sql.page limit.toNat offset.toNat (t.items pg a c currency)) := by
  have hsign : ¬(limit < 0 ∨ offset < 0) := by omega
  rw [selectUsers, if_neg hsign, if_pos fun x _ => casts_iff.2 (h.users x)]
  rw [items, Sql.page, Sql.page, List.map_take, List.map_drop]
  rfl

theorem selectCasino_eq (h : t.Fits a c currency) :
    t.selectCasino pg a c currency name = .ok (.ofSums pg ⟨"ALL", name⟩
      (allSums (t.window a c currency none))) :=
  if_pos (casts_iff.2 h.casino)

end RtpTable

namespace Reporter
variable {Float8 : Type} (pg : Postgres Float8) (r : Reporter) (t : RtpTable)

theorem truthy_eq {filter : Option String} (h : filter ≠ some "") :
    RtpTable.truthy filter = filter := by
  cases filter with
  | none => rfl
  | some s =>
    have hs : s ≠ "" := fun hs => h (congrArg some hs)
    simp [RtpTable.truthy, Option.filter, hs]

theorem svc_bind (x : Int) (h0 : 0 ≤ x) (hx : x ≤ 2 ^ 53) : r.svc.bind x = some x :=
  r.svc.bind_small (by rwa [abs_of_nonneg h0])

/-- One page of the report. -/
def fetch (a c : Int) (currency : Option String) (limit : Int) (offset : Nat) :
    Option (List (RtpRow Float8)) :=
  ((r.userReport pg t ⟨a, c, currency, none, limit, offset⟩).toOption).map (·.items)

theorem fetch_eq {limit : Int} {offset : Nat} (hparses : r.Parses ⟨a, c, currency, none, limit, 0⟩)
    (hlimit : 1 ≤ limit) (hlimit' : limit ≤ 500) (hfits : t.Fits a c currency)
    (hoffset : offset ≤ 2 ^ 53) :
    r.fetch pg t a c currency limit offset =
      some (Sql.page limit.toNat offset ((t.items pg a c currency).map (·.load r.svc))) := by
  have hpage : (Sql.page limit.toNat offset (t.items pg a c currency)).map (·.load r.svc) =
      Sql.page limit.toNat offset ((t.items pg a c currency).map (·.load r.svc)) := by
    rw [Sql.page, Sql.page, List.map_take, List.map_drop]
  have hbind : r.svc.bind limit = some limit := r.svc_bind limit (by omega) (by omega)
  have hbind' : r.svc.bind offset = some (offset : Int) :=
    r.svc_bind offset (by omega) (by exact_mod_cast hoffset)
  have hselect := t.selectUsers_eq pg hfits (by omega : 0 ≤ limit) (Int.natCast_nonneg offset)
  rw [fetch, ← hpage]
  cases r with
  | typescript =>
    change BetProcessor.typescript.bind limit = _ at hbind
    change BetProcessor.typescript.bind offset = _ at hbind'
    simp only [userReport, RtpTable.getUserRtpReport, truthy_eq hparses.1, hbind, hbind']
    rw [show RtpTable.truthy none = none from rfl, hselect]
    rfl
  | rust =>
    change BetProcessor.rust.bind limit = _ at hbind
    change BetProcessor.rust.bind offset = _ at hbind'
    have hclamp : max 1 (min limit 500) = limit := by omega
    have hmax : max (offset : Int) 0 = offset := by omega
    simp only [userReport, RtpTable.userRtp, hclamp, hmax, hbind, hbind', hselect]
    rfl

theorem casinoReport_eq {limit : Int} (hparses : r.Parses ⟨a, c, currency, none, limit, 0⟩)
    (hfits : t.Fits a c currency) :
    r.casinoReport pg t ⟨a, c, currency, none, limit, 0⟩ =
      .ok ((RtpRow.ofSums pg ⟨"ALL", currency.getD "ALL"⟩
        (RtpTable.allSums (t.window a c currency none))).load r.svc) := by
  cases r with
  | typescript =>
    simp only [casinoReport, RtpTable.getCasinoRtpReport, truthy_eq hparses.1,
      t.selectCasino_eq pg hfits]
    rfl
  | rust =>
    simp only [casinoReport, RtpTable.casinoRtp, t.selectCasino_eq pg hfits]
    rfl

/-- All pages of the user report of a window, and its casino report. -/
structure Reports (a c : Int) (currency : Option String) (limit : Int)
    (items : List (RtpRow Float8)) (total : RtpRow Float8) : Prop where
  pages : Sql.Pages (r.fetch pg t a c currency limit) limit.toNat 0 items
  casino : r.casinoReport pg t ⟨a, c, currency, none, limit, 0⟩ = .ok total

theorem Parses.window {r : Reporter} (h : r.Parses ⟨a, c, currency, none, limit, 0⟩) (a' c' : Int) :
    r.Parses ⟨a', c', currency, none, limit, 0⟩ := by
  cases r with
  | typescript => exact h
  | rust => exact h

theorem reports {limit : Int} (hparses : r.Parses ⟨a, c, currency, none, limit, 0⟩)
    (hlimit : 1 ≤ limit) (hlimit' : limit ≤ 500) (hfits : t.Fits a c currency) :
    r.Reports pg t a c currency limit ((t.items pg a c currency).map (·.load r.svc))
      ((RtpRow.ofSums pg ⟨"ALL", currency.getD "ALL"⟩
        (RtpTable.allSums (t.window a c currency none))).load r.svc) := by
  have hlength : ((t.items pg a c currency).map (·.load r.svc)).length < 2 ^ 45 := by
    rw [List.length_map, RtpTable.items, List.length_map]
    exact t.accounts_length pg
  constructor
  · rw [← List.drop_zero (l := (t.items pg a c currency).map (·.load r.svc))]
    apply Sql.pages_drop
    · omega
    · intro offset hoffset
      apply r.fetch_eq pg t hparses hlimit hlimit' hfits
      omega
    · omega
  · exact r.casinoReport_eq pg t hparses hfits

end Reporter

namespace RtpTable
variable {Float8 : Type} (pg : Postgres Float8) (t : RtpTable) {svc : Service}

theorem map_account : (((t.items pg a c currency).map (·.load svc)).map (·.account)) =
    t.accounts pg a c currency := by
  rw [items, List.map_map, List.map_map]
  exact List.map_id _

/-- What the items report for an account, zero when it is not listed. -/
def reported (items : List (RtpRow Float8)) (x : Account) (col : Column) : Int :=
  Sql.sumAt (·.account) items (·.column col) x

theorem reported_items (x : Account) (col : Column) :
    reported ((t.items pg a c currency).map (·.load svc)) x col =
      svc.load (sums (t.window a c currency none) x col) := by
  rw [items, List.map_map, reported, accounts, Sql.sumAt_map Sql.keys_nodup fun _ => rfl,
    ← accounts]
  by_cases hx : x ∈ t.accounts pg a c currency
  · rw [if_pos hx]
    simp
  · rw [if_neg hx, t.sums_eq_zero pg hx, svc.load_small (by decide)]

theorem sum_items (hread : t.ReadBy svc a c currency) (col : Column) :
    (((t.items pg a c currency).map (·.load svc)).map (·.column col)).sum =
      allSums (t.window a c currency none) col := by
  have hgroups : ((t.accounts pg a c currency).map fun x =>
      sums (t.window a c currency none) x col).sum = allSums (t.window a c currency none) col :=
    Sql.sum_groups
  rw [items, List.map_map, List.map_map, ← hgroups]
  apply congrArg List.sum
  apply List.map_congr_left
  intro x _
  simp only [Function.comp_apply, RtpRow.load_column, RtpRow.ofSums_column]
  exact hread.users x col

end RtpTable

namespace RtpTable
variable (t : RtpTable)

theorem sums_le (hpos : ∀ row ∈ t.rows, ∀ col, 0 ≤ row.column col)
    (rows : List RtpUserMinuteRow) (hrows : rows.Sublist t.rows) (col : Column) :
    0 ≤ allSums rows col ∧ allSums rows col ≤ allSums t.rows col := by
  constructor
  · apply List.sum_nonneg
    intro x hx
    obtain ⟨row, hrow, rfl⟩ := List.mem_map.1 hx
    exact hpos row (hrows.subset hrow) col
  · apply (hrows.map _).sum_le_sum
    intro x hx
    obtain ⟨row, hrow, rfl⟩ := List.mem_map.1 hx
    exact hpos row hrow col

/-- The sums of every window fit where the whole columns do and no value is negative. -/
theorem fits_of_nonneg (hpos : ∀ row ∈ t.rows, ∀ col, 0 ≤ row.column col)
    (hall : ∀ col, IsBigint (allSums t.rows col)) (a c : Int) (currency : Option String) :
    t.Fits a c currency := by
  have hbigint : ∀ (rows : List RtpUserMinuteRow) col, rows.Sublist t.rows →
      IsBigint (allSums rows col) := by
    intro rows col hrows
    have hle := t.sums_le hpos rows hrows col
    have hall := hall col
    rw [IsBigint] at *
    omega
  constructor
  · intro x col
    exact hbigint _ col (List.filter_sublist.trans List.filter_sublist)
  · intro col
    exact hbigint _ col List.filter_sublist

theorem readBy_rust (a c : Int) (currency : Option String) : t.ReadBy rust a c currency :=
  ⟨fun _ _ => rfl, fun _ => rfl⟩

end RtpTable

/-- The pages list every account of the window once and in order, and where the service reads all
sums unchanged they add up to the casino report and over the two parts of a window. -/
theorem reports_complete {Float8 : Type} (pg : Postgres Float8) (r : Reporter) (t : RtpTable)
    {a b c : Int} (hab : a ≤ b) (hbc : b ≤ c) (currency : Option String) {limit : Int}
    (hparses : r.Parses ⟨a, c, currency, none, limit, 0⟩) (hlimit : 1 ≤ limit)
    (hlimit' : limit ≤ 500) (hfits : t.Fits a c currency) (hleft : t.Fits a b currency)
    (hright : t.Fits b c currency) :
    ∃ items total left leftTotal right rightTotal,
      r.Reports pg t a c currency limit items total ∧
      r.Reports pg t a b currency limit left leftTotal ∧
      r.Reports pg t b c currency limit right rightTotal ∧
      (items.map (·.account)).Pairwise (fun x y => pg.collation.accounts x y ∧ x ≠ y) ∧
      (∀ x, x ∈ items.map (·.account) ↔ ∃ row ∈ t.rows, row.key.account = x ∧
        a ≤ row.key.bucketMinute ∧ row.key.bucketMinute < c ∧ ∀ cur ∈ currency, x.currency = cur) ∧
      (∀ item ∈ items, item.rtp = none ↔
        RtpTable.sums (t.window a c currency none) item.account .totalBet = 0) ∧
      (total.rtp = none ↔ RtpTable.allSums (t.window a c currency none) .totalBet = 0) ∧
      (t.ReadBy r.svc a c currency →
        (∀ col, (items.map (·.column col)).sum = total.column col) ∧
        (t.ReadBy r.svc a b currency → t.ReadBy r.svc b c currency →
          (∀ x col, RtpTable.reported items x col =
            RtpTable.reported left x col + RtpTable.reported right x col) ∧
          ∀ col, total.column col = leftTotal.column col + rightTotal.column col)) := by
  refine ⟨_, _, _, _, _, _, r.reports pg t hparses hlimit hlimit' hfits,
    r.reports pg t (hparses.window a b) hlimit hlimit' hleft,
    r.reports pg t (hparses.window b c) hlimit hlimit' hright, ?_, ?_, ?_, ?_, ?_⟩
  · rw [t.map_account]
    exact Sql.keys_pairwise
  · intro x
    rw [t.map_account]
    exact t.mem_accounts pg
  · intro item hitem
    obtain ⟨row, hrow, rfl⟩ := List.mem_map.1 hitem
    obtain ⟨x, _, rfl⟩ := List.mem_map.1 hrow
    exact RtpRow.ofSums_rtp pg x _
  · exact RtpRow.ofSums_rtp pg ⟨"ALL", currency.getD "ALL"⟩ _
  · intro hread
    constructor
    · intro col
      rw [t.sum_items pg hread, RtpRow.load_column, RtpRow.ofSums_column, hread.casino]
    · intro hreadLeft hreadRight
      constructor
      · intro x col
        rw [t.reported_items, t.reported_items, t.reported_items, hread.users, hreadLeft.users,
          hreadRight.users, t.sums_split hab hbc]
      · intro col
        simp only [RtpRow.load_column, RtpRow.ofSums_column]
        rw [hread.casino, hreadLeft.casino, hreadRight.casino, t.allSums_split hab hbc]

/-- The collation `C`. -/
def Postgres.plain : Postgres ℚ where
  collation :=
    { le := (· ≤ ·)
      decidable := inferInstance
      total := le_total
      trans := le_trans
      antisymm := le_antisymm }
  plan := .hashAggregate
  quotient totalWin totalBet := totalWin / totalBet

def bets (userId : String) (bucketMinute totalBet : Int) : RtpUserMinuteRow where
  key := ⟨bucketMinute, ⟨userId, "EUR"⟩⟩
  totalBet := totalBet
  totalWin := 0
  rounds := 1
  rollbackCount := 0
  rolledBackBet := 0
  rolledBackWin := 0

def twoPlayers : RtpTable where
  rows := [bets "alice" 0 9007199254740993, bets "bob" 60000000 1]
  primaryKey := by decide
  bigints := by decide
  size := by decide

def fullColumn : RtpTable where
  rows := [bets "alice" 0 9223372036854775807, bets "alice" 60000000 1]
  primaryKey := by decide
  bigints := by decide
  size := by decide

theorem twoPlayers_fits (a c : Int) (currency : Option String) :
    twoPlayers.Fits a c currency := by
  apply twoPlayers.fits_of_nonneg
  · intro row hrow col
    cases col <;> revert row <;> decide
  · intro col
    cases col <;> decide

/-- Two players whose bets Rust adds up exactly. -/
theorem twoPlayers_reports : ∃ items total, Reporter.rust.Reports Postgres.plain twoPlayers 0
    120000000 none 1 items total ∧ ∀ col, (items.map (·.column col)).sum = total.column col := by
  obtain ⟨items, total, _, _, _, _, hreports, _, _, _, _, _, _, hsums⟩ :=
    reports_complete Postgres.plain .rust twoPlayers (by decide : (0 : Int) ≤ 60000000)
      (by decide : (60000000 : Int) ≤ 120000000) none ⟨by decide, by decide⟩
      (by decide : (1 : Int) ≤ 1) (by decide) (twoPlayers_fits ..) (twoPlayers_fits ..)
      (twoPlayers_fits ..)
  exact ⟨items, total, hreports, (hsums (twoPlayers.readBy_rust ..)).1⟩

/-- Node rounds the sum of the first player but not the one of all players, and a sum above
`bigint` fails the query. -/
theorem totals_differ :
    (∃ items total, Reporter.typescript.Reports Postgres.plain twoPlayers 0 120000000 none 500
      items total ∧ (items.map (·.totalBet)).sum = 9007199254740993 ∧
      total.totalBet = 9007199254740994) ∧
    Reporter.rust.userReport Postgres.plain fullColumn ⟨0, 120000000, none, none, 500, 0⟩ =
      .error .outOfRange := by
  constructor
  · refine ⟨_, _, Reporter.typescript.reports Postgres.plain twoPlayers ?_ (by decide)
      (by decide) (twoPlayers_fits 0 120000000 none), ?_, ?_⟩
    · exact ⟨by decide, by decide, by decide, by decide, by decide⟩
    · decide +kernel
    · decide +kernel
  · rfl

end BetProcessor
