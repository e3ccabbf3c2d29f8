import Mathlib.Algebra.Order.Field.Rat
import Mathlib.Data.Rat.Defs
import Mathlib.Data.String.Basic
import BetProcessor.Sql.Grouping
import BetProcessor.RtpRows

namespace BetProcessor
set_option autoImplicit true

/-- The order of `text` values. -/
structure Collation where
  le : String → String → Prop
  decidable : DecidableRel le
  total : ∀ s t, le s t ∨ le t s
  trans : ∀ {s t u}, le s t → le t u → le s u
  antisymm : ∀ {s t}, le s t → le t s → s = t

namespace Collation
variable (coll : Collation)

instance : DecidableRel coll.le := coll.decidable

/-- `ORDER BY user_id, currency`. -/
def accounts (x y : Account) : Prop :=
  coll.le x.userId y.userId ∧ (x.userId = y.userId → coll.le x.currency y.currency)

instance : DecidableRel coll.accounts := fun _ _ => inferInstanceAs (Decidable (_ ∧ _))

instance : Std.Total coll.accounts where
  total x y := by
    by_cases huser : x.userId = y.userId
    · cases coll.total x.currency y.currency with
      | inl hle => exact Or.inl ⟨huser ▸ (coll.total _ _).elim id id, fun _ => hle⟩
      | inr hle => exact Or.inr ⟨huser ▸ (coll.total _ _).elim id id, fun _ => hle⟩
    · cases coll.total x.userId y.userId with
      | inl hle => exact Or.inl ⟨hle, fun h => absurd h huser⟩
      | inr hle => exact Or.inr ⟨hle, fun h => absurd h.symm huser⟩

instance : IsTrans Account coll.accounts where
  trans x y z hxy hyz := by
    constructor
    · exact coll.trans hxy.1 hyz.1
    · intro huser
      have hy : x.userId = y.userId := coll.antisymm hxy.1 (huser ▸ hyz.1)
      exact coll.trans (hxy.2 hy) (hyz.2 (hy.symm.trans huser))

end Collation

/-- Where the query casts its sums to `bigint`: in every group before the groups are sorted, or in
the groups up to the end of the page. -/
inductive Plan where
  | hashAggregate
  | groupAggregate

def Plan.cast : Plan → Nat → List Account → List Account
  | .hashAggregate, _, accounts => accounts
  | .groupAggregate, n, accounts => accounts.take n

/-- What the reports leave to the database: the order of `text`, the plan, and the quotient of two
`numeric` values as a `float`. -/
structure Postgres (Float8 : Type) where
  collation : Collation
  plan : Plan
  quotient : Int → Int → Float8

/-- The table `rtp_user_minute`, which PostgreSQL keeps below 32 terabytes. -/
structure RtpTable where
  rows : List RtpUserMinuteRow
  primaryKey : (rows.map (·.key)).Nodup
  bigints : ∀ row ∈ rows, row.InRange
  size : rows.length < 2 ^ 45

structure ReportQuery where
  from_ : Int
  to_ : Int
  currency : Option String
  userId : Option String
  limit : Int := 100
  offset : Int := 0

/-- A row of a report. -/
structure RtpRow (Float8 : Type) where
  account : Account
  rounds : Int
  totalBet : Int
  totalWin : Int
  rollbackCount : Int
  rolledBackBet : Int
  rolledBackWin : Int
  rtp : Option Float8
  deriving DecidableEq

structure UserRtpResponse (Float8 : Type) where
  items : List (RtpRow Float8)
  limit : Int
  offset : Int
  deriving DecidableEq

namespace RtpRow
variable {Float8 : Type}

def column (row : RtpRow Float8) : Column → Int
  | .totalBet => row.totalBet
  | .totalWin => row.totalWin
  | .rounds => row.rounds
  | .rollbackCount => row.rollbackCount
  | .rolledBackBet => row.rolledBackBet
  | .rolledBackWin => row.rolledBackWin

/-- The sums of a group and their `rtp`. -/
def ofSums (pg : Postgres Float8) (account : Account) (f : Column → Int) : RtpRow Float8 where
  account
  rounds := f .rounds
  totalBet := f .totalBet
  totalWin := f .totalWin
  rollbackCount := f .rollbackCount
  rolledBackBet := f .rolledBackBet
  rolledBackWin := f .rolledBackWin
  rtp := if f .totalBet = 0 then none else some (pg.quotient (f .totalWin) (f .totalBet))

@[simp] theorem ofSums_column (pg : Postgres Float8) (account : Account) (f : Column → Int)
    (col : Column) : (ofSums pg account f).column col = f col := by
  cases col <;> rfl

@[simp] theorem ofSums_account (pg : Postgres Float8) (account : Account) (f : Column → Int) :
    (ofSums pg account f).account = account := rfl

theorem ofSums_rtp (pg : Postgres Float8) (account : Account) (f : Column → Int) :
    (ofSums pg account f).rtp = none ↔ f .totalBet = 0 := by
  rw [ofSums]
  dsimp only
  split <;> simp_all

/-- The row as the service reads it. -/
def load (svc : Service) (row : RtpRow Float8) : RtpRow Float8 where
  account := row.account
  rounds := svc.load row.rounds
  totalBet := svc.load row.totalBet
  totalWin := svc.load row.totalWin
  rollbackCount := svc.load row.rollbackCount
  rolledBackBet := svc.load row.rolledBackBet
  rolledBackWin := svc.load row.rolledBackWin
  rtp := row.rtp

@[simp] theorem load_column (svc : Service) (row : RtpRow Float8) (col : Column) :
    (row.load svc).column col = svc.load (row.column col) := by
  cases col <;> rfl

end RtpRow

/-- The sums that a query casts to `bigint`. -/
def Casts (f : Column → Int) : Prop :=
  IsBigint (f .rounds) ∧ IsBigint (f .totalBet) ∧ IsBigint (f .totalWin) ∧
    IsBigint (f .rollbackCount) ∧ IsBigint (f .rolledBackBet) ∧ IsBigint (f .rolledBackWin)

instance (f : Column → Int) : Decidable (Casts f) := inferInstanceAs (Decidable (_ ∧ _))

theorem casts_iff {f : Column → Int} : Casts f ↔ ∀ col, IsBigint (f col) := by
  constructor
  · intro h col
    cases col
    · exact h.2.1
    · exact h.2.2.1
    · exact h.1
    · exact h.2.2.2.1
    · exact h.2.2.2.2.1
    · exact h.2.2.2.2.2
  · intro h
    exact ⟨h _, h _, h _, h _, h _, h _⟩

namespace RtpTable

/-- The rows of a window, with optional filters. -/
def window (t : RtpTable) (from_ to_ : Int) (currency userId : Option String) :
    List RtpUserMinuteRow :=
  t.rows.filter fun row => from_ ≤ row.key.bucketMinute ∧ row.key.bucketMinute < to_ ∧
    (∀ c ∈ currency, row.key.account.currency = c) ∧ ∀ u ∈ userId, row.key.account.userId = u

def sums (rows : List RtpUserMinuteRow) (account : Account) (col : Column) : Int :=
  Sql.sumAt (·.key.account) rows (·.column col) account

def allSums (rows : List RtpUserMinuteRow) (col : Column) : Int := (rows.map (·.column col)).sum

variable {Float8 : Type} (pg : Postgres Float8)

/-- The query of the user report. -/
def selectUsers (t : RtpTable) (from_ to_ : Int) (currency userId : Option String) :
    Option Int → Option Int → Except RtpErr (List (RtpRow Float8))
  | some limit, some offset =>
    let rows := t.window from_ to_ currency userId
    let accounts := Sql.keys pg.collation.accounts (·.key.account) rows
    if limit < 0 ∨ offset < 0 then .error .negativeLimit
    else if ∀ a ∈ pg.plan.cast (offset + limit).toNat accounts, Casts (sums rows a) then
      .ok ((Sql.page limit.toNat offset.toNat accounts).map fun a => .ofSums pg a (sums rows a))
    else .error .outOfRange
  | _, _ => .error .outOfRange

/-- The query of the casino report. -/
def selectCasino (t : RtpTable) (from_ to_ : Int) (filter : Option String) (currency : String) :
    Except RtpErr (RtpRow Float8) :=
  let rows := t.window from_ to_ filter none
  if Casts (allSums rows) then .ok (.ofSums pg ⟨"ALL", currency⟩ (allSums rows))
  else .error .outOfRange

/-- A filter that is left out when it is absent or empty: `if (query.currency)`. -/
def truthy (filter : Option String) : Option String := filter.filter (· ≠ "")

/-- The report of the TypeScript service. -/
def getUserRtpReport (t : RtpTable) (query : ReportQuery) :
    Except RtpErr (UserRtpResponse Float8) := do
  let rows ← t.selectUsers pg query.from_ query.to_ (truthy query.currency) (truthy query.userId)
    (typescript.bind query.limit) (typescript.bind query.offset)
  return ⟨rows.map (·.load typescript), query.limit, query.offset⟩

def getCasinoRtpReport (t : RtpTable) (query : ReportQuery) : Except RtpErr (RtpRow Float8) := do
  let row ← t.selectCasino pg query.from_ query.to_ (truthy query.currency)
    (query.currency.getD "ALL")
  return row.load typescript

/-- The report of the Rust service. -/
def userRtp (t : RtpTable) (query : ReportQuery) : Except RtpErr (UserRtpResponse Float8) := do
  let limit := max 1 (min query.limit 500)
  let offset := max query.offset 0
  let rows ← t.selectUsers pg query.from_ query.to_ query.currency query.userId
    (rust.bind limit) (rust.bind offset)
  return ⟨rows.map (·.load rust), limit, offset⟩

def casinoRtp (t : RtpTable) (query : ReportQuery) : Except RtpErr (RtpRow Float8) := do
  let row ← t.selectCasino pg query.from_ query.to_ query.currency (query.currency.getD "ALL")
  return row.load rust

end RtpTable

/-- `reportQuerySchema`, after `from` and `to` have been read. -/
def ReportQuery.Parses (query : ReportQuery) : Prop :=
  query.currency ≠ some "" ∧ query.userId ≠ some "" ∧ 1 ≤ query.limit ∧ query.limit ≤ 500 ∧
    0 ≤ query.offset

/-- The two implementations of the reports. -/
inductive Reporter where
  | typescript
  | rust

namespace Reporter
variable {Float8 : Type} (pg : Postgres Float8)

def svc : Reporter → Service
  | .typescript => BetProcessor.typescript
  | .rust => BetProcessor.rust

def userReport : Reporter → RtpTable → ReportQuery → Except RtpErr (UserRtpResponse Float8)
  | .typescript => RtpTable.getUserRtpReport pg
  | .rust => RtpTable.userRtp pg

def casinoReport : Reporter → RtpTable → ReportQuery → Except RtpErr (RtpRow Float8)
  | .typescript => RtpTable.getCasinoRtpReport pg
  | .rust => RtpTable.casinoRtp pg

/-- The queries that get past the parser of the service. -/
def Parses : Reporter → ReportQuery → Prop
  | .typescript, query => query.Parses
  | .rust, query => IsBigint query.limit ∧ IsBigint query.offset

end Reporter
end BetProcessor
