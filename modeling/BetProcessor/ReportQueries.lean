import BetProcessor.Calendar.Instant
import BetProcessor.Codec.Query
import BetProcessor.Exchanges
import BetProcessor.RunnerReports

namespace BetProcessor
set_option autoImplicit true
open Codec Calendar

/-- A query after `reportQuerySchema`, with the texts of its instants. -/
structure ReportQueryText where
  from_ : List Char
  to_ : List Char
  currency : Option String
  userId : Option String
  limit : Int
  offset : Int

/-- What the TypeScript service leaves to others: the fields of a query string to Fastify, the texts
of `z.string().datetime()` to Zod, `Number` of an integer to JavaScript and `timestamptz` to
PostgreSQL. -/
structure QueryReaders where
  querystring : List Char → List (List Char × List Char)
  isDatetime : List Char → Bool
  number : List Char → Option Int
  timestamptz : List Char → Option Int

namespace QueryReaders
variable (readers : QueryReaders) (fields : List (List Char × List Char)) (name : String)

def datetime : Option (List Char) :=
  match Query.field fields name with
  | some (some text) => if readers.isDatetime text then some text else none
  | _ => none

/-- `z.string().min(1).optional()` -/
def filter : Option (Option String) :=
  match Query.field fields name with
  | some (some text) => if text = [] then none else some (some (String.ofList text))
  | some none => some none
  | none => none

/-- `z.coerce.number().int()` with its bounds and default. -/
def coerced (check : Int → Bool) (initial : Int) : Option Int :=
  match Query.field fields name with
  | some (some text) => (readers.number text).filter check
  | some none => some initial
  | none => none

def reportQuerySchema (query : List Char) : Option ReportQueryText := do
  let fields := readers.querystring query
  return {
    from_ := ← readers.datetime fields "from"
    to_ := ← readers.datetime fields "to"
    currency := ← filter fields "currency"
    userId := ← filter fields "user_id"
    limit := ← readers.coerced fields "limit" (fun n => 1 ≤ n && n ≤ 500) 100
    offset := ← readers.coerced fields "offset" (fun n => 0 ≤ n) 0 }

/-- The parameters of the query, as PostgreSQL reads them. -/
def load (text : ReportQueryText) : Option ReportQuery := do
  return {
    from_ := ← readers.timestamptz text.from_
    to_ := ← readers.timestamptz text.to_
    currency := text.currency
    userId := text.userId
    limit := text.limit
    offset := text.offset }

end QueryReaders

/-- How a report's route ends: with a status, or with the query of the report. -/
inductive ReportHandling where
  | answer (status : Nat)
  | run (query : ReportQuery)

/-- The routes of both reports in the TypeScript service. -/
def reportRoute (hmac : HmacSha256) (secret : String) (readers : QueryReaders)
    (authorization : Option String) (query : List Char) : ReportHandling :=
  if verifyAuthorizationHeader hmac authorization [] secret then
    match readers.reportQuerySchema query with
    | none => .answer 400
    | some text =>
      match readers.load text with
      | none => .answer 500
      | some query => .run query
  else .answer 403

namespace Rust

/-- What the Rust service leaves to `serde_urlencoded`, to `chrono` and to `i64::from_str`. -/
structure QueryReaders where
  urlencoded : List Char → List (List Char × List Char)
  dateTime : List Char → Option Int
  int64 : List Char → Option Int

namespace QueryReaders
variable (readers : QueryReaders) (fields : List (List Char × List Char)) (name : String)

def instant : Option Int :=
  match Query.field fields name with
  | some (some text) => readers.dateTime text
  | _ => none

def filter : Option (Option String) := (Query.field fields name).map (·.map String.ofList)

/-- A number with its `serde(default)`. -/
def number (initial : Int) : Option Int :=
  match Query.field fields name with
  | some (some text) => readers.int64 text
  | some none => some initial
  | none => none

/-- `Query<ReportQuery>` -/
def reportQuery (query : List Char) : Option ReportQuery := do
  let fields := readers.urlencoded query
  return {
    from_ := ← readers.instant fields "from"
    to_ := ← readers.instant fields "to"
    currency := ← filter fields "currency"
    userId := ← filter fields "user_id"
    limit := ← readers.number fields "limit" 100
    offset := ← readers.number fields "offset" 0 }

end QueryReaders

/-- The same routes of the Rust service: axum reads the query before the handler runs. -/
def reportRoute (hmac : HmacSha256) (secret : String) (readers : QueryReaders)
    (authorization : Option String) (query : List Char) : ReportHandling :=
  match readers.reportQuery query with
  | none => .answer 400
  | some query =>
    match verifyAuthorizationHeader hmac (authorization.bind toStr) [] secret with
    | .error e => .answer (intoResponse e)
    | .ok () => .run query

end Rust

/-- The answer to a query, or the status of an error. -/
def ReportHandling.serve (report : ReportQuery → Except RtpErr α) : ReportHandling → Except Nat α
  | .answer status => .error status
  | .run query => (report query).mapError fun _ => 500

section
variable (hmac : HmacSha256) (secret : String)

namespace Reporter
variable (readers : QueryReaders) (rustReaders : Rust.QueryReaders)
variable {Float8 : Type} (pg : Postgres Float8)

def reportRoute : Reporter → Option String → List Char → ReportHandling
  | .typescript => BetProcessor.reportRoute hmac secret readers
  | .rust => Rust.reportRoute hmac secret rustReaders

/-- The header signs the empty body. -/
def Verifies : Reporter → Option String → Prop
  | .typescript, authorization =>
    verifyAuthorizationHeader hmac authorization [] secret = true
  | .rust, authorization =>
    Rust.verifyAuthorizationHeader hmac (authorization.bind Rust.toStr) [] secret = .ok ()

/-- The status for a query without a signature: axum reads the query first. -/
def refusal : Reporter → List Char → Nat
  | .typescript, _ => 403
  | .rust, query => if (rustReaders.reportQuery query).isSome then 403 else 400

/-- `GET /reports/rtp/users` -/
def getUsers (r : Reporter) (t : RtpTable) (authorization : Option String) (query : List Char) :
    Except Nat (UserRtpResponse Float8) :=
  (r.reportRoute hmac secret readers rustReaders authorization query).serve (r.userReport pg t)

/-- `GET /reports/rtp/casino` -/
def getCasino (r : Reporter) (t : RtpTable) (authorization : Option String) (query : List Char) :
    Except Nat (RtpRow Float8) :=
  (r.reportRoute hmac secret readers rustReaders authorization query).serve (r.casinoReport pg t)

end Reporter
end

/-- `Date.prototype.toISOString`: years outside of four digits have a sign and six. -/
def toISOString (t : Int) : List Char :=
  let d := DateTime.ofMillis t
  if 0 ≤ d.month.year ∧ d.month.year ≤ 9999 then d.text
  else (if d.month.year < 0 then '-' else '+') :: DateTime.digits 6 d.month.year.natAbs ++
    d.text.drop 4

/-- The query string of the runner, for the clock in milliseconds at its start and at its end. -/
def runnerQuery (startedAt endedAt : Int) (currency : String) : List Char :=
  "from=".toList ++ Query.encode (toISOString (startedAt - 60000)) ++
    "&to=".toList ++ Query.encode (toISOString (endedAt + 60000)) ++
    "&currency=".toList ++ currency.toList

/-- The parameters of a report, as a client gives them. -/
structure ReportParams where
  from_ : DateTime
  to_ : DateTime
  currency : Option String := none
  userId : Option String := none
  limit : Option Nat := none
  offset : Option Nat := none

namespace ReportParams

def fields (p : ReportParams) : List (String × Option (List Char)) :=
  [("from", some p.from_.text), ("to", some p.to_.text), ("currency", p.currency.map String.toList),
    ("user_id", p.userId.map String.toList), ("limit", p.limit.map (Nat.toDigits 10)),
    ("offset", p.offset.map (Nat.toDigits 10))]

/-- The query string. -/
def text (p : ReportParams) : List Char := Query.encoded (Query.present p.fields)

/-- The report that the client means. -/
def query (p : ReportParams) : ReportQuery where
  from_ := 1000 * p.from_.millis
  to_ := 1000 * p.to_.millis
  currency := p.currency
  userId := p.userId
  limit := p.limit.elim 100 Nat.cast
  offset := p.offset.elim 0 Nat.cast

structure Sendable (p : ReportParams) : Prop where
  from_ : p.from_.IsCommon
  to_ : p.to_.IsCommon
  currency : p.currency ≠ some ""
  userId : p.userId ≠ some ""
  limit : ∀ n ∈ p.limit, 1 ≤ n ∧ n ≤ 500
  offset : ∀ n ∈ p.offset, n ≤ 2 ^ 53

end ReportParams

/-- The readers know what clients write. -/
structure QueryReaders.Standard (readers : QueryReaders) : Prop where
  querystring : Query.IsParser readers.querystring
  isDatetime : ∀ d : DateTime, d.IsCommon → readers.isDatetime d.text = true
  number : ∀ n : Nat, n ≤ 2 ^ 53 → readers.number (Nat.toDigits 10 n) = some (n : Int)
  timestamptz : DateTime.IsReader readers.timestamptz

structure Rust.QueryReaders.Standard (readers : QueryReaders) : Prop where
  urlencoded : Query.IsParser readers.urlencoded
  dateTime : DateTime.IsReader readers.dateTime
  int64 : ∀ n : Nat, n ≤ 2 ^ 53 → readers.int64 (Nat.toDigits 10 n) = some (n : Int)

section
variable {p : ReportParams} {name : String} {value : Option (List Char)}

theorem ReportParams.mem_fields (p : ReportParams) : ("from", some p.from_.text) ∈ p.fields ∧
    ("to", some p.to_.text) ∈ p.fields ∧
    ("currency", p.currency.map String.toList) ∈ p.fields ∧
    ("user_id", p.userId.map String.toList) ∈ p.fields ∧
    ("limit", p.limit.map (Nat.toDigits 10)) ∈ p.fields ∧
    ("offset", p.offset.map (Nat.toDigits 10)) ∈ p.fields := by
  simp [fields]

theorem ReportParams.names (p : ReportParams) : p.fields.map (·.1) =
    ["from", "to", "currency", "user_id", "limit", "offset"] := rfl

theorem ReportParams.field_fields (h : (name, value) ∈ p.fields) :
    Query.field (Query.present p.fields) name = some value := by
  apply Query.field_present _ h
  rw [names]
  decide

theorem ReportParams.parse_text {parse : List Char → List (List Char × List Char)}
    (h : Query.IsParser parse) : parse p.text = Query.present p.fields := by
  apply h
  intro pair hpair hname
  obtain ⟨field, hfield, hvalue⟩ := List.mem_filterMap.1 hpair
  obtain ⟨value, _, rfl⟩ := Option.map_eq_some_iff.1 hvalue
  have hnames : ∀ name ∈ p.fields.map (·.1), name.toList ≠ [] := by
    rw [names]
    decide
  exact hnames _ (List.mem_map_of_mem hfield) hname

namespace QueryReaders
variable {readers : QueryReaders}

theorem datetime_instant (hr : readers.Standard) {d : DateTime} (hd : d.IsCommon)
    (h : (name, some d.text) ∈ p.fields) :
    readers.datetime (Query.present p.fields) name = some d.text := by
  rw [datetime, ReportParams.field_fields h]
  exact if_pos (hr.isDatetime d hd)

theorem filter_string {filter : Option String} (hne : filter ≠ some "")
    (h : (name, filter.map String.toList) ∈ p.fields) :
    QueryReaders.filter (Query.present p.fields) name = some filter := by
  rw [QueryReaders.filter, ReportParams.field_fields h]
  cases filter with
  | none => rfl
  | some text =>
    have htext : text.toList ≠ [] := fun hnil => hne (by rw [String.toList_eq_nil_iff.1 hnil])
    dsimp only [Option.map_some]
    rw [if_neg htext, String.ofList_toList]

theorem coerced_nat (hr : readers.Standard) {number : Option Nat} {check : Int → Bool}
    {initial : Int} (hle : ∀ n ∈ number, n ≤ 2 ^ 53) (hcheck : ∀ n ∈ number, check n = true)
    (h : (name, number.map (Nat.toDigits 10)) ∈ p.fields) :
    readers.coerced (Query.present p.fields) name check initial =
      some (number.elim initial Nat.cast) := by
  rw [coerced, ReportParams.field_fields h]
  cases number with
  | none => rfl
  | some n =>
    dsimp only [Option.map_some]
    rw [hr.number n (hle n rfl)]
    exact Option.filter_some_pos (hcheck n rfl)

theorem reportQuerySchema_text (hr : readers.Standard) (h : p.Sendable) :
    readers.reportQuerySchema p.text = some ⟨p.from_.text, p.to_.text, p.currency, p.userId,
      p.limit.elim 100 Nat.cast, p.offset.elim 0 Nat.cast⟩ := by
  obtain ⟨hfrom, hto, hcurrency, huser, hlimit, hoffset⟩ := p.mem_fields
  have hbounds : ∀ n ∈ p.limit, (1 ≤ (n : Int) && (n : Int) ≤ 500) = true := by
    intro n hn
    obtain ⟨hpos, hle⟩ := h.limit n hn
    simp only [Bool.and_eq_true, decide_eq_true_eq]
    omega
  have hsmall : ∀ n ∈ p.limit, n ≤ 2 ^ 53 := fun n hn => (h.limit n hn).2.trans (by decide)
  rw [reportQuerySchema, ReportParams.parse_text hr.querystring,
    datetime_instant hr h.from_ hfrom, datetime_instant hr h.to_ hto,
    filter_string h.currency hcurrency, filter_string h.userId huser,
    coerced_nat hr hsmall hbounds hlimit,
    coerced_nat hr h.offset (fun n _ => decide_eq_true (Int.natCast_nonneg n)) hoffset]
  rfl

theorem load_text (hr : readers.Standard) (h : p.Sendable) :
    readers.load ⟨p.from_.text, p.to_.text, p.currency, p.userId, p.limit.elim 100 Nat.cast,
      p.offset.elim 0 Nat.cast⟩ = some p.query := by
  rw [load, hr.timestamptz _ h.from_, hr.timestamptz _ h.to_]
  rfl

end QueryReaders

namespace Rust.QueryReaders
variable {readers : Rust.QueryReaders}

theorem instant_text (hr : readers.Standard) {d : DateTime} (hd : d.IsCommon)
    (h : (name, some d.text) ∈ p.fields) :
    readers.instant (Query.present p.fields) name = some (1000 * d.millis) := by
  rw [instant, ReportParams.field_fields h]
  exact hr.dateTime d hd

theorem filter_string {filter : Option String}
    (h : (name, filter.map String.toList) ∈ p.fields) :
    QueryReaders.filter (Query.present p.fields) name = some filter := by
  rw [QueryReaders.filter, ReportParams.field_fields h]
  cases filter with
  | none => rfl
  | some text => simp

theorem number_nat (hr : readers.Standard) {number : Option Nat} {initial : Int}
    (hle : ∀ n ∈ number, n ≤ 2 ^ 53) (h : (name, number.map (Nat.toDigits 10)) ∈ p.fields) :
    readers.number (Query.present p.fields) name initial =
      some (number.elim initial Nat.cast) := by
  rw [QueryReaders.number, ReportParams.field_fields h]
  cases number with
  | none => rfl
  | some n => exact hr.int64 n (hle n rfl)

theorem reportQuery_text (hr : readers.Standard) (h : p.Sendable) :
    readers.reportQuery p.text = some p.query := by
  obtain ⟨hfrom, hto, hcurrency, huser, hlimit, hoffset⟩ := p.mem_fields
  have hsmall : ∀ n ∈ p.limit, n ≤ 2 ^ 53 := fun n hn => (h.limit n hn).2.trans (by decide)
  rw [reportQuery, ReportParams.parse_text hr.urlencoded,
    instant_text hr h.from_ hfrom, instant_text hr h.to_ hto, filter_string hcurrency,
    filter_string huser, number_nat hr hsmall hlimit, number_nat hr h.offset hoffset]
  rfl

end Rust.QueryReaders
end

section
variable {hmac : HmacSha256} {secret : String} {readers : QueryReaders}
variable {rustReaders : Rust.QueryReaders} {r : Reporter} {p : ReportParams}

theorem Reporter.verifies_signed :
    r.Verifies hmac secret (some (signedHeader hmac secret [])) := by
  cases r with
  | typescript => exact (verify_iff visible_signBody).2 ⟨"HMAC-SHA256", by decide, carries_signBody⟩
  | rust =>
    rw [Verifies, Option.bind_some, Rust.toStr_signedHeader]
    exact rust_verify_iff.2 carries_signBody

theorem Reporter.reportRoute_text (hr : readers.Standard) (hrust : rustReaders.Standard)
    (h : p.Sendable) : r.reportRoute hmac secret readers rustReaders
      (some (signedHeader hmac secret [])) p.text = .run p.query := by
  cases r with
  | typescript =>
    have hverify : verifyAuthorizationHeader hmac (some (signedHeader hmac secret [])) [] secret =
        true := @verifies_signed _ _ .typescript
    rw [reportRoute, BetProcessor.reportRoute, if_pos hverify,
      QueryReaders.reportQuerySchema_text hr h]
    dsimp only
    rw [QueryReaders.load_text hr h]
  | rust =>
    have hverify : Rust.verifyAuthorizationHeader hmac
        ((some (signedHeader hmac secret [])).bind Rust.toStr) [] secret = .ok () :=
      @verifies_signed _ _ .rust
    rw [reportRoute, Rust.reportRoute, Rust.QueryReaders.reportQuery_text hrust h]
    dsimp only
    rw [hverify]

theorem Reporter.reportRoute_unsigned {authorization : Option String} {query : List Char}
    (h : ¬r.Verifies hmac secret authorization) :
    r.reportRoute hmac secret readers rustReaders authorization query =
      .answer (r.refusal rustReaders query) := by
  cases r with
  | typescript => exact if_neg h
  | rust =>
    rw [reportRoute, Rust.reportRoute, refusal]
    cases hquery : rustReaders.reportQuery query with
    | none => rfl
    | some read =>
      cases hverify : Rust.verifyAuthorizationHeader hmac (authorization.bind Rust.toStr) []
          secret with
      | ok u => exact absurd hverify h
      | error e =>
        dsimp only
        rw [Rust.verify_error hverify]
        rfl

theorem ReportParams.Sendable.parses (h : p.Sendable) : r.Parses p.query := by
  have hlimit : 1 ≤ p.query.limit ∧ p.query.limit ≤ 500 := by
    change 1 ≤ p.limit.elim 100 Nat.cast ∧ p.limit.elim 100 Nat.cast ≤ (500 : Int)
    cases hp : p.limit with
    | none => decide
    | some n =>
      have := h.limit n hp
      dsimp only [Option.elim_some]
      omega
  have hoffset : 0 ≤ p.query.offset ∧ p.query.offset ≤ 2 ^ 53 := by
    change 0 ≤ p.offset.elim 0 Nat.cast ∧ p.offset.elim 0 Nat.cast ≤ (2 : Int) ^ 53
    cases hp : p.offset with
    | none => decide
    | some n =>
      have := h.offset n hp
      dsimp only [Option.elim_some]
      omega
  cases r with
  | typescript => exact ⟨h.currency, h.userId, hlimit.1, hlimit.2, hoffset.1⟩
  | rust =>
    rw [Reporter.Parses, IsBigint, IsBigint]
    omega

theorem toISOString_common {t : Int} (h : (DateTime.ofMillis t).IsCommon) :
    toISOString t = (DateTime.ofMillis t).text := by
  obtain ⟨hleast, hgreatest⟩ := h
  rw [toISOString, if_pos ⟨Int.le_trans Int.one_nonneg hleast, hgreatest⟩]

theorem runnerQuery_eq {startedAt endedAt : Int} {currency : String}
    (hfrom : (DateTime.ofMillis (startedAt - 60000)).IsCommon)
    (hto : (DateTime.ofMillis (endedAt + 60000)).IsCommon)
    (h : currency.toList.all Query.isUnreserved) :
    runnerQuery startedAt endedAt currency = ReportParams.text
      { from_ := .ofMillis (startedAt - 60000), to_ := .ofMillis (endedAt + 60000),
        currency := some currency } := by
  have hfromName : Query.encode "from".toList = "from".toList :=
    Query.encode_unreserved (by decide)
  have htoName : Query.encode "to".toList = "to".toList := Query.encode_unreserved (by decide)
  have hcurrencyName : Query.encode "currency".toList = "currency".toList :=
    Query.encode_unreserved (by decide)
  unfold runnerQuery
  generalize startedAt - 60000 = from_ at hfrom ⊢
  generalize endedAt + 60000 = to_ at hto ⊢
  rw [toISOString_common hfrom, toISOString_common hto, ReportParams.text, Query.encoded,
    Query.form]
  simp only [Query.present, ReportParams.fields, List.filterMap_cons, List.filterMap_nil,
    Option.map_some, Option.map_none, List.map_cons, List.map_nil, hfromName, htoName,
    hcurrencyName, Query.encode_unreserved h, List.intercalate_cons_cons,
    List.intercalate_singleton]
  simp

end

/-- Of what clients ask, signed, both services answer the report that they mean, also of what the
runner asks after its rounds; nobody gets a report without a signature. -/
theorem reports_asked (hmac : HmacSha256) (secret : String) {readers : QueryReaders}
    {rustReaders : Rust.QueryReaders} (hr : readers.Standard) (hrust : rustReaders.Standard)
    {Float8 : Type} (pg : Postgres Float8) (r : Reporter) (t : RtpTable) :
    (∀ p : ReportParams, p.Sendable → r.Parses p.query ∧
      r.getUsers hmac secret readers rustReaders pg t (some (signedHeader hmac secret []))
        p.text = (r.userReport pg t p.query).mapError (fun _ => 500) ∧
      r.getCasino hmac secret readers rustReaders pg t (some (signedHeader hmac secret []))
        p.text = (r.casinoReport pg t p.query).mapError fun _ => 500) ∧
    (∀ startedAt endedAt currency, (DateTime.ofMillis (startedAt - 60000)).IsCommon →
      (DateTime.ofMillis (endedAt + 60000)).IsCommon → currency ≠ "" →
      currency.toList.all Query.isUnreserved →
      r.getCasino hmac secret readers rustReaders pg t (some (signedHeader hmac secret []))
        (runnerQuery startedAt endedAt currency) =
          (r.casinoReport pg t ⟨1000 * (startedAt - 60000), 1000 * (endedAt + 60000),
            some currency, none, 100, 0⟩).mapError fun _ => 500) ∧
    ∀ authorization query, ¬r.Verifies hmac secret authorization →
      r.getUsers hmac secret readers rustReaders pg t authorization query =
        .error (r.refusal rustReaders query) ∧
      r.getCasino hmac secret readers rustReaders pg t authorization query =
        .error (r.refusal rustReaders query) := by
  have hroute : ∀ p : ReportParams, p.Sendable → r.reportRoute hmac secret readers rustReaders
      (some (signedHeader hmac secret [])) p.text = .run p.query :=
    fun p h => Reporter.reportRoute_text hr hrust h
  refine ⟨?_, ?_, ?_⟩
  · intro p h
    rw [Reporter.getUsers, Reporter.getCasino, hroute p h]
    exact ⟨h.parses, rfl, rfl⟩
  · intro startedAt endedAt currency hfrom hto hne h
    rw [runnerQuery_eq hfrom hto h, Reporter.getCasino, hroute]
    · rw [ReportHandling.serve, ReportParams.query, DateTime.millis_ofMillis,
        DateTime.millis_ofMillis]
      rfl
    · exact ⟨hfrom, hto, fun heq => hne (Option.some.inj heq), nofun, nofun, nofun⟩
  · intro authorization query h
    rw [Reporter.getUsers, Reporter.getCasino, Reporter.reportRoute_unsigned h]
    exact ⟨rfl, rfl⟩

def plainReaders : QueryReaders where
  querystring := Query.pairs
  isDatetime text := (DateTime.readText text).isSome
  number text := (DateTime.number text).map Nat.cast
  timestamptz := DateTime.readText

def Rust.plainReaders : QueryReaders where
  urlencoded := Query.pairs
  dateTime := DateTime.readText
  int64 text := (DateTime.number text).map Nat.cast

theorem plainReaders_standard : plainReaders.Standard where
  querystring := Query.pairs_isParser
  isDatetime d hd := congrArg Option.isSome (DateTime.readText_isReader d hd)
  number n _ := congrArg (Option.map Nat.cast) (DateTime.number_toDigits n)
  timestamptz := DateTime.readText_isReader

theorem Rust.plainReaders_standard : Rust.plainReaders.Standard where
  urlencoded := Query.pairs_isParser
  dateTime := DateTime.readText_isReader
  int64 n _ := congrArg (Option.map Nat.cast) (DateTime.number_toDigits n)

/-- The runner asks for its two rounds five seconds after it has begun; somebody else asks without
a signature. -/
theorem twoRounds_asked :
    let getCasino := fun r : Reporter => r.getCasino (fun _ _ => acceptanceDigest) "test"
      plainReaders Rust.plainReaders Postgres.plain twoRoundsTable
    getCasino .typescript (some (signedHeader (fun _ _ => acceptanceDigest) "test" []))
      (runnerQuery 0 5000 "USD") = .ok ⟨⟨"ALL", "USD"⟩, 2, 200, 475, 0, 0, 0, some (19 / 8)⟩ ∧
    getCasino .rust none "from=yesterday".toList = .error 400 := by
  have hasked := fun r => reports_asked (fun _ _ => acceptanceDigest) "test" plainReaders_standard
    Rust.plainReaders_standard Postgres.plain r twoRoundsTable
  constructor
  · refine ((hasked .typescript).2.1 0 5000 "USD" ?_ ?_ ?_ ?_).trans ?_
    · decide +kernel
    · decide +kernel
    · decide
    · decide
    · decide +kernel
  · refine ((hasked .rust).2.2 none _ ?_).2.trans ?_
    · intro h
      cases h
    · decide +kernel

end BetProcessor
