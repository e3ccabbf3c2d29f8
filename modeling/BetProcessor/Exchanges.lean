import BetProcessor.Batches
import BetProcessor.Messages
import BetProcessor.Routes
import BetProcessor.RtpReports

namespace BetProcessor
set_option autoImplicit true
open Codec

/-- The text of an action id, as the client has spelled it. -/
def actionIdText : Json → Option Text
  | .object members =>
    match Json.last? members "action_id" with
    | some (.string t) => some t
    | _ => none
  | _ => none

def actionIdTexts : Json → List Text
  | .object members =>
    match Json.last? members "actions" with
    | some (.array items) => items.filterMap actionIdText
    | _ => []
  | _ => []

def transactionFields (actionId : Text) (txId : Uuid) : List (String × Option Json) :=
  [("action_id", some (.string actionId)), ("tx_id", some (idDocument txId))]

def balanceDocument (balance : Int) : Json :=
  .object (Json.members [("balance", some (.int balance))])

def answerFields (gameId : Option String) (transactions : List Json) (balance : Int) :
    List (String × Option Json) :=
  [("game_id", gameId.map .str), ("transactions", some (.array transactions)),
    ("balance", some (.int balance))]

/-- The answer of the TypeScript service, which repeats the action ids as they were spelled. -/
def answerDocument (actionIds : List Text) : ProcessResponse → Json
  | .balance balance => balanceDocument balance
  | .actions gameId transactions balance => .object (Json.members (answerFields gameId
      ((actionIds.zip transactions).map fun (actionId, transaction) =>
        .object (Json.members (transactionFields actionId transaction.txId))) balance))

/-- The payload of an error. -/
def errorPayload (status : Nat) : Json :=
  if status = 422 then .object (Json.members [("code", some (.int 100)),
    ("message", some (.str "Player has not enough funds to process an action"))])
  else if status = 403 then .object (Json.members [("error", some (.str "Forbidden"))])
  else if status = 400 then .object (Json.members [("error", some (.str "Bad Request"))])
  else .object (Json.members [("error", some (.str "Internal Server Error"))])

namespace Rust

def answerFields (gameId : Option String) (transactions : List Json) (balance : Int) :
    List (String × Option Json) :=
  [("balance", some (.int balance)), ("game_id", gameId.map .str),
    ("transactions", some (.array transactions))]

/-- The answer of the Rust service: `serde_json::to_value` sorts the members by key. -/
def answerDocument : ProcessResponse → Json
  | .balance balance => balanceDocument balance
  | .actions gameId transactions balance => .object (Json.members (answerFields gameId
      (transactions.map fun transaction => .object (Json.members
        (transactionFields ⟨uuidText transaction.actionId, true⟩ transaction.txId))) balance))

end Rust

structure Reply where
  status : Nat
  body : List UInt8

/-- What a handling sends back, with the database after it. -/
def Handling.reply (svc : Service) (status : Err → Nat) (document : ProcessResponse → Json)
    (draws : Draws) (db : Db) : Handling → Reply × Db
  | .answer code => (⟨code, (errorPayload code).bytes⟩, db)
  | .run request =>
    match Call.serve ⟨svc, draws, request⟩ db with
    | (.ok response, db) => (⟨200, (document response).bytes⟩, db)
    | (.error e, db) => (⟨status e, (errorPayload (status e)).bytes⟩, db)

section
variable (limits : BodyLimits) (hmac : HmacSha256) (secret : String) (draws : Draws) (db : Db)
variable (authorization : Option String) (rawBody : List UInt8)

/-- A request to the TypeScript service. -/
def processReply : Reply × Db :=
  (processRoute limits hmac secret authorization rawBody).reply typescript errorHandler
    (answerDocument ((contentTypeParser rawBody).elim [] actionIdTexts)) draws db

/-- A request to the Rust service. -/
def Rust.procesReply (overflows : Number → Bool) : Reply × Db :=
  (proces limits hmac secret overflows authorization rawBody).reply rust
    (intoResponse ∘ appError) answerDocument draws db

end

/-- A safe integer of JavaScript. -/
def readInteger : Option Json → Option Int
  | some (.number n) =>
    if n.scale = none ∧ n.integer.natAbs ≤ 2 ^ 53 then some n.integer else none
  | _ => none

def readTransaction : Json → Option Transaction
  | .object members => do
    let actionId ← uuid (Json.last? members "action_id")
    let txId ← uuid (Json.last? members "tx_id")
    return ⟨actionId, txId⟩
  | _ => none

def readString : Option Json → Option (Option String)
  | none => some none
  | some (.string t) => if t.sound then some (some (String.ofList t.chars)) else none
  | _ => none

def readAnswer : Json → Option ProcessResponse
  | .object members => do
    let balance ← readInteger (Json.last? members "balance")
    match Json.last? members "transactions" with
    | none => return .balance balance
    | some json => do
      let transactions ← array readTransaction (some json)
      let gameId ← readString (Json.last? members "game_id")
      return .actions gameId transactions balance
  | _ => none

/-- What a client makes of a reply: `response.json()` if `response.ok`, else its status. -/
def Reply.read (reply : Reply) : Option (Except Nat ProcessResponse) :=
  if 200 ≤ reply.status ∧ reply.status < 300 then
    (parseJson reply.body >>= readAnswer).map .ok
  else some (.error reply.status)

/-- The ids of an answer have sixteen bytes, its balance is a safe integer of JavaScript. -/
structure ProcessResponse.Sendable (response : ProcessResponse) : Prop where
  ids : ∀ transaction ∈ response.transactions,
    Uuid.IsValid transaction.actionId ∧ Uuid.IsValid transaction.txId
  balance : |response.finalBalance| ≤ 2 ^ 53

section
variable {fields : List (String × Option Json)} {key : String} {value : Option Json}
variable {gameId : Option String} {transactions : List Transaction} {balance : Int}
variable {response : ProcessResponse} {request : ProcessRequest} {finished : Option Bool}

theorem sound_record {fields : List (String × Option Json)}
    (h : ∀ json, some json ∈ fields.map (·.2) → json.Sound) :
    (Json.object (Json.members fields)).Sound := by
  apply Json.sound_members
  intro field hfield json hjson
  exact h json (List.mem_map.2 ⟨field, hfield, hjson⟩)

theorem sound_transaction (actionId txId : Uuid) : (Json.object (Json.members
    (transactionFields ⟨uuidText actionId, true⟩ txId))).Sound := by
  apply sound_record
  intro json hjson
  simp [transactionFields, idDocument] at hjson
  rcases hjson with rfl | rfl <;> exact rfl

theorem readInteger_int (h : |balance| ≤ 2 ^ 53) : readInteger (some (.int balance)) =
    some balance := by
  have hsmall : balance.natAbs ≤ 2 ^ 53 := by
    rw [abs_le] at h
    omega
  rw [Json.int, readInteger, Json.int_integer]
  exact if_pos ⟨rfl, hsmall⟩

theorem readTransaction_document {transaction : Transaction}
    (h : Uuid.IsValid transaction.actionId ∧ Uuid.IsValid transaction.txId) :
    readTransaction (.object (Json.members (transactionFields
      ⟨uuidText transaction.actionId, true⟩ transaction.txId))) = some transaction := by
  have hnodup : ((transactionFields ⟨uuidText transaction.actionId, true⟩
      transaction.txId).map (·.1)).Nodup := by
    rw [transactionFields]
    simp
  have haction : ("action_id", some (idDocument transaction.actionId)) ∈ transactionFields
      ⟨uuidText transaction.actionId, true⟩ transaction.txId := List.mem_cons_self ..
  have htx : ("tx_id", some (idDocument transaction.txId)) ∈ transactionFields
      ⟨uuidText transaction.actionId, true⟩ transaction.txId :=
    List.mem_cons_of_mem _ (List.mem_singleton_self _)
  rw [readTransaction, Json.last?_members hnodup haction, Json.last?_members hnodup htx,
    uuid_idDocument h.1, uuid_idDocument h.2]
  rfl

theorem readString_map (gameId : Option String) : readString (gameId.map .str) = some gameId := by
  cases gameId with
  | none => rfl
  | some gameId =>
    rw [Option.map_some, Json.str, Text.ofString, readString, if_pos rfl, String.ofList_toList]

theorem read_balanceDocument (h : |balance| ≤ 2 ^ 53) : (balanceDocument balance).Sound ∧
    readAnswer (balanceDocument balance) = some (.balance balance) := by
  have hbalance : Json.last? (Json.members [("balance", some (.int balance))]) "balance" =
      some (.int balance) := Json.last?_members (by simp) (List.mem_singleton_self _)
  have hnone : Json.last? (Json.members [("balance", some (.int balance))]) "transactions" =
      none := Json.last?_members_nil (by simp)
  constructor
  · apply sound_record
    simp [Json.int, Json.Sound]
  · rw [balanceDocument, readAnswer, hbalance, hnone, readInteger_int h]
    rfl

/-- The documents of some transactions. -/
def transactionDocuments (transactions : List Transaction) : List Json :=
  transactions.map fun transaction => .object (Json.members
    (transactionFields ⟨uuidText transaction.actionId, true⟩ transaction.txId))

/-- An answer is read alike in whatever order its members are. -/
theorem read_actions (hfields : fields.Perm
      (answerFields gameId (transactionDocuments transactions) balance))
    (hids : ∀ transaction ∈ transactions,
      Uuid.IsValid transaction.actionId ∧ Uuid.IsValid transaction.txId)
    (h : |balance| ≤ 2 ^ 53) : (Json.object (Json.members fields)).Sound ∧
      readAnswer (.object (Json.members fields)) =
        some (.actions gameId transactions balance) := by
  have hmem : ∀ field, field ∈ answerFields gameId (transactionDocuments transactions) balance →
      field ∈ fields := fun field hfield => hfields.mem_iff.2 hfield
  have hnodup : (fields.map (·.1)).Nodup := by
    rw [(hfields.map _).nodup_iff]
    simp [answerFields]
  have hread : array readTransaction (some (.array (transactionDocuments transactions))) =
      some transactions := mapM_written fun x hx => readTransaction_document (hids x hx)
  constructor
  · apply sound_record
    intro json hjson
    rw [(hfields.map _).mem_iff] at hjson
    simp only [answerFields, List.map_cons, List.map_nil, List.mem_cons, List.not_mem_nil,
      or_false, Option.some.injEq] at hjson
    rcases hjson with hgame | rfl | rfl
    · obtain ⟨gameId, _, rfl⟩ := Option.map_eq_some_iff.1 hgame.symm
      rfl
    · refine Json.soundItems_iff.2 ?_
      intro json hjson
      obtain ⟨transaction, _, rfl⟩ := List.mem_map.1 hjson
      exact sound_transaction ..
    · trivial
  · rw [readAnswer, Json.last?_members hnodup (hmem ("balance", some (.int balance)) ?_),
      Json.last?_members hnodup (hmem ("transactions", some (.array _)) ?_),
      Json.last?_members hnodup (hmem ("game_id", gameId.map .str) ?_), readInteger_int h,
      readString_map]
    · simp only [Option.bind_eq_bind, Option.bind_some]
      rw [hread]
      rfl
    all_goals simp [answerFields]

theorem read_answerDocument (h : response.Sendable) {actionIds : List Text}
    (hids : actionIds = response.transactions.map fun transaction =>
      ⟨uuidText transaction.actionId, true⟩) : (answerDocument actionIds response).Sound ∧
    readAnswer (answerDocument actionIds response) = some response := by
  cases response with
  | balance balance => exact read_balanceDocument h.balance
  | actions gameId transactions balance =>
    have hzip : actionIds.zip transactions = transactions.map fun transaction =>
        (⟨uuidText transaction.actionId, true⟩, transaction) := by
      rw [hids, ← List.zip_map', List.map_id']
      rfl
    rw [answerDocument, hzip, List.map_map]
    exact read_actions (.refl _) h.ids h.balance

theorem Rust.read_answerDocument (h : response.Sendable) : (answerDocument response).Sound ∧
    readAnswer (answerDocument response) = some response := by
  cases response with
  | balance balance => exact read_balanceDocument h.balance
  | actions gameId transactions balance =>
    have hperm : (answerFields gameId (transactionDocuments transactions) balance).Perm
        (BetProcessor.answerFields gameId (transactionDocuments transactions) balance) :=
      (List.perm_append_comm : ([_] ++ [_, _]).Perm ([_, _] ++ [_]))
    exact read_actions hperm h.ids h.balance

theorem actionIdText_document (action : ProcessAction) :
    actionIdText action.document = some ⟨uuidText action.actionId, true⟩ := by
  cases action with
  | bet id amount =>
    rw [ProcessAction.document, actionIdText,
      Json.last?_members playFields_nodup (mem_playFields).2.1]
    rfl
  | win id amount =>
    rw [ProcessAction.document, actionIdText,
      Json.last?_members playFields_nodup (mem_playFields).2.1]
    rfl
  | rollback id original =>
    rw [ProcessAction.document, actionIdText,
      Json.last?_members rollbackFields_nodup (mem_rollbackFields).2.1]
    rfl

theorem actionIdTexts_document : actionIdTexts (request.document finished) =
    (request.actions.getD []).map fun action => ⟨uuidText action.actionId, true⟩ := by
  have hactions := (@mem_requestDocumentFields request finished).2.2.2.2.2
  rw [ProcessRequest.document, actionIdTexts, last?_document hactions]
  cases request.actions with
  | none => rfl
  | some actions =>
    change (actions.map (·.document)).filterMap actionIdText = actions.map _
    rw [List.filterMap_map, ← List.filterMap_eq_map]
    apply List.filterMap_congr
    intro action _
    exact actionIdText_document action

theorem sound_action (action : ProcessAction) : action.document.Sound := by
  have hplay : ∀ tag id amount, (Json.object (Json.members (playFields tag id amount))).Sound := by
    intro tag id amount
    apply sound_record
    intro json hjson
    simp only [playFields, List.map_cons, List.map_nil, List.mem_cons, List.not_mem_nil, or_false,
      Option.some.injEq] at hjson
    rcases hjson with rfl | rfl | rfl <;> trivial
  cases action with
  | bet => exact hplay ..
  | win => exact hplay ..
  | rollback id original =>
    apply sound_record
    intro json hjson
    simp only [rollbackFields, List.map_cons, List.map_nil, List.mem_cons, List.not_mem_nil,
      or_false, Option.some.injEq] at hjson
    rcases hjson with rfl | rfl | rfl <;> trivial

theorem sound_document : (request.document finished).Sound := by
  apply sound_record
  intro json hjson
  simp only [requestDocumentFields, List.map_cons, List.map_nil, List.mem_cons, List.not_mem_nil,
    or_false, Option.some.injEq] at hjson
  rcases hjson with rfl | rfl | rfl | hgame | hfinished | hactions
  · trivial
  · trivial
  · trivial
  · obtain ⟨gameId, _, rfl⟩ := Option.map_eq_some_iff.1 hgame.symm
    rfl
  · obtain ⟨flag, _, rfl⟩ := Option.map_eq_some_iff.1 hfinished.symm
    trivial
  · obtain ⟨actions, _, rfl⟩ := Option.map_eq_some_iff.1 hactions.symm
    refine Json.soundItems_iff.2 ?_
    intro json hjson
    obtain ⟨action, _, rfl⟩ := List.mem_map.1 hjson
    exact sound_action action

end

section
variable {limits : BodyLimits} {hmac : HmacSha256} {secret : String} {request : ProcessRequest}
  {finished : Option Bool} {overflows : Number → Bool} {draws : Draws} {db : Db} {c : Call}

theorem processRoute_document (h : request.Sendable)
    (hlimit : (request.document finished).bytes.length ≤ limits.fastify) :
    contentTypeParser (request.document finished).bytes = some (request.document finished) ∧
      processRoute limits hmac secret
        (some (signedHeader hmac secret (request.document finished).bytes))
        (request.document finished).bytes = .run request := by
  have hparse := Json.parseJson_bytes (@sound_document request finished)
  have hne : (request.document finished).bytes.length ≠ 0 := by
    intro hnil
    rw [List.length_eq_zero_iff.1 hnil] at hparse
    cases hparse
  have hparser : contentTypeParser (request.document finished).bytes =
      some (request.document finished) := by
    rw [contentTypeParser, if_neg hne, hparse]
  have hverify : verifyAuthorizationHeader hmac
      (some (signedHeader hmac secret (request.document finished).bytes))
      (request.document finished).bytes secret = true :=
    (verify_iff visible_signBody).2 ⟨"HMAC-SHA256", by decide, carries_signBody⟩
  refine ⟨hparser, ?_⟩
  rw [processRoute, if_neg (not_lt.2 hlimit), hparser]
  dsimp only
  rw [if_pos hverify, processRequestSchema_document h]
  rfl

theorem Rust.toStr_signedHeader (rawBody : List UInt8) :
    toStr (signedHeader hmac secret rawBody) = some (signedHeader hmac secret rawBody) := by
  apply if_pos
  refine List.all_eq_true.2 ?_
  intro ch hch
  rw [List.all_eq_true.1 visible_signBody.1 ch hch]
  rfl

theorem Rust.proces_document (h : request.Sendable)
    (hlimit : (request.document finished).bytes.length ≤ limits.axum) :
    proces limits hmac secret overflows
      (some (signedHeader hmac secret (request.document finished).bytes))
      (request.document finished).bytes = .run request := by
  have hverify : Rust.verifyAuthorizationHeader hmac
      (some (signedHeader hmac secret (request.document finished).bytes))
      (request.document finished).bytes secret = .ok () :=
    rust_verify_iff.2 carries_signBody
  rw [proces, if_neg (not_lt.2 hlimit), Option.bind_some, toStr_signedHeader, hverify, fromSlice,
    Json.parseJson_bytes sound_document, Option.bind_eq_bind, Option.bind_some,
    fromValue_document h]
  rfl

section
variable {db' : Db} {status : Err → Nat} {document : ProcessResponse → Json}

theorem Handling.reply_ok {response : ProcessResponse} (h : c.serve db = (.ok response, db')) :
    (run c.request).reply c.svc status document c.draws db =
      (⟨200, (document response).bytes⟩, db') := by
  have hserve : Call.serve ⟨c.svc, c.draws, c.request⟩ db = (.ok response, db') := h
  rw [reply, hserve]

theorem Handling.reply_error {e : Err} (h : c.serve db = (.error e, db')) :
    (run c.request).reply c.svc status document c.draws db =
      (⟨status e, (errorPayload (status e)).bytes⟩, db') := by
  have hserve : Call.serve ⟨c.svc, c.draws, c.request⟩ db = (.error e, db') := h
  rw [reply, hserve]

/-- A client reads from the reply what the transaction has returned. -/
theorem Handling.read_reply (hstatus : ∀ e, 300 ≤ status e)
    (hdocument : ∀ response, (c.serve db).1 = .ok response → (document response).Sound ∧
      readAnswer (document response) = some response) :
    ((run c.request).reply c.svc status document c.draws db).1.read =
        some ((c.serve db).1.mapError status) ∧
      ((run c.request).reply c.svc status document c.draws db).2 = (c.serve db).2 := by
  cases hserve : c.serve db with
  | mk result db' =>
    cases result with
    | ok response =>
      obtain ⟨hsound, hread⟩ := hdocument response (by rw [hserve])
      rw [reply_ok hserve]
      refine ⟨?_, rfl⟩
      change (parseJson (document response).bytes >>= readAnswer).map Except.ok = _
      rw [Json.parseJson_bytes hsound, Option.bind_eq_bind, Option.bind_some, hread]
      rfl
    | error e =>
      rw [reply_error hserve]
      refine ⟨?_, rfl⟩
      rw [Reply.read, if_neg fun hok => absurd hok.2 (not_lt.2 (hstatus e))]
      rfl

end

theorem ProcessAction.actionId_mem (action : ProcessAction) : action.actionId ∈ action.ids := by
  cases action <;> exact List.mem_cons_self ..

theorem Call.serve_sendable (hV : db.Consistent)
    (hdb : ∀ g ∈ db.actionRegistry, Uuid.IsValid g.txId)
    (hdraws : ∀ x, Uuid.IsValid (c.draws.txId x)) (h : c.request.Sendable)
    {response : ProcessResponse} (hserve : (c.serve db).1 = .ok response)
    (hbalance : |response.finalBalance| ≤ 2 ^ 53) : response.Sendable ∧
      response.transactions.map (·.actionId) = c.actions.map ProcessAction.actionId := by
  obtain ⟨ws, _, hcommitted⟩ := Call.serve_ok hserve
  have htransactions := hcommitted.transactions
  refine ⟨⟨?_, hbalance⟩, htransactions⟩
  intro transaction htransaction
  constructor
  · have hmem : transaction.actionId ∈ c.actions.map ProcessAction.actionId :=
      htransactions ▸ List.mem_map_of_mem htransaction
    obtain ⟨action, haction, heq⟩ := List.mem_map.1 hmem
    have hsendable : action.Sendable := by
      cases hactions : c.request.actions with
      | none =>
        rw [Call.actions, hactions] at haction
        cases haction
      | some actions =>
        rw [Call.actions, hactions] at haction
        exact h.actions actions hactions action haction
    exact heq ▸ hsendable.ids _ action.actionId_mem
  · obtain ⟨g, hg, _, htx⟩ := hcommitted.registered (stable_now db) transaction htransaction
    rw [← htx]
    rcases (hcommitted.adds hV).1 g hg with hold | hnew
    · exact hdb g hold
    · rw [hnew]
      exact hdraws _

theorem Call.serve_txIds (hV : db.Consistent) (hdb : ∀ g ∈ db.actionRegistry, Uuid.IsValid g.txId)
    (hdraws : ∀ x, Uuid.IsValid (c.draws.txId x)) :
    ∀ g ∈ (c.serve db).2.actionRegistry, Uuid.IsValid g.txId := by
  rcases c.serve_cases db with ⟨e, he⟩ | ⟨response, ws, hs, hcommitted⟩
  · rw [he]
    exact hdb
  · rw [hs]
    intro g hg
    rcases (hcommitted.adds hV).1 g hg with hold | hnew
    · exact hdb g hold
    · rw [hnew]
      exact hdraws _

end

/-- A request that a client writes and signs, the service it posts it to and what the outside world
gives to that service. -/
structure Posting where
  reporter : Reporter
  draws : Draws
  request : ProcessRequest
  finished : Option Bool := some true

namespace Posting
variable (limits : BodyLimits) (hmac : HmacSha256) (secret : String) (overflows : Number → Bool)

def call (p : Posting) : Call := ⟨p.reporter.svc, p.draws, p.request⟩

def rawBody (p : Posting) : List UInt8 := (p.request.document p.finished).bytes

def authorization (p : Posting) : String := signedHeader hmac secret p.rawBody

/-- The reply of the service, with the database after it. -/
def reply (p : Posting) (db : Db) : Reply × Db :=
  match p.reporter with
  | .typescript =>
    processReply limits hmac secret p.draws db (some (p.authorization hmac secret)) p.rawBody
  | .rust => Rust.procesReply limits hmac secret p.draws db
      (some (p.authorization hmac secret)) p.rawBody overflows

/-- The status of an error of the service. -/
def status (p : Posting) : Err → Nat :=
  match p.reporter with
  | .typescript => errorHandler
  | .rust => Rust.intoResponse ∘ Rust.appError

/-- What the clients can send and the frameworks read. -/
structure Sendable (p : Posting) : Prop where
  request : p.request.Sendable
  txIds : ∀ x, Uuid.IsValid (p.draws.txId x)
  fastify : p.rawBody.length ≤ limits.fastify
  axum : p.rawBody.length ≤ limits.axum

/-- The postings one after the other. -/
def postAll (db : Db) (ps : List Posting) : Db :=
  ps.foldl (fun db p => (p.reply limits hmac secret overflows db).2) db

theorem postAll_append (db : Db) (ps : List Posting) (p : Posting) :
    postAll limits hmac secret overflows db (ps ++ [p]) =
      (p.reply limits hmac secret overflows (postAll limits hmac secret overflows db ps)).2 := by
  rw [postAll, List.foldl_append]
  rfl

variable {limits hmac secret overflows} {p : Posting} {db : Db}

theorem reply_read (hV : db.Consistent) (hdb : ∀ g ∈ db.actionRegistry, Uuid.IsValid g.txId)
    (hp : p.Sendable limits) (hbalance : ∀ response, (p.call.serve db).1 = .ok response →
      |response.finalBalance| ≤ 2 ^ 53) :
    (p.reply limits hmac secret overflows db).1.read =
        some ((p.call.serve db).1.mapError p.status) ∧
      (p.reply limits hmac secret overflows db).2 = (p.call.serve db).2 := by
  obtain ⟨reporter, draws, request, finished⟩ := p
  have hsendable : ∀ response, (Call.serve ⟨reporter.svc, draws, request⟩ db).1 = .ok response →
      response.Sendable ∧ response.transactions.map (·.actionId) =
        (request.actions.getD []).map ProcessAction.actionId := fun response hserve =>
    Call.serve_sendable hV hdb hp.txIds hp.request hserve (hbalance response hserve)
  cases reporter with
  | typescript =>
    obtain ⟨hparser, hroute⟩ :=
      @processRoute_document limits hmac secret request finished hp.request hp.fastify
    have hreply : Posting.reply limits hmac secret overflows
        ⟨.typescript, draws, request, finished⟩ db = (Handling.run request).reply typescript
          errorHandler (answerDocument (actionIdTexts (request.document finished))) draws db := by
      change processReply limits hmac secret draws db
        (some (signedHeader hmac secret (request.document finished).bytes))
        (request.document finished).bytes = _
      rw [processReply, hroute, hparser]
      rfl
    rw [hreply]
    apply @Handling.read_reply db ⟨typescript, draws, request⟩
    · intro e
      cases e <;> decide
    · intro response hserve
      obtain ⟨hresponse, hids⟩ := hsendable response hserve
      apply read_answerDocument hresponse
      have hmap := congrArg (List.map fun x => (⟨uuidText x, true⟩ : Text)) hids
      rw [List.map_map, List.map_map] at hmap
      rw [actionIdTexts_document]
      exact hmap.symm
  | rust =>
    have hreply : Posting.reply limits hmac secret overflows
        ⟨.rust, draws, request, finished⟩ db = (Handling.run request).reply rust
          (Rust.intoResponse ∘ Rust.appError) Rust.answerDocument draws db := by
      change Rust.procesReply limits hmac secret draws db
        (some (signedHeader hmac secret (request.document finished).bytes))
        (request.document finished).bytes overflows = _
      rw [Rust.procesReply, Rust.proces_document hp.request hp.axum]
    rw [hreply]
    apply @Handling.read_reply db ⟨rust, draws, request⟩
    · intro e
      cases e <;> decide
    · intro response hserve
      exact Rust.read_answerDocument (hsendable response hserve).1

theorem postAll_after {db₀ : Db} (hV : db₀.Consistent)
    (hdb : ∀ g ∈ db₀.actionRegistry, Uuid.IsValid g.txId) {ps : List Posting}
    (hps : ∀ p ∈ ps, p.Sendable limits)
    (hbalance : ∀ pre p post, ps = pre ++ p :: post → ∀ response,
      (p.call.serve (db₀.after (pre.map call))).1 = .ok response →
        |response.finalBalance| ≤ 2 ^ 53) :
    postAll limits hmac secret overflows db₀ ps = db₀.after (ps.map call) ∧
      ∀ g ∈ (db₀.after (ps.map call)).actionRegistry, Uuid.IsValid g.txId := by
  induction ps using List.reverseRecOn with
  | nil => exact ⟨rfl, hdb⟩
  | append_singleton ps p ih =>
    obtain ⟨hall, htxIds⟩ := ih (fun p' hp' => hps p' (List.mem_append_left _ hp'))
      fun pre p' post heq => hbalance pre p' (post ++ [p]) (by rw [heq]; simp)
    have hp := hps p (List.mem_append_right _ (List.mem_singleton_self p))
    have hconsistent := hV.after (ps.map call)
    obtain ⟨_, hafter⟩ := @reply_read limits hmac secret overflows p _ hconsistent htxIds hp
      (hbalance ps p [] rfl)
    rw [List.map_append, List.map_singleton, Db.after_append, Db.after_cons, Db.after_nil]
    constructor
    · rw [postAll_append, hall]
      exact hafter
    · exact Call.serve_txIds hconsistent htxIds hp.txIds

end Posting

/-- The layers around the processor are transparent: whatever clients write, sign and post one after
the other to either service, the database moves as the handlers' transactions move it, and from each
reply the client reads what the transaction has returned. -/
theorem replies_read_back (limits : BodyLimits) (hmac : HmacSha256) (secret : String)
    (overflows : Number → Bool) {db₀ : Db} (h₀ : db₀.Initial) {ps : List Posting}
    (hps : ∀ p ∈ ps, p.Sendable limits)
    (hbalance : ∀ pre p post, ps = pre ++ p :: post → ∀ response,
      (p.call.serve (db₀.after (pre.map Posting.call))).1 = .ok response →
        |response.finalBalance| ≤ 2 ^ 53) :
    Posting.postAll limits hmac secret overflows db₀ ps = db₀.after (ps.map Posting.call) ∧
      ∀ pre p post, ps = pre ++ p :: post →
        (p.reply limits hmac secret overflows
          (Posting.postAll limits hmac secret overflows db₀ pre)).1.read =
            some ((p.call.serve (db₀.after (pre.map Posting.call))).1.mapError p.status) := by
  have hdb : ∀ g ∈ db₀.actionRegistry, Uuid.IsValid g.txId := by
    rw [h₀.actionRegistry]
    intro g hg
    cases hg
  refine ⟨(Posting.postAll_after h₀.consistent hdb hps hbalance).1, ?_⟩
  rintro pre p post rfl
  obtain ⟨hall, htxIds⟩ := @Posting.postAll_after limits hmac secret overflows _ h₀.consistent hdb
    pre (fun p' hp' => hps p' (List.mem_append_left _ hp'))
    fun pre' p' post' heq => hbalance pre' p' (post' ++ p :: post) (by rw [heq]; simp)
  rw [hall]
  exact (Posting.reply_read (h₀.consistent.after _) htxIds
    (hps p (List.mem_append_right _ (List.mem_cons_self ..))) (hbalance pre p post rfl)).1

def lookDraws : Draws := { plainDraws with txId := fun x => (x + 1) % 2 ^ 128 }

def betPosting : Posting :=
  ⟨.rust, lookDraws, ⟨"a", "USD", "game", some "round", some [.bet 1 60]⟩, some true⟩

def lookPosting : Posting := ⟨.typescript, lookDraws, ⟨"a", "USD", "game", none, none⟩, none⟩

theorem betPosting_sendable : betPosting.Sendable defaultLimits where
  request := by
    refine ⟨⟨by decide, by decide, by decide, ?_, ?_⟩, ?_⟩
    · rintro _ ⟨⟩
      decide
    · rintro _ ⟨⟩ action haction
      obtain rfl := List.mem_singleton.1 haction
      exact (by decide : (0 : Int) < 60)
    · rintro _ ⟨⟩ action haction
      obtain rfl := List.mem_singleton.1 haction
      constructor
      · intro x hx
        obtain rfl := List.mem_singleton.1 hx
        exact (by decide : (1 : Nat) < 2 ^ 128)
      · rintro _ _ _ ⟨⟩
        decide
  txIds x := Nat.mod_lt _ (Nat.two_pow_pos _)
  fastify := by decide +kernel
  axum := by decide +kernel

theorem lookPosting_sendable : lookPosting.Sendable defaultLimits where
  request := ⟨⟨by decide, by decide, by decide, nofun, nofun⟩, nofun⟩
  txIds x := Nat.mod_lt _ (Nat.two_pow_pos _)
  fastify := by decide +kernel
  axum := by decide +kernel

/-- A player bets through the Rust service and then looks at the balance in the TypeScript one. -/
theorem betThenLook_read :
    let reply := fun (p : Posting) => p.reply defaultLimits (fun _ _ => acceptanceDigest) "test"
      fun _ => true
    (reply betPosting twoUsers).1.read = some (.ok (.actions (some "round") [⟨1, 2⟩] 40)) ∧
      (reply lookPosting (reply betPosting twoUsers).2).1.read = some (.ok (.balance 40)) := by
  have hbet : (betPosting.call.serve twoUsers).1 =
      .ok (.actions (some "round") [⟨1, 2⟩] 40) := by decide +kernel
  have hlook : (lookPosting.call.serve (twoUsers.after [betPosting.call])).1 =
      .ok (.balance 40) := by decide +kernel
  have hps : ∀ p ∈ [betPosting, lookPosting], p.Sendable defaultLimits := by
    intro p hp
    rcases List.mem_cons.1 hp with rfl | hp
    · exact betPosting_sendable
    · rw [List.mem_singleton.1 hp]
      exact lookPosting_sendable
  have hbalance : ∀ pre p post, [betPosting, lookPosting] = pre ++ p :: post → ∀ response,
      (p.call.serve (twoUsers.after (pre.map Posting.call))).1 = .ok response →
        |response.finalBalance| ≤ 2 ^ 53 := by
    intro pre p post heq response hserve
    match pre with
    | [] =>
      cases heq
      cases hbet.symm.trans hserve
      decide
    | [_] =>
      cases heq
      cases hlook.symm.trans hserve
      decide
    | _ :: _ :: pre =>
      cases pre <;> cases heq
  obtain ⟨_, hread⟩ := replies_read_back defaultLimits (fun _ _ => acceptanceDigest) "test"
    (fun _ => true) twoUsers_initial hps hbalance
  have hfirst := hread [] betPosting [lookPosting] rfl
  have hsecond := hread [betPosting] lookPosting [] rfl
  rw [List.map_nil, Db.after_nil, hbet] at hfirst
  rw [List.map_singleton, hlook] at hsecond
  exact ⟨hfirst, hsecond⟩

end BetProcessor
