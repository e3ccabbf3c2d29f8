import BetProcessor.Auth
import BetProcessor.Requests

namespace BetProcessor
set_option autoImplicit true
open Codec

/-- How a handler ends: with a status before it has sent a statement to the database, or with the
transaction of a request. -/
inductive Handling where
  | answer (status : Nat)
  | run (request : ProcessRequest)
  deriving DecidableEq, Repr

/-- The bytes that Fastify and axum read of a body; a longer one does not reach the handlers. -/
structure BodyLimits where
  fastify : Nat
  axum : Nat

/-- `app.setErrorHandler`, for what a transaction throws. -/
def errorHandler : Err → Nat
  | .insufficientFunds => 422
  | _ => 500

/-- The answer of a handler to a request, with the database after it. -/
def Handling.serve (svc : Service) (status : Err → Nat) (draws : Draws) (db : Db) :
    Handling → Nat × Db
  | .answer code => (code, db)
  | .run request =>
    match Call.serve ⟨svc, draws, request⟩ db with
    | (.ok _, db) => (200, db)
    | (.error e, db) => (status e, db)

/-- What the routes do with a signed body: a `ZodError` or `AppError::BadRequest` is answered with
400. -/
def handle (decoded : Option ProcessRequest) : Handling :=
  match decoded with
  | none => .answer 400
  | some request => .run request

section
variable (limits : BodyLimits) (hmac : HmacSha256) (secret : String)

/-- The content type parser for `application/json`. -/
def contentTypeParser (rawBody : List UInt8) : Option Json :=
  if rawBody.length = 0 then some (.object []) else parseJson rawBody

/-- `POST /aggregator/takehome/process` of the TypeScript service: Fastify reads and parses the body
before the `preValidation` hook runs, and the error handler has its errors. -/
def processRoute (authorization : Option String) (rawBody : List UInt8) : Handling :=
  if limits.fastify < rawBody.length then .answer 500
  else
    match contentTypeParser rawBody with
    | none => .answer 500
    | some body =>
      if verifyAuthorizationHeader hmac authorization rawBody secret then
        handle (processRequestSchema body)
      else .answer 403

namespace Rust
variable (overflows : Number → Bool)

def intoResponse : AppError → Nat
  | .forbidden => 403
  | .badRequest => 400
  | .insufficientFunds => 422
  | .sqlx | .anyhow => 500

def appError : Err → AppError
  | .insufficientFunds => .insufficientFunds
  | .badRequest => .badRequest
  | _ => .sqlx

/-- `HeaderValue::to_str` -/
def toStr (header : String) : Option String :=
  if header.toList.all fun c => isVisible c || c = '\t' then some header else none

/-- `serde_json::from_slice` -/
def fromSlice (rawBody : List UInt8) : Option ProcessRequest :=
  parseJson rawBody >>= fromValue overflows

/-- The same route of the Rust service. -/
def proces (authorization : Option String) (rawBody : List UInt8) : Handling :=
  if limits.axum < rawBody.length then .answer 413
  else
    match verifyAuthorizationHeader hmac (authorization.bind toStr) rawBody secret with
    | .error e => .answer (intoResponse e)
    | .ok () => handle (fromSlice overflows rawBody)

end Rust
end

/-- A handling of some bytes lets nothing but a verified request through. -/
structure Authenticates (svc : Service) (status : Err → Nat) (handling : Handling)
    (verified : Prop) (decoded : Option ProcessRequest) : Prop where
  refused : ¬verified → handling = .answer 403
  silent : ¬verified → ∃ code, handling = .answer code
  effect : ∀ draws db, (handling.serve svc status draws db).2 ≠ db →
    verified ∧ ∃ request, decoded = some request ∧
      (handling.serve svc status draws db).2 = (Call.serve ⟨svc, draws, request⟩ db).2

section
variable {svc : Service} {status : Err → Nat} {limits : BodyLimits} {hmac : HmacSha256}
  {secret : String} {overflows : Number → Bool} {authorization : Option String}
  {rawBody : List UInt8}

theorem Handling.serve_run (draws : Draws) (db : Db) (request : ProcessRequest) :
    ((Handling.run request).serve svc status draws db).2 =
      (Call.serve ⟨svc, draws, request⟩ db).2 := by
  rw [serve]
  split
  · next h => rw [h]
  · next h => rw [h]

theorem Authenticates.answer {verified : Prop} {decoded : Option ProcessRequest} {code : Nat}
    (h : ¬verified → code = 403) :
    Authenticates svc status (.answer code) verified decoded where
  refused hverified := congrArg Handling.answer (h hverified)
  silent _ := ⟨code, rfl⟩
  effect _ _ hne := absurd rfl hne

theorem Authenticates.handle {verified : Prop} (decoded : Option ProcessRequest) (h : verified) :
    Authenticates svc status (handle decoded) verified decoded := by
  cases decoded with
  | none => exact .answer (absurd h)
  | some request =>
    constructor
    · exact absurd h
    · exact absurd h
    · intro draws db _
      exact ⟨h, request, rfl, Handling.serve_run draws db request⟩

theorem contentTypeParser_isSome :
    (contentTypeParser rawBody).isSome ↔ rawBody = [] ∨ (parseJson rawBody).isSome := by
  rw [contentTypeParser]
  split
  · next h => simp [List.length_eq_zero_iff.1 h]
  · next h =>
    have hne : rawBody ≠ [] := fun hnil => h (congrArg List.length hnil)
    simp [hne]

/-- The TypeScript route authenticates what is signed, and what Fastify could read and parse. -/
theorem processRoute_authenticates :
    Authenticates typescript errorHandler (processRoute limits hmac secret authorization rawBody)
        (verifyAuthorizationHeader hmac authorization rawBody secret = true)
        (contentTypeParser rawBody >>= processRequestSchema) ↔
      verifyAuthorizationHeader hmac authorization rawBody secret = true ∨
        rawBody.length ≤ limits.fastify ∧ (rawBody = [] ∨ (parseJson rawBody).isSome) := by
  rw [← contentTypeParser_isSome]
  constructor
  · intro h
    by_cases hverified : verifyAuthorizationHeader hmac authorization rawBody secret = true
    · exact Or.inl hverified
    · right
      have hrefused := h.refused hverified
      rw [processRoute] at hrefused
      split at hrefused
      · cases hrefused
      · next hlimit =>
        constructor
        · exact not_lt.1 hlimit
        · cases hparsed : contentTypeParser rawBody with
          | none =>
            rw [hparsed] at hrefused
            cases hrefused
          | some body => rfl
  · intro h
    by_cases hverified : verifyAuthorizationHeader hmac authorization rawBody secret = true
    · by_cases hlimit : limits.fastify < rawBody.length
      · rw [processRoute, if_pos hlimit]
        exact .answer (absurd hverified)
      · rw [processRoute, if_neg hlimit]
        cases hbody : contentTypeParser rawBody with
        | none => exact .answer (absurd hverified)
        | some body =>
          simp only [if_pos hverified]
          exact .handle _ hverified
    · obtain ⟨hlimit, hparsed⟩ := h.resolve_left hverified
      obtain ⟨body, hbody⟩ := Option.isSome_iff_exists.1 hparsed
      rw [processRoute, if_neg (not_lt.2 hlimit), hbody]
      dsimp only
      rw [if_neg hverified]
      exact .answer fun _ => rfl

theorem Rust.verify_error {e : AppError}
    (h : Rust.verifyAuthorizationHeader hmac authorization rawBody secret = .error e) :
    e = .forbidden := by
  have hcases : ∀ x : Except AppError Unit, x = .ok () ∨ x = .error .forbidden →
      x = .error e → e = .forbidden := by
    rintro x (rfl | rfl) hx
    · cases hx
    · cases hx
      rfl
  apply hcases _ _ h
  unfold Rust.verifyAuthorizationHeader
  split
  · exact Or.inr rfl
  · split
    · exact Or.inr rfl
    · split
      · exact Or.inr rfl
      · split
        · exact Or.inr rfl
        · dsimp only
          split
          · exact Or.inl rfl
          · exact Or.inr rfl

/-- The Rust route authenticates what is signed, and what axum could read. -/
theorem proces_authenticates :
    Authenticates rust (Rust.intoResponse ∘ Rust.appError)
        (Rust.proces limits hmac secret overflows authorization rawBody)
        (Rust.verifyAuthorizationHeader hmac (authorization.bind Rust.toStr) rawBody secret =
          .ok ())
        (Rust.fromSlice overflows rawBody) ↔
      Rust.verifyAuthorizationHeader hmac (authorization.bind Rust.toStr) rawBody secret = .ok () ∨
        rawBody.length ≤ limits.axum := by
  rw [Rust.proces]
  cases hverify : Rust.verifyAuthorizationHeader hmac (authorization.bind Rust.toStr) rawBody
      secret with
  | ok u =>
    have hverified : (Except.ok u : Except AppError Unit) = .ok () := rfl
    constructor
    · intro _
      exact Or.inl hverified
    · intro _
      split
      · exact .answer (absurd hverified)
      · exact .handle _ hverified
  | error e =>
    have hforbidden : ¬(Except.error AppError.forbidden : Except AppError Unit) = .ok () := by
      intro h
      cases h
    rw [Rust.verify_error hverify]
    constructor
    · intro h
      have hrefused := h.refused hforbidden
      split at hrefused
      · cases hrefused
      · next hlimit => exact Or.inr (not_lt.1 hlimit)
    · intro h
      rw [if_neg (not_lt.2 (h.resolve_left hforbidden))]
      exact .answer fun _ => rfl

end

/-- Both routes answer 403 to everything that is not signed, and send nothing but signed requests to
the database, exactly when an unsigned body is one that the frameworks read and, in the TypeScript
service, parse. -/
theorem authentication_first (limits : BodyLimits) (hmac : HmacSha256) (secret : String)
    (overflows : Number → Bool) (authorization : Option String) (rawBody : List UInt8) :
    (Authenticates typescript errorHandler (processRoute limits hmac secret authorization rawBody)
        (verifyAuthorizationHeader hmac authorization rawBody secret = true)
        (contentTypeParser rawBody >>= processRequestSchema) ∧
      Authenticates rust (Rust.intoResponse ∘ Rust.appError)
        (Rust.proces limits hmac secret overflows authorization rawBody)
        (Rust.verifyAuthorizationHeader hmac (authorization.bind Rust.toStr) rawBody secret =
          .ok ())
        (Rust.fromSlice overflows rawBody)) ↔
      (verifyAuthorizationHeader hmac authorization rawBody secret = true ∨
        rawBody.length ≤ limits.fastify ∧ (rawBody = [] ∨ (parseJson rawBody).isSome)) ∧
      (Rust.verifyAuthorizationHeader hmac (authorization.bind Rust.toStr) rawBody secret = .ok () ∨
        rawBody.length ≤ limits.axum) := by
  rw [processRoute_authenticates, proces_authenticates]

def defaultLimits : BodyLimits := ⟨1048576, 2097152⟩

/-- An unsigned body that is no JSON: `{`. -/
theorem unsigned_brace :
    verifyAuthorizationHeader (fun _ _ => acceptanceDigest) none [0x7b] "test" = false ∧
    processRoute defaultLimits (fun _ _ => acceptanceDigest) "test" none [0x7b] = .answer 500 ∧
    Rust.proces defaultLimits (fun _ _ => acceptanceDigest) "test" (fun _ => true) none [0x7b] =
      .answer 403 := by
  decide +kernel

end BetProcessor
