import BetProcessor.ActionForms
import BetProcessor.CleanRequests
import BetProcessor.Codec.Writer
import BetProcessor.Footprint

namespace BetProcessor
set_option autoImplicit true
open Codec

/-- The last hex digits of a number, in lower case. -/
def hexDigits : Nat → Nat → List Char
  | 0, _ => []
  | width + 1, n => hexDigits width (n / 16) ++ [Hex.digit (n % 16)]

/-- The text in which `randomUUID`, PostgreSQL and `Uuid` write an id. -/
def uuidText (id : Uuid) : List Char :=
  hexDigits 8 (id / 16 ^ 24) ++ '-' :: (hexDigits 4 (id / 16 ^ 20) ++ '-' ::
    (hexDigits 4 (id / 16 ^ 16) ++ '-' :: (hexDigits 4 (id / 16 ^ 12) ++ '-' :: hexDigits 12 id)))

/-- The id has sixteen bytes. -/
def Uuid.IsValid (id : Uuid) : Prop := id < 2 ^ 128

theorem hexDigits_length (width n : Nat) : (hexDigits width n).length = width := by
  induction width generalizing n with
  | zero => rfl
  | succ width ih => rw [hexDigits, List.length_append, ih, List.length_singleton]

theorem foldlM_hexDigits (width n acc : Nat) :
    (hexDigits width n).foldlM (fun n c => (Hex.nibble c).map (n * 16 + ·)) acc =
      some (acc * 16 ^ width + n % 16 ^ width) := by
  induction width generalizing n with
  | zero => simp [hexDigits, Nat.mod_one]
  | succ width ih =>
    have hdigit : Hex.nibble (Hex.digit (n % 16)) = some (n % 16) := by
      have hlower : ∀ d < 16, (Hex.digit d).toLower = Hex.digit d := by decide
      have hlt : n % 16 < 16 := Nat.mod_lt _ (by decide)
      exact Hex.nibble_eq_some.2 ⟨hlt, hlower _ hlt⟩
    rw [hexDigits, List.foldlM_append, ih, Option.bind_eq_bind, Option.bind_some, List.foldlM_cons,
      hdigit]
    simp only [Option.map_some, Option.bind_eq_bind, Option.bind_some, List.foldlM_nil]
    congr 1
    rw [Nat.pow_succ', Nat.mod_mul]
    ring

theorem hyphenated_groups {a b c d e : List Char} (ha : a.length = 8) (hb : b.length = 4)
    (hc : c.length = 4) (hd : d.length = 4) (he : e.length = 12) :
    hyphenated (a ++ '-' :: (b ++ '-' :: (c ++ '-' :: (d ++ '-' :: e)))) =
      hexNumber (a ++ b ++ c ++ d ++ e) := by
  rw [hyphenated, if_pos]
  · simp (disch := omega) [List.drop_append, List.drop_eq_nil_of_le, ha, hb, hc, hd]
  · simp [ha, hb, hc, hd, he]

theorem hyphenated_uuidText {id : Uuid} (h : id.IsValid) : hyphenated (uuidText id) = some id := by
  rw [uuidText, hyphenated_groups (hexDigits_length ..) (hexDigits_length ..)
    (hexDigits_length ..) (hexDigits_length ..) (hexDigits_length ..), hexNumber]
  simp only [List.foldlM_append, foldlM_hexDigits, Option.bind_eq_bind, Option.bind_some]
  rw [Uuid.IsValid] at h
  have h₁ : id / 16 ^ 16 = id / 16 ^ 12 / 16 ^ 4 := by rw [Nat.div_div_eq_div_mul, ← Nat.pow_add]
  have h₂ : id / 16 ^ 20 = id / 16 ^ 16 / 16 ^ 4 := by rw [Nat.div_div_eq_div_mul, ← Nat.pow_add]
  have h₃ : id / 16 ^ 24 = id / 16 ^ 20 / 16 ^ 4 := by rw [Nat.div_div_eq_div_mul, ← Nat.pow_add]
  have htop : id / 16 ^ 24 < 16 ^ 8 := Nat.div_lt_of_lt_mul (h.trans_eq (by decide))
  congr 1
  rw [Nat.mod_eq_of_lt htop, h₃, h₂, h₁]
  omega

def idDocument (id : Uuid) : Json := .string ⟨uuidText id, true⟩

def playFields (tag : String) (id : Uuid) (amount : Int) : List (String × Option Json) :=
  [("action", some (.str tag)), ("action_id", some (idDocument id)),
    ("amount", some (.int amount))]

def rollbackFields (id original : Uuid) : List (String × Option Json) :=
  [("action", some (.str "rollback")), ("action_id", some (idDocument id)),
    ("original_action_id", some (idDocument original))]

/-- An action as the clients write it. -/
def ProcessAction.document : ProcessAction → Json
  | .bet id amount => .object (Json.members (playFields "bet" id amount))
  | .win id amount => .object (Json.members (playFields "win" id amount))
  | .rollback id original => .object (Json.members (rollbackFields id original))

def requestDocumentFields (request : ProcessRequest) (finished : Option Bool) :
    List (String × Option Json) :=
  [("user_id", some (.str request.userId)), ("currency", some (.str request.currency)),
    ("game", some (.str request.game)), ("game_id", request.gameId.map .str),
    ("finished", finished.map .bool),
    ("actions", request.actions.map fun actions => .array (actions.map (·.document)))]

/-- A request as the clients write it; `finished` is for the game only. -/
def ProcessRequest.document (request : ProcessRequest) (finished : Option Bool) : Json :=
  .object (Json.members (requestDocumentFields request finished))

/-- The ids of an action have sixteen bytes, its amount is a safe integer of JavaScript. -/
structure ProcessAction.Sendable (action : ProcessAction) : Prop where
  ids : ∀ x ∈ action.ids, Uuid.IsValid x
  amount : ∀ type x amount, action.IsOriginal type x amount → 0 < amount ∧ amount ≤ 2 ^ 53

structure ProcessRequest.Sendable (request : ProcessRequest) : Prop where
  accepted : request.Accepted
  actions : ∀ actions ∈ request.actions, ∀ action ∈ actions, action.Sendable

section
variable {id original : Uuid} {value : Int} {tag : String}

theorem uuid_idDocument (h : id.IsValid) : uuid (some (idDocument id)) = some id := by
  rw [idDocument, uuid, hyphenated_uuidText h]

theorem rust_uuid_idDocument (h : id.IsValid) : Rust.uuid (some (idDocument id)) = some id := by
  have hhyphenated := hyphenated_uuidText h
  rw [idDocument, Rust.uuid, if_pos rfl,
    parseUuid_hyphenated (Option.isSome_iff_exists.2 ⟨id, hhyphenated⟩), hhyphenated]

theorem string_str {s : String} (h : s ≠ "") : string (some (.str s)) = some s := by
  have hne : s.toList ≠ [] := by
    intro hnil
    exact h (String.toList_injective hnil)
  rw [Json.str, Text.ofString, string, if_neg hne, String.ofList_toList]

theorem rust_string_str (s : String) : Rust.string (some (.str s)) = some s := by
  rw [Json.str, Text.ofString, Rust.string, if_pos rfl, String.ofList_toList]

theorem roundDiv_one (n : Nat) : roundDiv n 1 = n := by
  rw [roundDiv, Nat.mod_one, Nat.div_one]
  exact if_pos (Or.inl Nat.one_pos)

theorem nearestInteger_small {m : Nat} (hpos : 0 < m) (hm : m ≤ 2 ^ 53) :
    nearestInteger m 1 = some m := by
  have hhalf : ¬2 * m < 1 := by omega
  rcases hm.lt_or_eq with hlt | heq
  · have hlog : Nat.log2 (2 * m / 1) ≤ 53 := by
      rw [Nat.div_one, ← Nat.lt_succ_iff, Nat.log2_lt (by omega)]
      omega
    rw [nearestInteger, if_neg hhalf]
    dsimp only
    rw [if_pos hlog, roundDiv_one, if_pos (Nat.mul_mod_left ..),
      Nat.mul_div_cancel _ (Nat.two_pow_pos _)]
  · rw [heq]
    decide +kernel

theorem amount_int (hpos : 0 < value) (hle : value ≤ 2 ^ 53) :
    amount (some (.int value)) = some value := by
  have hnegative : decide (value < 0) = false := decide_eq_false (by omega)
  have hback : (value.natAbs : Int) = value := Int.natAbs_of_nonneg hpos.le
  rw [Json.int, amount_plain rfl, hnegative]
  change (nearestInteger value.natAbs 1).map _ = _
  rw [nearestInteger_small (by omega) (by omega), Option.map_some, hback]

theorem rust_amount_int (hpos : 0 < value) (hle : value ≤ 2 ^ 53) :
    Rust.amount (some (.int value)) = some value := by
  refine rust_amount_eq_some.2 ⟨_, rfl, rfl, ?_, ?_, (Json.int_integer value).symm⟩
  · rintro ⟨_, hzero⟩
    change value.natAbs = 0 at hzero
    omega
  · exact isBigint_small (by rwa [abs_of_pos hpos])

end

section
variable {fields : List (String × Option Json)} {key : String} {value : Option Json}

theorem rust_field_members (hnodup : (fields.map (·.1)).Nodup) (hmem : (key, value) ∈ fields) :
    Rust.field (Json.members fields) key = some value := by
  rw [Rust.field, Json.filter_members hnodup hmem]
  cases value <;> rfl

variable {overflows : Number → Bool} {id original : Uuid} {amount : Int} {tag : String}

theorem mem_playFields : ("action", some (.str tag)) ∈ playFields tag id amount ∧
    ("action_id", some (idDocument id)) ∈ playFields tag id amount ∧
    ("amount", some (.int amount)) ∈ playFields tag id amount := by
  simp [playFields]

theorem playFields_nodup : ((playFields tag id amount).map (·.1)).Nodup := by
  rw [playFields]
  simp

theorem mem_rollbackFields : ("action", some (.str "rollback")) ∈ rollbackFields id original ∧
    ("action_id", some (idDocument id)) ∈ rollbackFields id original ∧
    ("original_action_id", some (idDocument original)) ∈ rollbackFields id original := by
  simp [rollbackFields]

theorem rollbackFields_nodup : ((rollbackFields id original).map (·.1)).Nodup := by
  rw [rollbackFields]
  simp

theorem actionSchema_document {action : ProcessAction} (h : action.Sendable) :
    actionSchema action.document = some action := by
  cases action with
  | bet id amount =>
    obtain ⟨hpos, hle⟩ := h.amount _ _ _ .bet
    obtain ⟨htag, hid, hamount⟩ := @mem_playFields id amount "bet"
    rw [ProcessAction.document, actionSchema, Json.last?_members playFields_nodup htag,
      Json.last?_members playFields_nodup hid, Json.last?_members playFields_nodup hamount,
      uuid_idDocument (h.ids id (List.mem_singleton_self _)), amount_int hpos hle]
    rfl
  | win id amount =>
    obtain ⟨hpos, hle⟩ := h.amount _ _ _ .win
    obtain ⟨htag, hid, hamount⟩ := @mem_playFields id amount "win"
    rw [ProcessAction.document, actionSchema, Json.last?_members playFields_nodup htag,
      Json.last?_members playFields_nodup hid, Json.last?_members playFields_nodup hamount,
      uuid_idDocument (h.ids id (List.mem_singleton_self _)), amount_int hpos hle]
    rfl
  | rollback id original =>
    obtain ⟨htag, hid, horiginal⟩ := @mem_rollbackFields id original
    rw [ProcessAction.document, actionSchema, Json.last?_members rollbackFields_nodup htag,
      Json.last?_members rollbackFields_nodup hid,
      Json.last?_members rollbackFields_nodup horiginal,
      uuid_idDocument (h.ids id (List.mem_cons_self ..)),
      uuid_idDocument (h.ids original (List.mem_cons_of_mem _ (List.mem_singleton_self _)))]
    rfl

theorem buffers_idDocument {depth : Nat} :
    Rust.buffers overflows depth (idDocument id) = true := by
  rw [idDocument, Rust.buffers]

theorem buffers_int {depth : Nat} (hpos : 0 < amount) (hle : amount ≤ 2 ^ 53) :
    Rust.buffers overflows depth (.int amount) = true := by
  have hinteger : Rust.IsInteger ⟨amount < 0, amount.natAbs, none⟩ = true := by
    have hnegative : decide (amount < 0) = false := decide_eq_false (by omega)
    have hsmall : decide (amount.natAbs < 2 ^ 64) = true := decide_eq_true (by omega)
    rw [Rust.IsInteger, hnegative]
    exact hsmall
  rw [Json.int, Rust.buffers, hinteger]
  rfl

theorem rust_processAction_document {action : ProcessAction} (h : action.Sendable) :
    Rust.processAction overflows action.document = some action := by
  have hplay : ∀ tag id amount, 0 < amount → amount ≤ 2 ^ 53 →
      Rust.buffersMembers overflows 124 (Json.members (playFields tag id amount)) = true := by
    intro tag id amount hpos hle
    change Rust.buffersMembers overflows 124 [(.ofString "action", .str tag),
      (.ofString "action_id", idDocument id), (.ofString "amount", .int amount)] = true
    simp only [Rust.buffersMembers, buffers_idDocument, buffers_int hpos hle]
    rfl
  have hrollback : ∀ id original, Rust.buffersMembers overflows 124
      (Json.members (rollbackFields id original)) = true := by
    intro id original
    change Rust.buffersMembers overflows 124 [(.ofString "action", .str "rollback"),
      (.ofString "action_id", idDocument id),
      (.ofString "original_action_id", idDocument original)] = true
    simp only [Rust.buffersMembers, buffers_idDocument]
    rfl
  cases action with
  | bet id amount =>
    obtain ⟨hpos, hle⟩ := h.amount _ _ _ .bet
    obtain ⟨htag, hid, hamount⟩ := @mem_playFields id amount "bet"
    rw [ProcessAction.document, Rust.processAction, if_pos (hplay _ _ _ hpos hle),
      rust_field_members playFields_nodup htag]
    change Rust.variant (.ofString "bet") _ = _
    rw [Rust.variant, rust_field_members playFields_nodup hid,
      rust_field_members playFields_nodup hamount]
    simp only [Option.bind_eq_bind, Option.bind_some]
    rw [rust_uuid_idDocument (h.ids id (List.mem_singleton_self _)), rust_amount_int hpos hle]
    rfl
  | win id amount =>
    obtain ⟨hpos, hle⟩ := h.amount _ _ _ .win
    obtain ⟨htag, hid, hamount⟩ := @mem_playFields id amount "win"
    rw [ProcessAction.document, Rust.processAction, if_pos (hplay _ _ _ hpos hle),
      rust_field_members playFields_nodup htag]
    change Rust.variant (.ofString "win") _ = _
    rw [Rust.variant, rust_field_members playFields_nodup hid,
      rust_field_members playFields_nodup hamount]
    simp only [Option.bind_eq_bind, Option.bind_some]
    rw [rust_uuid_idDocument (h.ids id (List.mem_singleton_self _)), rust_amount_int hpos hle]
    rfl
  | rollback id original =>
    obtain ⟨htag, hid, horiginal⟩ := @mem_rollbackFields id original
    rw [ProcessAction.document, Rust.processAction, if_pos (hrollback ..),
      rust_field_members rollbackFields_nodup htag]
    change Rust.variant (.ofString "rollback") _ = _
    rw [Rust.variant, rust_field_members rollbackFields_nodup hid,
      rust_field_members rollbackFields_nodup horiginal]
    simp only [Option.bind_eq_bind, Option.bind_some]
    rw [rust_uuid_idDocument (h.ids id (List.mem_cons_self ..)),
      rust_uuid_idDocument (h.ids original (List.mem_cons_of_mem _ (List.mem_singleton_self _)))]
    rfl

variable {request : ProcessRequest} {finished : Option Bool}

theorem requestDocumentFields_nodup :
    ((requestDocumentFields request finished).map (·.1)).Nodup := by
  rw [requestDocumentFields]
  simp

theorem mem_requestDocumentFields :
    ("user_id", some (.str request.userId)) ∈ requestDocumentFields request finished ∧
    ("currency", some (.str request.currency)) ∈ requestDocumentFields request finished ∧
    ("game", some (.str request.game)) ∈ requestDocumentFields request finished ∧
    ("game_id", request.gameId.map .str) ∈ requestDocumentFields request finished ∧
    ("finished", finished.map .bool) ∈ requestDocumentFields request finished ∧
    ("actions", request.actions.map fun actions => .array (actions.map (·.document))) ∈
      requestDocumentFields request finished := by
  simp [requestDocumentFields]

theorem last?_document (h : (key, value) ∈ requestDocumentFields request finished) :
    Json.last? (Json.members (requestDocumentFields request finished)) key = value :=
  Json.last?_members requestDocumentFields_nodup h

theorem mapM_written {α : Type} {write : α → Json} {read : Json → Option α} {l : List α}
    (h : ∀ x ∈ l, read (write x) = some x) : (l.map write).mapM read = some l := by
  induction l with
  | nil => rfl
  | cons x l ih =>
    rw [List.map_cons, List.mapM_cons, h x (List.mem_cons_self ..),
      ih fun y hy => h y (List.mem_cons_of_mem _ hy)]
    rfl

theorem processRequestSchema_document (h : request.Sendable) :
    processRequestSchema (request.document finished) = some request := by
  obtain ⟨huserId, hcurrency, hgame, hgameId, hfinished, hactions⟩ :=
    @mem_requestDocumentFields request finished
  have hid : optional string (request.gameId.map .str) = some request.gameId := by
    cases hvalue : request.gameId with
    | none => rfl
    | some gameId =>
      rw [Option.map_some, optional, string_str (h.accepted.gameId gameId hvalue)]
      rfl
  have hflag : optional boolean (finished.map .bool) = some finished := by
    cases finished <;> rfl
  have hlist : optional (array actionSchema) (request.actions.map fun actions =>
      .array (actions.map (·.document))) = some request.actions := by
    cases hvalue : request.actions with
    | none => rfl
    | some actions =>
      rw [Option.map_some, optional, array, mapM_written fun action haction =>
        actionSchema_document (h.actions actions hvalue action haction)]
      rfl
  rw [ProcessRequest.document, processRequestSchema, last?_document huserId,
    last?_document hcurrency, last?_document hgame, last?_document hgameId,
    last?_document hfinished, last?_document hactions, string_str h.accepted.userId,
    string_str h.accepted.currency, string_str h.accepted.game, hid, hflag, hlist]
  rfl

theorem fromValue_document (h : request.Sendable) :
    Rust.fromValue overflows (request.document finished) = some request := by
  obtain ⟨huserId, hcurrency, hgame, hgameId, hfinished, hactions⟩ :=
    @mem_requestDocumentFields request finished
  have hfield : ∀ {key value}, (key, value) ∈ requestDocumentFields request finished →
      Rust.field (Json.members (requestDocumentFields request finished)) key = some value :=
    rust_field_members requestDocumentFields_nodup
  have hsound : (Json.members (requestDocumentFields request finished)).all (·.1.sound) =
      true := by
    refine List.all_eq_true.2 ?_
    intro member hmember
    obtain ⟨field, _, hvalue⟩ := List.mem_filterMap.1 hmember
    obtain ⟨json, _, rfl⟩ := Option.map_eq_some_iff.1 hvalue
    rfl
  have hid : Rust.optional Rust.string (request.gameId.map .str) = some request.gameId := by
    cases request.gameId with
    | none => rfl
    | some gameId =>
      change (Rust.string (some (.str gameId))).map some = _
      rw [rust_string_str]
      rfl
  have hflag : Rust.optional Rust.boolean (finished.map .bool) = some finished := by
    cases finished <;> rfl
  have hlist : Rust.optional (Rust.vec (Rust.processAction overflows))
      (request.actions.map fun actions => .array (actions.map (·.document))) =
        some request.actions := by
    cases hvalue : request.actions with
    | none => rfl
    | some actions =>
      change (Rust.vec (Rust.processAction overflows)
        (some (.array (actions.map (·.document))))).map some = _
      rw [Rust.vec, mapM_written fun action haction =>
        rust_processAction_document (h.actions actions hvalue action haction)]
      rfl
  rw [ProcessRequest.document, Rust.fromValue, if_pos hsound, Rust.processRequest,
    hfield huserId, hfield hcurrency, hfield hgame, hfield hgameId, hfield hfinished,
    hfield hactions]
  simp only [Option.bind_eq_bind, Option.bind_some]
  rw [rust_string_str, rust_string_str, rust_string_str, hid, hflag, hlist]
  rfl

end

end BetProcessor
