import Mathlib.Data.Vector.Basic
import BetProcessor.Codec.Hex

namespace BetProcessor
set_option autoImplicit true
open Codec

/-- HMAC-SHA256 of some bytes under a secret. -/
abbrev HmacSha256 := String → List UInt8 → Vector UInt8 32

/-- `WhiteSpace` and `LineTerminator` of ECMAScript. -/
def isSpace (c : Char) : Bool :=
  c.toNat ∈ [0x9, 0xA, 0xB, 0xC, 0xD, 0x20, 0xA0, 0x1680, 0x2028, 0x2029, 0x202F, 0x205F, 0x3000,
    0xFEFF] || (0x2000 ≤ c.toNat && c.toNat ≤ 0x200A)

/-- `String.prototype.trim`. -/
def trim (s : List Char) : List Char :=
  ((s.dropWhile isSpace).reverse.dropWhile isSpace).reverse

/-- `/^HMAC-SHA256 ([a-f0-9]{64})$/i`, with the text of its group. -/
def authorizationPattern (s : List Char) : Option (List Char) :=
  let digits := s.drop 12
  if (s.take 12).map Char.toLower = "hmac-sha256 ".toList ∧ digits.length = 64 ∧
      digits.all Hex.isDigit then
    some digits
  else none

section
variable (hmac : HmacSha256)

def signBody (rawBody : List UInt8) (secret : String) : List Char :=
  Hex.encode (hmac secret rawBody).toList

/-- The check of the TypeScript service. -/
def verifyAuthorizationHeader (authorization : Option String) (rawBody : List UInt8)
    (secret : String) : Bool :=
  match authorization with
  | none => false
  | some authorization =>
    if authorization = "" then false
    else match authorizationPattern (trim authorization.toList) with
      | none => false
      | some digits =>
        let expected := Hex.decodePairs (signBody hmac rawBody secret)
        let actual := Hex.decodePairs digits
        actual.length = expected.length && actual = expected

end

/-- What the Rust service answers an error with. -/
inductive AppError where
  | forbidden
  | badRequest
  | insufficientFunds
  | sqlx
  | anyhow
  deriving DecidableEq, Repr

namespace Rust

def scheme : List Char := "HMAC-SHA256 ".toList

def stripScheme (s : List Char) : Option (List Char) :=
  if s.take scheme.length = scheme then some (s.drop scheme.length) else none

/-- The check of the Rust service. -/
def verifyAuthorizationHeader (hmac : HmacSha256) (authorization : Option String)
    (rawBody : List UInt8) (secret : String) : Except AppError Unit :=
  match authorization with
  | none => .error .forbidden
  | some authorization =>
    match stripScheme authorization.toList with
    | none => .error .forbidden
    | some digest =>
      if digest.length ≠ 64 ∨ ¬digest.all Hex.isDigit then .error .forbidden
      else match Hex.decode? digest with
        | none => .error .forbidden
        | some actual =>
          let expected := (hmac secret rawBody).toList
          if actual.length = expected.length ∧ actual = expected then .ok ()
          else .error .forbidden

end Rust

/-- A scheme, one space and 64 hex digits that decode to the digest of the body. -/
def Carries (hmac : HmacSha256) (secret : String) (rawBody : List UInt8) (scheme : String)
    (header : String) : Prop :=
  ∃ digits, header.toList = scheme.toList ++ ' ' :: digits ∧ digits.length = 64 ∧
    digits.all Hex.isDigit ∧ Hex.decode? digits = some (hmac secret rawBody).toList

def isVisible (c : Char) : Bool := 0x20 ≤ c.toNat && c.toNat ≤ 0x7E

/-- A text of visible characters of ASCII and inner spaces. -/
def Visible (header : String) : Prop :=
  header.toList.all isVisible ∧ header.toList.head? ≠ some ' ' ∧
    header.toList.getLast? ≠ some ' '

instance (header : String) : Decidable (Visible header) := inferInstanceAs (Decidable (_ ∧ _))

section
variable {hmac : HmacSha256} {secret : String} {rawBody : List UInt8} {header : String}

theorem dropWhile_visible {s : List Char} (hs : s.all isVisible)
    (hhead : s.head? ≠ some ' ') : s.dropWhile isSpace = s := by
  cases s with
  | nil => rfl
  | cons c s =>
    have hc : isVisible c := List.all_eq_true.1 hs c (List.mem_cons_self ..)
    have hne : c.toNat ≠ 0x20 := by
      intro h
      apply hhead
      rw [List.head?_cons]
      exact congrArg some (Char.ext (UInt32.toNat_inj.1 h))
    apply List.dropWhile_cons_of_neg
    simp only [isVisible, Bool.and_eq_true, decide_eq_true_eq] at hc
    simp [isSpace]
    omega

theorem trim_visible (h : Visible header) : trim header.toList = header.toList := by
  have hlast : (header.toList.reverse).head? ≠ some ' ' := by
    rw [List.head?_reverse]
    exact h.2.2
  have hreverse : header.toList.reverse.all isVisible := by
    rw [List.all_reverse]
    exact h.1
  rw [trim, dropWhile_visible h.1 h.2.1, dropWhile_visible hreverse hlast, List.reverse_reverse]

theorem carries_unique {scheme scheme' : String} (h : Carries hmac secret rawBody scheme header)
    (h' : Carries hmac secret rawBody scheme' header) : scheme = scheme' := by
  obtain ⟨digits, hheader, hlength, _, _⟩ := h
  obtain ⟨digits', hheader', hlength', _, _⟩ := h'
  apply String.toList_inj.1
  apply List.append_inj_left' (hheader.symm.trans hheader')
  rw [List.length_cons, List.length_cons, hlength, hlength']

theorem eq_space_of_toLower {c : Char} (h : c.toLower = ' ') : c = ' ' := by
  delta Char.toLower at h
  split at h
  · next hupper =>
    have hval := congrArg Char.val h
    have := UInt32.le_iff_toNat_le.1 hupper.1
    have := UInt32.le_iff_toNat_le.1 hupper.2
    have hnat := congrArg UInt32.toNat hval
    simp at *
    omega
  · exact h

theorem authorizationPattern_eq_some {s digits : List Char} :
    authorizationPattern s = some digits ↔ ∃ scheme : List Char,
      scheme.map Char.toLower = "hmac-sha256".toList ∧ s = scheme ++ ' ' :: digits ∧
        digits.length = 64 ∧ digits.all Hex.isDigit := by
  constructor
  · intro h
    rw [authorizationPattern] at h
    split at h
    · next hmatch =>
      cases h
      have hsplit : (s.take 12).map Char.toLower = "hmac-sha256".toList ++ [' '] := hmatch.1
      obtain ⟨scheme, blank, hs, hscheme, hblank⟩ := List.map_eq_append_iff.1 hsplit
      obtain ⟨c, rfl, hc⟩ := List.map_eq_singleton_iff.1 hblank
      refine ⟨scheme, hscheme, ?_, hmatch.2⟩
      rw [← eq_space_of_toLower hc]
      conv_lhs => rw [← List.take_append_drop 12 s, hs]
      simp
    · cases h
  · rintro ⟨scheme, hscheme, rfl, hdigits⟩
    have hlength : scheme.length = 11 := by
      rw [← List.length_map Char.toLower, hscheme]
      rfl
    have htake : (scheme ++ ' ' :: digits).take 12 = scheme ++ [' '] := by
      simp [List.take_append, hlength, List.take_of_length_le]
    have hdrop : (scheme ++ ' ' :: digits).drop 12 = digits := by
      simp [List.drop_append, hlength, List.drop_eq_nil_of_le]
    rw [authorizationPattern, htake, hdrop]
    apply if_pos
    constructor
    · rw [List.map_append, hscheme]
      rfl
    · exact hdigits

theorem decode_signBody : Hex.decodePairs (signBody hmac rawBody secret) =
    (hmac secret rawBody).toList :=
  Hex.decodePairs_eq (Hex.decode?_encode _)

theorem verify_iff (h : Visible header) :
    verifyAuthorizationHeader hmac (some header) rawBody secret = true ↔
      ∃ scheme : String, scheme.toList.map Char.toLower = "hmac-sha256".toList ∧
        Carries hmac secret rawBody scheme header := by
  have hdecode : ∀ {digits : List Char}, digits.length = 64 → digits.all Hex.isDigit →
      (Hex.decodePairs digits = (hmac secret rawBody).toList ↔
        Hex.decode? digits = some (hmac secret rawBody).toList) := by
    intro digits hlength hdigits
    obtain ⟨bytes, hbytes, _⟩ := Hex.exists_decode 32 hlength hdigits
    rw [Hex.decodePairs_eq hbytes, hbytes, Option.some.injEq]
  constructor
  · intro hverify
    simp only [verifyAuthorizationHeader, trim_visible h, decode_signBody] at hverify
    split at hverify
    · cases hverify
    · split at hverify
      · cases hverify
      · next digits hmatch =>
        obtain ⟨scheme, hscheme, hheader, hlength, hdigits⟩ :=
          authorizationPattern_eq_some.1 hmatch
        have hequal := of_decide_eq_true (Bool.and_eq_true_iff.1 hverify).2
        refine ⟨String.ofList scheme, ?_, digits, ?_, hlength, hdigits,
          (hdecode hlength hdigits).1 hequal⟩
        · rwa [String.toList_ofList]
        · rwa [String.toList_ofList]
  · rintro ⟨scheme, hscheme, digits, hheader, hlength, hdigits, hbytes⟩
    have hmatch := authorizationPattern_eq_some.2 ⟨scheme.toList, hscheme, hheader, hlength,
      hdigits⟩
    have hne : header ≠ "" := by
      rintro rfl
      simp at hheader
    simp only [verifyAuthorizationHeader, trim_visible h, decode_signBody, if_neg hne, hmatch,
      (hdecode hlength hdigits).2 hbytes]
    simp

theorem stripScheme_eq_some {s digits : List Char} :
    Rust.stripScheme s = some digits ↔ s = "HMAC-SHA256".toList ++ ' ' :: digits := by
  have hscheme : "HMAC-SHA256".toList ++ ' ' :: digits = Rust.scheme ++ digits := rfl
  rw [Rust.stripScheme, hscheme]
  constructor
  · intro h
    split at h
    · next htake =>
      cases h
      conv_lhs => rw [← List.take_append_drop Rust.scheme.length s, htake]
    · cases h
  · rintro rfl
    rw [List.take_left, List.drop_left]
    exact if_pos rfl

theorem rust_verify_iff :
    Rust.verifyAuthorizationHeader hmac (some header) rawBody secret = .ok () ↔
      Carries hmac secret rawBody "HMAC-SHA256" header := by
  rw [Rust.verifyAuthorizationHeader]
  constructor
  · intro hverify
    cases hstrip : Rust.stripScheme header.toList with
    | none =>
      rw [hstrip] at hverify
      cases hverify
    | some digits =>
      simp only [hstrip] at hverify
      split at hverify
      · cases hverify
      · next hdigits =>
        obtain ⟨hlength, hdigits⟩ := not_or.1 hdigits
        obtain ⟨bytes, hbytes, _⟩ := Hex.exists_decode 32 (not_not.1 hlength) (not_not.1 hdigits)
        rw [hbytes] at hverify
        dsimp only at hverify
        split at hverify
        · next hequal =>
          exact ⟨digits, stripScheme_eq_some.1 hstrip, not_not.1 hlength, not_not.1 hdigits,
            hequal.2 ▸ hbytes⟩
        · cases hverify
  · rintro ⟨digits, hheader, hlength, hdigits, hbytes⟩
    have hdigest : ¬(digits.length ≠ 64 ∨ ¬digits.all Hex.isDigit) :=
      not_or.2 ⟨not_not.2 hlength, not_not.2 hdigits⟩
    simp only [stripScheme_eq_some.2 hheader, if_neg hdigest, hbytes]
    exact if_pos ⟨trivial, trivial⟩

/-- A header whose scheme is spelled in another letter case. -/
def SpeltOtherwise (hmac : HmacSha256) (secret : String) (rawBody : List UInt8)
    (header : String) : Prop :=
  ∃ scheme : String, scheme ≠ "HMAC-SHA256" ∧
    scheme.toList.map Char.toLower = "hmac-sha256".toList ∧
    Carries hmac secret rawBody scheme header

/-- The header of a client that signs a body. -/
def signedHeader (hmac : HmacSha256) (secret : String) (rawBody : List UInt8) : String :=
  String.ofList (Rust.scheme ++ signBody hmac rawBody secret)

theorem carries_signBody :
    Carries hmac secret rawBody "HMAC-SHA256" (signedHeader hmac secret rawBody) := by
  refine ⟨signBody hmac rawBody secret, ?_, ?_, ?_, Hex.decode?_encode _⟩
  · rw [signedHeader, String.toList_ofList]
    rfl
  · rw [signBody, Hex.encode_length, Vector.length_toList]
  · exact List.all_eq_true.2 (Hex.forall_mem_encode (by decide) _)

theorem visible_signBody : Visible (signedHeader hmac secret rawBody) := by
  have hdigits : (signBody hmac rawBody secret).all isVisible :=
    List.all_eq_true.2 (Hex.forall_mem_encode (by decide) _)
  have hblank : ' ' ∉ signBody hmac rawBody secret := by
    intro hmem
    exact Hex.forall_mem_encode (p := (· ≠ ' ')) (by decide) _ ' ' hmem rfl
  have hne : signBody hmac rawBody secret ≠ [] := by
    apply List.ne_nil_of_length_pos
    rw [signBody, Hex.encode_length, Vector.length_toList]
    decide
  rw [Visible, signedHeader, String.toList_ofList]
  refine ⟨?_, ?_, ?_⟩
  · rw [List.all_append, hdigits]
    decide
  · rw [List.head?_append_of_ne_nil _ (by decide)]
    decide
  · rw [List.getLast?_append_of_ne_nil _ hne]
    intro hlast
    exact hblank (List.mem_of_getLast? hlast)

end

section
variable (hmac : HmacSha256) (secret : String) (rawBody : List UInt8)

/-- The answers of both services to a header are the ones of the protocol. -/
def SameAnswer (header : String) : Prop :=
  (verifyAuthorizationHeader hmac (some header) rawBody secret = true ↔
    Rust.verifyAuthorizationHeader hmac (some header) rawBody secret = .ok ()) ∧
  (verifyAuthorizationHeader hmac (some header) rawBody secret = true ↔
    Carries hmac secret rawBody "HMAC-SHA256" header) ∧
  (Rust.verifyAuthorizationHeader hmac (some header) rawBody secret = .ok () ↔
    Carries hmac secret rawBody "HMAC-SHA256" header)

theorem sameAnswer_iff {header : String} (h : Visible header) :
    SameAnswer hmac secret rawBody header ↔ ¬SpeltOtherwise hmac secret rawBody header := by
  rw [SameAnswer, verify_iff h, rust_verify_iff]
  constructor
  · rintro ⟨hsame, _⟩ ⟨scheme, hne, hscheme, hcarries⟩
    exact hne (carries_unique hcarries (hsame.1 ⟨scheme, hscheme, hcarries⟩))
  · intro hspelt
    have hsame : (∃ scheme : String, scheme.toList.map Char.toLower = "hmac-sha256".toList ∧
        Carries hmac secret rawBody scheme header) ↔
          Carries hmac secret rawBody "HMAC-SHA256" header := by
      constructor
      · rintro ⟨scheme, hscheme, hcarries⟩
        by_cases hne : scheme = "HMAC-SHA256"
        · exact hne ▸ hcarries
        · exact absurd ⟨scheme, hne, hscheme, hcarries⟩ hspelt
      · intro hcarries
        exact ⟨"HMAC-SHA256", by decide, hcarries⟩
    exact ⟨hsame, hsame, Iff.rfl⟩

theorem digest_of_carries {scheme header : String}
    (hscheme : scheme.toList.map Char.toLower = "hmac-sha256".toList)
    (h : Carries hmac secret rawBody scheme header) :
    (header.toList.drop 12).map Char.toLower = signBody hmac rawBody secret := by
  obtain ⟨digits, hheader, _, _, hbytes⟩ := h
  have hlength : scheme.toList.length = 11 := by
    rw [← List.length_map Char.toLower, hscheme]
    rfl
  have hdrop : (scheme.toList ++ ' ' :: digits).drop 12 = digits := by
    simp only [List.drop_append, hlength]
    rw [List.drop_eq_nil_of_le (by omega)]
    rfl
  rw [hheader, hdrop]
  exact Hex.decode?_eq_some.1 hbytes

end

/-- The two services answer alike exactly unless the scheme of a valid header is spelled in another
letter case; of every body they accept the signature and no second digest. -/
theorem same_headers (hmac : HmacSha256) (secret : String) (rawBody : List UInt8) :
    (∀ header : String, Visible header →
      (SameAnswer hmac secret rawBody header ↔ ¬SpeltOtherwise hmac secret rawBody header)) ∧
    (verifyAuthorizationHeader hmac (some (signedHeader hmac secret rawBody)) rawBody secret =
        true ∧
      Rust.verifyAuthorizationHeader hmac (some (signedHeader hmac secret rawBody)) rawBody secret =
        .ok ()) ∧
    ∀ header : String, Visible header →
      verifyAuthorizationHeader hmac (some header) rawBody secret = true ∨
        Rust.verifyAuthorizationHeader hmac (some header) rawBody secret = .ok () →
      (header.toList.drop 12).map Char.toLower = signBody hmac rawBody secret := by
  refine ⟨fun header => sameAnswer_iff hmac secret rawBody, ⟨?_, ?_⟩, ?_⟩
  · rw [verify_iff visible_signBody]
    exact ⟨"HMAC-SHA256", by decide, carries_signBody⟩
  · exact rust_verify_iff.2 carries_signBody
  · intro header h haccepted
    cases haccepted with
    | inl hverify =>
      obtain ⟨scheme, hscheme, hcarries⟩ := (verify_iff h).1 hverify
      exact digest_of_carries hmac secret rawBody hscheme hcarries
    | inr hverify =>
      exact digest_of_carries hmac secret rawBody (by decide) (rust_verify_iff.1 hverify)

/-- The digest of the request of the acceptance test under the secret `test`. -/
def acceptanceDigest : Vector UInt8 32 where
  toArray := List.toArray [0x44, 0x2c, 0x4c, 0xd8, 0x92, 0x60, 0x08, 0x09, 0x62, 0x25, 0x41, 0x6b,
    0x21, 0xf5, 0xa1, 0x86, 0x2f, 0xbf, 0x4f, 0xc4, 0xe5, 0x22, 0x43, 0x62, 0xe3, 0xb4, 0x63, 0xe8,
    0x5a, 0x39, 0xf4, 0x0a]
  size_toArray := rfl

def acceptanceBody : List UInt8 :=
  ("\x7b\"user_id\":\"8|USDT|USD\",\"currency\":\"USD\"," ++
    "\"game\":\"acceptance:test\"\x7d").toUTF8.toList

theorem acceptance_sameAnswer : SameAnswer (fun _ _ => acceptanceDigest) "test" acceptanceBody
    (signedHeader (fun _ _ => acceptanceDigest) "test" acceptanceBody) := by
  apply ((same_headers _ _ _).1 _ visible_signBody).2
  rintro ⟨scheme, hne, _, hcarries⟩
  exact hne (carries_unique hcarries carries_signBody)

/-- The same signature under a scheme in lower case. -/
theorem lowerCase_scheme :
    let header := "hmac-sha256 442c4cd8926008096225416b21f5a1862fbf4fc4e5224362e3b463e85a39f40a"
    Visible header ∧
    verifyAuthorizationHeader (fun _ _ => acceptanceDigest) (some header) acceptanceBody "test" =
      true ∧
    Rust.verifyAuthorizationHeader (fun _ _ => acceptanceDigest) (some header) acceptanceBody
      "test" = .error .forbidden := by
  refine ⟨by decide +kernel, by decide +kernel, ?_⟩
  rfl

end BetProcessor
