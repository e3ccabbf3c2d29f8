import Mathlib.Data.String.Basic
import Mathlib.Tactic.Ring

namespace Codec.Hex
set_option autoImplicit true

/-- The lower case digit of a number below 16. -/
def digit (n : Nat) : Char := "0123456789abcdef".toList.getD n '0'

/-- The value of a digit in any letter case. -/
def nibble (c : Char) : Option Nat := "0123456789abcdef".toList.idxOf? c.toLower

theorem idxOf_digit {n : Nat} (h : n < 16) :
    "0123456789abcdef".toList.idxOf? (digit n) = some n := by
  revert n
  decide

/-- A character stands for a value exactly when its lower case is the digit of that value. -/
theorem nibble_eq_some {c : Char} {n : Nat} : nibble c = some n ↔ n < 16 ∧ c.toLower = digit n := by
  constructor
  · intro h
    obtain ⟨hn, hget, _⟩ := List.idxOf?_eq_some_iff.1 h
    constructor
    · exact hn
    · rw [digit, List.getD_eq_getElem?_getD, List.getElem?_eq_getElem hn]
      exact hget.symm
  · intro ⟨hn, hc⟩
    rw [nibble, hc, idxOf_digit hn]

/-- Two digits for each byte, in lower case. -/
def encode (bytes : List UInt8) : List Char :=
  bytes.flatMap fun b => [digit (b.toNat / 16), digit (b.toNat % 16)]

def byte (high low : Nat) : UInt8 := UInt8.ofNat (16 * high + low)

/-- The bytes of a text of digit pairs. -/
def decode? : List Char → Option (List UInt8)
  | [] => some []
  | [_] => none
  | c :: d :: rest => do
    let high ← nibble c
    let low ← nibble d
    let bytes ← decode? rest
    return byte high low :: bytes

/-- The bytes of a text up to the first pair that is none. -/
def decodePairs : List Char → List UInt8
  | c :: d :: rest =>
    match nibble c, nibble d with
    | some high, some low => byte high low :: decodePairs rest
    | _, _ => []
  | _ => []

theorem byte_toNat {high low : Nat} (hhigh : high < 16) (hlow : low < 16) :
    (byte high low).toNat / 16 = high ∧ (byte high low).toNat % 16 = low := by
  have hlt : 16 * high + low < 2 ^ 8 := by omega
  rw [byte, UInt8.toNat_ofNat_of_lt' hlt]
  omega

theorem byte_split (b : UInt8) : byte (b.toNat / 16) (b.toNat % 16) = b := by
  rw [byte, Nat.div_add_mod, UInt8.ofNat_toNat]

theorem encode_cons (b : UInt8) (bytes : List UInt8) : encode (b :: bytes) =
    digit (b.toNat / 16) :: digit (b.toNat % 16) :: encode bytes := rfl

theorem encode_length (bytes : List UInt8) : (encode bytes).length = 2 * bytes.length := by
  induction bytes with
  | nil => rfl
  | cons b bytes ih =>
    rw [encode_cons, List.length_cons, List.length_cons, ih, List.length_cons]
    ring

/-- A text decodes to the bytes whose encoding it is, up to letter case. -/
theorem decode?_eq_some {text : List Char} {bytes : List UInt8} :
    decode? text = some bytes ↔ text.map Char.toLower = encode bytes := by
  induction text using decode?.induct generalizing bytes with
  | case1 =>
    cases bytes with
    | nil => simp [decode?, encode]
    | cons b bytes => simp [decode?, encode_cons]
  | case2 c =>
    cases bytes with
    | nil => simp [decode?, encode]
    | cons b bytes => simp [decode?, encode_cons]
  | case3 c d rest ih =>
    cases bytes with
    | nil => simp [decode?, encode, Option.bind_eq_some_iff]
    | cons b bytes =>
      have hhigh : b.toNat / 16 < 16 := by have := b.toNat_lt; omega
      have hlow : b.toNat % 16 < 16 := by omega
      simp only [List.map_cons, encode_cons, List.cons.injEq, ← ih]
      constructor
      · intro h
        simp only [decode?, Option.bind_eq_bind, Option.bind_eq_some_iff, Option.pure_def,
          Option.some.injEq, List.cons.injEq] at h
        obtain ⟨high, hc, low, hd, _, hrest, rfl, rfl⟩ := h
        have hc := nibble_eq_some.1 hc
        have hd := nibble_eq_some.1 hd
        rw [(byte_toNat hc.1 hd.1).1, (byte_toNat hc.1 hd.1).2]
        exact ⟨hc.2, hd.2, hrest⟩
      · intro ⟨hc, hd, hrest⟩
        rw [decode?, nibble_eq_some.2 ⟨hhigh, hc⟩, nibble_eq_some.2 ⟨hlow, hd⟩, hrest]
        exact congrArg (fun b => some (b :: bytes)) (byte_split b)

/-- What holds of the sixteen digits holds of every character of an encoding. -/
theorem forall_mem_encode {p : Char → Prop} (h : ∀ n < 16, p (digit n)) (bytes : List UInt8) :
    ∀ c ∈ encode bytes, p c := by
  intro c hc
  obtain ⟨b, _, hc⟩ := List.mem_flatMap.1 hc
  have hhigh : b.toNat / 16 < 16 := by have := b.toNat_lt; omega
  have hlow : b.toNat % 16 < 16 := by omega
  simp only [List.mem_cons, List.not_mem_nil, or_false] at hc
  obtain rfl | rfl := hc
  · exact h _ hhigh
  · exact h _ hlow

theorem decode?_encode (bytes : List UInt8) : decode? (encode bytes) = some bytes := by
  rw [decode?_eq_some]
  conv_rhs => rw [← List.map_id (encode bytes)]
  exact List.map_congr_left (forall_mem_encode (by decide) bytes)

theorem decodePairs_eq {text : List Char} {bytes : List UInt8} (h : decode? text = some bytes) :
    decodePairs text = bytes := by
  induction text using decode?.induct generalizing bytes with
  | case1 => exact Option.some.inj h
  | case2 c => cases h
  | case3 c d rest ih =>
    simp only [decode?, Option.bind_eq_bind, Option.bind_eq_some_iff, Option.pure_def,
      Option.some.injEq] at h
    obtain ⟨high, hc, low, hd, bytes, hrest, rfl⟩ := h
    rw [decodePairs, hc, hd, ih hrest]

def isDigit (c : Char) : Bool := (nibble c).isSome

theorem exists_decode {text : List Char} (n : Nat) (hlength : text.length = 2 * n)
    (h : text.all isDigit) : ∃ bytes, decode? text = some bytes ∧ bytes.length = n := by
  induction n generalizing text with
  | zero =>
    rw [List.length_eq_zero_iff.1 hlength]
    exact ⟨[], rfl, rfl⟩
  | succ n ih =>
    match text with
    | c :: d :: rest =>
      simp only [List.length_cons] at hlength
      simp only [List.all_cons, Bool.and_eq_true] at h
      obtain ⟨high, hc⟩ := Option.isSome_iff_exists.1 h.1
      obtain ⟨low, hd⟩ := Option.isSome_iff_exists.1 h.2.1
      obtain ⟨bytes, hrest, hbytes⟩ := ih (by omega) h.2.2
      exact ⟨byte high low :: bytes, by rw [decode?, hc, hd, hrest]; rfl, congrArg (· + 1) hbytes⟩
    | [_] => simp at hlength; omega
    | [] => simp at hlength

end Codec.Hex
