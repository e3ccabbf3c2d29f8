import BetProcessor.Codec.Hex
import BetProcessor.Codec.Json

namespace Codec
set_option autoImplicit true

section
variable {n needed point lower upper : Nat} {rest : List UInt8}

theorem decodeUtf8_start {b : Nat} (hb : b < 256) {p : Partial} (h : utf8Start b = .inr p) :
    decodeUtf8 none (UInt8.ofNat b :: rest) = decodeUtf8 (some p) rest := by
  rw [decodeUtf8, UInt8.toNat_ofNat_of_lt' hb, h]

theorem decodeUtf8_last (hn : n < 64) (hlower : lower ≤ n + 0x80) (hupper : n + 0x80 ≤ upper) :
    decodeUtf8 (some ⟨1, point, lower, upper⟩) (UInt8.ofNat (n + 0x80) :: rest) =
      some (Char.ofNat (point * 64 + n)) :: decodeUtf8 none rest := by
  rw [decodeUtf8, UInt8.toNat_ofNat_of_lt' (show n + 0x80 < 2 ^ 8 by omega),
    if_pos ⟨hlower, hupper⟩, if_pos rfl, Nat.add_sub_cancel]

theorem decodeUtf8_more (hn : n < 64) (hlower : lower ≤ n + 0x80) (hupper : n + 0x80 ≤ upper) :
    decodeUtf8 (some ⟨needed + 2, point, lower, upper⟩) (UInt8.ofNat (n + 0x80) :: rest) =
      decodeUtf8 (some ⟨needed + 1, point * 64 + n, 0x80, 0xBF⟩) rest := by
  rw [decodeUtf8, UInt8.toNat_ofNat_of_lt' (show n + 0x80 < 2 ^ 8 by omega),
    if_pos ⟨hlower, hupper⟩, if_neg (by dsimp only; omega), Nat.add_sub_cancel]
  rfl

end

theorem decodeUtf8_char (c : Char) (rest : List UInt8) :
    decodeUtf8 none (String.utf8EncodeChar c ++ rest) = some c :: decodeUtf8 none rest := by
  have hvalid : c.val.toNat < 0xD800 ∨ 0xDFFF < c.val.toNat ∧ c.val.toNat < 0x110000 := c.valid
  have hback : ∀ n, n = c.val.toNat → Char.ofNat n = c := by
    rintro n rfl
    exact Char.ofNat_toNat c
  rw [String.utf8EncodeChar]
  generalize c.val.toNat = v at *
  split
  · next h =>
    have hstart : utf8Start v = .inl (some c) := by
      rw [utf8Start, if_pos (by omega), hback v rfl]
    change decodeUtf8 none (UInt8.ofNat v :: rest) = _
    rw [decodeUtf8, UInt8.toNat_ofNat_of_lt' (show v < 2 ^ 8 by omega), hstart]
  split
  · next h =>
    have hstart : utf8Start (v / 64 % 0x20 + 0xc0) = .inr ⟨1, v / 64, 0x80, 0xBF⟩ := by
      have hpoint : v / 64 % 0x20 + 0xc0 - 0xc0 = v / 64 := by omega
      rw [utf8Start, if_neg (by omega), if_neg (by omega), if_pos (by omega), hpoint]
    rw [List.cons_append, decodeUtf8_start (by omega) hstart, List.cons_append,
      decodeUtf8_last (by omega) (by omega) (by omega), hback _ (by omega), List.nil_append]
  split
  · next h =>
    have hstart : utf8Start (v / 4096 % 0x10 + 0xe0) = .inr ⟨2, v / 4096,
        if v / 4096 = 0 then 0xA0 else 0x80, if v / 4096 = 0xD then 0x9F else 0xBF⟩ := by
      have hpoint : v / 4096 % 0x10 + 0xe0 - 0xe0 = v / 4096 := by omega
      have hlower : v / 4096 % 0x10 + 0xe0 = 0xe0 ↔ v / 4096 = 0 := by omega
      have hupper : v / 4096 % 0x10 + 0xe0 = 0xed ↔ v / 4096 = 0xd := by omega
      rw [utf8Start, if_neg (by omega), if_neg (by omega), if_neg (by omega), if_pos (by omega)]
      simp only [hpoint, hlower, hupper]
    rw [List.cons_append, decodeUtf8_start (by omega) hstart, List.cons_append,
      decodeUtf8_more (by omega) (by split <;> omega) (by split <;> omega), List.cons_append,
      decodeUtf8_last (by omega) (by omega) (by omega), hback _ (by omega), List.nil_append]
  · next h =>
    have hstart : utf8Start (v / 262144 % 0x08 + 0xf0) = .inr ⟨3, v / 262144,
        if v / 262144 = 0 then 0x90 else 0x80, if v / 262144 = 4 then 0x8F else 0xBF⟩ := by
      have hpoint : v / 262144 % 0x08 + 0xf0 - 0xf0 = v / 262144 := by omega
      have hlower : v / 262144 % 0x08 + 0xf0 = 0xf0 ↔ v / 262144 = 0 := by omega
      have hupper : v / 262144 % 0x08 + 0xf0 = 0xf4 ↔ v / 262144 = 4 := by omega
      rw [utf8Start, if_neg (by omega), if_neg (by omega), if_neg (by omega), if_neg (by omega),
        if_pos (by omega)]
      simp only [hpoint, hlower, hupper]
    rw [List.cons_append, decodeUtf8_start (by omega) hstart, List.cons_append,
      decodeUtf8_more (by omega) (by split <;> omega) (by split <;> omega), List.cons_append,
      decodeUtf8_more (by omega) (by omega) (by omega), List.cons_append,
      decodeUtf8_last (by omega) (by omega) (by omega), hback _ (by omega), List.nil_append]

theorem decodeUtf8_encode (cs : List Char) :
    decodeUtf8 none (cs.flatMap String.utf8EncodeChar) = cs.map some := by
  induction cs with
  | nil => rfl
  | cons c cs ih => rw [List.flatMap_cons, decodeUtf8_char, ih, List.map_cons]

/-- The letter after the backslash, for a character with a short escape. -/
def shortEscape (c : Char) : Option Char :=
  if c = '"' ∨ c = '\\' then some c
  else if c = Char.ofNat 8 then some 'b'
  else if c = Char.ofNat 12 then some 'f'
  else if c = '\n' then some 'n'
  else if c = '\r' then some 'r'
  else if c = '\t' then some 't'
  else none

/-- A character as it is written inside a string. -/
def escaped (c : Char) : List Char :=
  match shortEscape c with
  | some e => ['\\', e]
  | none =>
    if c.toNat < 0x20 then
      ['\\', 'u', '0', '0', Hex.digit (c.toNat / 16), Hex.digit (c.toNat % 16)]
    else [c]

def Number.spell (n : Number) : List Char :=
  (if n.negative then ['-'] else []) ++ Nat.toDigits 10 n.mantissa ++
    match n.scale with
    | none => []
    | some (.ofNat e) => 'e' :: Nat.toDigits 10 e
    | some (.negSucc e) => 'e' :: '-' :: Nat.toDigits 10 (e + 1)

def Token.spell : Token → List Char
  | .openBrace => ['\x7b']
  | .closeBrace => ['\x7d']
  | .openBracket => ['[']
  | .closeBracket => [']']
  | .colon => [':']
  | .comma => [',']
  | .null => ['n', 'u', 'l', 'l']
  | .bool true => ['t', 'r', 'u', 'e']
  | .bool false => ['f', 'a', 'l', 's', 'e']
  | .number n => n.spell
  | .string t => '"' :: (t.chars.flatMap escaped ++ ['"'])

namespace Lexer
variable {l m k : Lexer} {c : Char} {cs cs' : List Char} {out out' : List Token}

/-- Reading some characters emits some tokens. -/
def Reads (l : Lexer) (cs : List Char) (out : List Token) (m : Lexer) : Prop :=
  ∀ rest, l.tokens (cs.map some ++ rest) = (m.tokens rest).map (out ++ ·)

theorem Reads.nil : Reads l [] [] l := by
  intro rest
  simp

theorem Reads.cons (h : l.step (some c) = some (out, m)) (h' : Reads m cs out' k) :
    Reads l (c :: cs) (out ++ out') k := by
  intro rest
  rw [List.map_cons, List.cons_append, tokens, h]
  change (do
    let later ← m.tokens (cs.map some ++ rest)
    return out ++ later) = _
  rw [h']
  cases k.tokens rest with
  | none => rfl
  | some later => exact congrArg some (List.append_assoc ..).symm

theorem Reads.silent (h : l.step (some c) = some ([], m)) (h' : Reads m cs out k) :
    Reads l (c :: cs) out k := Reads.cons h h'

theorem Reads.step (h : l.step (some c) = some (out, m)) : Reads l [c] out m := by
  have hone := Reads.cons h .nil
  rwa [List.append_nil] at hone

theorem Reads.append (h : Reads l cs out m) (h' : Reads m cs' out' k) :
    Reads l (cs ++ cs') (out ++ out') k := by
  intro rest
  rw [List.map_append, List.append_assoc, h, h']
  cases k.tokens rest with
  | none => rfl
  | some later => exact congrArg some (List.append_assoc ..).symm

theorem unescape_shortEscape {e : Char} (h : shortEscape c = some e) :
    e ≠ 'u' ∧ unescape e = some c := by
  unfold shortEscape at h
  split_ifs at h with hc hc hc hc hc hc
  · cases h
    rcases hc with rfl | rfl <;> decide
  all_goals
    cases h
    subst hc
    decide

theorem hexOf_digit {n : Nat} (h : n < 16) : hexOf (Hex.digit n) = some n := by
  revert n
  decide

theorem not_special (h : shortEscape c = none) : c ≠ '"' ∧ c ≠ '\\' := by
  constructor
  · rintro rfl
    cases h
  · rintro rfl
    cases h

theorem reads_escaped (cs : List Char) (sound : Bool) (c : Char) :
    Reads (string ⟨cs, sound, none⟩) (escaped c) [] (string ⟨cs ++ [c], sound, none⟩) := by
  rw [escaped]
  split
  · next e he =>
    obtain ⟨hu, hunescape⟩ := unescape_shortEscape he
    apply Reads.silent (m := backslash ⟨cs, sound, none⟩) rfl
    apply Reads.step
    rw [Lexer.step, if_neg hu, hunescape]
    rfl
  · next hshort =>
    split
    · next h =>
      have hhigh := hexOf_digit (show c.toNat / 16 < 16 by omega)
      have hlow := hexOf_digit (show c.toNat % 16 < 16 by omega)
      have hpoint : c.toNat / 16 * 16 + c.toNat % 16 = c.toNat := by omega
      have hescape : Reading.escape ⟨cs, sound, none⟩ c.toNat = ⟨cs ++ [c], sound, none⟩ := by
        rw [Reading.escape, if_neg (by omega), if_neg (by omega), Char.ofNat_toNat]
        rfl
      apply Reads.silent (m := backslash ⟨cs, sound, none⟩) rfl
      apply Reads.silent (m := hex ⟨cs, sound, none⟩ 0 0) rfl
      apply Reads.silent (m := hex ⟨cs, sound, none⟩ 1 0) rfl
      apply Reads.silent (m := hex ⟨cs, sound, none⟩ 2 0) rfl
      apply Reads.silent (m := hex ⟨cs, sound, none⟩ 3 (c.toNat / 16))
      · rw [Lexer.step, hhigh]
        simp
      · apply Reads.step
        rw [Lexer.step, hlow]
        simp [hpoint, hescape]
    · next hcontrol =>
      obtain ⟨hquote, hslash⟩ := not_special hshort
      apply Reads.step
      rw [Lexer.step, if_neg hquote, if_neg hslash, if_neg hcontrol]
      rfl

theorem reads_string (cs cs' : List Char) (sound : Bool) :
    Reads (string ⟨cs, sound, none⟩) (cs'.flatMap escaped ++ ['"']) [.string ⟨cs ++ cs', sound⟩]
      idle := by
  induction cs' generalizing cs with
  | nil =>
    rw [List.append_nil]
    exact Reads.step rfl
  | cons c cs' ih =>
    have hrest := ih (cs ++ [c])
    rw [List.append_assoc] at hrest
    rw [List.flatMap_cons, List.append_assoc]
    exact (reads_escaped cs sound c).append hrest

end Lexer

namespace Counting

theorem next_digitChar {d : Nat} (hd : d < 10) (k : Counting) :
    k.next d.digitChar = k.digit d := by
  have hdigit : ∀ d < 10, digitOf (Nat.digitChar d) = some d := by decide
  rw [next, hdigit d hd]

theorem foldlM_mantissa (negative : Bool) (m : Nat) :
    (Nat.toDigits 10 m).foldlM next { negative } =
      some { phase := if m = 0 then .zero else .int, negative, mantissa := m } := by
  induction m using Nat.strongRecOn with
  | ind m ih =>
    by_cases hm : m < 10
    · rw [Nat.toDigits_of_lt_base hm, List.foldlM_cons, next_digitChar hm]
      rfl
    · rw [Nat.toDigits_of_base_le (by decide) (not_lt.1 hm), List.foldlM_append, ih _ (by omega),
        if_neg (by omega), if_neg (by omega)]
      change next _ _ >>= pure = _
      rw [bind_pure, next_digitChar (by omega), digit]
      have hback : m / 10 * 10 + m % 10 = m := by omega
      dsimp only
      rw [hback]

theorem foldlM_power {k : Counting} (hphase : k.phase = .e ∨ k.phase = .sign) (hpower : k.power = 0)
    (m : Nat) : (Nat.toDigits 10 m).foldlM next k = some { k with
      phase := .exponent
      power := m } := by
  induction m using Nat.strongRecOn with
  | ind m ih =>
    by_cases hm : m < 10
    · rw [Nat.toDigits_of_lt_base hm, List.foldlM_cons, next_digitChar hm, digit]
      rcases hphase with h | h <;> simp [h, hpower]
    · rw [Nat.toDigits_of_base_le (by decide) (not_lt.1 hm), List.foldlM_append, ih _ (by omega)]
      change next _ _ >>= pure = _
      rw [bind_pure, next_digitChar (by omega), digit]
      have hback : m / 10 * 10 + m % 10 = m := by omega
      dsimp only
      rw [hback]

/-- The text of a number after its sign counts up to it. -/
theorem foldlM_unsigned (n : Number) : ∃ k, (Nat.toDigits 10 n.mantissa ++
    match n.scale with
    | none => []
    | some (.ofNat e) => 'e' :: Nat.toDigits 10 e
    | some (.negSucc e) => 'e' :: '-' :: Nat.toDigits 10 (e + 1)).foldlM next
      { negative := n.negative } = some k ∧ k.finished = some n := by
  obtain ⟨negative, m, scale⟩ := n
  have hphase : (if m = 0 then Phase.zero else .int) = .zero ∨
      (if m = 0 then Phase.zero else .int) = .int := by
    split
    · exact Or.inl rfl
    · exact Or.inr rfl
  rw [List.foldlM_append, foldlM_mantissa]
  generalize (if m = 0 then Phase.zero else .int) = phase at hphase
  change ∃ k, List.foldlM _ _ _ = _ ∧ _
  match scale with
  | none =>
    refine ⟨_, rfl, ?_⟩
    rcases hphase with rfl | rfl <;> rfl
  | some (.ofNat e) =>
    have he : next { phase, negative, mantissa := m } 'e' =
        some { phase := .e, negative, mantissa := m } := by
      rcases hphase with rfl | rfl <;> rfl
    rw [List.foldlM_cons, he]
    refine ⟨_, foldlM_power (Or.inl rfl) rfl e, ?_⟩
    simp [finished]
  | some (.negSucc e) =>
    have he : next { phase, negative, mantissa := m } 'e' =
        some { phase := .e, negative, mantissa := m } := by
      rcases hphase with rfl | rfl <;> rfl
    rw [List.foldlM_cons, he]
    refine ⟨_, foldlM_power (k := { phase := .sign, negative, mantissa := m, down := true })
      (Or.inr rfl) rfl (e + 1), ?_⟩
    simp [finished, Int.negSucc_eq]

end Counting

namespace Lexer
variable {l m : Lexer} {c : Char} {cs : List Char} {out : List Token}

theorem start_digit {d : Nat} (h : digitOf c = some d) :
    start c = (Counting.digit { } d).map fun k => ([], number k) := by
  have hne : ∀ x, digitOf x = none → c ≠ x := by
    rintro x hx rfl
    rw [hx] at h
    cases h
  simp only [start, hne ' ' rfl, hne '\t' rfl, hne '\n' rfl, hne '\r' rfl, hne '\x7b' rfl,
    hne '\x7d' rfl, hne '[' rfl, hne ']' rfl, hne ':' rfl, hne ',' rfl, hne '"' rfl, hne 't' rfl,
    hne 'f' rfl, hne 'n' rfl, hne '-' rfl, h, or_self, if_false]

theorem reads_number {k k' : Counting} (h : cs.foldlM Counting.next k = some k') :
    Reads (number k) cs [] (number k') := by
  induction cs generalizing k with
  | nil =>
    cases h
    exact .nil
  | cons c cs ih =>
    rw [List.foldlM_cons] at h
    obtain ⟨k₁, hk₁, h⟩ := Option.bind_eq_some_iff.1 h
    apply Reads.silent (m := number k₁) _ (ih h)
    rw [Lexer.step, hk₁]

theorem start_number (n : Number) : ∃ c cs k k', n.spell = c :: cs ∧
    start c = some ([], number k) ∧ cs.foldlM Counting.next k = some k' ∧
      k'.finished = some n := by
  obtain ⟨k', hk', hfinished⟩ := Counting.foldlM_unsigned n
  cases hn : n.negative with
  | true =>
    rw [hn] at hk'
    refine ⟨'-', _, _, k', ?_, rfl, hk', hfinished⟩
    rw [Number.spell, hn, List.append_assoc]
    rfl
  | false =>
    rw [hn] at hk'
    rw [Number.spell, hn]
    cases hdigits : Nat.toDigits 10 n.mantissa with
    | nil => exact absurd hdigits Nat.toDigits_ne_nil
    | cons c cs =>
      rw [hdigits, List.cons_append, List.foldlM_cons] at hk'
      obtain ⟨k, hk, hk'⟩ := Option.bind_eq_some_iff.1 hk'
      refine ⟨c, _, k, k', rfl, ?_, hk', hfinished⟩
      rw [Counting.next] at hk
      split at hk
      · next d hd =>
        rw [start_digit hd, hk]
        rfl
      · simp at hk

/-- The reader holds back tokens that the next character may still be part of. -/
inductive Holds : Lexer → List Token → Prop where
  | idle : Holds idle []
  | word {token} : Holds (word [] token) [token]
  | number {k n} : k.finished = some n → Holds (number k) [.number n]

/-- What cannot continue a number. -/
structure Ends (c : Char) : Prop where
  digit : digitOf c = none
  point : c ≠ '.'
  e : c ≠ 'e'
  E : c ≠ 'E'

theorem Holds.finish {ts : List Token} (h : Holds l ts) : l.finish = some ts := by
  cases h with
  | idle => rfl
  | word => rfl
  | number h => rw [Lexer.finish, h, Option.map_some]

theorem Holds.step {ts : List Token} (h : Holds l ts) (hc : Ends c) :
    l.step (some c) = (start c).map fun next => (ts ++ next.1, next.2) := by
  cases h with
  | idle => simp [Lexer.step]
  | word => rfl
  | @number k n h =>
    have hnext : k.next c = none := by
      have hsign : k.phase ≠ .e := by
        intro he
        rw [Counting.finished, he] at h
        cases h
      simp [Counting.next, hc.digit, hc.point, hc.e, hc.E, hsign]
    rw [Lexer.step, hnext, h]
    cases start c <;> rfl

/-- Read from the start, the tokens are emitted, or held back at the end. -/
def Lexes (ts : List Token) (held : List Token) : Prop :=
  ∃ out l, Reads idle (ts.flatMap Token.spell) out l ∧ Holds l held ∧ out ++ held = ts

theorem Lexes.tokens {ts held : List Token} (h : Lexes ts held) :
    idle.tokens ((ts.flatMap Token.spell).map some) = some ts := by
  obtain ⟨out, l, hreads, hholds, heq⟩ := h
  have hall := hreads []
  rw [List.append_nil] at hall
  rw [hall, Lexer.tokens, hholds.finish, Option.map_some, heq]

end Lexer

def Token.isPunctuation : Token → Bool
  | .openBrace | .closeBrace | .openBracket | .closeBracket | .colon | .comma => true
  | _ => false

namespace Lexer
variable {t : Token} {ts ts' held held' : List Token}

theorem start_punctuation (h : t.isPunctuation = true) :
    ∃ c, t.spell = [c] ∧ Ends c ∧ start c = some ([t], idle) := by
  cases t with
  | null | bool | number | string => cases h
  | _ => exact ⟨_, rfl, ⟨rfl, by decide, by decide, by decide⟩, rfl⟩

theorem Lexes.nil : Lexes [] [] := ⟨[], idle, .nil, .idle, rfl⟩

/-- What is held back ends at the next mark. -/
theorem Lexes.punctuate (h : Lexes ts held) (ht : t.isPunctuation = true) :
    Lexes (ts ++ [t]) [] := by
  obtain ⟨out, l, hreads, hholds, rfl⟩ := h
  obtain ⟨c, hspell, hc, hstart⟩ := start_punctuation ht
  refine ⟨out ++ (held ++ [t]), idle, ?_, .idle, by simp⟩
  rw [List.flatMap_append, List.flatMap_singleton, hspell]
  apply hreads.append
  apply Reads.step
  rw [hholds.step hc, hstart]
  rfl

theorem Lexes.append (h : Lexes ts []) (h' : Lexes ts' held) : Lexes (ts ++ ts') held := by
  obtain ⟨out, l, hreads, hholds, rfl⟩ := h
  obtain ⟨out', l', hreads', hholds', rfl⟩ := h'
  cases hholds with
  | idle =>
    refine ⟨out ++ out', l', ?_, hholds', by simp⟩
    rw [List.flatMap_append]
    exact hreads.append hreads'

theorem lexes_punctuation (ht : t.isPunctuation = true) : Lexes [t] [] :=
  Lexes.nil.punctuate ht

theorem lexes_null : Lexes [.null] [.null] := by
  refine ⟨[], word [] .null, ?_, .word, rfl⟩
  apply Reads.silent (m := word ['u', 'l', 'l'] .null) rfl
  apply Reads.silent (m := word ['l', 'l'] .null) rfl
  exact Reads.silent rfl (.step rfl)

theorem lexes_bool (b : Bool) : Lexes [.bool b] [.bool b] := by
  refine ⟨[], word [] (.bool b), ?_, .word, rfl⟩
  cases b with
  | true => exact Reads.silent rfl (.silent rfl (.silent rfl (.step rfl)))
  | false => exact Reads.silent rfl (.silent rfl (.silent rfl (.silent rfl (.step rfl))))

theorem lexes_number (n : Number) : Lexes [.number n] [.number n] := by
  obtain ⟨c, cs, k, k', hspell, hstart, hcount, hfinished⟩ := start_number n
  refine ⟨[], number k', ?_, .number hfinished, rfl⟩
  rw [List.flatMap_singleton, Token.spell, hspell]
  exact Reads.silent hstart (reads_number hcount)

theorem lexes_string (s : Text) (h : s.sound = true) : Lexes [.string s] [] := by
  obtain ⟨cs, sound⟩ := s
  obtain rfl : sound = true := h
  refine ⟨[.string ⟨cs, true⟩], idle, ?_, .idle, rfl⟩
  rw [List.flatMap_singleton]
  exact Reads.silent (m := string { }) rfl (reads_string [] cs true)

end Lexer

namespace Json

mutual

/-- The tokens of a document in the order in which they are written, without blanks. -/
def tokens : Json → List Token
  | null => [.null]
  | bool b => [.bool b]
  | number n => [.number n]
  | string t => [.string t]
  | array [] => [.openBracket, .closeBracket]
  | array (json :: rest) => .openBracket :: (json.tokens ++ laterItems rest)
  | object [] => [.openBrace, .closeBrace]
  | object ((key, json) :: rest) =>
    .openBrace :: .string key :: .colon :: (json.tokens ++ laterMembers rest)

def laterItems : List Json → List Token
  | [] => [.closeBracket]
  | json :: rest => .comma :: (json.tokens ++ laterItems rest)

def laterMembers : List (Text × Json) → List Token
  | [] => [.closeBrace]
  | (key, json) :: rest =>
    .comma :: .string key :: .colon :: (json.tokens ++ laterMembers rest)

end

mutual

/-- Every string of the document is sound. -/
def Sound : Json → Prop
  | null => True
  | bool _ => True
  | number _ => True
  | string t => t.sound = true
  | array items => SoundItems items
  | object members => SoundMembers members

def SoundItems : List Json → Prop
  | [] => True
  | json :: rest => json.Sound ∧ SoundItems rest

def SoundMembers : List (Text × Json) → Prop
  | [] => True
  | (key, json) :: rest => key.sound = true ∧ json.Sound ∧ SoundMembers rest

end

/-- The text that `JSON.stringify` and `serde_json` write. -/
def write (json : Json) : List Char := json.tokens.flatMap Token.spell

def bytes (json : Json) : List UInt8 := json.write.flatMap String.utf8EncodeChar

mutual

theorem lexes : (json : Json) → json.Sound → ∃ held, Lexer.Lexes json.tokens held
  | null, _ => ⟨_, Lexer.lexes_null⟩
  | bool b, _ => ⟨_, Lexer.lexes_bool b⟩
  | number n, _ => ⟨_, Lexer.lexes_number n⟩
  | string t, h => ⟨_, Lexer.lexes_string t h⟩
  | array [], _ => ⟨_, (Lexer.lexes_punctuation rfl).punctuate rfl⟩
  | array (json :: rest), h => by
    obtain ⟨held, hjson⟩ := lexes json h.1
    exact ⟨_, (Lexer.lexes_punctuation rfl).append (lexes_laterItems rest h.2 hjson)⟩
  | object [], _ => ⟨_, (Lexer.lexes_punctuation rfl).punctuate rfl⟩
  | object ((key, json) :: rest), h => by
    obtain ⟨held, hjson⟩ := lexes json h.2.1
    have hkey := (Lexer.lexes_punctuation (t := .openBrace) rfl).append
      (Lexer.lexes_string key h.1)
    exact ⟨_, (hkey.punctuate (t := .colon) rfl).append (lexes_laterMembers rest h.2.2 hjson)⟩

theorem lexes_laterItems : (items : List Json) → SoundItems items → {ts held : List Token} →
    Lexer.Lexes ts held → Lexer.Lexes (ts ++ laterItems items) []
  | [], _, _, _, hts => hts.punctuate rfl
  | json :: rest, h, ts, _, hts => by
    obtain ⟨held, hjson⟩ := lexes json h.1
    have hrest := (hts.punctuate (t := .comma) rfl).append (lexes_laterItems rest h.2 hjson)
    rwa [List.append_assoc] at hrest

theorem lexes_laterMembers : (members : List (Text × Json)) → SoundMembers members →
    {ts held : List Token} → Lexer.Lexes ts held → Lexer.Lexes (ts ++ laterMembers members) []
  | [], _, _, _, hts => hts.punctuate rfl
  | (key, json) :: rest, h, ts, _, hts => by
    obtain ⟨held, hjson⟩ := lexes json h.2.1
    have hkey := (hts.punctuate (t := .comma) rfl).append (Lexer.lexes_string key h.1)
    have hrest := (hkey.punctuate (t := .colon) rfl).append (lexes_laterMembers rest h.2.2 hjson)
    simpa [laterMembers] using hrest

end

theorem tokens_cons (json : Json) : ∃ t ts, json.tokens = t :: ts ∧ t ≠ .closeBracket := by
  cases json with
  | array items => cases items <;> exact ⟨_, _, rfl, nofun⟩
  | object members => cases members <;> exact ⟨_, _, rfl, nofun⟩
  | _ => exact ⟨_, _, rfl, nofun⟩

theorem firstItem_tokens (json : Json) (stack : List Frame) :
    json.tokens.foldlM Parser.step (.firstItem stack) =
      json.tokens.foldlM Parser.step (.value (.array [] :: stack)) := by
  obtain ⟨t, ts, htokens, ht⟩ := json.tokens_cons
  rw [htokens, List.foldlM_cons, List.foldlM_cons]
  have hstep : Parser.step (.firstItem stack) t = Parser.open_ (.array [] :: stack) t := by
    cases t with
    | closeBracket => exact absurd rfl ht
    | _ => rfl
  rw [hstep]
  rfl

mutual

theorem parses : (json : Json) → (stack : List Frame) →
    json.tokens.foldlM Parser.step (.value stack) = some (.done stack json)
  | null, _ => rfl
  | bool _, _ => rfl
  | number _, _ => rfl
  | string _, _ => rfl
  | array [], _ => rfl
  | array (json :: rest), stack => by
    change (json.tokens ++ laterItems rest).foldlM Parser.step (.firstItem stack) = _
    rw [List.foldlM_append, firstItem_tokens, parses json]
    exact parses_laterItems rest stack [] json
  | object [], _ => rfl
  | object ((key, json) :: rest), stack => by
    change (json.tokens ++ laterMembers rest).foldlM Parser.step
      (.value (.object [] key :: stack)) = _
    rw [List.foldlM_append, parses json]
    exact parses_laterMembers rest stack [] key json

theorem parses_laterItems : (rest : List Json) → (stack : List Frame) → (items : List Json) →
    (json : Json) → (laterItems rest).foldlM Parser.step (.done (.array items :: stack) json) =
      some (.done stack (.array (items ++ json :: rest)))
  | [], _, _, _ => rfl
  | later :: rest, stack, items, json => by
    change (later.tokens ++ laterItems rest).foldlM Parser.step
      (.value (.array (items ++ [json]) :: stack)) = _
    rw [List.foldlM_append, parses later]
    have hrest := parses_laterItems rest stack (items ++ [json]) later
    rwa [List.append_assoc] at hrest

theorem parses_laterMembers : (rest : List (Text × Json)) → (stack : List Frame) →
    (members : List (Text × Json)) → (key : Text) → (json : Json) →
    (laterMembers rest).foldlM Parser.step (.done (.object members key :: stack) json) =
      some (.done stack (.object (members ++ (key, json) :: rest)))
  | [], _, _, _, _ => rfl
  | (later, value) :: rest, stack, members, key, json => by
    change (value.tokens ++ laterMembers rest).foldlM Parser.step
      (.value (.object (members ++ [(key, json)]) later :: stack)) = _
    rw [List.foldlM_append, parses value]
    have hrest := parses_laterMembers rest stack (members ++ [(key, json)]) later value
    rwa [List.append_assoc] at hrest

end

/-- A document whose strings are sound is what its text is parsed to. -/
theorem parseJson_bytes {json : Json} (h : json.Sound) : parseJson json.bytes = some json := by
  obtain ⟨held, hlexes⟩ := json.lexes h
  rw [parseJson, bytes, decodeUtf8_encode, write, hlexes.tokens]
  change json.tokens.foldlM Parser.step (.value []) >>= Parser.result = _
  rw [parses]
  rfl

theorem soundItems_iff {items : List Json} : SoundItems items ↔ ∀ json ∈ items, json.Sound := by
  induction items with
  | nil => simp [SoundItems]
  | cons json rest ih => rw [SoundItems, ih, List.forall_mem_cons]

theorem soundMembers_iff {members : List (Text × Json)} :
    SoundMembers members ↔ ∀ member ∈ members, member.1.sound = true ∧ member.2.Sound := by
  induction members with
  | nil => simp [SoundMembers]
  | cons member rest ih => rw [SoundMembers, ih, List.forall_mem_cons, and_assoc]

end Json

def Text.ofString (s : String) : Text := ⟨s.toList, true⟩

namespace Json

def str (s : String) : Json := .string (.ofString s)

def int (i : Int) : Json := .number ⟨i < 0, i.natAbs, none⟩

/-- The members of an object, without those that have no value. -/
def members (fields : List (String × Option Json)) : List (Text × Json) :=
  fields.filterMap fun field => field.2.map (Text.ofString field.1, ·)

theorem int_integer (i : Int) : Number.integer ⟨i < 0, i.natAbs, none⟩ = i := by
  rw [Number.integer]
  by_cases h : i < 0
  · rw [if_pos (decide_eq_true h), Int.ofNat_natAbs_of_nonpos h.le, neg_neg]
  · rw [if_neg (by simpa using h), Int.natAbs_of_nonneg (not_lt.1 h)]

section
variable {fields : List (String × Option Json)} {key : String} {value : Option Json}

theorem sound_members (h : ∀ field ∈ fields, ∀ json ∈ field.2, json.Sound) :
    (object (members fields)).Sound := by
  refine soundMembers_iff.2 ?_
  intro member hmember
  obtain ⟨field, hfield, hvalue⟩ := List.mem_filterMap.1 hmember
  obtain ⟨json, hjson, rfl⟩ := Option.map_eq_some_iff.1 hvalue
  exact ⟨rfl, h field hfield json hjson⟩

theorem members_none (rest : List (String × Option Json)) :
    members ((key, none) :: rest) = members rest := rfl

theorem members_some (json : Json) (rest : List (String × Option Json)) :
    members ((key, some json) :: rest) = (Text.ofString key, json) :: members rest := rfl

theorem ofString_chars {key' : String} :
    (Text.ofString key').chars = key.toList ↔ key' = key := String.toList_inj

theorem filter_members_nil (h : key ∉ fields.map (·.1)) :
    (members fields).filter (·.1.chars = key.toList) = [] := by
  apply List.filter_eq_nil_iff.2
  intro member hmember
  obtain ⟨field, hfield, hvalue⟩ := List.mem_filterMap.1 hmember
  obtain ⟨json, _, rfl⟩ := Option.map_eq_some_iff.1 hvalue
  intro heq
  exact h (ofString_chars.1 (of_decide_eq_true heq) ▸ List.mem_map_of_mem hfield)

theorem filter_members (hnodup : (fields.map (·.1)).Nodup) (hmem : (key, value) ∈ fields) :
    (members fields).filter (·.1.chars = key.toList) =
      value.toList.map (Text.ofString key, ·) := by
  induction fields with
  | nil => cases hmem
  | cons field rest ih =>
    obtain ⟨key', value'⟩ := field
    rw [List.map_cons, List.nodup_cons] at hnodup
    obtain ⟨hkey, hrest⟩ := hnodup
    rcases List.mem_cons.1 hmem with heq | hlater
    · cases heq
      cases value with
      | none =>
        rw [members_none]
        exact filter_members_nil hkey
      | some json =>
        have hself : decide ((Text.ofString key).chars = key.toList) = true :=
          decide_eq_true (ofString_chars.2 rfl)
        rw [members_some, List.filter_cons, if_pos hself, filter_members_nil hkey]
        rfl
    · have hne : key' ≠ key := by
        rintro rfl
        exact hkey (List.mem_map.2 ⟨_, hlater, rfl⟩)
      cases value' with
      | none =>
        rw [members_none]
        exact ih hrest hlater
      | some json =>
        have hother : ¬decide ((Text.ofString key').chars = key.toList) = true := by
          rwa [decide_eq_true_eq, ofString_chars]
        rw [members_some, List.filter_cons, if_neg hother]
        exact ih hrest hlater

theorem last?_members_nil (h : key ∉ fields.map (·.1)) : last? (members fields) key = none := by
  rw [last?, ← List.head?_filter, List.filter_reverse, List.head?_reverse, filter_members_nil h]
  rfl

theorem last?_members (hnodup : (fields.map (·.1)).Nodup) (hmem : (key, value) ∈ fields) :
    last? (members fields) key = value := by
  have hfilter := filter_members hnodup hmem
  rw [last?, ← List.head?_filter, List.filter_reverse, List.head?_reverse, hfilter]
  cases value <;> rfl

end

end Json
end Codec
