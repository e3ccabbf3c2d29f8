import BetProcessor.Codec.Writer

namespace Codec.Query
set_option autoImplicit true

/-- The characters that `encodeURIComponent` keeps. -/
def isUnreserved (c : Char) : Bool := c.isAlphanum || "-_.!~*'()".toList.contains c

def percent (b : UInt8) : List Char :=
  [ '%', (Hex.digit (b.toNat / 16)).toUpper, (Hex.digit (b.toNat % 16)).toUpper]

def encodeChar (c : Char) : List Char :=
  if isUnreserved c then [c] else (String.utf8EncodeChar c).flatMap percent

/-- `encodeURIComponent` -/
def encode (cs : List Char) : List Char := cs.flatMap encodeChar

/-- The bytes that a part of a query string stands for. -/
def bytes : List Char → List UInt8
  | [] => []
  | '%' :: high :: low :: rest =>
    match Hex.nibble high, Hex.nibble low with
    | some h, some l => Hex.byte h l :: bytes rest
    | _, _ => String.utf8EncodeChar '%' ++ bytes (high :: low :: rest)
  | '+' :: rest => 0x20 :: bytes rest
  | c :: rest => String.utf8EncodeChar c ++ bytes rest

def decode (cs : List Char) : List Char :=
  (decodeUtf8 none (bytes cs)).map (·.getD replacement)

/-- The names and values of a query string. -/
def pairs (query : List Char) : List (List Char × List Char) :=
  ((query.splitOn '&').filter (· ≠ [])).map fun field =>
    (decode (field.takeWhile (· ≠ '=')), decode ((field.dropWhile (· ≠ '=')).drop 1))

/-- A query string of names and values as they stand. -/
def form (fields : List (List Char × List Char)) : List Char :=
  List.intercalate [ '&'] (fields.map fun field => field.1 ++ '=' :: field.2)

/-- A query string of some names and values, each of them encoded. -/
def encoded (fields : List (List Char × List Char)) : List Char :=
  form (fields.map fun field => (encode field.1, encode field.2))

/-- A parser of query strings gives back what has been encoded. -/
def IsParser (parse : List Char → List (List Char × List Char)) : Prop :=
  ∀ fields, (∀ field ∈ fields, field.1 ≠ []) → parse (encoded fields) = fields

/-- The value of a field, if there is one, unless it stands there twice. -/
def field (fields : List (List Char × List Char)) (name : String) : Option (Option (List Char)) :=
  match fields.filter (·.1 = name.toList) with
  | [] => some none
  | [field] => some (some field.2)
  | _ => none

/-- The fields that are there. -/
def present (fields : List (String × Option (List Char))) : List (List Char × List Char) :=
  fields.filterMap fun field => field.2.map (field.1.toList, ·)

theorem nibble_upper {n : Nat} (h : n < 16) : Hex.nibble (Hex.digit n).toUpper = some n := by
  revert n
  decide

theorem bytes_percent (b : UInt8) (rest : List Char) :
    bytes (percent b ++ rest) = b :: bytes rest := by
  have hb := b.toNat_lt
  change bytes ('%' :: _ :: _ :: rest) = _
  rw [bytes, nibble_upper (by omega), nibble_upper (by omega)]
  dsimp only
  rw [Hex.byte_split]

theorem bytes_percents (bs : List UInt8) (rest : List Char) :
    bytes (bs.flatMap percent ++ rest) = bs ++ bytes rest := by
  induction bs with
  | nil => rfl
  | cons b bs ih =>
    rw [List.flatMap_cons, List.append_assoc, bytes_percent, ih]
    rfl

theorem bytes_unreserved {c : Char} (h : isUnreserved c) (rest : List Char) :
    bytes (c :: rest) = String.utf8EncodeChar c ++ bytes rest := by
  have hpercent : c ≠ '%' := by
    rintro rfl
    cases h
  have hplus : c ≠ '+' := by
    rintro rfl
    cases h
  rw [bytes]
  · rintro high low rest' rfl
    exact absurd rfl hpercent
  · exact hplus

theorem bytes_encode (cs : List Char) : bytes (encode cs) = cs.flatMap String.utf8EncodeChar := by
  induction cs with
  | nil => rfl
  | cons c cs ih =>
    rw [encode, List.flatMap_cons, List.flatMap_cons, encodeChar, ← ih]
    split
    · next h => exact bytes_unreserved h _
    · exact bytes_percents _ _

theorem decode_encode (cs : List Char) : decode (encode cs) = cs := by
  rw [decode, bytes_encode, decodeUtf8_encode, List.map_map]
  exact List.map_id cs

theorem encode_unreserved {cs : List Char} (h : cs.all isUnreserved) : encode cs = cs := by
  induction cs with
  | nil => rfl
  | cons c cs ih =>
    rw [List.all_cons, Bool.and_eq_true] at h
    rw [encode, List.flatMap_cons, encodeChar, if_pos h.1, ← encode, ih h.2]
    rfl

theorem digit_not_separator {n : Nat} (h : n < 16) :
    (Hex.digit n).toUpper ≠ '&' ∧ (Hex.digit n).toUpper ≠ '=' := by
  revert n
  decide

/-- What has been encoded has no separator. -/
theorem encode_no_separator {cs : List Char} {c : Char} (h : c ∈ encode cs) :
    c ≠ '&' ∧ c ≠ '=' := by
  obtain ⟨d, _, hc⟩ := List.mem_flatMap.1 h
  rw [encodeChar] at hc
  split at hc
  · next hd =>
    rw [List.mem_singleton.1 hc]
    constructor
    · rintro rfl
      cases hd
    · rintro rfl
      cases hd
  · obtain ⟨b, _, hc⟩ := List.mem_flatMap.1 hc
    have hb := b.toNat_lt
    simp only [percent, List.mem_cons, List.not_mem_nil, or_false] at hc
    rcases hc with rfl | rfl | rfl
    · decide
    · exact digit_not_separator (by omega)
    · exact digit_not_separator (by omega)

/-- The fields of a query string are those it was made of. -/
theorem pairs_form {fields : List (List Char × List Char)} (hne : fields ≠ [])
    (hname : ∀ field ∈ fields, ∀ c ∈ field.1, c ≠ '&' ∧ c ≠ '=')
    (hvalue : ∀ field ∈ fields, '&' ∉ field.2) :
    pairs (form fields) = fields.map fun field => (decode field.1, decode field.2) := by
  have hsplit : (form fields).splitOn '&' = fields.map fun field => field.1 ++ '=' :: field.2 := by
    apply List.splitOn_intercalate
    · intro part hpart
      obtain ⟨field, hfield, rfl⟩ := List.mem_map.1 hpart
      simp only [List.mem_append, List.mem_cons, not_or]
      exact ⟨fun h => (hname field hfield _ h).1 rfl, by decide, hvalue field hfield⟩
    · exact fun h => hne (List.map_eq_nil_iff.1 h)
  have hfilter : (fields.map fun field => field.1 ++ '=' :: field.2).filter (· ≠ []) =
      fields.map fun field => field.1 ++ '=' :: field.2 := by
    rw [List.filter_eq_self]
    intro part hpart
    obtain ⟨field, _, rfl⟩ := List.mem_map.1 hpart
    simp
  rw [pairs, hsplit, hfilter, List.map_map]
  apply List.map_congr_left
  intro field hfield
  have htake : ∀ c ∈ field.1, decide (c ≠ '=') = true :=
    fun c hc => decide_eq_true (hname field hfield c hc).2
  rw [Function.comp_apply, List.takeWhile_append_of_pos htake, List.dropWhile_append_of_pos htake,
    List.takeWhile_cons_of_neg (by decide), List.dropWhile_cons_of_neg (by decide),
    List.append_nil, List.drop_one, List.tail_cons]

theorem pairs_isParser : IsParser pairs := by
  intro fields _
  by_cases hne : fields = []
  · rw [hne]
    rfl
  · rw [encoded, pairs_form]
    · rw [List.map_map]
      conv_rhs => rw [← List.map_id fields]
      apply List.map_congr_left
      intro field _
      rw [Function.comp_apply, decode_encode, decode_encode, id_eq]
    · exact fun h => hne (List.map_eq_nil_iff.1 h)
    · intro field hfield c hc
      obtain ⟨plain, _, rfl⟩ := List.mem_map.1 hfield
      exact encode_no_separator hc
    · intro field hfield hmem
      obtain ⟨plain, _, rfl⟩ := List.mem_map.1 hfield
      exact (encode_no_separator hmem).1 rfl

theorem filter_present {fields : List (String × Option (List Char))} {name : String}
    {value : Option (List Char)} (hnodup : (fields.map (·.1)).Nodup)
    (hmem : (name, value) ∈ fields) :
    (present fields).filter (·.1 = name.toList) = (value.map (name.toList, ·)).toList := by
  induction fields with
  | nil => cases hmem
  | cons head fields ih =>
    rw [List.map_cons, List.nodup_cons] at hnodup
    rw [present, List.filterMap_cons, ← present]
    rcases List.mem_cons.1 hmem with rfl | hrest
    · have hfilter : (present fields).filter (·.1 = name.toList) = [] := by
        rw [List.filter_eq_nil_iff]
        intro pair hpair hname
        obtain ⟨field, hfield, hvalue⟩ := List.mem_filterMap.1 hpair
        obtain ⟨value, _, rfl⟩ := Option.map_eq_some_iff.1 hvalue
        have heq : field.1 = name := String.toList_inj.1 (of_decide_eq_true hname)
        have hkey : field.1 ∈ fields.map (·.1) := List.mem_map_of_mem hfield
        exact hnodup.1 (heq ▸ hkey)
      cases value with
      | none => exact hfilter
      | some value =>
        dsimp only [Option.map_some, Option.toList_some]
        rw [List.filter_cons_of_pos (by simp), hfilter]
    · have hkey : name ∈ fields.map (·.1) := List.mem_map_of_mem hrest
      have hne : head.1 ≠ name := fun h => hnodup.1 (h ▸ hkey)
      obtain ⟨key, value⟩ := head
      cases value with
      | none => exact ih hnodup.2 hrest
      | some value =>
        dsimp only [Option.map_some]
        rw [List.filter_cons_of_neg (by simpa [String.toList_inj] using hne)]
        exact ih hnodup.2 hrest

theorem field_present {fields : List (String × Option (List Char))} {name : String}
    {value : Option (List Char)} (hnodup : (fields.map (·.1)).Nodup)
    (hmem : (name, value) ∈ fields) : field (present fields) name = some value := by
  rw [field, filter_present hnodup hmem]
  cases value with
  | none => rfl
  | some value => rfl

end Codec.Query
