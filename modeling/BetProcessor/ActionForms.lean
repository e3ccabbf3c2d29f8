import Mathlib.Tactic.Ring
import BetProcessor.Requests

namespace BetProcessor
set_option autoImplicit true
open Codec

section
variable {x : Option Json}

theorem parseUuid_hyphenated {s : List Char} (h : (hyphenated s).isSome) :
    Rust.parseUuid s = hyphenated s := by
  have hlength : s.length = 36 := by
    rw [hyphenated] at h
    by_contra hne
    rw [if_neg fun hs => hne hs.1] at h
    cases h
  have hne : s.length ≠ 32 := by omega
  rw [Rust.parseUuid, if_neg hne, if_pos hlength]

theorem amount_plain {n : Number} (h : n.scale = none) : amount (some (.number n)) =
    if n.negative then none else (nearestInteger n.mantissa 1).map (↑) := by
  simp [amount, h]

theorem rust_amount_eq_some {v : Int} : Rust.amount x = some v ↔ ∃ n, x = some (.number n) ∧
    n.scale = none ∧ ¬(n.negative ∧ n.mantissa = 0) ∧ IsBigint v ∧
      v = n.integer := by
  cases x with
  | none => simp [Rust.amount]
  | some json =>
    cases json with
    | number n =>
      simp only [Rust.amount, Option.some.injEq, Json.number.injEq, exists_eq_left']
      constructor
      · intro h
        split at h
        · next hn =>
          cases h
          exact ⟨hn.1, hn.2.1, hn.2.2, rfl⟩
        · cases h
      · rintro ⟨hscale, hzero, hbig, rfl⟩
        exact if_pos ⟨hscale, hzero, hbig⟩
    | _ => simp [Rust.amount]

end

section
variable {overflows : Number → Bool}

end
end BetProcessor
