import Mathlib.Data.Int.Basic
import Mathlib.Data.Nat.Log
import Mathlib.Tactic.Ring
import Mathlib.Tactic.Linarith

namespace BetProcessor
set_option autoImplicit true

/-- `date_trunc('minute', t)`, in microseconds since the epoch. -/
def minute (t : Int) : Int := t / 60000000 * 60000000

/-- The values of a `bigint` column. -/
def IsBigint (x : Int) : Prop := -2 ^ 63 ≤ x ∧ x < 2 ^ 63

instance (x : Int) : Decidable (IsBigint x) := inferInstanceAs (Decidable (_ ∧ _))

/-- The nearest natural number with 53 significant bits, ties to even. -/
def roundNat (n : Nat) : Nat :=
  if n ≤ 2 ^ 53 then n
  else
    let ulp := 2 ^ (Nat.log2 n - 52)
    if 2 * (n % ulp) < ulp ∨ (2 * (n % ulp) = ulp ∧ n / ulp % 2 = 0) then n / ulp * ulp
    else (n / ulp + 1) * ulp

/-- The JavaScript Number that holds an integer. -/
def toNumber (x : Int) : Int := x.sign * roundNat x.natAbs

/-- The multiples of `10 ^ j` next to `n`, the closer one first. -/
def decimals (n j : Nat) : List Nat :=
  let low := n / 10 ^ j * 10 ^ j
  let high := low + 10 ^ j
  if n - low < high - n ∨ (n - low = high - n ∧ n / 10 ^ j % 2 = 0) then [low, high]
  else [high, low]

/-- `Number.prototype.toString`: the fewest digits that still read back as the same Number. -/
def showNat (n : Nat) : Nat :=
  if n ≤ 2 ^ 53 then n
  else ((List.range 21).reverse.findSome? fun j =>
    (decimals n j).find? fun m => roundNat m = n).getD n

def showNumber (x : Int) : Int := x.sign * showNat x.natAbs

/-- Two's complement of 64 bits. -/
def wrapI64 (x : Int) : Int := Int.bmod x (2 ^ 64)

/-- The number and date types of one service: how it holds a stored `bigint` or `timestamptz`,
how it computes with them, and what it binds back to a column. -/
structure Service where
  load : Int → Int
  add : Int → Int → Int
  neg : Int → Int
  bind : Int → Option Int
  /-- Amounts that the handler itself turns down. -/
  refuses : Int → Bool
  /-- A clock reading in nanoseconds, as it is bound to a `timestamptz` column. -/
  stamp : Int → Int
  date : Int → Int
  date_stamp : ∀ t, date (stamp t) = stamp t
  minute_date : ∀ t, minute (date t) = minute t
  bind_pos : ∀ {x v}, 0 < x → bind x = some v → 0 < v
  bind_neg : ∀ {x v}, bind x = some v → 0 < v → bind (neg x) = some (-v)
  load_pos : ∀ {v}, 0 < v → 0 < load v
  neg_load_neg : ∀ {v u}, 0 < v → bind (load v) = some u → neg (load (-v)) = load v
  load_small : ∀ {x}, |x| ≤ 2 ^ 53 → load x = x
  add_small : ∀ {x y}, |x + y| ≤ 2 ^ 53 → add x y = x + y
  neg_small : ∀ {x}, |x| ≤ 2 ^ 53 → neg x = -x
  bind_small : ∀ {x}, |x| ≤ 2 ^ 53 → bind x = some x

theorem roundNat_small {n : Nat} (h : n ≤ 2 ^ 53) : roundNat n = n := if_pos h

theorem roundNat_pos {n : Nat} (h : 0 < n) : 0 < roundNat n := by
  rw [roundNat]
  split
  · exact h
  · have hulp : 0 < 2 ^ (Nat.log2 n - 52) := Nat.pow_pos (by decide)
    have hle : 2 ^ (Nat.log2 n - 52) ≤ n :=
      le_trans (Nat.pow_le_pow_right (by decide) (Nat.sub_le _ _))
        (Nat.log2_self_le (Nat.pos_iff_ne_zero.1 h))
    have hq : 0 < n / 2 ^ (Nat.log2 n - 52) := Nat.div_pos hle hulp
    dsimp only
    split
    · exact Nat.mul_pos hq hulp
    · exact Nat.mul_pos (Nat.succ_pos _) hulp

theorem showNat_small {n : Nat} (h : n ≤ 2 ^ 53) : showNat n = n := if_pos h

theorem showNat_pos {n : Nat} (h : 0 < n) : 0 < showNat n := by
  rw [showNat]
  split
  · exact h
  · cases hf : (List.range 21).reverse.findSome? fun j =>
        (decimals n j).find? fun m => roundNat m = n with
    | none => exact h
    | some m =>
      obtain ⟨_, j, _, _, hj, _⟩ := List.findSome?_eq_some_iff.1 hf
      have hm : roundNat m = n := by simpa using List.find?_some hj
      rw [Option.getD_some]
      by_contra h0
      have hm0 : m = 0 := by omega
      rw [hm0, roundNat_small (by decide)] at hm
      omega

theorem toNumber_neg (x : Int) : toNumber (-x) = -toNumber x := by
  simp only [toNumber, Int.sign_neg, Int.natAbs_neg, neg_mul]

theorem showNumber_neg (x : Int) : showNumber (-x) = -showNumber x := by
  simp only [showNumber, Int.sign_neg, Int.natAbs_neg, neg_mul]

theorem toNumber_pos {x : Int} (h : 0 < x) : 0 < toNumber x := by
  rw [toNumber, Int.sign_eq_one_of_pos h, one_mul]
  exact Int.natCast_pos.2 (roundNat_pos (Int.natAbs_pos.2 h.ne'))

theorem showNumber_pos {x : Int} (h : 0 < x) : 0 < showNumber x := by
  rw [showNumber, Int.sign_eq_one_of_pos h, one_mul]
  exact Int.natCast_pos.2 (showNat_pos (Int.natAbs_pos.2 h.ne'))

theorem natAbs_small {x : Int} (h : |x| ≤ 2 ^ 53) : x.natAbs ≤ 2 ^ 53 := by
  rw [Int.abs_eq_natAbs] at h
  exact_mod_cast h

theorem toNumber_small {x : Int} (h : |x| ≤ 2 ^ 53) : toNumber x = x := by
  rw [toNumber, roundNat_small (natAbs_small h), Int.sign_mul_natAbs]

theorem showNumber_small {x : Int} (h : |x| ≤ 2 ^ 53) : showNumber x = x := by
  rw [showNumber, showNat_small (natAbs_small h), Int.sign_mul_natAbs]

theorem isBigint_small {x : Int} (h : |x| ≤ 2 ^ 53) : IsBigint x := by
  rw [abs_le] at h
  rw [IsBigint]
  omega

theorem wrapI64_eq {x : Int} (h : IsBigint x) : wrapI64 x = x := by
  unfold IsBigint at h
  unfold wrapI64 Int.bmod
  dsimp only
  split <;> omega

/-- Bind a value to a `bigint` parameter. -/
def bindBigint (x : Int) : Option Int := if IsBigint x then some x else none

theorem bindBigint_eq_some {x v : Int} : bindBigint x = some v ↔ IsBigint x ∧ x = v := by
  rw [bindBigint]
  split <;> simp_all

/-- Node: `bigint` is parsed with `Number`, parameters are sent as `toString` prints them, and
a `Date` keeps milliseconds. -/
def typescript : Service where
  load := toNumber
  add x y := toNumber (x + y)
  neg x := -x
  bind x := bindBigint (showNumber x)
  refuses _ := false
  stamp t := t / 1000000 * 1000
  date t := t / 1000 * 1000
  date_stamp t := by omega
  minute_date t := by unfold minute; omega
  bind_pos hx h := by
    obtain ⟨_, rfl⟩ := bindBigint_eq_some.1 h
    exact showNumber_pos hx
  bind_neg {x v} h hv := by
    obtain ⟨hb, rfl⟩ := bindBigint_eq_some.1 h
    rw [showNumber_neg]
    refine bindBigint_eq_some.2 ⟨?_, rfl⟩
    unfold IsBigint at *
    omega
  load_pos := toNumber_pos
  neg_load_neg _ _ := by rw [toNumber_neg, neg_neg]
  load_small := toNumber_small
  add_small h := toNumber_small h
  neg_small _ := rfl
  bind_small h := by
    rw [showNumber_small h]
    exact bindBigint_eq_some.2 ⟨isBigint_small h, rfl⟩

/-- Rust: `i64` in a release build, and `DateTime<Utc>`. -/
def rust : Service where
  load x := x
  add x y := wrapI64 (x + y)
  neg x := wrapI64 (-x)
  bind := bindBigint
  refuses amount := amount ≤ 0
  stamp t := t / 1000
  date t := t
  date_stamp _ := rfl
  minute_date _ := rfl
  bind_pos hx h := by
    obtain ⟨_, rfl⟩ := bindBigint_eq_some.1 h
    exact hx
  bind_neg {x v} h hv := by
    obtain ⟨hb, rfl⟩ := bindBigint_eq_some.1 h
    have hn : IsBigint (-x) := by unfold IsBigint at *; omega
    rw [wrapI64_eq hn]
    exact bindBigint_eq_some.2 ⟨hn, rfl⟩
  load_pos h := h
  neg_load_neg {v u} _ h := by
    rw [neg_neg]
    exact wrapI64_eq (bindBigint_eq_some.1 h).1
  load_small _ := rfl
  add_small h := wrapI64_eq (isBigint_small h)
  neg_small h := wrapI64_eq (isBigint_small (by rwa [abs_neg]))
  bind_small h := bindBigint_eq_some.2 ⟨isBigint_small h, rfl⟩

/-- The same service computing with exact integers. -/
def Service.exact (svc : Service) : Service :=
  { svc with
    load := fun x => x
    add := fun x y => x + y
    neg := fun x => -x
    bind := some
    bind_pos := fun hx h => by cases h; exact hx
    bind_neg := fun h _ => by cases h; rfl
    load_pos := fun h => h
    neg_load_neg := fun _ _ => neg_neg _
    load_small := fun _ => rfl
    add_small := fun _ => rfl
    neg_small := fun _ => rfl
    bind_small := fun _ => rfl }

/-- The service computes exactly with the integers up to `N`. -/
structure Service.ExactTo (svc : Service) (N : Int) : Prop where
  load : ∀ {x}, |x| ≤ N → svc.load x = x
  add : ∀ {x y}, |x + y| ≤ N → svc.add x y = x + y
  neg : ∀ {x}, |x| ≤ N → svc.neg x = -x
  bind : ∀ {x}, |x| ≤ N → svc.bind x = some x

theorem Service.exactTo_small (svc : Service) : svc.ExactTo (2 ^ 53) :=
  ⟨svc.load_small, svc.add_small, svc.neg_small, svc.bind_small⟩

theorem rust_exactTo : rust.ExactTo (2 ^ 63 - 1) := by
  have hbigint : ∀ {x : Int}, |x| ≤ 2 ^ 63 - 1 → IsBigint x := by
    intro x hx
    rw [abs_le] at hx
    rw [IsBigint]
    omega
  constructor
  · intro x _
    rfl
  · intro x y h
    exact wrapI64_eq (hbigint h)
  · intro x h
    exact wrapI64_eq (hbigint (by rwa [abs_neg]))
  · intro x h
    exact bindBigint_eq_some.2 ⟨hbigint h, rfl⟩

theorem Service.exact_exactTo (svc : Service) (N : Int) : svc.exact.ExactTo N :=
  ⟨fun _ => rfl, fun _ => rfl, fun _ => rfl, fun _ => rfl⟩

/-- The service reads a stored value and binds it again unchanged. -/
def Service.RoundTrips (svc : Service) (v : Int) : Prop := svc.bind (svc.load v) = some v

/-- The service reads a stored value and binds its exact negation. -/
def Service.Negates (svc : Service) (v : Int) : Prop :=
  svc.bind (svc.neg (svc.load v)) = some (-v)

namespace Service
variable (svc : Service)

theorem roundTrips_small {v : Int} (h : |v| ≤ 2 ^ 53) : svc.RoundTrips v := by
  rw [RoundTrips, svc.load_small h, svc.bind_small h]

theorem negates_small {v : Int} (h : |v| ≤ 2 ^ 53) : svc.Negates v := by
  rw [Negates, svc.load_small h, svc.neg_small h, svc.bind_small (by rwa [abs_neg])]

theorem roundTrips_rust {v : Int} (h : IsBigint v) : rust.RoundTrips v :=
  bindBigint_eq_some.2 ⟨h, rfl⟩

theorem negates_exact (v : Int) : svc.exact.Negates v := rfl

end Service

/-- Above `2 ^ 53` a Number is rounded when it is read and again when it is printed. -/
example : typescript.load 9007199254740993 = 9007199254740992 ∧
    typescript.bind (2 ^ 60) = some 1152921504606847000 := by decide +kernel

end BetProcessor
