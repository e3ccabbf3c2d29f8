import Mathlib.Algebra.Order.Group.Unbundled.Abs
import Mathlib.Data.List.Basic
import Mathlib.Logic.Function.Basic

namespace Wallet
set_option autoImplicit true

/-- An operation with its id: it moves an amount, or undoes the operation of another id. -/
inductive Op (I M : Type) where
  | move (id : I) (amount : M)
  | undo (id target : I)
  deriving DecidableEq

def Op.id : Op I M → I
  | .move x _ | .undo x _ => x

def Op.amount [Zero M] : Op I M → M
  | .move _ m => m
  | .undo _ _ => 0

/-- The balances, what the operation of an id has moved and the receipt it was given, and which
operation has undone an id. -/
@[ext]
structure State (A I T M : Type) where
  balance : A → M
  settled : I → Option (T × M)
  undone : I → Option I

namespace State
variable {A I T M : Type} [DecidableEq A] [DecidableEq I]

section
variable [AddCommGroup M]

/-- What a new operation moves: one that is undone already and the undoing of such a one move
nothing; an unknown target is undone in advance. -/
def moves (w : State A I T M) : Op I M → M
  | .move x m => if (w.undone x).isSome then 0 else m
  | .undo _ o => if (w.undone o).isSome then 0 else (w.settled o).elim 0 fun s => -s.2

/-- The first operation that undoes an id is remembered. -/
def marked (w : State A I T M) : Op I M → I → Option I
  | .move _ _ => w.undone
  | .undo x o => if (w.undone o).isSome then w.undone else Function.update w.undone o (some x)

/-- An operation that moves `m` on the account and is given a receipt. -/
def settle (w : State A I T M) (a : A) (receipt : T) (op : Op I M) (m : M) : State A I T M where
  balance := Function.update w.balance a (w.balance a + m)
  settled := Function.update w.settled op.id (some (receipt, m))
  undone := w.marked op

section
variable (w : State A I T M) (a : A) (receipt : T) (op : Op I M) (m : M)

@[simp] theorem settle_balance : (w.settle a receipt op m).balance a = w.balance a + m :=
  Function.update_self ..

theorem settle_balance_other {b : A} (hb : b ≠ a) :
    (w.settle a receipt op m).balance b = w.balance b := Function.update_of_ne hb ..

@[simp] theorem settle_settled : (w.settle a receipt op m).settled op.id = some (receipt, m) :=
  Function.update_self ..

theorem settle_settled_other {x : I} (hx : x ≠ op.id) :
    (w.settle a receipt op m).settled x = w.settled x := Function.update_of_ne hx ..

end

/-- What the new ones of some operations move, one after the other. -/
def moved (a : A) (receipt : I → T) : State A I T M → List (Op I M) → List M
  | _, [] => []
  | w, op :: rest =>
    if (w.settled op.id).isSome then moved a receipt w rest
    else w.moves op :: moved a receipt (w.settle a (receipt op.id) op (w.moves op)) rest

section
variable {w w' : State A I T M} {a a' : A} {receipt : I → T} {op : Op I M} {ops : List (Op I M)}

theorem moved_known (h : (w.settled op.id).isSome) :
    w.moved a receipt (op :: ops) = w.moved a receipt ops := if_pos h

theorem moved_new (h : w.settled op.id = none) : w.moved a receipt (op :: ops) =
    w.moves op :: (w.settle a (receipt op.id) op (w.moves op)).moved a receipt ops := by
  apply if_neg
  rw [h]
  exact Bool.false_ne_true

omit [DecidableEq A] [DecidableEq I] in
theorem moves_congr (hsettled : w.settled = w'.settled) (hundone : w.undone = w'.undone) :
    w.moves op = w'.moves op := by
  cases op with
  | move x m => rw [moves, moves, hundone]
  | undo x o => rw [moves, moves, hundone, hsettled]

theorem moved_congr (hsettled : w.settled = w'.settled) (hundone : w.undone = w'.undone) :
    w.moved a receipt ops = w'.moved a' receipt ops := by
  induction ops generalizing w w' with
  | nil => rfl
  | cons op ops ih =>
    rw [moved, moved, hsettled, moves_congr hsettled hundone, ih hsettled hundone]
    congr 2
    apply ih
    · rw [settle, settle, hsettled]
    · cases op with
      | move x m => exact hundone
      | undo x o => rw [settle, settle, marked, marked, hundone]

end

/-- The receipt of an operation: a known one keeps its own. -/
def reply (w : State A I T M) (receipt : I → T) (op : Op I M) : T :=
  (w.settled op.id).elim (receipt op.id) Prod.fst

variable [LinearOrder M]

/-- One operation on an account; none when the account cannot pay. -/
def step (a : A) (receipt : I → T) (w : State A I T M) (op : Op I M) : Option (State A I T M) :=
  if (w.settled op.id).isSome then some w
  else if w.balance a + w.moves op < 0 then none
  else some (w.settle a (receipt op.id) op (w.moves op))

/-- Some operations on an account, all or none. -/
def serve (a : A) (receipt : I → T) :
    State A I T M → List (Op I M) → Option (List (I × T) × State A I T M)
  | w, [] => some ([], w)
  | w, op :: rest =>
    (w.step a receipt op).bind fun w' =>
      (serve a receipt w' rest).map fun r => ((op.id, w.reply receipt op) :: r.1, r.2)

/-- The numbers that come up while some operations are served stay up to `N`. -/
def Within (N : M) (a : A) (receipt : I → T) : State A I T M → List (Op I M) → Prop
  | w, [] => |w.balance a| ≤ N
  | w, op :: rest =>
    |w.balance a| ≤ N ∧
    (w.settled op.id = none →
      |op.amount| ≤ N ∧ |w.moves op| ≤ N ∧ |w.balance a + w.moves op| ≤ N) ∧
    ∀ w' ∈ w.step a receipt op, Within N a receipt w' rest

instance decidableWithin (N : M) (a : A) (receipt : I → T) :
    (ops : List (Op I M)) → DecidablePred fun w : State A I T M => w.Within N a receipt ops
  | [] => fun w => inferInstanceAs (Decidable (|w.balance a| ≤ N))
  | op :: rest => fun w =>
    have := decidableWithin N a receipt rest
    have : Decidable (w.settled op.id = none) := decidable_of_iff _ Option.isNone_iff_eq_none
    inferInstanceAs (Decidable (_ ∧ _ ∧ ∀ w' ∈ w.step a receipt op, w'.Within N a receipt rest))

variable {a : A} {receipt : I → T} {w w' : State A I T M} {op : Op I M} {ops : List (Op I M)}

/-- A step repeats a known operation or settles a new one. -/
theorem step_cases (h : w.step a receipt op = some w') :
    ((w.settled op.id).isSome ∧ w' = w) ∨
      (w.settled op.id = none ∧ 0 ≤ w.balance a + w.moves op ∧
        w' = w.settle a (receipt op.id) op (w.moves op)) := by
  rw [step] at h
  split at h
  · next hknown => exact Or.inl ⟨hknown, (Option.some.inj h).symm⟩
  · next hnew =>
    split at h
    · cases h
    · next hpays =>
      exact Or.inr ⟨Option.not_isSome_iff_eq_none.1 hnew, not_lt.1 hpays,
        (Option.some.inj h).symm⟩

theorem step_known (h : (w.settled op.id).isSome) : w.step a receipt op = some w := if_pos h

theorem step_new (h : w.settled op.id = none) : w.step a receipt op =
    if w.balance a + w.moves op < 0 then none
    else some (w.settle a (receipt op.id) op (w.moves op)) := by
  rw [step, if_neg (by rw [h]; nofun)]

theorem serve_cons {r : List (I × T) × State A I T M}
    (h : w.serve a receipt (op :: ops) = some r) : ∃ w' rs, w.step a receipt op = some w' ∧
      w'.serve a receipt ops = some (rs, r.2) ∧ r.1 = (op.id, w.reply receipt op) :: rs := by
  obtain ⟨w', hstep, h⟩ := Option.bind_eq_some_iff.1 h
  obtain ⟨⟨rs, w''⟩, hserve, rfl⟩ := Option.map_eq_some_iff.1 h
  exact ⟨w', rs, hstep, hserve, rfl⟩

/-- What every step keeps holds after all the operations. -/
theorem serve_invariant {P : State A I T M → Prop} {r : List (I × T) × State A I T M}
    (h : w.serve a receipt ops = some r) (h₀ : P w)
    (hs : ∀ {w op w'}, op ∈ ops → P w → w.step a receipt op = some w' → P w') : P r.2 := by
  induction ops generalizing w r with
  | nil =>
    cases h
    exact h₀
  | cons op ops ih =>
    obtain ⟨w', rs, hstep, hserve, _⟩ := serve_cons h
    exact ih (r := (rs, r.2)) hserve (hs (List.mem_cons_self ..) h₀ hstep)
      fun hop => hs (List.mem_cons_of_mem _ hop)

theorem step_balance_other (h : w.step a receipt op = some w') {b : A} (hb : b ≠ a) :
    w'.balance b = w.balance b := by
  rcases step_cases h with ⟨_, rfl⟩ | ⟨_, _, rfl⟩
  · rfl
  · exact settle_balance_other _ _ _ _ _ hb

/-- A request moves money on its own account only. -/
theorem serve_balance_other {r : List (I × T) × State A I T M}
    (h : w.serve a receipt ops = some r) {b : A} (hb : b ≠ a) :
    r.2.balance b = w.balance b :=
  serve_invariant (P := fun w' => w'.balance b = w.balance b) h rfl
    fun _ hP hstep => (step_balance_other hstep hb).trans hP

theorem step_settled (h : w.step a receipt op = some w') {x : I} {s : T × M}
    (hx : w.settled x = some s) : w'.settled x = some s := by
  rcases step_cases h with ⟨_, rfl⟩ | ⟨hnew, _, rfl⟩
  · exact hx
  · have hne : x ≠ op.id := by
      rintro rfl
      rw [hnew] at hx
      cases hx
    exact (settle_settled_other _ _ _ _ _ hne).trans hx

theorem serve_settled {r : List (I × T) × State A I T M} (h : w.serve a receipt ops = some r)
    {x : I} {s : T × M} (hx : w.settled x = some s) : r.2.settled x = some s :=
  serve_invariant (P := fun w' => w'.settled x = some s) h hx
    fun _ hP hstep => step_settled hstep hP

theorem serve_known (h : ∀ op ∈ ops, (w.settled op.id).isSome) :
    ∃ rs, w.serve a receipt ops = some (rs, w) := by
  induction ops with
  | nil => exact ⟨[], rfl⟩
  | cons op ops ih =>
    obtain ⟨rs, hrs⟩ := ih fun op hop => h op (List.mem_cons_of_mem _ hop)
    refine ⟨(op.id, w.reply receipt op) :: rs, ?_⟩
    rw [serve, step_known (h op (List.mem_cons_self ..)), Option.bind_some, hrs]
    rfl

theorem Within.mono {N N' : M} (h : w.Within N a receipt ops) (hN : N ≤ N') :
    w.Within N' a receipt ops := by
  induction ops generalizing w with
  | nil => exact le_trans h hN
  | cons op ops ih =>
    obtain ⟨hb, hnumbers, hrest⟩ := h
    refine ⟨le_trans hb hN, ?_, fun w' hstep => ih (hrest w' hstep)⟩
    intro hnew
    obtain ⟨hamount, hm, hnext⟩ := hnumbers hnew
    exact ⟨le_trans hamount hN, le_trans hm hN, le_trans hnext hN⟩

/-- Only finitely many numbers come up. -/
theorem exists_within (w : State A I T M) (a : A) (receipt : I → T) (ops : List (Op I M)) :
    ∃ N, w.Within N a receipt ops := by
  induction ops generalizing w with
  | nil => exact ⟨|w.balance a|, le_refl _⟩
  | cons op ops ih =>
    obtain ⟨N, hN⟩ : ∃ N, ∀ w' ∈ w.step a receipt op, w'.Within N a receipt ops := by
      cases hstep : w.step a receipt op with
      | none => exact ⟨0, nofun⟩
      | some w' =>
        obtain ⟨N, hN⟩ := ih w'
        exact ⟨N, fun _ h => Option.some.inj h ▸ hN⟩
    refine ⟨max |w.balance a| (max |op.amount| (max |w.moves op|
      (max |w.balance a + w.moves op| N))), le_max_left _ _, fun _ => ⟨?_, ?_, ?_⟩, ?_⟩
    · exact le_max_of_le_right (le_max_left _ _)
    · exact le_max_of_le_right (le_max_of_le_right (le_max_left _ _))
    · exact le_max_of_le_right (le_max_of_le_right (le_max_of_le_right (le_max_left _ _)))
    · intro w' hstep
      exact (hN w' hstep).mono (le_max_of_le_right (le_max_of_le_right (le_max_of_le_right
        (le_max_right _ _))))

end
end State
end Wallet
