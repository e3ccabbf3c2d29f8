import BetProcessor.ProcessorSpec
import BetProcessor.Ledger

namespace BetProcessor
set_option autoImplicit true
open Txn

abbrev Requests (ι : Type) := Config ι Stmt Stmt.Reply Err Db Write Key ProcessResponse

/-- What the others commit, as far as a request cares: a relation of databases that composes and
asks less of an earlier moment of the request. -/
structure Steady (X : Sess Stmt Write Key → Db → Db → Prop) : Prop where
  refl : ∀ {st a}, X st a a
  trans : ∀ {st a b c}, X st a b → X st b c → X st a c
  anti : ∀ {st st' a b}, st ≤ st' → X st' a b → X st a b

theorem Steady.trivial : Steady fun _ _ _ => True :=
  ⟨True.intro, fun _ _ => True.intro, fun _ _ => True.intro⟩

section
variable {J : Db → Prop} {X : Sess Stmt Write Key → Db → Db → Prop}

/-- A request relies on growth, on an invariant and on `X`. -/
def requestRely (J : Db → Prop) (hX : Steady X) : Rely J Stmt Write Key where
  rel st a b := Grows st a b ∧ (J a ∧ J b) ∧ X st a b
  refl h := ⟨Grows.refl _ _, ⟨h, h⟩, hX.refl⟩
  keeps h := h.2.1.2
  trans h h' := ⟨h.1.trans h'.1, ⟨h.2.1.1, h'.2.1.2⟩, hX.trans h.2.2 h'.2.2⟩
  anti hle h := ⟨h.1.anti hle, h.2.1, hX.anti hle h.2.2⟩

theorem sound_requestRely (hX : Steady X) : Sound (requestRely J hX) := fun h => h.1

end

/-- A proof about concurrent requests: an invariant of the committed database that every commit
keeps, what else each request relies on, and that the commits of the others respect it. -/
structure Agreement {ι : Type} (calls : ι → Call) where
  inv : Db → Prop
  also : ι → Sess Stmt Write Key → Db → Db → Prop
  steady : ∀ i, Steady (also i)
  compat : ι → Sess Stmt Write Key → ι → Sess Stmt Write Key → Prop
  commit : ∀ {i st db resp}, inv db → Committed ((requestRely inv (steady i)).Past st db)
    (calls i) st.writes resp → inv (postgres.view db st.writes)
  guarantee : ∀ {i j st st' db resp}, i ≠ j → (∀ k ∈ st.held, k ∉ st'.held) →
    Key.account (calls j).account ∈ st'.held → compat i st j st' → inv db →
    Committed ((requestRely inv (steady j)).Past st' db) (calls j) st'.writes resp →
    also i st db (postgres.view db st'.writes)

namespace Agreement
variable {ι : Type} {calls : ι → Call} (A : Agreement calls)

def protocol : Protocol postgres ι ProcessResponse where
  inv := A.inv
  rely i := requestRely A.inv (A.steady i)
  post i resp st db := Key.account (calls i).account ∈ st.held ∧
    Committed ((requestRely A.inv (A.steady i)).Past st db) (calls i) st.writes resp
  compat := A.compat
  commit h hpost := A.commit h hpost.2
  guarantee hij hlock hcov hcompat h hpost := ⟨Grows.of_commit _ hlock hcov,
    ⟨h, A.commit h hpost.2⟩, A.guarantee hij hlock hpost.1 hcompat h hpost.2⟩

theorem holds [Fintype ι] [DecidableEq ι] {db₀ : Db} (h₀ : A.inv db₀)
    {ok : Requests ι → Label ι Stmt Err → Prop}
    (hok : ∀ {c l}, ok c l → A.protocol.Compatible c l) {ls : List (Label ι Stmt Err)}
    {c : Requests ι} (hr : postgres.Run ok (.init (fun i => (calls i).body) db₀) ls c) :
    A.protocol.Holds c :=
  Protocol.sound (fun i _ _ => wp_body (calls i) (sound_requestRely (A.steady i))) h₀ hok hr

/-- An invariant that every commit keeps. -/
def keeping (calls : ι → Call) (J : Db → Prop)
    (hJ : ∀ {i past db ws resp}, J db → Stable past db → Committed past (calls i) ws resp →
      J (postgres.view db ws)) : Agreement calls where
  inv := J
  also _ _ _ _ := True
  steady _ := Steady.trivial
  compat _ _ _ _ := True
  commit h hc := hJ h (Sound.stable (sound_requestRely _) _ _) hc
  guarantee _ _ _ _ _ _ := True.intro

theorem keeping_inv [Fintype ι] [DecidableEq ι] {J : Db → Prop}
    (hJ : ∀ {i past db ws resp}, J db → Stable past db → Committed past (calls i) ws resp →
      J (postgres.view db ws)) {db₀ : Db} (h₀ : J db₀) {ls : List (Label ι Stmt Err)}
    {c : Requests ι}
    (hr : postgres.Run (fun _ _ => True) (.init (fun i => (calls i).body) db₀) ls c) : J c.db := by
  refine (holds (keeping calls J hJ) h₀ (fun {c l} _ => ?_) hr).1
  cases l with
  | commit => exact fun _ _ _ _ _ _ _ _ _ _ => True.intro
  | _ => exact True.intro

end Agreement
end BetProcessor
