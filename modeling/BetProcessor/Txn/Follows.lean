import BetProcessor.Txn.Issued

namespace Txn
set_option autoImplicit true

namespace Prog
variable {σ : Type} {ρ : σ → Type} {ε α β : Type}

/-- When answers satisfy `V`, every statement satisfies `P` with the ones sent before it, and every
result satisfies `Q`. -/
def Follows (P : List σ → σ → Prop) (V : (s : σ) → ρ s → Prop) (Q : α → Prop) :
    Prog σ ρ ε α → List σ → Prop
  | .pure a, _ => Q a
  | .throw _, _ => True
  | .exec s k, sent => P sent s ∧ ∀ r, V s r → Follows P V Q (k r) (s :: sent)

section
variable {P : List σ → σ → Prop} {V : (s : σ) → ρ s → Prop} {Q : α → Prop} {Q' : β → Prop}
  {sent sent' : List σ}

theorem Follows.mono (hP : ∀ sent sent' s, sent ⊆ sent' → P sent s → P sent' s)
    {p : Prog σ ρ ε α} (h : p.Follows P V Q sent) (hsub : sent ⊆ sent') :
    p.Follows P V Q sent' := by
  induction p generalizing sent sent' with
  | pure a => exact h
  | throw e => trivial
  | exec s k ih =>
    constructor
    · exact hP _ _ s hsub h.1
    · intro r hr
      exact ih r (h.2 r hr) (List.cons_subset_cons s hsub)

theorem Follows.bind (hP : ∀ sent sent' s, sent ⊆ sent' → P sent s → P sent' s)
    {p : Prog σ ρ ε α} {f : α → Prog σ ρ ε β} (hp : p.Follows P V Q sent)
    (hf : ∀ a, Q a → (f a).Follows P V Q' sent) : (p >>= f).Follows P V Q' sent := by
  induction p generalizing sent with
  | pure a => exact hf a hp
  | throw e => trivial
  | exec s k ih =>
    constructor
    · exact hp.1
    · intro r hr
      apply ih r (hp.2 r hr)
      intro a ha
      exact (hf a ha).mono hP (List.subset_cons_self s sent)

end
end Prog

namespace Engine
variable {σ : Type} {ρ : σ → Type} {ε D W L α : Type} {E : Engine σ ρ ε D W L}
  {P : List σ → σ → Prop} {V : (s : σ) → ρ s → Prop} {Q : α → Prop} {J : List σ → D → Prop}

/-- What the statements keep, given the ones sent before, holds where each of them is sent. -/
theorem issues_of_follows {p : Prog σ ρ ε α} {sent : List σ} {db : D}
    (hs : ∀ {sent s db r ws}, P sent s → J sent db → E.eval s db db = .ok (r, ws) →
      V s r ∧ J (s :: sent) (E.view db ws))
    (hp : p.Follows P V Q sent) (hJ : J sent db) :
    E.Issues (fun s db => ∃ sent, P sent s ∧ J sent db) (fun _ => True) p db := by
  induction p generalizing sent db with
  | pure a => trivial
  | throw e => trivial
  | exec s k ih =>
    constructor
    · exact ⟨sent, hp.1, hJ⟩
    · intro r ws heval
      obtain ⟨hr, hJ'⟩ := hs hp.1 hJ heval
      exact ih r (hp.2 r hr) hJ'

theorem exec_of_follows {p : Prog σ ρ ε α} {sent : List σ} {db db' : D} {a : α}
    (hs : ∀ {sent s db r ws}, P sent s → J sent db → E.eval s db db = .ok (r, ws) →
      V s r ∧ J (s :: sent) (E.view db ws))
    (hp : p.Follows P V Q sent) (hJ : J sent db) (h : E.exec p db = .ok (a, db')) :
    Q a ∧ ∃ sent', J sent' db' := by
  induction p generalizing sent db with
  | pure a =>
    cases h
    exact ⟨hp, sent, hJ⟩
  | throw e => cases h
  | exec s k ih =>
    cases heval : E.eval s db db with
    | error e =>
      rw [E.exec_error heval] at h
      cases h
    | ok result =>
      obtain ⟨r, ws⟩ := result
      obtain ⟨hr, hJ'⟩ := hs hp.1 hJ heval
      rw [E.exec_exec heval] at h
      exact ih r (hp.2 r hr) hJ' h

end Engine
end Txn
