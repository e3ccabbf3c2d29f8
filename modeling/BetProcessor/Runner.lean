import Mathlib.Algebra.Order.BigOperators.Group.List
import Mathlib.Algebra.Order.Field.Rat
import BetProcessor.Processor
import BetProcessor.Seed

namespace BetProcessor
set_option autoImplicit true

/-- `mulberry32`: the next number, as a multiple of `1 / 4294967296`, and the seed after it. -/
def mulberry32 (seed : Nat) : UInt32 × Nat :=
  let seed := roundNat (seed + 0x6d2b79f5)
  let t := UInt32.ofNat seed
  let t := (t ^^^ (t >>> 15)) * (t ||| 1)
  let t := t ^^^ (t + (t ^^^ (t >>> 7)) * (t ||| 61))
  (t ^^^ (t >>> 14), seed)

/-- The settings of `rtp-runner`. -/
structure Runner where
  seed : Nat := 42
  users : Nat := 1000
  rounds : Nat := 50000
  currency : String := "USD"
  betAmount : Int := 100
  winProbability : ℚ
  winPayout : Int

/-- What the workers of the runner share. -/
structure RunnerState where
  nextRound : Nat
  seed : Nat
  totalBet : Int
  totalWin : Int

namespace Runner
variable (runner : Runner) (ids : Nat → Uuid × Uuid)

/-- `rng() < winProbability` -/
def won (seed : Nat) : Bool := ((mulberry32 seed).1.toNat : ℚ) / 4294967296 < runner.winProbability

/-- `Math.floor(rng() * users)`, for the second number after a seed. -/
def user (seed : Nat) : Nat :=
  roundNat ((mulberry32 (mulberry32 seed).2).1.toNat * runner.users) / 4294967296

/-- The actions of a round: a bet, and a win if it is won. -/
def actions (round seed : Nat) : List ProcessAction :=
  .bet (ids round).1 runner.betAmount ::
    if runner.won seed then [.win (ids round).2 runner.winPayout] else []

def body (round seed : Nat) : ProcessRequest where
  userId := "runner-user-" ++ toString (runner.user seed)
  currency := runner.currency
  game := "runner:slots"
  gameId := some ("runner-" ++ toString round)
  actions := some (runner.actions ids round seed)

/-- What a worker does up to its next `await`: none when it returns. -/
def takeRound (s : RunnerState) : RunnerState × Option ProcessRequest :=
  let round := s.nextRound
  if runner.rounds ≤ round then ({ s with nextRound := round + 1 }, none)
  else
    ({ nextRound := round + 1
       seed := (mulberry32 (mulberry32 s.seed).2).2
       totalBet := typescript.add s.totalBet runner.betAmount
       totalWin := if runner.won s.seed then typescript.add s.totalWin runner.winPayout
        else s.totalWin },
      some (runner.body ids round s.seed))

/-- The seed with which a round is drawn, whoever takes it. -/
def seedAt : Nat → Nat
  | 0 => runner.seed
  | round + 1 => (mulberry32 (mulberry32 (seedAt round)).2).2

def round (n : Nat) : ProcessRequest := runner.body ids n (runner.seedAt n)

/-- The first rounds in order. -/
def roundsUpTo (n : Nat) : List ProcessRequest := (List.range n).map (runner.round ids)

theorem roundsUpTo_succ (n : Nat) :
    runner.roundsUpTo ids (n + 1) = runner.roundsUpTo ids n ++ [runner.round ids n] := by
  rw [roundsUpTo, List.range_succ, List.map_append]
  rfl

theorem user_lt (hpos : 0 < runner.users) (husers : runner.users ≤ 2 ^ 21) (seed : Nat) :
    runner.user seed < runner.users := by
  have hn := (mulberry32 (mulberry32 seed).2).1.toNat_lt
  have hlt : (mulberry32 (mulberry32 seed).2).1.toNat * runner.users <
      4294967296 * runner.users := Nat.mul_lt_mul_of_pos_right hn hpos
  rw [user, roundNat_small (by omega)]
  exact Nat.div_lt_of_lt_mul hlt

theorem round_seeded {seed : Seed} {accounts seeded : List AccountRow} {n : Nat}
    (hcurrency : runner.currency = seed.currency)
    (huser : runner.user (runner.seedAt n) < seed.users)
    (hseed : seed.main accounts = (.ok (), seeded)) : ∃ row ∈ seeded,
      row.account = ⟨(runner.round ids n).userId, (runner.round ids n).currency⟩ := by
  obtain ⟨_, rfl⟩ := Seed.main_eq_ok hseed
  refine ⟨_, List.mem_of_find?_eq_some (Seed.find?_user huser), ?_⟩
  exact congrArg (Account.mk _) hcurrency.symm

end Runner

inductive Worker where
  | ready
  | posting (request : ProcessRequest)
  | returned
  | rejected
  deriving DecidableEq, Repr

inductive RunnerEvent (ω : Type) where
  | next (w : ω)
  | answered (w : ω)
  | rejected (w : ω)

/-- The workers of the runner, and what they have posted so far. -/
structure RunnerSystem (ω : Type) where
  shared : RunnerState
  workers : ω → Worker
  posted : List ProcessRequest

namespace RunnerSystem
variable {ω : Type} [DecidableEq ω] (runner : Runner) (ids : Nat → Uuid × Uuid)

def start : RunnerSystem ω where
  shared := ⟨0, runner.seed, 0, 0⟩
  workers _ := .ready
  posted := []

def step (sys : RunnerSystem ω) : RunnerEvent ω → Option (RunnerSystem ω)
  | .next w =>
    if sys.workers w = .ready then
      match runner.takeRound ids sys.shared with
      | (shared, none) => some { sys with
          shared
          workers := Function.update sys.workers w .returned }
      | (shared, some request) => some {
          shared
          workers := Function.update sys.workers w (.posting request)
          posted := sys.posted ++ [request] }
    else none
  | .answered w =>
    match sys.workers w with
    | .posting _ => some { sys with workers := Function.update sys.workers w .ready }
    | _ => none
  | .rejected w =>
    match sys.workers w with
    | .posting _ => some { sys with workers := Function.update sys.workers w .rejected }
    | _ => none

inductive Run : List (RunnerEvent ω) → RunnerSystem ω → Prop where
  | nil : Run [] (start runner)
  | snoc {es sys e sys'} : Run es sys → step runner ids sys e = some sys' → Run (es ++ [e]) sys'

end RunnerSystem

/-- The amounts of one type of play. -/
def ProcessAction.played (type : ActionType) : ProcessAction → Int
  | .bet _ amount => if type = .bet then amount else 0
  | .win _ amount => if type = .win then amount else 0
  | .rollback _ _ => 0

def ProcessRequest.played (type : ActionType) (request : ProcessRequest) : Int :=
  ((request.actions.getD []).map (·.played type)).sum

def playedIn (type : ActionType) (requests : List ProcessRequest) : Int :=
  (requests.map (·.played type)).sum

theorem playedIn_append (type : ActionType) (requests requests' : List ProcessRequest) :
    playedIn type (requests ++ requests') = playedIn type requests + playedIn type requests' := by
  rw [playedIn, List.map_append, List.sum_append]
  rfl

namespace Runner
variable {runner : Runner} {ids : Nat → Uuid × Uuid} {s : RunnerState}

theorem takeRound_last (h : runner.rounds ≤ s.nextRound) :
    runner.takeRound ids s = ({ s with nextRound := s.nextRound + 1 }, none) := if_pos h

theorem takeRound_next (h : s.nextRound < runner.rounds) : runner.takeRound ids s =
    ({ nextRound := s.nextRound + 1
       seed := (mulberry32 (mulberry32 s.seed).2).2
       totalBet := typescript.add s.totalBet runner.betAmount
       totalWin := if runner.won s.seed then typescript.add s.totalWin runner.winPayout
        else s.totalWin }, some (runner.body ids s.nextRound s.seed)) := if_neg (not_le.2 h)

@[simp] theorem body_bet (round seed : Nat) :
    (runner.body ids round seed).played .bet = runner.betAmount := by
  rw [ProcessRequest.played, body, Option.getD_some, actions]
  by_cases h : runner.won seed = true
  · simp [h, ProcessAction.played]
  · simp [h, ProcessAction.played]

@[simp] theorem body_win (round seed : Nat) : (runner.body ids round seed).played .win =
    if runner.won seed then runner.winPayout else 0 := by
  rw [ProcessRequest.played, body, Option.getD_some, actions]
  by_cases h : runner.won seed = true
  · simp [h, ProcessAction.played]
  · simp [h, ProcessAction.played]

theorem played_nonneg (hbet : 0 ≤ runner.betAmount) (hwin : 0 ≤ runner.winPayout)
    (round seed : Nat) (type : ActionType) : 0 ≤ (runner.body ids round seed).played type := by
  cases type with
  | bet => rwa [body_bet]
  | win =>
    rw [body_win]
    split
    · exact hwin
    · exact le_refl _
  | rollback =>
    rw [ProcessRequest.played]
    apply List.sum_nonneg
    intro x hx
    obtain ⟨action, _, rfl⟩ := List.mem_map.1 hx
    cases action <;> exact le_refl _

theorem playedIn_nonneg (hbet : 0 ≤ runner.betAmount) (hwin : 0 ≤ runner.winPayout) (n : Nat)
    (type : ActionType) : 0 ≤ playedIn type (runner.roundsUpTo ids n) := by
  apply List.sum_nonneg
  intro x hx
  obtain ⟨request, hrequest, rfl⟩ := List.mem_map.1 hx
  obtain ⟨k, _, rfl⟩ := List.mem_map.1 hrequest
  exact played_nonneg hbet hwin _ _ type

/-- The totals of the runner are those of the rounds it has taken. -/
structure Counts (runner : Runner) (s : RunnerState) (requests : List ProcessRequest) : Prop where
  bet : playedIn .bet requests ≤ 2 ^ 53 → s.totalBet = playedIn .bet requests
  win : playedIn .win requests ≤ 2 ^ 53 → s.totalWin = playedIn .win requests

theorem add_played {total d sum : Int} (hsum : 0 ≤ sum) (hd : 0 ≤ d) (h : sum + d ≤ 2 ^ 53)
    (htotal : sum ≤ 2 ^ 53 → total = sum) : typescript.add total d = sum + d := by
  rw [htotal (by omega), typescript.add_small]
  rw [abs_of_nonneg (by omega)]
  exact h

end Runner

namespace RunnerSystem
variable {ω : Type} [DecidableEq ω] {runner : Runner} {ids : Nat → Uuid × Uuid}
variable {sys sys' : RunnerSystem ω} {e : RunnerEvent ω} {es : List (RunnerEvent ω)}

theorem step_cases (h : step runner ids sys e = some sys') :
    (sys.shared.nextRound < runner.rounds ∧
      sys'.shared = (runner.takeRound ids sys.shared).1 ∧
      sys'.posted = sys.posted ++ [runner.body ids sys.shared.nextRound sys.shared.seed] ∧
      ∀ w, sys'.workers w = .returned → sys.workers w = .returned) ∨
    (runner.rounds ≤ sys.shared.nextRound ∧
      sys'.shared = { sys.shared with nextRound := sys.shared.nextRound + 1 } ∧
      sys'.posted = sys.posted) ∨
    (sys'.shared = sys.shared ∧ sys'.posted = sys.posted ∧
      ∀ w, sys'.workers w = .returned → sys.workers w = .returned) := by
  have hkept : ∀ {w x}, x ≠ Worker.returned → ∀ w', Function.update sys.workers w x w' =
      .returned → sys.workers w' = .returned := by
    intro w x hx w' h
    by_cases hw : w' = w
    · subst hw
      rw [Function.update_self] at h
      exact absurd h hx
    · rwa [Function.update_of_ne hw] at h
  cases e with
  | next w =>
    rw [step] at h
    split at h
    · by_cases hlast : runner.rounds ≤ sys.shared.nextRound
      · rw [runner.takeRound_last hlast] at h
        cases h
        exact Or.inr (Or.inl ⟨hlast, rfl, rfl⟩)
      · have hlt := not_le.1 hlast
        rw [runner.takeRound_next hlt] at h
        cases h
        rw [runner.takeRound_next hlt]
        exact Or.inl ⟨hlt, rfl, rfl, hkept (by nofun)⟩
    · cases h
  | answered w =>
    simp only [step] at h
    split at h
    · cases h
      exact Or.inr (Or.inr ⟨rfl, rfl, hkept (by nofun)⟩)
    · cases h
  | rejected w =>
    simp only [step] at h
    split at h
    · cases h
      exact Or.inr (Or.inr ⟨rfl, rfl, hkept (by nofun)⟩)
    · cases h

/-- The rounds have been taken in order. -/
structure Deals (runner : Runner) (ids : Nat → Uuid × Uuid) (sys : RunnerSystem ω) : Prop where
  seed : sys.shared.seed = runner.seedAt (min sys.shared.nextRound runner.rounds)
  posted : sys.posted = runner.roundsUpTo ids (min sys.shared.nextRound runner.rounds)
  counts : 0 ≤ runner.betAmount → 0 ≤ runner.winPayout → runner.Counts sys.shared sys.posted
  returned : ∀ w, sys.workers w = .returned → runner.rounds ≤ sys.shared.nextRound

omit [DecidableEq ω] in
theorem Deals.start : (start runner : RunnerSystem ω).Deals runner ids where
  seed := by
    rw [RunnerSystem.start, Nat.zero_min]
    rfl
  posted := by
    rw [RunnerSystem.start, Nat.zero_min]
    rfl
  counts _ _ := ⟨fun _ => rfl, fun _ => rfl⟩
  returned _ h := by cases h

theorem Deals.step (h : sys.Deals runner ids)
    (hs : RunnerSystem.step runner ids sys e = some sys') : sys'.Deals runner ids := by
  rcases step_cases hs with ⟨hlt, hshared, hposted, hreturned⟩ | ⟨hlast, hshared, hposted⟩ |
    ⟨hshared, hposted, hreturned⟩
  · rw [runner.takeRound_next hlt] at hshared
    have hnow : min sys.shared.nextRound runner.rounds = sys.shared.nextRound :=
      Nat.min_eq_left hlt.le
    have hnext : min sys'.shared.nextRound runner.rounds = sys.shared.nextRound + 1 := by
      rw [hshared]
      exact Nat.min_eq_left hlt
    have hseed := h.seed
    rw [hnow] at hseed
    constructor
    · rw [hnext, hshared, hseed, Runner.seedAt]
    · rw [hnext, hposted, h.posted, hnow, hseed, runner.roundsUpTo_succ]
      rfl
    · intro hbet hwin
      have hcounts := h.counts hbet hwin
      have hsum : ∀ type, 0 ≤ playedIn type sys.posted := by
        rw [h.posted]
        exact Runner.playedIn_nonneg hbet hwin _
      have hone : ∀ type request, playedIn type [request] = request.played type := by
        intro type request
        rw [playedIn, List.map_singleton, List.sum_singleton]
      rw [hshared, hposted]
      constructor
      · rw [playedIn_append, hone, Runner.body_bet]
        intro hle
        exact Runner.add_played (hsum .bet) hbet hle hcounts.bet
      · rw [playedIn_append, hone, Runner.body_win]
        dsimp only
        split
        · intro hle
          exact Runner.add_played (hsum .win) hwin hle hcounts.win
        · rw [add_zero]
          exact hcounts.win
    · intro w hw
      exact absurd (h.returned w (hreturned w hw)) (not_le.2 hlt)
  · have hnow : min sys.shared.nextRound runner.rounds = runner.rounds := Nat.min_eq_right hlast
    have hnext : min sys'.shared.nextRound runner.rounds = runner.rounds := by
      rw [hshared]
      exact Nat.min_eq_right (Nat.le_succ_of_le hlast)
    constructor
    · rw [hnext, hshared, ← hnow]
      exact h.seed
    · rw [hnext, hposted, ← hnow]
      exact h.posted
    · intro hbet hwin
      obtain ⟨hbets, hwins⟩ := h.counts hbet hwin
      rw [hshared, hposted]
      exact ⟨hbets, hwins⟩
    · intro w _
      rw [hshared]
      exact Nat.le_succ_of_le hlast
  · constructor
    · rw [hshared]
      exact h.seed
    · rw [hshared, hposted]
      exact h.posted
    · rw [hshared, hposted]
      exact h.counts
    · intro w hw
      rw [hshared]
      exact h.returned w (hreturned w hw)

/-- Let the events happen in the given order. -/
def drive (runner : Runner) (ids : Nat → Uuid × Uuid) (sys : RunnerSystem ω) :
    List (RunnerEvent ω) → Option (RunnerSystem ω)
  | [] => some sys
  | e :: es => (step runner ids sys e).bind fun sys => drive runner ids sys es

theorem Run.drive {es' : List (RunnerEvent ω)} (hr : Run runner ids es sys)
    (h : drive runner ids sys es' = some sys') : Run runner ids (es ++ es') sys' := by
  induction es' generalizing es sys with
  | nil =>
    cases h
    rwa [List.append_nil]
  | cons e es' ih =>
    obtain ⟨sys₁, hs, h⟩ := Option.bind_eq_some_iff.1 h
    rw [← List.singleton_append, ← List.append_assoc]
    exact ih (.snoc hr hs) h

theorem Run.exists_of_drive (es : List (RunnerEvent ω)) {p : RunnerSystem ω → Bool}
    (h : (RunnerSystem.drive runner ids (.start runner) es).any p = true) :
    ∃ sys, Run runner ids es sys ∧ p sys = true := by
  cases hd : RunnerSystem.drive runner ids (.start runner) es with
  | none => rw [hd] at h; cases h
  | some sys =>
    rw [hd] at h
    exact ⟨sys, Run.nil.drive hd, h⟩

theorem Run.deals (hr : Run runner ids es sys) : sys.Deals runner ids := by
  induction hr with
  | nil => exact .start
  | snoc _ hs ih => exact ih.step hs

end RunnerSystem

/-- However its workers interleave and however many there are, the runner posts the rounds that its
seed determines, in order and once each, all of them before a worker returns, its totals are those
of the rounds it has posted, and the seed script has made the accounts it plays with. -/
theorem runner_posts_each_round_once {ω : Type} [DecidableEq ω] {runner : Runner}
    (hbet : 0 ≤ runner.betAmount) (hwin : 0 ≤ runner.winPayout) {ids : Nat → Uuid × Uuid}
    {es : List (RunnerEvent ω)} {sys : RunnerSystem ω}
    (hr : RunnerSystem.Run runner ids es sys) :
    sys.posted = runner.roundsUpTo ids (min sys.shared.nextRound runner.rounds) ∧
    (∀ w, sys.workers w = .returned → sys.posted = runner.roundsUpTo ids runner.rounds) ∧
    (playedIn .bet sys.posted ≤ 2 ^ 53 → sys.shared.totalBet = playedIn .bet sys.posted) ∧
    (playedIn .win sys.posted ≤ 2 ^ 53 → sys.shared.totalWin = playedIn .win sys.posted) ∧
    (0 < runner.users → runner.users ≤ 2 ^ 21 → ∀ request ∈ sys.posted,
      (∃ n < runner.users, request.userId = "runner-user-" ++ toString n) ∧
      ∀ {seed : Seed} {accounts seeded : List AccountRow}, runner.users ≤ seed.users →
        runner.currency = seed.currency → seed.main accounts = (.ok (), seeded) →
          ∃ row ∈ seeded, row.account = ⟨request.userId, request.currency⟩) := by
  have h := hr.deals
  have hcounts := h.counts hbet hwin
  refine ⟨h.posted, ?_, hcounts.bet, hcounts.win, ?_⟩
  · intro w hw
    rw [h.posted, Nat.min_eq_right (h.returned w hw)]
  · intro hpos husers request hrequest
    rw [h.posted] at hrequest
    obtain ⟨k, _, rfl⟩ := List.mem_map.1 hrequest
    have hlt := runner.user_lt hpos husers (runner.seedAt k)
    exact ⟨⟨_, hlt, rfl⟩, fun hle hcurrency hseed => runner.round_seeded ids
      hcurrency (hlt.trans_le hle) hseed⟩

/-- Three rounds, of which the seed makes the last one a win. -/
def threeRounds : Runner := { rounds := 3, winProbability := 1 / 5, winPayout := 475 }

def roundIds (round : Nat) : Uuid × Uuid := (2 * round, 2 * round + 1)

/-- The second worker is overtaken by the first one, which takes the other rounds. -/
theorem two_workers_post : ∃ es sys, RunnerSystem.Run (ω := Fin 2) threeRounds roundIds es sys ∧
    sys.posted = threeRounds.roundsUpTo roundIds 3 ∧ sys.shared.totalBet = 300 ∧
    sys.shared.totalWin = 475 := by
  obtain ⟨sys, hr, hsys⟩ := @RunnerSystem.Run.exists_of_drive (Fin 2) _ threeRounds roundIds
    [.next 1, .next 0, .answered 0, .next 0, .answered 0, .next 0]
    (p := fun sys => sys.workers 0 = .returned ∧ playedIn .bet sys.posted = 300 ∧
      playedIn .win sys.posted = 475) (by decide +kernel)
  obtain ⟨hreturned, hbets, hwins⟩ := of_decide_eq_true hsys
  obtain ⟨_, hall, hbet, hwin, _⟩ := runner_posts_each_round_once (by decide) (by decide) hr
  refine ⟨_, sys, hr, hall 0 hreturned, ?_, ?_⟩
  · rw [hbet (by rw [hbets]; decide), hbets]
  · rw [hwin (by rw [hwins]; decide), hwins]

end BetProcessor
