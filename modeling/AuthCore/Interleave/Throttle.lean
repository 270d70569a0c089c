/-
A lock that is set after too many wrong guesses.  A caller first checks the lock, then guesses and
then counts its failure; whoever counts the last failure that is allowed sets the lock.  These are
separate steps of every caller, so callers can be between any two of them.
-/
import Mathlib.Data.Finset.Card

namespace Interleave

/-- How many failures a window of counting allows, how long it is and how long the lock lasts. -/
structure Limits where
  limit : Nat
  window : Nat
  ttl : Nat
  window_pos : 0 < window

/-- The clock, the count of failures and the lock with their expiries, and where the callers are:
past the check of the lock, after a wrong guess that is still to be counted, and after the last
failure allowed with the lock still to be set.  `wrong` counts the wrong guesses so far. -/
@[ext]
structure Throttle (ι : Type) where
  now : Nat
  counter : Option (Nat × Option Nat)
  lock : Option (Option Nat)
  checking : Finset ι
  guessed : Finset ι
  owing : Finset ι
  wrong : Nat

namespace Throttle

/-- What expires at `expiry`, if at all, is still there. -/
def Alive (now : Nat) (expiry : Option Nat) : Prop :=
  ∀ e, expiry = some e → now < e

instance (now : Nat) (expiry : Option Nat) : Decidable (Alive now expiry) :=
  match expiry with
  | none => isTrue fun _ h => nomatch h
  | some e => decidable_of_iff (now < e) ⟨fun h _ heq => Option.some.inj heq ▸ h, fun h => h e rfl⟩

variable {ι : Type}

/-- The failures counted in the current window. -/
def failures (a : Throttle ι) : Nat :=
  match a.counter with
  | none => 0
  | some (n, expiry) => if Alive a.now expiry then n else 0

/-- No window is open. -/
def Closed (a : Throttle ι) : Prop :=
  ∀ n expiry, a.counter = some (n, expiry) → ¬Alive a.now expiry

/-- The count after one more failure: it opens a window unless one is open. -/
def recount (p : Limits) (a : Throttle ι) : Nat × Option Nat :=
  match a.counter with
  | none => (1, some (a.now + p.window))
  | some (n, expiry) => if Alive a.now expiry then (n + 1, expiry) else (1, some (a.now + p.window))

/-- Caller `i` counts its failure. -/
def count [DecidableEq ι] (p : Limits) (i : ι) (a : Throttle ι) : Throttle ι :=
  { a with
    counter := some (a.recount p)
    checking := a.checking.erase i
    guessed := a.guessed.erase i
    owing := if p.limit ≤ (a.recount p).1 then insert i a.owing else a.owing }

inductive Label where
  | tick
  | pass
  | guess
  | count (n : Nat)
  | lock
  | leave
  | reset

/-- One step of a caller, or the passing of time. -/
inductive Step [DecidableEq ι] (p : Limits) : Label → Throttle ι → Throttle ι → Prop
  | tick {a : Throttle ι} (n : Nat) : Step p .tick a { a with now := a.now + n }
  | pass {a : Throttle ι} {i : ι} : i ∉ a.checking →
      (∀ expiry, a.lock = some expiry → ¬Alive a.now expiry) →
      Step p .pass a { a with checking := insert i a.checking }
  | right {a : Throttle ι} {i : ι} : i ∈ a.checking → Step p .guess a a
  | wrong {a : Throttle ι} {i : ι} : i ∈ a.checking → i ∉ a.guessed →
      Step p .guess a { a with guessed := insert i a.guessed, wrong := a.wrong + 1 }
  | count {a : Throttle ι} {i : ι} : i ∈ a.checking →
      Step p (.count (a.recount p).1) a (a.count p i)
  | lock {a : Throttle ι} {i : ι} :
      Step p .lock a { a with lock := some (some (a.now + p.ttl)), owing := a.owing.erase i }
  | leave {a : Throttle ι} {i : ι} : i ∉ a.guessed →
      Step p .leave a { a with checking := a.checking.erase i }
  | reset {a : Throttle ι} {i : ι} : i ∉ a.guessed →
      Step p .reset a { a with counter := none, checking := a.checking.erase i }

/-- There is room for one more caller: nobody owes a lock, and the failures counted with the
callers past their check stay below the limit. -/
def Spare (p : Limits) (a : Throttle ι) : Prop :=
  a.owing = ∅ ∧ a.failures + a.checking.card < p.limit

instance [DecidableEq ι] (p : Limits) (a : Throttle ι) : Decidable (Spare p a) :=
  inferInstanceAs (Decidable (_ ∧ _))

/-- Where the callers are, before any window is looked at. -/
structure Sound (p : Limits) (a : Throttle ι) : Prop where
  guessed : a.guessed ⊆ a.checking
  room : a.checking.Nonempty → a.failures + a.checking.card ≤ p.limit

section Steps

variable {p : Limits} {a b : Throttle ι} {e : Label}

theorem recount_fst : (a.recount p).1 = a.failures + 1 := by
  unfold recount failures
  split
  · rfl
  · split <;> rfl

theorem Closed.recount (h : a.Closed) : a.recount p = (1, some (a.now + p.window)) := by
  unfold Throttle.recount
  split
  · rfl
  · rename_i n expiry hcounter
    exact if_neg (h n expiry hcounter)

theorem failures_tick (n : Nat) : { a with now := a.now + n }.failures ≤ a.failures := by
  unfold failures
  dsimp only
  split
  · exact le_rfl
  · rename_i m expiry hcounter
    by_cases hlater : Alive (a.now + n) expiry
    · have halive : Alive a.now expiry := fun e heq => by
        have := hlater e heq
        omega
      rw [if_pos hlater, if_pos halive]
    · rw [if_neg hlater]
      exact Nat.zero_le _

variable [DecidableEq ι]

theorem failures_count (i : ι) : (a.count p i).failures = a.failures + 1 := by
  have hpositive := p.window_pos
  rw [← recount_fst (p := p)]
  unfold failures count recount
  dsimp only
  split
  · rw [if_pos]
    intro e heq
    cases heq
    omega
  · rename_i n expiry hcounter
    by_cases halive : Alive a.now expiry
    · rw [if_pos halive, if_pos halive]
    · rw [if_neg halive, if_pos]
      intro e heq
      cases heq
      omega

/-- A careful step keeps the callers sound. -/
theorem Sound.step (h : Sound p a) (hstep : Step p e a b)
    (hspare : e = .pass → Spare p a) : Sound p b := by
  cases hstep with
  | tick n =>
      refine ⟨h.guessed, fun hsome => ?_⟩
      have hroom := h.room hsome
      have hless := failures_tick (a := a) n
      dsimp only at hroom ⊢
      omega
  | pass hnew hunlocked =>
      refine ⟨h.guessed.trans (Finset.subset_insert _ _), fun _ => ?_⟩
      have hroom := (hspare rfl).2
      dsimp only
      rw [Finset.card_insert_of_notMem hnew]
      change a.failures + _ ≤ _
      omega
  | right => exact h
  | wrong hchecking hnew =>
      exact ⟨Finset.insert_subset hchecking h.guessed, h.room⟩
  | @count _ i hchecking =>
      refine ⟨Finset.erase_subset_erase _ h.guessed, fun _ => ?_⟩
      · have hroom := h.room ⟨i, hchecking⟩
        have hcard := Finset.card_erase_of_mem hchecking
        have hsome : 0 < a.checking.card := Finset.card_pos.mpr ⟨i, hchecking⟩
        rw [failures_count i]
        change _ + (a.checking.erase i).card ≤ _
        omega
  | lock => exact ⟨h.guessed, h.room⟩
  | @leave _ i hsettled =>
      refine ⟨?_, fun hsome => ?_⟩
      · exact Finset.subset_erase.mpr ⟨h.guessed, hsettled⟩
      · have hroom := h.room (hsome.mono (Finset.erase_subset _ _))
        have hcard := Finset.card_le_card (Finset.erase_subset i a.checking)
        change a.failures + (a.checking.erase i).card ≤ _
        omega
  | @reset _ i hsettled =>
      refine ⟨?_, fun hsome => ?_⟩
      · exact Finset.subset_erase.mpr ⟨h.guessed, hsettled⟩
      · have hroom := h.room (hsome.mono (Finset.erase_subset _ _))
        have hcard := Finset.card_le_card (Finset.erase_subset i a.checking)
        change 0 + (a.checking.erase i).card ≤ _
        omega

end Steps

section Runs

/-- The runs of a system whose steps all meet a condition. -/
inductive Runs {σ : Type*} (next : σ → Option Label → σ → Prop) (ok : Option Label → σ → Prop)
    (s : σ) : σ → Prop
  | refl : Runs next ok s s
  | step {s' s'' : σ} {l : Option Label} :
      Runs next ok s s' → next s' l s'' → ok l s' → Runs next ok s s''

/-- The steps of a system are those of its throttle, or leave the throttle alone. -/
def Tracks [DecidableEq ι] {σ : Type*} (p : Limits) (view : σ → Throttle ι)
    (next : σ → Option Label → σ → Prop) : Prop :=
  ∀ s l s', next s l s' → match l with
    | none => view s' = view s
    | some e => Step p e (view s) (view s')

/-- Callers pass their check only while there is room. -/
def Careful {σ : Type*} (p : Limits) (view : σ → Throttle ι) (l : Option Label) (s : σ) : Prop :=
  l = some .pass → Spare p (view s)

variable [DecidableEq ι] {σ : Type*} {p : Limits} {view : σ → Throttle ι}
  {next : σ → Option Label → σ → Prop} {r s s' s'' : σ} {ok : Option Label → σ → Prop}

theorem Runs.sound (htracks : Tracks p view next) (h : Sound p (view s))
    (hrun : Runs next ok s s') (hcareful : ∀ l r, ok l r → Careful p view l r) :
    Sound p (view s') := by
  induction hrun with
  | refl => exact h
  | @step s₁ s₂ l _ hnext hok ih =>
      have htrack := htracks _ _ _ hnext
      cases l with
      | none =>
          rw [show view s₂ = view s₁ from htrack]
          exact ih
      | some e => exact ih.step htrack fun heq => hcareful _ _ hok (congrArg some heq)

/-- A window that opened at `opened`, when `a` was the state, is still open; there is room for all
that are checking, and the wrong guesses since are counted or still to be. -/
structure Window (p : Limits) (a : Throttle ι) (opened : Nat) (c : Throttle ι) : Prop where
  later : opened ≤ c.now
  counter : c.now < opened + p.window → ∃ n, c.counter = some (n, some (opened + p.window)) ∧
    n + c.checking.card ≤ p.limit ∧ c.wrong + a.guessed.card ≤ a.wrong + n + c.guessed.card

theorem Window.step {a b c : Throttle ι} {e : Label} {opened : Nat} (h : Window p a opened b)
    (hstep : Step p e b c) (hspare : e = .pass → Spare p b) (hkept : e ≠ .reset) :
    Window p a opened c := by
  have hlater := h.later
  cases hstep with
  | tick n =>
      refine ⟨Nat.le_trans hlater (Nat.le_add_right _ _), fun hopen => h.counter ?_⟩
      exact Nat.lt_of_le_of_lt (Nat.le_add_right _ _) hopen
  | pass hnew hunlocked =>
      refine ⟨hlater, fun hopen => ?_⟩
      obtain ⟨n, hcounter, _, hwrong⟩ := h.counter hopen
      have hroom := (hspare rfl).2
      have hfailures : b.failures = n := by
        unfold failures
        rw [hcounter]
        exact if_pos fun e heq => Option.some.inj heq ▸ hopen
      refine ⟨n, hcounter, ?_, hwrong⟩
      change n + (insert _ b.checking).card ≤ _
      rw [Finset.card_insert_of_notMem hnew]
      omega
  | right => exact h
  | wrong hchecking hnew =>
      refine ⟨hlater, fun hopen => ?_⟩
      obtain ⟨n, hcounter, hroom, hwrong⟩ := h.counter hopen
      refine ⟨n, hcounter, hroom, ?_⟩
      dsimp only
      rw [Finset.card_insert_of_notMem hnew]
      omega
  | @count _ i hchecking =>
      refine ⟨hlater, fun hopen => ?_⟩
      obtain ⟨n, hcounter, hroom, hwrong⟩ := h.counter hopen
      have halive : Alive b.now (some (opened + p.window)) :=
        fun e heq => Option.some.inj heq ▸ hopen
      have hcard := Finset.card_erase_of_mem hchecking
      have hsome : 0 < b.checking.card := Finset.card_pos.mpr ⟨i, hchecking⟩
      have hguessed := Finset.pred_card_le_card_erase (s := b.guessed) (a := i)
      refine ⟨n + 1, ?_, ?_, ?_⟩
      · change some (b.recount p) = some (n + 1, _)
        unfold recount
        rw [hcounter]
        dsimp only
        rw [if_pos halive]
      · change n + 1 + (b.checking.erase i).card ≤ _
        omega
      · change b.wrong + a.guessed.card ≤ a.wrong + (n + 1) + (b.guessed.erase i).card
        omega
  | lock => exact ⟨hlater, h.counter⟩
  | @leave _ i _ =>
      refine ⟨hlater, fun hopen => ?_⟩
      obtain ⟨n, hcounter, hroom, hwrong⟩ := h.counter hopen
      refine ⟨n, hcounter, ?_, hwrong⟩
      have hcard := Finset.card_le_card (Finset.erase_subset i b.checking)
      change n + (b.checking.erase i).card ≤ _
      omega
  | reset => exact absurd rfl hkept

theorem Runs.window {a : Throttle ι} {opened : Nat} (htracks : Tracks p view next)
    (h : Window p a opened (view s))
    (hrun : Runs next ok s s') (hcareful : ∀ l r, ok l r → Careful p view l r)
    (hkept : ∀ l r, ok l r → l ≠ some .reset) : Window p a opened (view s') := by
  induction hrun with
  | refl => exact h
  | @step s₁ s₂ l _ hnext hok ih =>
      have htrack := htracks _ _ _ hnext
      cases l with
      | none =>
          rw [show view s₂ = view s₁ from htrack]
          exact ih
      | some e =>
          exact ih.step htrack (fun heq => hcareful _ _ hok (congrArg some heq))
            fun heq => hkept _ _ hok (congrArg some heq)

theorem Step.counted {a b : Throttle ι} {n : Nat} (h : Step p (.count n) a b) :
    n = (a.recount p).1 ∧ ∃ i ∈ a.checking, b = a.count p i := by
  generalize hlabel : Label.count n = e at h
  cases h with
  | @count _ i hchecking =>
      cases hlabel
      exact ⟨rfl, i, hchecking, rfl⟩
  | _ => cases hlabel

/-- The failure that opens a window is counted. -/
theorem Sound.opened {a b : Throttle ι} {n : Nat} (h : Sound p a) (hstep : Step p (.count n) a b)
    (hopens : a.Closed) : Window p a b.now b := by
  obtain ⟨_, i, hchecking, rfl⟩ := hstep.counted
  refine ⟨Nat.le_refl _, fun _ => ⟨1, ?_, ?_, ?_⟩⟩
  · change some (a.recount p) = some (1, some (a.now + p.window))
    rw [hopens.recount]
  · have hroom := h.room ⟨i, hchecking⟩
    have hcard := Finset.card_erase_of_mem hchecking
    have hsome : 0 < a.checking.card := Finset.card_pos.mpr ⟨i, hchecking⟩
    change 1 + (a.checking.erase i).card ≤ _
    omega
  · have hguessed := Finset.pred_card_le_card_erase (s := a.guessed) (a := i)
    change a.wrong + a.guessed.card ≤ a.wrong + 1 + (a.guessed.erase i).card
    omega

/-- Until the window closes, the wrong guesses since it opened, with those that were then still
to be counted, are no more than the limit. -/
theorem wrong_le {n : Nat} (htracks : Tracks p view next) (hsound : Sound p (view s))
    (hcareful : ∀ l r, ok l r → Careful p view l r) (hkept : ∀ l r, ok l r → l ≠ some .reset)
    (hcount : next s (some (.count n)) s') (hopens : (view s).Closed)
    (hrun : Runs next ok s' s'') (hwithin : (view s'').now < (view s').now + p.window) :
    (view s'').wrong + (view s).guessed.card ≤ (view s).wrong + p.limit := by
  have hstep : Step p (.count n) (view s) (view s') := htracks _ _ _ hcount
  have hsound' : Sound p (view s') := hsound.step hstep fun heq => nomatch heq
  have hwindow := hrun.window htracks (hsound.opened hstep hopens) hcareful hkept
  have hlast := hrun.sound htracks hsound' hcareful
  obtain ⟨n, _, hroom, hwrong⟩ := hwindow.counter hwithin
  have hcard := Finset.card_le_card hlast.guessed
  omega

section Inversions

variable {a b : Throttle ι} {e : Label}

theorem Step.now_le (h : Step p e a b) : a.now ≤ b.now := by
  cases h with
  | tick n => exact Nat.le_add_right _ _
  | _ => exact Nat.le_refl _

theorem Step.lock_same (h : Step p e a b) (hlock : e ≠ .lock) : b.lock = a.lock := by
  cases h with
  | lock => exact absurd rfl hlock
  | _ => rfl

theorem Step.lock_set (h : Step p .lock a b) : b.lock = some (some (b.now + p.ttl)) := by
  cases h with
  | lock => rfl

theorem Step.checking_empty (h : Step p e a b) (hnone : a.checking = ∅) (hpass : e ≠ .pass) :
    b.checking = ∅ := by
  cases h with
  | pass => exact absurd rfl hpass
  | count hchecking =>
      rw [hnone] at hchecking
      exact absurd hchecking (Finset.notMem_empty _)
  | @leave _ i _ =>
      change a.checking.erase i = ∅
      rw [hnone, Finset.erase_empty]
  | @reset _ i _ =>
      change a.checking.erase i = ∅
      rw [hnone, Finset.erase_empty]
  | _ => exact hnone

theorem Step.unlocked (h : Step p .pass a b) {expiry : Option Nat} (hlock : a.lock = some expiry) :
    ∃ gone, expiry = some gone ∧ gone ≤ a.now := by
  cases h with
  | pass _ hunlocked =>
      have hexpired := hunlocked _ hlock
      cases expiry with
      | none => exact absurd (fun _ heq => nomatch heq) hexpired
      | some gone =>
          refine ⟨gone, rfl, Nat.le_of_not_lt fun halive => hexpired fun e heq => ?_⟩
          exact Option.some.inj heq ▸ halive

theorem Step.checking_nonempty (h : Step p .guess a b) : a.checking.Nonempty := by
  cases h with
  | right hchecking => exact ⟨_, hchecking⟩
  | wrong hchecking _ => exact ⟨_, hchecking⟩

theorem Step.owing_cases {i : ι} (h : Step p e a b) (howing : i ∈ a.owing) :
    i ∈ b.owing ∨ e = .lock := by
  cases h with
  | @count _ j _ =>
      refine Or.inl ?_
      change i ∈ if p.limit ≤ (a.recount p).1 then insert j a.owing else a.owing
      split
      · exact Finset.mem_insert_of_mem howing
      · exact howing
  | lock => exact Or.inr rfl
  | _ => exact Or.inl howing

end Inversions

/-- What follows the last failure allowed, counted by `i`: nobody is checking until `i` has set
the lock, nor then until the lock has expired. -/
inductive Shut (p : Limits) (view : σ → Throttle ι) (next : σ → Option Label → σ → Prop)
    (ok : Option Label → σ → Prop) (i : ι) (s c : σ) : Prop
  | owing : i ∈ (view c).owing → (view c).checking = ∅ → Shut p view next ok i s c
  | locked (x y : σ) (expiry : Option Nat) : Runs next ok s x → next x (some .lock) y →
      Runs next ok y c → (view y).now ≤ (view c).now → (view c).lock = some expiry →
      (∀ e, expiry = some e → (view y).now + p.ttl ≤ e) →
      ((view c).checking = ∅ ∨ (view y).now + p.ttl ≤ (view c).now) → Shut p view next ok i s c

theorem Shut.step {i : ι} {c c' : σ} {l : Option Label} (h : Shut p view next ok i s c)
    (hrun : Runs next ok s c) (htracks : Tracks p view next) (hnext : next c l c') (hok : ok l c)
    (hcareful : ∀ l r, ok l r → Careful p view l r) : Shut p view next ok i s c' := by
  have htrack := htracks _ _ _ hnext
  cases h with
  | owing howing hnone =>
      cases l with
      | none =>
          have hsame : view c' = view c := htrack
          exact .owing (hsame ▸ howing) (hsame ▸ hnone)
      | some e =>
          have hstep : Step p e (view c) (view c') := htrack
          have hpass : e ≠ .pass := by
            intro heq
            rw [(hcareful _ _ hok (congrArg some heq)).1] at howing
            exact Finset.notMem_empty _ howing
          have hstill := hstep.checking_empty hnone hpass
          rcases hstep.owing_cases howing with howing' | rfl
          · exact .owing howing' hstill
          · exact .locked c c' _ hrun hnext .refl (Nat.le_refl _) hstep.lock_set
              (fun e heq => Option.some.inj heq ▸ Nat.le_refl _) (Or.inl hstill)
  | locked x y expiry hbefore hlock hafter hlater hentry hlasts hquiet =>
      cases l with
      | none =>
          have hsame : view c' = view c := htrack
          rw [← hsame] at hlater hentry hquiet
          exact .locked x y expiry hbefore hlock (hafter.step hnext hok) hlater hentry hlasts hquiet
      | some e =>
          have hstep : Step p e (view c) (view c') := htrack
          have hnow := hstep.now_le
          have hquiet' : (view c').checking = ∅ ∨ (view y).now + p.ttl ≤ (view c').now := by
            rcases hquiet with hnone | hover
            · by_cases hpass : e = .pass
              · subst hpass
                obtain ⟨gone, rfl, hgone⟩ := hstep.unlocked hentry
                have := hlasts gone rfl
                exact Or.inr (by omega)
              · exact Or.inl (hstep.checking_empty hnone hpass)
            · exact Or.inr (Nat.le_trans hover hnow)
          by_cases hagain : e = .lock
          · subst hagain
            refine .locked x y _ hbefore hlock (hafter.step hnext hok) (Nat.le_trans hlater hnow)
              hstep.lock_set (fun e heq => ?_) hquiet'
            obtain rfl := Option.some.inj heq
            omega
          · exact .locked x y expiry hbefore hlock (hafter.step hnext hok)
              (Nat.le_trans hlater hnow) ((hstep.lock_same hagain).trans hentry) hlasts hquiet'

theorem Runs.shut {i : ι} (htracks : Tracks p view next) (h : Shut p view next ok i s s)
    (hrun : Runs next ok s s') (hcareful : ∀ l r, ok l r → Careful p view l r) :
    Shut p view next ok i s s' := by
  induction hrun with
  | refl => exact h
  | step hbefore hnext hok ih => exact ih.step hbefore htracks hnext hok hcareful

/-- A guess after the last failure allowed comes after the expiry of a lock that was set in
between. -/
theorem guess_after_lock {n : Nat} (htracks : Tracks p view next) (hsound : Sound p (view r))
    (hcareful : ∀ l r, ok l r → Careful p view l r) (hcount : next r (some (.count n)) s)
    (hlast : p.limit ≤ n) (hrun : Runs next ok s s') (hguess : next s' (some .guess) s'') :
    ∃ x y, Runs next ok s x ∧ next x (some .lock) y ∧ Runs next ok y s' ∧
      (view y).now + p.ttl ≤ (view s').now := by
  have hstep : Step p (.count n) (view r) (view s) := htracks _ _ _ hcount
  have hshut : ∃ i, Shut p view next ok i s s := by
    obtain ⟨rfl, i, hchecking, hview⟩ := hstep.counted
    refine ⟨i, .owing ?_ ?_⟩
    · rw [hview]
      change i ∈ if _ then _ else _
      rw [if_pos hlast]
      exact Finset.mem_insert_self _ _
    · have hroom := hsound.room ⟨i, hchecking⟩
      rw [recount_fst] at hlast
      have hsome : 0 < (view r).checking.card := Finset.card_pos.mpr ⟨i, hchecking⟩
      have hcard := Finset.card_erase_of_mem hchecking
      rw [hview]
      change (view r).checking.erase i = ∅
      exact Finset.card_eq_zero.mp (by omega)
  obtain ⟨i, hshut⟩ := hshut
  have hguesses : (view s').checking.Nonempty := by
    have hstep' : Step p .guess (view s') (view s'') := htracks _ _ _ hguess
    exact hstep'.checking_nonempty
  cases hrun.shut htracks hshut hcareful with
  | owing _ hnone => exact absurd hnone hguesses.ne_empty
  | locked x y expiry hbefore hlock hafter _ _ _ hquiet =>
      rcases hquiet with hnone | hover
      · exact absurd hnone hguesses.ne_empty
      · exact ⟨x, y, hbefore, hlock, hafter, hover⟩

end Runs

end Throttle

end Interleave
