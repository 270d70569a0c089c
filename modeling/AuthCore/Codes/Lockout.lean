/-
Guesses under a lock.  A failure is counted in one key of the store and the last one that is
allowed sets another; where a call stands between its check of the lock and the count is read off
its own record.
-/
import AuthCore.Interleave.Conduct
import AuthCore.Interleave.Throttle
import AuthCore.History.Frames
import AuthCore.Model.Service

namespace AuthCore

open Interleave Throttle

/-- What the security store protects: the key of the lock, the counter, which events of a call
compare its guess with the secret and whether it is right, and whether a right guess clears the
counter. -/
structure Guard where
  lock : CacheKey
  route : String
  subject : Subject
  limits : Limits
  windowSeconds : Nat
  lockSeconds : Nat
  guess : List Event → Option Bool
  clears : Bool
  window_eq : limits.window = seconds windowSeconds
  ttl_eq : limits.ttl = seconds lockSeconds
  lock_ne : lock ≠ .rateLimit route subject

inductive Kind where
  | pass
  | guess (right : Bool)
  | count (n : Nat)
  | lock
  | reset
  | back
  | other
deriving DecidableEq

inductive Phase where
  | out
  | checking
  | guessed
  | owing
deriving DecidableEq

namespace Guard

variable (G : Guard)

abbrev counter : CacheKey :=
  .rateLimit G.route G.subject

/-- What an event means to the guard when the call has recorded `t`. -/
def kind (t : List Event) : Event → Kind
  | .got key value => if key = G.lock ∧ value.isNone then .pass else .other
  | .counted route subject _ n => if route = G.route ∧ subject = G.subject then .count n else .other
  | .put key _ _ => if key = G.lock then .lock else .other
  | .removed key => if key = G.counter then .reset else .other
  | .returned _ => .back
  | e => match G.guess (e :: t) with
    | some right => .guess right
    | none => .other

theorem kind_clock (t : List Event) (now : Time) :
    G.kind t (.clock now) =
      match G.guess (.clock now :: t) with
      | some right => .guess right
      | none => .other :=
  rfl

theorem kind_login (t : List Event) (event : LoginEvent) :
    G.kind t (.login event) =
      match G.guess (.login event :: t) with
      | some right => .guess right
      | none => .other :=
  rfl

/-- Where a call stands. -/
def phase : List Event → Phase
  | [] => .out
  | e :: t => match G.kind t e with
    | .pass => .checking
    | .guess false => .guessed
    | .guess true => phase t
    | .count n => if G.limits.limit ≤ n then .owing else .out
    | .lock => .out
    | .reset => .out
    | .back => .out
    | .other => phase t

/-- The calls that stand in one of these phases. -/
def standing (phases : Phase → Bool) (log : List (Nat × Event)) : Finset Nat :=
  (log.map Prod.fst).toFinset.filter fun i => phases (G.phase (trace i log))

/-- The wrong guesses that were compared with the secret. -/
def wrongGuesses : List (Nat × Event) → Nat
  | [] => 0
  | (i, e) :: log => wrongGuesses log + if G.kind (trace i log) e = .guess false then 1 else 0

/-- The throttle, read off the store and the log. -/
def throttle (c : Core Db World) : Throttle Nat where
  now := c.store.now
  counter := show Option (Nat × Option Nat) from c.store.cache G.counter
  lock := (c.store.cache G.lock).map Prod.snd
  checking := G.standing (fun phase => phase == .checking || phase == .guessed) c.store.log
  guessed := G.standing (· == .guessed) c.store.log
  owing := G.standing (· == .owing) c.store.log
  wrong := G.wrongGuesses c.store.log

/-- A failure is counted after the check of the lock, the lock set at once after the last failure
allowed, and no call ends before. -/
def Allows (t : List Event) (e : Event) : Prop :=
  match G.kind t e with
  | .pass => G.phase t = .out ∨ G.phase t = .checking
  | .guess _ => G.phase t = .checking ∧ e.touches = none
  | .count _ => (G.phase t = .checking ∨ G.phase t = .guessed) ∧
      ∀ route subject window n, e = .counted route subject window n → window = G.windowSeconds
  | .lock => (G.phase t = .owing ∨ G.phase t = .out) ∧
      ∀ key value ttl, e = .put key value ttl → ttl = G.lockSeconds
  | .reset => G.phase t = .checking ∧ G.clears = true
  | .back => G.phase t ≠ .guessed ∧ G.phase t ≠ .owing
  | .other => e.touches ≠ some G.lock ∧ e.touches ≠ some G.counter

end Guard

/-- The recorded answer of the store is the one it gives. -/
def Event.Answers (c : Core Db World) : Event → Prop
  | .got key value => value = c.store.cache.get c.store.now key
  | .counted route subject window n => n = (Redis.count route subject window c.store).1
  | _ => True

/-- The conduct that lets calls record what `allowed` says. -/
def conduct (allowed : List Event → Event → Prop) : Conduct Db World Event where
  log w := w.log
  allowed := allowed
  does i e c w := w = (e.stored c.store).record i e ∧ e.Answers c
  log_does := by
    rintro i e c w ⟨rfl, _⟩
    exact congrArg _ (e.log_stored c.store)

section Standing

variable {G : Guard} {phases : Phase → Bool} {log : List (Nat × Event)} {i j : Nat} {e : Event}

theorem Guard.mem_standing (hout : phases .out = false) :
    i ∈ G.standing phases log ↔ phases (G.phase (trace i log)) = true := by
  unfold Guard.standing
  rw [Finset.mem_filter, List.mem_toFinset]
  refine and_iff_right_of_imp fun hphase => ?_
  by_contra hnone
  have hempty : trace i log = [] := by
    refine List.filterMap_eq_nil_iff.mpr fun entry hentry => if_neg fun heq => hnone ?_
    exact heq ▸ List.mem_map_of_mem hentry
  rw [hempty] at hphase
  change phases .out = true at hphase
  rw [hout] at hphase
  cases hphase

theorem Guard.standing_cons (hout : phases .out = false) : G.standing phases ((i, e) :: log) =
    if phases (G.phase (e :: trace i log)) then insert i (G.standing phases log)
    else (G.standing phases log).erase i := by
  ext j
  rw [Guard.mem_standing hout]
  by_cases hj : j = i
  · subst hj
    rw [trace_cons_self]
    split
    · rename_i hphase
      simp [hphase]
    · rename_i hphase
      simp [hphase]
  · rw [trace_cons_of_ne (Ne.symm hj)]
    split
    · simp [hj, Guard.mem_standing hout]
    · simp [hj, Guard.mem_standing hout]

theorem Guard.standing_in (hout : phases .out = false)
    (h : phases (G.phase (e :: trace i log)) = true) :
    G.standing phases ((i, e) :: log) = insert i (G.standing phases log) := by
  rw [Guard.standing_cons hout, if_pos h]

theorem Guard.standing_out (hout : phases .out = false)
    (h : phases (G.phase (e :: trace i log)) = false) :
    G.standing phases ((i, e) :: log) = (G.standing phases log).erase i := by
  rw [Guard.standing_cons hout, h]
  rfl

theorem Guard.standing_same (hout : phases .out = false)
    (h : phases (G.phase (e :: trace i log)) = phases (G.phase (trace i log))) :
    G.standing phases ((i, e) :: log) = G.standing phases log := by
  rw [Guard.standing_cons hout, h]
  split
  · rename_i hphase
    exact Finset.insert_eq_of_mem ((Guard.mem_standing hout).mpr hphase)
  · rename_i hphase
    exact Finset.erase_eq_of_notMem fun hmem => hphase ((Guard.mem_standing hout).mp hmem)

end Standing

section Events

variable {G : Guard} {i : Nat} {e : Event} {c : Core Db World} {d : Db}

/-- What an event means to the throttle. -/
def Guard.label : Phase → Kind → Option Label
  | .out, .pass => some .pass
  | _, .pass => none
  | _, .guess _ => some .guess
  | _, .count n => some (.count n)
  | _, .lock => some .lock
  | _, .reset => some .reset
  | _, .back => some .leave
  | _, .other => none

theorem Guard.throttle_event : G.throttle ⟨d, (e.stored c.store).record i e⟩ =
    { now := c.store.now
      counter := show Option (Nat × Option Nat) from (e.stored c.store).cache G.counter
      lock := ((e.stored c.store).cache G.lock).map Prod.snd
      checking := G.standing (fun phase => phase == .checking || phase == .guessed)
        ((i, e) :: c.store.log)
      guessed := G.standing (· == .guessed) ((i, e) :: c.store.log)
      owing := G.standing (· == .owing) ((i, e) :: c.store.log)
      wrong := G.wrongGuesses ((i, e) :: c.store.log) } := by
  have hlog := e.log_stored c.store
  have hnow := e.now_stored c.store
  unfold Guard.throttle World.record
  dsimp only
  rw [hlog, hnow]

theorem mem_checking {j : Nat} : j ∈ (G.throttle c).checking ↔
    G.phase (trace j c.store.log) = .checking ∨ G.phase (trace j c.store.log) = .guessed := by
  change j ∈ G.standing _ c.store.log ↔ _
  rw [Guard.mem_standing rfl]
  simp

theorem mem_guessed {j : Nat} : j ∈ (G.throttle c).guessed ↔
    G.phase (trace j c.store.log) = .guessed := by
  change j ∈ G.standing _ c.store.log ↔ _
  rw [Guard.mem_standing rfl]
  simp

theorem wrong_same {log : List (Nat × Event)} (h : G.kind (trace i log) e ≠ .guess false) :
    G.wrongGuesses ((i, e) :: log) = G.wrongGuesses log := by
  rw [Guard.wrongGuesses, if_neg h, Nat.add_zero]

/-- An event that means nothing to the guard. -/
theorem throttle_same (hphase : G.phase (e :: trace i c.store.log) = G.phase (trace i c.store.log))
    (hlock : e.touches ≠ some G.lock) (hcounter : e.touches ≠ some G.counter)
    (hwrong : G.kind (trace i c.store.log) e ≠ .guess false) :
    G.throttle ⟨d, (e.stored c.store).record i e⟩ = G.throttle c := by
  rw [Guard.throttle_event]
  unfold Guard.throttle
  rw [Event.cache_stored hlock, Event.cache_stored hcounter,
    Guard.standing_same rfl (by rw [hphase]), Guard.standing_same rfl (by rw [hphase]),
    Guard.standing_same rfl (by rw [hphase]), wrong_same hwrong]

section Kinds

variable {t : List Event}

/-- The event that means something to the guard. -/
def Means (G : Guard) (e : Event) : Kind → Prop
  | .pass => e = .got G.lock none
  | .count n => ∃ window, e = .counted G.route G.subject window n
  | .lock => ∃ value ttl, e = .put G.lock value ttl
  | .reset => e = .removed G.counter
  | .back => ∃ result, e = .returned result
  | .guess _ => True
  | .other => True

theorem means_kind : Means G e (G.kind t e) := by
  unfold Guard.kind
  split
  · rename_i key value
    by_cases hpass : key = G.lock ∧ value.isNone = true
    · rw [if_pos hpass]
      obtain ⟨rfl, hnone⟩ := hpass
      rw [Option.isNone_iff_eq_none.mp hnone]
      rfl
    · rw [if_neg hpass]
      trivial
  · rename_i route subject window n
    by_cases hsame : route = G.route ∧ subject = G.subject
    · rw [if_pos hsame, hsame.1, hsame.2]
      exact ⟨window, rfl⟩
    · rw [if_neg hsame]
      trivial
  · rename_i key value ttl
    by_cases hlock : key = G.lock
    · rw [if_pos hlock]
      subst hlock
      exact ⟨value, ttl, rfl⟩
    · rw [if_neg hlock]
      trivial
  · rename_i key
    by_cases hcounter : key = G.counter
    · rw [if_pos hcounter, hcounter]
      rfl
    · rw [if_neg hcounter]
      trivial
  · rename_i result
    exact ⟨result, rfl⟩
  · cases G.guess (e :: t) with
    | some right => trivial
    | none => trivial

theorem kind_pass (h : G.kind t e = .pass) : e = .got G.lock none := by
  have hmeans := means_kind (G := G) (e := e) (t := t)
  rwa [h] at hmeans

theorem kind_count {n : Nat} (h : G.kind t e = .count n) :
    ∃ window, e = .counted G.route G.subject window n := by
  have hmeans := means_kind (G := G) (e := e) (t := t)
  rwa [h] at hmeans

theorem kind_lock (h : G.kind t e = .lock) : ∃ value ttl, e = .put G.lock value ttl := by
  have hmeans := means_kind (G := G) (e := e) (t := t)
  rwa [h] at hmeans

theorem kind_reset (h : G.kind t e = .reset) : e = .removed G.counter := by
  have hmeans := means_kind (G := G) (e := e) (t := t)
  rwa [h] at hmeans

theorem kind_back (h : G.kind t e = .back) : ∃ result, e = .returned result := by
  have hmeans := means_kind (G := G) (e := e) (t := t)
  rwa [h] at hmeans

end Kinds

/-- The call has found no lock. -/
theorem step_pass (h : G.kind (trace i c.store.log) e = .pass) (hanswers : e.Answers c)
    (hout : G.phase (trace i c.store.log) = .out) :
    Step G.limits .pass (G.throttle c) (G.throttle ⟨d, (e.stored c.store).record i e⟩) := by
  have hphase : G.phase (e :: trace i c.store.log) = .checking := by
    rw [Guard.phase, h]
  obtain rfl := kind_pass h
  have hview : G.throttle
      ⟨d, ((Event.got G.lock none).stored c.store).record i (.got G.lock none)⟩ = { G.throttle c with checking := insert i (G.throttle c).checking } := by
    rw [Guard.throttle_event, Guard.standing_cons rfl, hphase, Guard.standing_same rfl
      (by rw [hphase, hout]; rfl), Guard.standing_same rfl (by rw [hphase, hout]; rfl),
      wrong_same (by simp [h])]
    rfl
  rw [hview]
  refine .pass (fun hmem => ?_) fun expiry hlock halive => ?_
  · rcases mem_checking.mp hmem with hphase | hphase
    · rw [hout] at hphase
      cases hphase
    · rw [hout] at hphase
      cases hphase
  · have habsent : none = c.store.cache.get c.store.now G.lock := hanswers
    obtain ⟨⟨value, expiry'⟩, hentry, rfl⟩ := Option.map_eq_some_iff.mp hlock
    unfold Cache.get at habsent
    rw [hentry] at habsent
    cases expiry' with
    | none => cases habsent
    | some e =>
        have hlive : c.store.now < e := halive e rfl
        dsimp only at habsent
        rw [if_pos hlive] at habsent
        cases habsent

/-- The call compares its guess. -/
theorem step_guess {right : Bool} (h : G.kind (trace i c.store.log) e = .guess right)
    (hchecking : G.phase (trace i c.store.log) = .checking) (htouches : e.touches = none) :
    Step G.limits .guess (G.throttle c) (G.throttle ⟨d, (e.stored c.store).record i e⟩) := by
  have hmem : i ∈ (G.throttle c).checking := mem_checking.mpr (Or.inl hchecking)
  have hlock : e.touches ≠ some G.lock := by simp [htouches]
  have hcounter : e.touches ≠ some G.counter := by simp [htouches]
  cases right with
  | true =>
      rw [throttle_same ?_ hlock hcounter (by simp [h])]
      · exact .right hmem
      · rw [Guard.phase, h]
  | false =>
      have hphase : G.phase (e :: trace i c.store.log) = .guessed := by
        rw [Guard.phase, h]
      have hview : G.throttle ⟨d, (e.stored c.store).record i e⟩ = { G.throttle c with
          guessed := insert i (G.throttle c).guessed, wrong := (G.throttle c).wrong + 1 } := by
        rw [Guard.throttle_event, Event.cache_stored hlock, Event.cache_stored hcounter,
          Guard.standing_same rfl (by rw [hphase, hchecking]; rfl), Guard.standing_cons rfl, hphase,
          Guard.standing_same rfl (by rw [hphase, hchecking]; rfl),
          Guard.wrongGuesses, if_pos h]
        rfl
      rw [hview]
      refine .wrong hmem fun hguessed => ?_
      rw [mem_guessed, hchecking] at hguessed
      cases hguessed

theorem count_eq : Redis.count G.route G.subject G.windowSeconds c.store =
    (((G.throttle c).recount G.limits).1, { c.store with
      cache := c.store.cache.put G.counter (show Nat from ((G.throttle c).recount G.limits).1)
        ((G.throttle c).recount G.limits).2 }) := by
  have hcounter : (G.throttle c).counter =
    (show Option (Nat × Option Nat) from c.store.cache G.counter) := rfl
  unfold Redis.count Throttle.recount Cache.get Cache.expiry Cache.get
  rw [hcounter, G.window_eq]
  dsimp only
  rcases hentry : c.store.cache G.counter with _ | ⟨n, _ | expiry⟩
  · rfl
  · dsimp only
    have hopen : Alive (G.throttle c).now none := by
      intro e heq
      cases heq
    rw [if_pos hopen]
  · dsimp only
    by_cases halive : c.store.now < expiry
    · have hopen : Alive (G.throttle c).now (some expiry) :=
        fun e heq => Option.some.inj heq ▸ halive
      rw [if_pos halive, if_pos hopen]
    · have hclosed : ¬Alive (G.throttle c).now (some expiry) := fun h => halive (h expiry rfl)
      rw [if_neg halive, if_neg hclosed]
      rfl

/-- The call counts its failure. -/
theorem step_count {n : Nat} (h : G.kind (trace i c.store.log) e = .count n)
    (hanswers : e.Answers c)
    (hphase : G.phase (trace i c.store.log) = .checking ∨ G.phase (trace i c.store.log) = .guessed)
    (hwindow : ∀ route subject window n, e = .counted route subject window n →
      window = G.windowSeconds) :
    Step G.limits (.count n) (G.throttle c) (G.throttle ⟨d, (e.stored c.store).record i e⟩) := by
  obtain ⟨window, rfl⟩ := kind_count h
  obtain rfl := hwindow _ _ _ _ rfl
  have hn : n = ((G.throttle c).recount G.limits).1 :=
    Eq.trans hanswers (congrArg Prod.fst count_eq)
  have hlock : (Event.counted G.route G.subject G.windowSeconds n).touches ≠ some G.lock :=
    fun heq => G.lock_ne (Option.some.inj heq).symm
  have hafter : G.phase (.counted G.route G.subject G.windowSeconds n :: trace i c.store.log) =
      if G.limits.limit ≤ n then .owing else .out := by
    rw [Guard.phase, h]
  have hmem : i ∈ (G.throttle c).checking := mem_checking.mpr hphase
  have hview : G.throttle ⟨d, ((Event.counted G.route G.subject G.windowSeconds n).stored
      c.store).record i (.counted G.route G.subject G.windowSeconds n)⟩ = (G.throttle c).count G.limits i := by
    have hcounter : (show Option (Nat × Option Nat) from ((Event.counted G.route G.subject
        G.windowSeconds n).stored c.store).cache G.counter) =
          some ((G.throttle c).recount G.limits) := by
      change (Redis.count G.route G.subject G.windowSeconds c.store).2.cache G.counter = _
      rw [count_eq]
      simp [Cache.put]
      rfl
    have hnone : G.phase (trace i c.store.log) ≠ .owing := by
      rcases hphase with hphase | hphase
      · simp [hphase]
      · simp [hphase]
    unfold Throttle.count
    by_cases hlast : G.limits.limit ≤ n
    · rw [if_pos hlast] at hafter
      rw [Guard.throttle_event, Event.cache_stored hlock, hcounter, wrong_same (by simp [h]),
        Guard.standing_out rfl (by rw [hafter]; rfl),
        Guard.standing_out rfl (by rw [hafter]; rfl), Guard.standing_in rfl (by rw [hafter]; rfl),
        ← hn, if_pos hlast]
      rfl
    · rw [if_neg hlast] at hafter
      rw [Guard.throttle_event, Event.cache_stored hlock, hcounter, wrong_same (by simp [h]),
        Guard.standing_out rfl (by rw [hafter]; rfl),
        Guard.standing_out rfl (by rw [hafter]; rfl),
        Guard.standing_same rfl (by rw [hafter]; simp [hnone]), ← hn, if_neg hlast]
      rfl
  rw [hview]
  subst hn
  exact .count hmem

/-- The call sets the lock. -/
theorem step_lock (h : G.kind (trace i c.store.log) e = .lock)
    (hphase : G.phase (trace i c.store.log) = .owing ∨ G.phase (trace i c.store.log) = .out)
    (hseconds : ∀ key value ttl, e = .put key value ttl → ttl = G.lockSeconds) :
    Step G.limits .lock (G.throttle c) (G.throttle ⟨d, (e.stored c.store).record i e⟩) := by
  have hafter : G.phase (e :: trace i c.store.log) = .out := by
    rw [Guard.phase, h]
  obtain ⟨value, ttl, rfl⟩ := kind_lock h
  obtain rfl := hseconds _ _ _ rfl
  have hcounter : (Event.put G.lock value G.lockSeconds).touches ≠ some G.counter :=
    fun heq => G.lock_ne (Option.some.inj heq)
  have hlock : (((Event.put G.lock value G.lockSeconds).stored c.store).cache G.lock).map Prod.snd =
      some (some (c.store.now + G.limits.ttl)) := by
    rw [G.ttl_eq]
    simp [Event.stored, Cache.put]
  have hchecking : G.phase (trace i c.store.log) ≠ .checking ∧
      G.phase (trace i c.store.log) ≠ .guessed := by
    rcases hphase with hphase | hphase
    · simp [hphase]
    · simp [hphase]
  have hsame : G.standing (fun phase => phase == .checking || phase == .guessed)
      ((i, .put G.lock value G.lockSeconds) :: c.store.log) = G.standing _ c.store.log :=
    Guard.standing_same rfl (by
      rw [hafter, beq_false_of_ne hchecking.1, beq_false_of_ne hchecking.2]
      rfl)
  have hview : G.throttle ⟨d, ((Event.put G.lock value G.lockSeconds).stored c.store).record i
      (.put G.lock value G.lockSeconds)⟩ = { G.throttle c with
        lock := some (some ((G.throttle c).now + G.limits.ttl))
        owing := (G.throttle c).owing.erase i } := by
    rw [Guard.throttle_event, Event.cache_stored hcounter, hlock, wrong_same (by simp [h]), hsame,
      Guard.standing_same rfl (by rw [hafter, beq_false_of_ne hchecking.2]; rfl),
      Guard.standing_out rfl (by rw [hafter]; rfl)]
    rfl
  rw [hview]
  exact .lock

/-- The call clears the counter. -/
theorem step_reset (h : G.kind (trace i c.store.log) e = .reset)
    (hchecking : G.phase (trace i c.store.log) = .checking) :
    Step G.limits .reset (G.throttle c) (G.throttle ⟨d, (e.stored c.store).record i e⟩) := by
  have hafter : G.phase (e :: trace i c.store.log) = .out := by
    rw [Guard.phase, h]
  obtain rfl := kind_reset h
  have hlock : (Event.removed G.counter).touches ≠ some G.lock :=
    fun heq => G.lock_ne (Option.some.inj heq).symm
  have hcounter : (show Option (Nat × Option Nat) from
      ((Event.removed G.counter).stored c.store).cache G.counter) = none := by
    change Function.update c.store.cache G.counter none G.counter = none
    rw [Function.update_self]
  have hview : G.throttle ⟨d, ((Event.removed G.counter).stored c.store).record i
      (.removed G.counter)⟩ = { G.throttle c with
        counter := none, checking := (G.throttle c).checking.erase i } := by
    rw [Guard.throttle_event, Event.cache_stored hlock, hcounter, wrong_same (by simp [h]),
      Guard.standing_out rfl (by rw [hafter]; rfl),
      Guard.standing_same rfl (by rw [hafter, hchecking]; rfl),
      Guard.standing_same rfl (by rw [hafter, hchecking]; rfl)]
    rfl
  rw [hview]
  refine .reset fun hguessed => ?_
  rw [mem_guessed, hchecking] at hguessed
  cases hguessed

/-- The call is over. -/
theorem step_back (h : G.kind (trace i c.store.log) e = .back)
    (hphase : G.phase (trace i c.store.log) ≠ .guessed ∧ G.phase (trace i c.store.log) ≠ .owing) :
    Step G.limits .leave (G.throttle c) (G.throttle ⟨d, (e.stored c.store).record i e⟩) := by
  have hafter : G.phase (e :: trace i c.store.log) = .out := by
    rw [Guard.phase, h]
  obtain ⟨result, rfl⟩ := kind_back h
  have hlock : (Event.returned result).touches ≠ some G.lock := fun heq => nomatch heq
  have hcounter : (Event.returned result).touches ≠ some G.counter := fun heq => nomatch heq
  have hview : G.throttle ⟨d, ((Event.returned result).stored c.store).record i
      (.returned result)⟩ = { G.throttle c with
        checking := (G.throttle c).checking.erase i } := by
    rw [Guard.throttle_event, Event.cache_stored hlock, Event.cache_stored hcounter,
      wrong_same (by simp [h]),
      Guard.standing_out rfl (by rw [hafter]; rfl),
      Guard.standing_same rfl (by rw [hafter]; simp [hphase]),
      Guard.standing_same rfl (by rw [hafter]; simp [hphase])]
    rfl
  rw [hview]
  exact .leave fun hguessed => hphase.1 (mem_guessed.mp hguessed)

/-- Every event that the guard allows is a step of its throttle, or means nothing to it. -/
theorem step_event (hallows : G.Allows (trace i c.store.log) e) (hanswers : e.Answers c) :
    match Guard.label (G.phase (trace i c.store.log)) (G.kind (trace i c.store.log) e) with
    | none => G.throttle ⟨d, (e.stored c.store).record i e⟩ = G.throttle c
    | some l => Step G.limits l (G.throttle c)
        (G.throttle ⟨d, (e.stored c.store).record i e⟩) := by
  unfold Guard.Allows at hallows
  cases hkind : G.kind (trace i c.store.log) e with
  | pass =>
      rw [hkind] at hallows
      rcases hallows with hout | hchecking
      · rw [hout]
        exact step_pass hkind hanswers hout
      · rw [hchecking]
        obtain rfl := kind_pass hkind
        refine throttle_same ?_ (fun heq => nomatch heq) (fun heq => nomatch heq)
          (by simp [hkind])
        rw [Guard.phase, hkind, hchecking]
  | guess right =>
      rw [hkind] at hallows
      rw [hallows.1]
      exact step_guess hkind hallows.1 hallows.2
  | count n =>
      rw [hkind] at hallows
      have hstep := step_count (d := d) hkind hanswers hallows.1 hallows.2
      cases G.phase (trace i c.store.log) <;> exact hstep
  | lock =>
      rw [hkind] at hallows
      have hstep := step_lock (d := d) hkind hallows.1 hallows.2
      cases G.phase (trace i c.store.log) <;> exact hstep
  | reset =>
      rw [hkind] at hallows
      have hstep := step_reset (d := d) hkind hallows.1
      cases G.phase (trace i c.store.log) <;> exact hstep
  | back =>
      rw [hkind] at hallows
      have hstep := step_back (d := d) hkind hallows
      cases G.phase (trace i c.store.log) <;> exact hstep
  | other =>
      rw [hkind] at hallows
      have hsame : G.throttle ⟨d, (e.stored c.store).record i e⟩ = G.throttle c := by
        refine throttle_same ?_ hallows.1 hallows.2 (by simp [hkind])
        rw [Guard.phase, hkind]
      cases G.phase (trace i c.store.log) <;> exact hsame

end Events

end AuthCore
