/-
The states of an account and its version.  Every commit that touches an account
moves it along one of the allowed edges and counts its version up by one, so a
version names one state of the account for good.
-/
import AuthCore.Accounts.Standing

namespace AuthCore

open Interleave Relational RecoveryRepository

/-- What a version is meant to name: state, address, number and the hashes of
the password identities. -/
@[ext]
structure Standing where
  state : UserState
  email : Option String
  phoneE164 : Option String
  password : Uuid → Option (Option String)

def Account.standing (a : Account) (row : User) : Standing where
  state := row.state
  email := row.email
  phoneE164 := row.phoneE164
  password id := ((a.login id).filter (·.provider == .password)).map (·.passwordHash)

/-- The event unlocks the user or resets its password. -/
def Event.unlocks (u : Uuid) : Event → Bool
  | recovery (.unlocked user _ _) => user == u
  | recovery (.passwordReset _ _ (.updated, some user)) => user.userId == u
  | _ => false

/-- A new hash of the same password, which a login writes. -/
def Event.rehashes : Event → Bool
  | login (.passwordUpdated ..) => true
  | _ => false

/-- The edges an event may move an account along. -/
structure Permitted (u : Uuid) (e : Event) (before after : UserState) : Prop where
  suspended : before = .suspended → after = .suspended ∨ after = .anonymized
  disabled : before = .disabled → after = .disabled ∨ after = .anonymized
  anonymized : before = .anonymized → after = .anonymized
  locked : before = .locked → after = .active → e.unlocks u = true

theorem Permitted.refl (u : Uuid) (e : Event) (state : UserState) : Permitted u e state state where
  suspended h := Or.inl h
  disabled h := Or.inl h
  anonymized h := h
  locked h h' := by
    rw [h] at h'
    cases h'

/-- A row stays; its state moves along an edge, and any change of the account
counts its version up, a new hash of the password apart. -/
theorem AccountStep.row {u : Uuid} {a a' : Account} {e : Event} (h : AccountStep u a e a')
    {row : User} (hrow : a.row = some row) :
    ∃ row', a'.row = some row' ∧ Permitted u e row.state row'.state ∧
      (a' = a ∨ row'.version = row.version + 1 ∨ e.rehashes = true ∧ row' = row) := by
  cases h with
  | same => exact ⟨row, hrow, .refl _ _ _, Or.inl rfl⟩
  | created _ hnone _ _ _ =>
      rw [hnone] at hrow
      cases hrow
  | rehashed => exact ⟨row, hrow, .refl _ _ _, Or.inr (Or.inr ⟨rfl, rfl⟩)⟩
  | verified _ hrow' hverifiable hnew _ =>
      rw [hrow] at hrow'
      cases hrow'
      refine ⟨_, hnew, ?_, Or.inr (Or.inl rfl)⟩
      simp only [RegistrationRepository.verifiable, Bool.or_eq_true, beq_iff_eq] at hverifiable
      constructor
      · intro h
        rcases hverifiable with h' | h' <;> simp [h] at h'
      · intro h
        rcases hverifiable with h' | h' <;> simp [h] at h'
      · intro h
        rcases hverifiable with h' | h' <;> simp [h] at h'
      · intro h
        rcases hverifiable with h' | h' <;> simp [h] at h'
  | reset hrow' hresettable _ _ =>
      rw [hrow] at hrow'
      cases hrow'
      refine ⟨_, rfl, ?_, Or.inr (Or.inl rfl)⟩
      simp only [resettable, ne_eq, Bool.and_eq_true, decide_eq_true_eq] at hresettable
      constructor
      · exact fun h => absurd h hresettable.1.1
      · exact fun h => absurd h hresettable.1.2
      · exact fun h => absurd h hresettable.2
      · intro _ _
        simp [Event.unlocks, recoveryUser]
  | @contact _ _ _ _ contactType value _ hrow' hactive hnew _ =>
      rw [hrow] at hrow'
      cases hrow'
      refine ⟨_, hnew, ?_, Or.inr (Or.inl rfl)⟩
      have hstate : (moved contactType value row).state = row.state := by
        cases contactType with
        | email => rfl
        | phone => rfl
      rw [hstate]
      exact .refl _ _ _
  | unlocked hrow' hopen =>
      rw [hrow] at hrow'
      cases hrow'
      refine ⟨_, rfl, ?_, Or.inr (Or.inl rfl)⟩
      constructor
      · intro h
        rcases hopen with h' | h' <;> simp [h] at h'
      · intro h
        rcases hopen with h' | h' <;> simp [h] at h'
      · intro h
        rcases hopen with h' | h' <;> simp [h] at h'
      · intro _ _
        simp [Event.unlocks]
  | suspended hrow' hdisabled hanonymized =>
      rw [hrow] at hrow'
      cases hrow'
      refine ⟨_, rfl, ?_, Or.inr (Or.inl rfl)⟩
      constructor
      · exact fun _ => Or.inl rfl
      · exact fun h => absurd h hdisabled
      · exact fun h => absurd h hanonymized
      · intro _ h
        cases h
  | executed _ hrow' =>
      rw [hrow] at hrow'
      cases hrow'
      exact ⟨_, rfl, .refl _ _ _, Or.inr (Or.inl rfl)⟩
  | erased _ hrow' hnew _ =>
      rw [hrow] at hrow'
      cases hrow'
      refine ⟨_, hnew, ?_, Or.inr (Or.inl rfl)⟩
      constructor
      · exact fun _ => Or.inr rfl
      · exact fun _ => Or.inr rfl
      · exact fun _ => rfl
      · intro _ h
        cases h

/-- From one state of a run to a later one. -/
structure Onward (before after : UserState) : Prop where
  suspended : before = .suspended → after = .suspended ∨ after = .anonymized
  disabled : before = .disabled → after = .disabled ∨ after = .anonymized
  anonymized : before = .anonymized → after = .anonymized

theorem Onward.trans {s₁ s₂ s₃ : UserState} (h : Onward s₁ s₂) (h' : Onward s₂ s₃) :
    Onward s₁ s₃ where
  suspended hs := by
    rcases h.suspended hs with h₂ | h₂
    · exact h'.suspended h₂
    · exact Or.inr (h'.anonymized h₂)
  disabled hs := by
    rcases h.disabled hs with h₂ | h₂
    · exact h'.disabled h₂
    · exact Or.inr (h'.anonymized h₂)
  anonymized hs := h'.anonymized (h.anonymized hs)

theorem Permitted.onward {u : Uuid} {e : Event} {before after : UserState}
    (h : Permitted u e before after) : Onward before after :=
  ⟨h.suspended, h.disabled, h.anonymized⟩

variable {env : Env} {c : Core Db World}

/-- One event of a run and one account that exists. -/
theorem row_of_entry (hinit : Initial c) {m : Core Db World} (h : History env c m)
    {later earlier : List (Nat × Event)} {i : Nat} {e : Event}
    (hlog : m.store.log = later ++ (i, e) :: earlier) (u : Uuid) :
    AccountStep u ((replay c.db earlier).account u) e
      ((replay c.db ((i, e) :: earlier)).account u) := by
  obtain ⟨m₀, hm₀, rfl, hfollows, hagrees, _⟩ := h.around hinit.log hlog
  rw [replay_cons, ← hm₀.db_eq hinit.log]
  exact account_change hinit hm₀ hfollows hagrees u

/-- An account over a stretch of a run. -/
theorem row_of_stretch (hinit : Initial c) {m : Core Db World} (h : History env c m)
    {earlier : List (Nat × Event)} {u : Uuid} {row : User}
    (hrow : (replay c.db earlier).users.get u = some row) (between : List (Nat × Event))
    (later : List (Nat × Event)) (hlog : m.store.log = later ++ (between ++ earlier)) :
    ∃ row', (replay c.db (between ++ earlier)).users.get u = some row' ∧
      Onward row.state row'.state ∧ row.version ≤ row'.version ∧
      ((∀ entry ∈ between, entry.2.rehashes = false) → row'.version = row.version →
        (replay c.db (between ++ earlier)).account u = (replay c.db earlier).account u) := by
  induction between generalizing later with
  | nil => exact ⟨row, hrow, ⟨Or.inl, Or.inl, id⟩, le_rfl, fun _ _ => rfl⟩
  | cons entry rest ih =>
      obtain ⟨i, e⟩ := entry
      obtain ⟨row₁, hrow₁, honward, hle, hsame⟩ := ih (later ++ [(i, e)]) (by simp [hlog])
      have hstep := row_of_entry hinit h
        (show m.store.log = later ++ (i, e) :: (rest ++ earlier) by simp [hlog]) u
      obtain ⟨row', hrow', hpermitted, hversion⟩ := hstep.row hrow₁
      refine ⟨row', hrow', honward.trans hpermitted.onward, ?_, fun hnone heq => ?_⟩
      · rcases hversion with heq | heq | ⟨_, heq⟩
        · have hback := congrArg Account.row heq
          rw [hrow'] at hback
          have hrows : some row' = some row₁ := hback.trans hrow₁
          cases hrows
          exact hle
        · omega
        · rw [heq]
          exact hle
      · have hrest : ∀ entry ∈ rest, entry.2.rehashes = false :=
          fun entry hentry => hnone entry (List.mem_cons_of_mem _ hentry)
        rcases hversion with hback | hup | ⟨hrehash, _⟩
        · have hrows : some row' = some row₁ := by
            have hback' := congrArg Account.row hback
            rw [hrow'] at hback'
            exact hback'.trans hrow₁
          cases hrows
          exact hback.trans (hsame hrest heq)
        · omega
        · rw [hnone (i, e) List.mem_cons_self] at hrehash
          cases hrehash

/-- What a run does to one account: each commit moves it along an allowed edge
and, if it changes the account at all, counts the version up by exactly one;
suspended and disabled are left only for anonymized, and anonymized is not left;
and as long as no login writes a new hash of a password it has just checked, two
states of the run with one version of the user have one state, address, number
and password. -/
structure Machine (d : Db) (log : List (Nat × Event)) (u : Uuid) : Prop where
  edge : ∀ later i e earlier row, log = later ++ (i, e) :: earlier →
    (replay d earlier).users.get u = some row →
    ∃ row', (replay d ((i, e) :: earlier)).users.get u = some row' ∧
      Permitted u e row.state row'.state ∧
      ((replay d ((i, e) :: earlier)).account u = (replay d earlier).account u ∨
        row'.version = row.version + 1 ∨ e.rehashes = true ∧ row' = row)
  onward : ∀ later between earlier row row', log = later ++ (between ++ earlier) →
    (replay d earlier).users.get u = some row →
    (replay d (between ++ earlier)).users.get u = some row' → Onward row.state row'.state
  named : ∀ later between earlier row row', log = later ++ (between ++ earlier) →
    (replay d earlier).users.get u = some row →
    (replay d (between ++ earlier)).users.get u = some row' →
    (∀ entry ∈ between, entry.2.rehashes = false) → row'.version = row.version →
    ((replay d (between ++ earlier)).account u).standing row' =
      ((replay d earlier).account u).standing row

theorem account_machine (hinit : Initial c) {s : Config schema World AuthError Result}
    (h : (application env).Reachable c s) (u : Uuid) : Machine c.db s.core.store.log u := by
  have hhistory := history_of_reachable hinit.log h
  constructor
  case edge =>
    intro later i e earlier row hlog hrow
    exact (row_of_entry hinit hhistory hlog u).row hrow
  case onward =>
    intro later between earlier row row' hlog hrow hrow'
    obtain ⟨row₁, hrow₁, honward, _, _⟩ := row_of_stretch hinit hhistory hrow between later hlog
    have heq : row₁ = row' := Option.some.inj (hrow₁.symm.trans hrow')
    exact heq ▸ honward
  case named =>
    intro later between earlier row row' hlog hrow hrow' hnone hversion
    obtain ⟨row₁, hrow₁, _, _, hsame⟩ := row_of_stretch hinit hhistory hrow between later hlog
    have heq : row₁ = row' := Option.some.inj (hrow₁.symm.trans hrow')
    subst heq
    have haccount := hsame hnone hversion
    have hrows : row₁ = row := by
      have hback := congrArg Account.row haccount
      exact Option.some.inj (hrow₁.symm.trans (hback.trans hrow))
    rw [haccount, hrows]

theorem account_machine_after_reset :
    ∃ s, (application sampleEnv).Reachable sampleCore s ∧
      (s.core.db.users.get (.given 1)).map (·.version) = some 2 ∧
      Machine sampleCore.db s.core.store.log (.given 1) := by
  obtain ⟨s, hreach, hversion⟩ := Service.reachable_of_run
    (show ((application sampleEnv).run (Service.start sampleCore)
      (mailLink 0 "ann" ++ useLink 1 (.drawn 0 0) "new")).map (fun s =>
        decide ((s.core.db.users.get (.given 1)).map (·.version) = some 2)) = some true by
      decide +kernel)
  exact ⟨s, hreach, by simpa using hversion, account_machine sampleCore_initial hreach _⟩

end AuthCore
