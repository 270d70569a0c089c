/-
The calls on sessions keep to the ledger.
-/
import AuthCore.History.Steps

namespace AuthCore

open Interleave SessionControl SessionRepository

variable {env : Env} {start : Core Db World} {i : Nat} {t : List Event}

theorem lockOnly_lockJoined (condition : Session → RefreshTokenFamily → Bool)
    (found : SessionMatch) : (lockJoined condition found).LockOnly := by
  refine (lockOnly_lockRow _).bind fun family => (lockOnly_lockRow _).bind fun session => ?_
  split
  · split <;> trivial
  · trivial

theorem lockOnly_revokeLocked (row : Locked) (now : Time) (reason : String) :
    (revokeLocked row now reason).LockOnly :=
  trivial

theorem lockOnly_evict (now : Time) (row : Locked) : (evict now row).LockOnly :=
  trivial

theorem lockOnly_insertSession (args : CreateArgs) (found : List SessionMatch) :
    (insertSession args found).LockOnly := by
  refine (Tx.lockOnly_collect (lockOnly_lockJoined _) _).bind fun rows => ?_
  refine (Tx.lockOnly_each (lockOnly_evict args.now) _).bind fun _ => ?_
  exact (lockOnly_reserve _ _).bind fun _ => trivial

theorem lockOnly_rotateLocked (args : RotateArgs) (id : Uuid) (token : RefreshToken)
    (row : Locked) : (rotateLocked args id token row).LockOnly := by
  unfold rotateLocked
  split
  · trivial
  · split
    · trivial
    · split
      · trivial
      · split
        · trivial
        · exact (lockOnly_reserve _ _).bind fun _ => trivial

theorem lockOnly_rotateMatch (args : RotateArgs) (found : Option TokenMatch) :
    (rotateMatch args found).LockOnly := by
  cases found with
  | none => trivial
  | some found =>
      refine (lockOnly_lockRow _).bind fun family => (lockOnly_lockRow _).bind fun session => ?_
      dsimp only
      split
      · split
        · exact lockOnly_rotateLocked _ _ _ _
        · trivial
      · trivial

theorem lockOnly_revokeMatch (args : RevokeArgs) (found : Option SessionMatch) :
    (revokeMatch args found).LockOnly := by
  cases found with
  | none => trivial
  | some found =>
      refine (lockOnly_lockJoined _ _).bind fun locked => ?_
      split
      · trivial
      · trivial

theorem lockOnly_revokeMatches (args : RevokeAllArgs) (found : List SessionMatch) :
    (revokeMatches args found).LockOnly := by
  refine (Tx.lockOnly_collect (lockOnly_lockJoined _) _).bind fun rows => ?_
  refine (Tx.lockOnly_each (fun row => ?_) rows).bind fun _ => trivial
  exact lockOnly_revokeLocked row _ _

theorem lockOnly_scopeMatch (args : ScopeArgs) (found : Option SessionMatch) :
    (scopeMatch args found).LockOnly := by
  cases found with
  | none => trivial
  | some found =>
      refine (lockOnly_lockJoined _ _).bind fun locked => ?_
      split
      · trivial
      · trivial

theorem runs_audit {eventType outcome : String} {user : Uuid} {k : Unit → Proc Result}
    (hok : ∀ entry, Runs env start i (.audited entry :: t) (k ()))
    (hfault : Runs env start i t (.raise .unhandled)) :
    Runs env start i t (SessionRepository.audit eventType outcome user >>= k) := by
  unfold SessionRepository.audit
  refine runs_transact (lockOnly_write _) (fun _ => rfl) (fun _ _ => rfl) ?_ ?_ (fun _ => hok _)
    hfault
  · exact fun _ _ => trivial
  · exact fun _ => trivial

theorem runs_applyRevocation {value : RevocationResult} {k : Unit → Proc Result}
    (h : Runs env start i
      (Event.revokesFamily value.familyId :: Event.revokesAccess value.accessJti :: t) (k ())) :
    Runs env start i t (applyRevocation value >>= k) := by
  unfold applyRevocation
  rw [Prog.bind_assoc]
  exact runs_set rfl (runs_set trivial h)

theorem runs_revocations {values : List RevocationResult} {k : Unit → Proc Result}
    (h : Runs env start i (revocations values ++ t) (k ())) :
    Runs env start i t (Prog.each applyRevocation values >>= k) := by
  induction values generalizing t with
  | nil => exact h
  | cons value rest ih =>
      unfold Prog.each
      rw [Prog.bind_assoc]
      refine runs_applyRevocation (ih ?_)
      simpa [revocations] using h

theorem plain_revocations {values : List RevocationResult} (h : t.all Event.plain = true) :
    (revocations values ++ t).all Event.plain = true := by
  simp [revocations, h, Event.revokesAccess, Event.revokesFamily, Event.plain]

theorem preparatory_revocations {values : List RevocationResult}
    (h : t.all Event.preparatory = true) :
    (revocations values ++ t).all Event.preparatory = true := by
  refine preparatory_append _ (List.all_eq_true.mpr fun e he => ?_) h
  obtain ⟨value, _, hmem⟩ := List.mem_flatMap.mp (List.mem_reverse.mp he)
  rcases List.mem_cons.mp hmem with rfl | hmem
  · rfl
  · rw [List.mem_singleton.mp hmem]
    rfl

theorem runs_createSession (token : Token) (client : ClientType) (fingerprint : String)
    (ip : Option String) :
    Runs env start i [.called (.createSession token client fingerprint ip)]
      (SessionControl.createSession env i token client fingerprint ip) := by
  unfold SessionControl.createSession
  refine runs_consumeLoginWorkflow (Unspent.of_all rfl) (runs_fail rfl) fun workflow => ?_
  dsimp only
  split
  · exact runs_fail rfl
  · rename_i hready
    refine runs_look (fun _ => rfl) (fun _ _ => rfl) (fun _ => rfl) (fun _ => trivial) ?_
    intro isActive
    cases isActive with
    | false => exact runs_fail rfl
    | true =>
        refine runs_clock fun now => runs_clock fun stored => ?_
        refine runs_lookup (lockOnly_insertSession _) (fun _ => rfl) (fun _ _ => rfl)
          (fun _ => rfl) (fun _ => trivial) (fun _ _ => rfl) (fun _ _ => rfl)
          (fun _ _ => trivial) (fun _ _ => .intro (not_not.mp hready)) ?_ ?_
        · intro found created
          refine runs_issue (@Signs.created _ token workflow _ _ _ _ _ (by simp) (by simp))
            (runs_revocations ?_)
          refine runs_audit (fun entry => ?_) (runs_fail (plain_revocations rfl))
          refine runs_done (t := .audited entry :: _) (plain_revocations rfl) ?_
          change Event.signed _ ∈ Event.audited entry :: _
          simp
        · intro found fault
          exact runs_fail rfl

theorem runs_applyRotation {result : RotationResult} {k : Unit → Proc Result}
    (h : Runs env start i (rotationMarks result ++ t) (k ())) :
    Runs env start i t (applyRotation result >>= k) := by
  unfold applyRotation
  unfold rotationMarks at h
  cases hrevoked : result.revoked with
  | none =>
      rw [hrevoked] at h
      exact h
  | some revoked =>
      rw [hrevoked] at h
      dsimp only at h ⊢
      split
      · rename_i hstatus
        rw [if_pos hstatus] at h
        exact runs_set rfl h
      · rename_i hstatus
        rw [if_neg hstatus] at h
        exact runs_applyRevocation h

/-- What a refresh has recorded once its rotation is committed. -/
def refreshed (env : Env) (i : Nat) (token : Token) (client : ClientType) (fingerprint : String)
    (now : Time) (found : Option TokenMatch) (result : RotationResult) : List Event :=
  rotationMarks result ++
    [.session (.rotated (rotateArgs env i token client fingerprint now) found result),
      .session (.presented (env.tokenHash token) found), .clock now,
      .called (.refresh token client fingerprint)]

theorem called_refreshed {token : Token} {client : ClientType} {fingerprint : String}
    {now : Time} {found : Option TokenMatch} {result : RotationResult} {call : Call}
    (h : .called call ∈ refreshed env i token client fingerprint now found result) :
    call = .refresh token client fingerprint := by
  rcases List.mem_append.mp h with hmark | hrest
  · exfalso
    unfold rotationMarks at hmark
    split at hmark
    · cases hmark
    · split at hmark
      · simp [Event.revokesAccess] at hmark
      · simp [Event.revokesAccess, Event.revokesFamily] at hmark
  · simpa using hrest

/-- The end of a refresh whose rotation is committed. -/
theorem returns_refreshed {token : Token} {client : ClientType} {fingerprint : String}
    {now : Time} {found : Option TokenMatch} {result : RotationResult} (pre : List Event)
    {answer : Except AuthError Result} (hpre : pre.all Event.plain = true)
    (hanswer : answer = .error .unhandled ∨ result.status = .rotated ∨
      answer = .error (rotationError result.status))
    (hrecorded : ∀ value, answer = .ok value →
      value.Recorded (pre ++ refreshed env i token client fingerprint now found result)) :
    Returns (pre ++ refreshed env i token client fingerprint now found result) answer := by
  have hcalled : ∀ call, .called call ∈
      pre ++ refreshed env i token client fingerprint now found result →
      call = .refresh token client fingerprint ∨ (Event.called call).plain = true := by
    intro call hcall
    rcases List.mem_append.mp hcall with hnew | hold
    · exact Or.inr (List.all_eq_true.mp hpre _ hnew)
    · exact Or.inl (called_refreshed hold)
  have hrotated : .session
      (.rotated (rotateArgs env i token client fingerprint now) found result) ∈
      pre ++ refreshed env i token client fingerprint now found result := by
    simp [refreshed]
  constructor
  case settled =>
    refine (settled_rotation ?_).append _ (displaces_of_all_plain hpre)
    simp [Event.displaces]
  case pair => exact fun pair heq => hrecorded (.pair pair) heq
  case claims => exact fun claims heq => hrecorded (.claims claims) heq
  case decision => exact fun decision heq => hrecorded (.decision decision) heq
  case refresh =>
    intro _ _ _ _
    by_cases hstatus : result.status = .rotated
    · exact .rotated hrotated hstatus
    · rcases hanswer with rfl | h | rfl
      · exact .failed
      · exact absurd h hstatus
      · exact .refused hrotated hstatus
  case suspend =>
    intro claims target value hcall _
    rcases hcalled _ hcall with h | h
    · cases h
    · cases h
  case offboard =>
    intro actor org member value hcall _
    rcases hcalled _ hcall with h | h
    · cases h
    · cases h
  case reset =>
    intro token password value hcall _
    rcases hcalled _ hcall with h | h
    · cases h
    · cases h
  case conflict =>
    intro call hcall hmoves
    rcases hcalled _ hcall with rfl | h
    · cases hmoves
    · rw [Event.plain_of_movesContact hmoves] at h
      cases h
  case authenticate =>
    intro claims error hcall _
    rcases hcalled _ hcall with h | h
    · cases h
    · cases h

theorem runs_refresh (token : Token) (client : ClientType) (fingerprint : String) :
    Runs env start i [.called (.refresh token client fingerprint)]
      (SessionControl.refresh env i token client fingerprint) := by
  unfold SessionControl.refresh
  refine runs_clock fun now => ?_
  refine runs_lookup (lockOnly_rotateMatch _) (fun _ => rfl) (fun _ _ => rfl) (fun _ => rfl)
    (fun _ => trivial) (fun _ _ => rfl) (fun _ _ => rfl) (fun _ _ => trivial)
    (fun _ _ => .intro) ?_ ?_
  · intro found result
    refine runs_applyRotation ?_
    change Runs env start i (refreshed env i token client fingerprint now found result) _
    -- every refusal ends in the error of its status
    have hrefused : ∀ pre : List Event, pre.all Event.plain = true → ∀ error,
        error = .unhandled ∨ error = rotationError result.status →
        Runs env start i (pre ++ refreshed env i token client fingerprint now found result)
          (.raise error) := by
      intro pre hpre error herror
      refine runs_raise (returns_refreshed pre hpre ?_ ?_)
      · rcases herror with rfl | rfl
        · exact Or.inl rfl
        · exact Or.inr (Or.inr rfl)
      · intro value heq
        cases heq
    cases hstatus : result.status with
    | reused =>
        simp only [hstatus, rotationError] at hrefused ⊢
        cases result.revoked with
        | none => exact hrefused [] rfl _ (Or.inr rfl)
        | some revoked =>
            exact runs_audit (fun entry => hrefused [.audited entry] rfl _ (Or.inr rfl))
              (hrefused [] rfl _ (Or.inl rfl))
    | clientMismatch =>
        simp only [hstatus, rotationError] at hrefused ⊢
        exact hrefused [] rfl _ (Or.inr rfl)
    | expired =>
        simp only [hstatus, rotationError] at hrefused ⊢
        exact hrefused [] rfl _ (Or.inr rfl)
    | invalid =>
        simp only [hstatus, rotationError] at hrefused ⊢
        exact hrefused [] rfl _ (Or.inr rfl)
    | rotated =>
        dsimp only
        cases hrecord : result.record with
        | none =>
            refine runs_raise (returns_refreshed [] rfl (Or.inr (Or.inl hstatus)) ?_)
            intro value heq
            cases heq
        | some record =>
            refine runs_issue (.rotated hstatus hrecord) (runs_audit (fun entry => ?_) ?_)
            · refine runs_return (returns_refreshed [.audited entry, .signed _] rfl
                (Or.inr (Or.inl hstatus)) ?_)
              intro value heq
              cases heq
              change Event.signed _ ∈ _
              simp
            · exact hrefused [.signed _] rfl _ (Or.inl rfl)
  · intro found fault
    refine runs_raise (Returns.unhandled (.of_empty ?_) ?_)
    · simp [Event.displaces]
    · simp

theorem cutoffRead_scoped {claims : AccessClaims} {cutoff : Option Time} {workspace : Uuid}
    (hworkspace : claims.workspaceId = some workspace)
    (htype : claims.workspaceType = some .organization) :
    cutoffRead claims cutoff = [.got (.organizationRevocation claims.userId workspace) cutoff] := by
  simp [cutoffRead, hworkspace, htype]

theorem runs_cutoff {claims : AccessClaims} {k : Option Time → Proc Result}
    (h : ∀ cutoff, (∀ revokedAt, cutoff = some revokedAt → ∃ workspace,
        .got (.organizationRevocation claims.userId workspace) (some revokedAt) ∈
          cutoffRead claims cutoff) →
      Runs env start i (cutoffRead claims cutoff ++ t) (k cutoff)) :
    Runs env start i t (organizationCutoff claims >>= k) := by
  unfold organizationCutoff
  cases hworkspace : claims.workspaceId with
  | none =>
      have hread : cutoffRead claims none = [] := by simp [cutoffRead, hworkspace]
      exact (hread ▸ h none nofun :)
  | some workspace =>
      dsimp only
      split
      · rename_i htype
        refine runs_get fun cutoff => (cutoffRead_scoped hworkspace htype ▸ h cutoff ?_ :)
        rintro revokedAt rfl
        refine ⟨workspace, ?_⟩
        rw [cutoffRead_scoped hworkspace htype]
        exact List.mem_cons_self
      · rename_i htype
        have hread : cutoffRead claims none = [] := by simp [cutoffRead, hworkspace, htype]
        exact (hread ▸ h none nofun :)

theorem plain_cutoffRead {claims : AccessClaims} {cutoff : Option Time}
    (h : t.all Event.plain = true) : (cutoffRead claims cutoff ++ t).all Event.plain = true := by
  unfold cutoffRead
  split
  · split
    · exact h
    · exact h
  · exact h

/-- What an authentication adds to the record. -/
theorem Passed.added {claims : AccessClaims} {base : List Event} (h : Passed claims base t) :
    ∃ pre, t = pre ++ base ∧ pre.all Event.plain = true := by
  cases h with
  | @intro now revokedAt cutoff _ =>
      refine ⟨.session (.sessionIsActive claims.sessionId now true) ::
        (cutoffRead claims cutoff ++ [.got (.userRevocation claims.userId) revokedAt,
          .got (.familyRevocation claims.familyId) none, .got (.accessRevocation claims.jti) none,
          .verified claims true, .clock now]), by simp, ?_⟩
      exact plain_cutoffRead rfl

theorem Passed.plain {claims : AccessClaims} {base : List Event} (h : Passed claims base t)
    (hbase : base.all Event.plain = true) : t.all Event.plain = true := by
  obtain ⟨pre, rfl, hpre⟩ := h.added
  simp [hpre, hbase]

/-- An authentication goes on only after every check has passed. -/
theorem runs_authenticate {claims : AccessClaims} {base : List Event}
    {k : AccessClaims → Proc Result}
    (hrefused : ∀ pre t error, t = pre ++ base → pre.all Event.plain = true →
      Rejected claims t → Returns t (.error error))
    (h : ∀ t, Passed claims base t → Runs env start i t (k claims)) :
    Runs env start i base (SessionControl.authenticate claims >>= k) := by
  unfold SessionControl.authenticate
  rw [Prog.bind_assoc]
  refine runs_clock fun now => ?_
  rw [Prog.bind_assoc]
  refine runs_verify fun signed => ?_
  cases signed with
  | false => exact runs_raise (hrefused [_, _] _ _ rfl rfl (Or.inl (by simp)))
  | true =>
      simp only [not_true_eq_false, if_false]
      rw [Prog.bind_assoc]
      refine runs_mark ?_ fun _ => runs_raise
        (hrefused [_, _, _] _ _ rfl rfl (Or.inr (Or.inl (.token List.mem_cons_self))))
      simp only [Bool.false_eq_true, if_false]
      rw [Prog.bind_assoc]
      refine runs_mark ?_ fun _ => runs_raise
        (hrefused [_, _, _, _] _ _ rfl rfl (Or.inr (Or.inl (.family List.mem_cons_self))))
      simp only [Bool.false_eq_true, if_false]
      rw [Prog.bind_assoc]
      refine runs_get fun revokedAt => ?_
      split
      · rename_i hbefore
        cases revokedAt with
        | none => cases hbefore
        | some cutoff =>
            exact runs_raise (hrefused [_, _, _, _, _] _ _ rfl rfl
              (Or.inr (Or.inr ⟨cutoff, List.mem_cons_self, by simpa [issuedBefore] using hbefore⟩)))
      · rw [Prog.bind_assoc]
        refine runs_cutoff fun cutoff hread => ?_
        split
        · rename_i hbefore
          obtain ⟨revokedAt, rfl⟩ : ∃ revokedAt, cutoff = some revokedAt := by
            cases cutoff with
            | none => cases hbefore
            | some revokedAt => exact ⟨revokedAt, rfl⟩
          obtain ⟨workspace, hworkspace⟩ := hread revokedAt rfl
          refine runs_raise (hrefused (cutoffRead claims (some revokedAt) ++ [_, _, _, _, _]) _ _
            (List.append_assoc _ [_, _, _, _, _] base).symm (plain_cutoffRead rfl) ?_)
          refine Or.inr (Or.inl (.organization (List.mem_append_left _ hworkspace) ?_))
          simpa [issuedBefore] using hbefore
        · rename_i hbefore
          rw [Prog.bind_assoc]
          refine runs_look (fun _ => rfl) (fun _ _ => rfl) (fun _ => rfl) (fun _ => trivial) ?_
          intro isActive
          cases isActive with
          | false =>
              refine runs_raise (hrefused (_ :: (cutoffRead claims cutoff ++ [_, _, _, _, _])) _ _
                (congrArg (_ :: ·) (List.append_assoc _ [_, _, _, _, _] base).symm)
                (plain_cutoffRead rfl) ?_)
              exact Or.inr (Or.inl (.session List.mem_cons_self))
          | true => exact h _ (.intro (by simpa using hbefore))

/-- The record of an authentication that has ended. -/
theorem Returns.of_authenticated {claims : AccessClaims} {pre : List Event}
    {answer : Except AuthError Result} (hpre : pre.all Event.plain = true)
    (hrecorded : ∀ value, answer = .ok value →
      value.Recorded (pre ++ [.called (.authenticate claims)]))
    (hrejected : ∀ error, answer = .error error →
      Rejected claims (pre ++ [.called (.authenticate claims)])) :
    Returns (pre ++ [.called (.authenticate claims)]) answer := by
  have hcalled : ∀ call, .called call ∈ pre ++ [.called (.authenticate claims)] →
      call = .authenticate claims ∨ (Event.called call).plain = true := by
    intro call hmem
    rcases List.mem_append.mp hmem with hnew | hbase
    · exact Or.inr (List.all_eq_true.mp hpre _ hnew)
    · exact Or.inl (Event.called.inj (List.mem_singleton.mp hbase))
  constructor
  case settled =>
    refine (Settled.of_empty ?_).append pre (displaces_of_all_plain hpre)
    simp [Event.displaces]
  case pair => exact fun pair heq => hrecorded (.pair pair) heq
  case claims => exact fun claims heq => hrecorded (.claims claims) heq
  case decision => exact fun decision heq => hrecorded (.decision decision) heq
  case refresh =>
    intro _ _ _ hcall
    rcases hcalled _ hcall with h | h
    · cases h
    · cases h
  case suspend =>
    intro _ _ _ hcall
    rcases hcalled _ hcall with h | h
    · cases h
    · cases h
  case offboard =>
    intro _ _ _ _ hcall
    rcases hcalled _ hcall with h | h
    · cases h
    · cases h
  case reset =>
    intro _ _ _ hcall
    rcases hcalled _ hcall with h | h
    · cases h
    · cases h
  case conflict =>
    intro _ hcall hmoves
    rcases hcalled _ hcall with rfl | h
    · cases hmoves
    · rw [Event.plain_of_movesContact hmoves] at h
      cases h
  case authenticate =>
    intro token error hcall heq
    rcases hcalled _ hcall with h | h
    · cases h
      exact hrejected error heq
    · cases h

theorem runs_authenticateCall (claims : AccessClaims) :
    Runs env start i [.called (.authenticate claims)]
      (do return .claims (← SessionControl.authenticate claims)) := by
  refine runs_authenticate (fun pre t error ht hpre hrejected => ?_) fun t hpassed => ?_
  · subst ht
    exact .of_authenticated hpre (fun value heq => nomatch heq) fun _ _ => hrejected
  · obtain ⟨pre, rfl, hpre⟩ := hpassed.added
    refine runs_return (.of_authenticated hpre ?_ fun error heq => nomatch heq)
    intro value heq
    cases heq
    exact hpassed

theorem runs_revokeSession {args : RevokeArgs} {k : Option RevocationResult → Proc Result}
    (h : ∀ found result,
      Runs env start i (.session (.revoked args found result) ::
        .session (.sessionFound args.userId args.sessionId found) :: t) (k result))
    (hplain : t.all Event.plain = true) :
    Runs env start i t (SessionRepository.revokeSession args >>= k) :=
  runs_lookup (lockOnly_revokeMatch _) (fun _ => rfl) (fun _ _ => rfl) (fun _ => trivial)
    (fun _ => trivial) (fun _ _ => rfl) (fun _ _ => rfl) (fun _ _ => trivial) (fun _ _ => trivial)
    (fun found result => h found result) fun _ _ => runs_fail hplain

theorem runs_revokeAll {user : Uuid} {reason : String} {now : Time}
    {k : List RevocationResult → Proc Result}
    (h : ∀ found results,
      Runs env start i (.session (.revokedAll ⟨user, reason, now⟩ found results) ::
        .session (.activeSessions user found) :: .clock now :: t) (k results))
    (hfault : ∀ found, Runs env start i
      (.session (.activeSessions user found) :: .clock now :: t) (.raise .unhandled)) :
    Runs env start i (.clock now :: t) (SessionRepository.revokeAll ⟨user, reason, now⟩ >>= k) :=
  runs_lookup (lockOnly_revokeMatches _) (fun _ => rfl) (fun _ _ => rfl) (fun _ => rfl)
    (fun _ => trivial) (fun _ _ => rfl) (fun _ _ => rfl) (fun _ _ => trivial) (fun _ _ => .intro)
    (fun found results => h found results) fun found _ => hfault found

theorem runs_logout (claims : AccessClaims) :
    Runs env start i [.called (.logout claims)] (SessionControl.logout claims) := by
  unfold SessionControl.logout
  refine runs_clock fun now => runs_revokeSession (fun found result => ?_) rfl
  cases result with
  | none => exact runs_audit (fun _ => runs_done rfl trivial) (runs_fail rfl)
  | some revoked =>
      exact runs_applyRevocation (runs_audit (fun _ => runs_done rfl trivial) (runs_fail rfl))

theorem runs_logoutAll (claims : AccessClaims) :
    Runs env start i [.called (.logoutAll claims)] (SessionControl.logoutAll claims) := by
  unfold SessionControl.logoutAll
  refine runs_clock fun now => runs_revokeAll (fun found results => ?_) fun _ => runs_fail rfl
  refine runs_set trivial (runs_revocations (runs_audit (fun entry => ?_) ?_))
  · exact runs_done (t := .audited entry :: _) (plain_revocations rfl) trivial
  · exact runs_fail (plain_revocations rfl)

theorem runs_sessions (claims : AccessClaims) :
    Runs env start i [.called (.sessions claims)] (SessionControl.sessions claims) := by
  unfold SessionControl.sessions
  refine runs_clock fun now => ?_
  exact runs_look (fun _ => rfl) (fun _ _ => rfl) (fun _ => trivial) (fun _ => trivial)
    fun _ => runs_done rfl trivial

theorem runs_revokeSelected (claims : AccessClaims) (session : Uuid) :
    Runs env start i [.called (.revokeSelected claims session)]
      (SessionControl.revokeSelected claims session) := by
  unfold SessionControl.revokeSelected
  refine runs_clock fun now => runs_revokeSession (fun found result => ?_) rfl
  cases result with
  | none => exact runs_fail rfl
  | some revoked =>
      exact runs_applyRevocation (runs_audit (fun _ => runs_done rfl trivial) (runs_fail rfl))

/-- A mass revocation, from its clock reading to its last mark in the store. -/
theorem runs_revokeUserAccess {user : Uuid} {reason : String} {k : Nat → Proc Result}
    (h : ∀ now found results, Runs env start i
      (revocations results ++
        .put (.userRevocation user) (wholeSecond now) userRevocationTtlSeconds ::
        .session (.revokedAll ⟨user, reason, now⟩ found results) ::
        .session (.activeSessions user found) :: .clock now :: t) (k results.length))
    (hfault : ∀ now found, Runs env start i
      (.session (.activeSessions user found) :: .clock now :: t) (.raise .unhandled)) :
    Runs env start i t (revokeUserAccess user reason >>= k) := by
  unfold revokeUserAccess
  rw [Prog.bind_assoc]
  refine runs_clock fun now => ?_
  rw [Prog.bind_assoc]
  refine runs_revokeAll (fun found results => ?_) fun found => hfault now found
  rw [Prog.bind_assoc]
  refine runs_set trivial ?_
  rw [Prog.bind_assoc]
  exact runs_revocations (h now found results)

end AuthCore
