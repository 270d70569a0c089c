/-
Authenticators and passkeys.  A removal counts the factors of its user before
its own transaction, so what it counted may be gone when it commits.
-/
import AuthCore.Accounts.Factors
import AuthCore.Model.Sample

namespace AuthCore

open Interleave Relational

/-- The row is an active authenticator or passkey of the user. -/
def MFADevice.StrongOf (u : Uuid) (row : MFADevice) : Prop :=
  row.userId = u ∧ MFAControl.isStrong row = true ∧ row.status = .active

def Strong (u g : Uuid) (d : Db) : Prop :=
  ∃ row, d.mfaDevices.get g = some row ∧ row.StrongOf u

theorem exists_strong_iff {u : Uuid} {d : Db} : (∃ g, Strong u g d) ↔
    (d.mfaDevices.select fun _ row =>
      row.userId == u && MFAControl.isStrong row && row.status == .active) ≠ [] := by
  constructor
  · rintro ⟨g, row, hrow, huser, hstrong, hactive⟩
    refine List.ne_nil_of_mem (a := (g, row)) (Table.mem_select.mpr ⟨hrow, ?_⟩)
    simp [huser, hstrong, hactive]
  · intro hsome
    obtain ⟨⟨g, row⟩, hmem⟩ := List.exists_mem_of_ne_nil _ hsome
    obtain ⟨hrow, hmatch⟩ := Table.mem_select.mp hmem
    simp only [Bool.and_eq_true, beq_iff_eq] at hmatch
    exact ⟨g, row, hrow, hmatch.1.1, hmatch.1.2, hmatch.2⟩

instance (u : Uuid) (d : Db) : Decidable (∃ g, Strong u g d) :=
  decidable_of_iff _ exists_strong_iff.symm

/-- The removal of a factor by its owner. -/
def Event.removes (g : Uuid) : Event → Bool
  | mfa (.factorRevoked _ id _ true) => id == g
  | _ => false

/-- A governed reset or an erasure of the user. -/
def Event.wipes (u : Uuid) : Event → Bool
  | recovery (.resetExecuted _ _ (some (_, user))) => user.userId == u
  | e => e.erases u

/-- What an event leaves of a factor: unless the owner removes it, a strong
factor that was active still is. -/
structure Persists (removed : Prop) (row row' : MFADevice) : Prop where
  userId : row'.userId = row.userId
  factorType : row'.factorType = row.factorType
  status : MFAControl.isStrong row = true → row.status = .active →
    removed ∨ row'.status = .active

/-- The factor `g`, which was `row`, is still there. -/
def Remains (removed : Prop) (g : Uuid) (row : MFADevice) (d : Db) : Prop :=
  ∃ row', d.mfaDevices.get g = some row' ∧ Persists removed row row'

section Steps

variable {m : Core Db World} {u g : Uuid} {row : MFADevice} {removed : Prop}

theorem Persists.refl : Persists removed row row :=
  ⟨rfl, rfl, fun _ hactive => Or.inr hactive⟩

theorem isStrong_eq {row' : MFADevice} (h : row'.factorType = row.factorType) :
    MFAControl.isStrong row' = MFAControl.isStrong row := by
  unfold MFAControl.isStrong
  rw [h]

/-- What any event leaves of a factor of somebody whose factors it does not wipe. -/
theorem factor_change {e : Event} (h : e.Agrees m) (hrow : m.db.mfaDevices.get g = some row)
    (hwipes : e.wipes row.userId = false) :
    Remains (e.removes g = true) g row (e.change m.db) := by
  have hstep : FactorStep g (some row) e ((e.change m.db).mfaDevices.get g) :=
    hrow ▸ factorStep_of_agrees h
  unfold Remains
  generalize (e.change m.db).mfaDevices.get g = after at hstep ⊢
  cases hstep with
  | same => exact ⟨row, rfl, .refl⟩
  | pending hnone => cases hnone
  | codes hnone => cases hnone
  | passkey hnone => cases hnone
  | dropped hsome _ _ hstatus =>
      cases hsome
      exact ⟨_, rfl, rfl, rfl, fun _ hactive => by rw [hstatus] at hactive; cases hactive⟩
  | activated hsome =>
      cases hsome
      exact ⟨_, rfl, rfl, rfl, fun _ _ => Or.inr rfl⟩
  | advanced hsome _ _ =>
      cases hsome
      exact ⟨_, rfl, rfl, rfl, fun _ hactive => Or.inr hactive⟩
  | recoded hsome _ =>
      cases hsome
      exact ⟨_, rfl, rfl, rfl, fun _ hactive => Or.inr hactive⟩
  | used hsome hbackup _ =>
      cases hsome
      refine ⟨_, rfl, useCode_userId _ _ _, useCode_factorType _ _ _, fun hstrong _ => ?_⟩
      simp only [MFARepository.isBackup, Bool.and_eq_true, beq_iff_eq] at hbackup
      simp [MFAControl.isStrong, hbackup.1.2] at hstrong
  | removed hsome _ _ =>
      cases hsome
      exact ⟨_, rfl, rfl, rfl, fun _ _ => Or.inl (by simp [Event.removes])⟩
  | reset hsome huser =>
      cases hsome
      simp [Event.wipes, huser] at hwipes
  | erased hsome huser =>
      cases hsome
      simp [Event.wipes, Event.erases, huser] at hwipes

end Steps

/-- An authenticator or a passkey, other than `f`, among those that were counted. -/
def OtherStrong (f : Uuid) (entry : Uuid × MFADevice) : Prop :=
  entry.1 ≠ f ∧ MFAControl.isStrong entry.2 = true

/-- The removal of `f` by call `i` has been overtaken: since the call counted the
factors of `u`, they have been wiped, or every other strong one that it counted
has been removed. -/
def Overtaken (u f : Uuid) (i : Nat) (log : List (Nat × Event)) : Prop :=
  ∃ waiting counted first, log = waiting ++ (i, .mfa (.activeFactors u counted)) :: first ∧
    ((∃ entry ∈ waiting, entry.2.wipes u = true) ∨
      (∃ entry ∈ counted, OtherStrong f entry) ∧
        ∀ entry ∈ counted, OtherStrong f entry → ∃ later ∈ waiting, later.2.removes entry.1 = true)

section Runs

variable {env : Env} {c m : Core Db World} {u f g : Uuid}

theorem Persists.trans {removed removed' : Prop} {row row' row'' : MFADevice}
    (h : Persists removed row row') (h' : Persists removed' row' row'') :
    Persists (removed ∨ removed') row row'' where
  userId := h'.userId.trans h.userId
  factorType := h'.factorType.trans h.factorType
  status hstrong hactive := by
    rcases h.status hstrong hactive with hremoved | hstill
    · exact Or.inl (Or.inl hremoved)
    · rcases h'.status ((isStrong_eq h.factorType).trans hstrong) hstill with hremoved | hstill'
      · exact Or.inl (Or.inr hremoved)
      · exact Or.inr hstill'

theorem Persists.mono {removed removed' : Prop} {row row' : MFADevice}
    (h : Persists removed row row') (himp : removed → removed') : Persists removed' row row' :=
  ⟨h.userId, h.factorType, fun hstrong hactive => (h.status hstrong hactive).imp_left himp⟩

/-- A factor that a call has seen, after what the others have done since. -/
theorem remains_since (h : History env c m) (hempty : c.store.log = [])
    {waiting earlier : List (Nat × Event)} (hlog : m.store.log = waiting ++ earlier)
    (hwipes : ∀ entry ∈ waiting, entry.2.wipes u = false) {row : MFADevice}
    (hrow : (replay c.db earlier).mfaDevices.get g = some row) (huser : row.userId = u) :
    Remains (∃ entry ∈ waiting, entry.2.removes g = true) g row m.db := by
  rw [h.db_eq hempty, hlog]
  refine h.through hempty (show m.store.log = [] ++ (waiting ++ earlier) from hlog)
    ⟨row, hrow, .refl⟩ ?_
  rintro m' i e hmem _ _ hagrees ⟨row', hget, hpersists⟩
  obtain ⟨row'', hget', hpersists'⟩ := factor_change hagrees hget
    (by rw [hpersists.userId, huser]; exact hwipes _ hmem)
  refine ⟨row'', hget', (hpersists.trans hpersists').mono ?_⟩
  rintro (hbefore | hnow)
  · exact hbefore
  · exact ⟨_, hmem, hnow⟩

theorem Remains.strong {removed : Prop} {row : MFADevice} {d : Db} (h : Remains removed g row d)
    (huser : row.userId = u) (hstrong : MFAControl.isStrong row = true)
    (hactive : row.status = .active) (hnot : ¬removed) : Strong u g d := by
  obtain ⟨row', hget, hpersists⟩ := h
  refine ⟨row', hget, hpersists.userId.trans huser,
    (isStrong_eq hpersists.factorType).trans hstrong, ?_⟩
  exact (hpersists.status hstrong hactive).resolve_left hnot

theorem Strong.change {e : Event} (h : Strong u g m.db) (hagrees : e.Agrees m)
    (hwipes : e.wipes u = false) (hremoves : e.removes g = false) :
    Strong u g (e.change m.db) := by
  obtain ⟨row, hrow, huser, hstrong, hactive⟩ := h
  refine (factor_change hagrees hrow (huser ▸ hwipes)).strong huser hstrong hactive ?_
  simp [hremoves]

/-- Only its owner removes a factor. -/
theorem removed_by_owner {e : Event} (h : Strong u g m.db) (hagrees : e.Agrees m)
    (hremoves : e.removes g = true) : ∃ now, e = .mfa (.factorRevoked u g now true) := by
  unfold Event.removes at hremoves
  split at hremoves
  · rename_i owner id now
    obtain rfl : id = g := by simpa using hremoves
    obtain ⟨change, halone, _⟩ := hagrees.commits rfl
    obtain ⟨row, hrow, huser, _⟩ := h
    rcases alone_changeFactor halone with heq | ⟨row', hrow', hcondition, _⟩
    · cases heq
    · obtain rfl := Option.some.inj (hrow.symm.trans hrow')
      simp only [Bool.and_eq_true, beq_iff_eq] at hcondition
      obtain rfl := hcondition.1.symm.trans huser
      exact ⟨now, rfl⟩
  · cases hremoves

/-- Two strong factors are different factors. -/
theorem otherStrong_of_length {d : Db}
    (h : 1 < ((LoginRepository.activeFactors u d).filter fun entry =>
      MFAControl.isStrong entry.2).length) :
    ∃ entry ∈ LoginRepository.activeFactors u d, OtherStrong f entry := by
  by_contra hnone
  simp only [not_exists, not_and] at hnone
  have heq : ((LoginRepository.activeFactors u d).filter fun entry =>
      MFAControl.isStrong entry.2) = d.mfaDevices.select fun _ row =>
        MFAControl.isStrong row && (row.userId == u && row.status == .active) := by
    simp only [LoginRepository.activeFactors, Table.select, List.filter_map, List.filter_filter,
      Function.comp_def]
  rw [heq] at h
  have honly : ∀ entry ∈ d.mfaDevices.select (fun _ row =>
      MFAControl.isStrong row && (row.userId == u && row.status == .active)), entry.1 ∈ [f] := by
    intro entry hentry
    rw [← heq, List.mem_filter] at hentry
    by_contra hother
    exact hnone entry hentry.1 ⟨by simpa using hother, hentry.2⟩
  have hle := Table.length_select_le honly
  rw [List.length_singleton] at hle
  omega

theorem not_overtaken {i : Nat} {waiting first : List (Nat × Event)}
    {counted : List (Uuid × MFADevice)}
    (h : ¬Overtaken u f i (waiting ++ (i, .mfa (.activeFactors u counted)) :: first)) :
    (∀ entry ∈ waiting, entry.2.wipes u = false) ∧
      ((∃ entry ∈ counted, OtherStrong f entry) → ∃ entry ∈ counted, OtherStrong f entry ∧
        ∀ later ∈ waiting, later.2.removes entry.1 = false) := by
  have hnot : ¬((∃ entry ∈ waiting, entry.2.wipes u = true) ∨ (∃ entry ∈ counted,
      OtherStrong f entry) ∧ ∀ entry ∈ counted, OtherStrong f entry →
        ∃ later ∈ waiting, later.2.removes entry.1 = true) :=
    fun hover => h ⟨waiting, counted, first, rfl, hover⟩
  rw [not_or] at hnot
  constructor
  · intro entry hentry
    exact Bool.eq_false_iff.mpr fun hwiped => hnot.1 ⟨entry, hentry, hwiped⟩
  · intro hother
    by_contra hnone
    refine hnot.2 ⟨hother, fun entry hentry hstrong => ?_⟩
    by_contra hkept
    refine hnone ⟨entry, hentry, hstrong, fun later hlater => ?_⟩
    exact Bool.eq_false_iff.mpr fun hremoved => hkept ⟨later, hlater, hremoved⟩

/-- A removal that has not been overtaken leaves another strong factor. -/
theorem strong_after_removal (h : History env c m) (hempty : c.store.log = []) {i : Nat}
    {now : Time} (hstrong : Strong u f m.db)
    (hfollows : (Event.mfa (.factorRevoked u f now true)).Follows env i (trace i m.store.log))
    (hagrees : (Event.mfa (.factorRevoked u f now true)).Agrees m)
    (hcurrent : ¬Overtaken u f i m.store.log) :
    ∃ g, Strong u g ((Event.mfa (.factorRevoked u f now true)).change m.db) := by
  change Retires (trace i m.store.log) u f at hfollows
  generalize htrace : trace i m.store.log = t at hfollows
  obtain @⟨token, _, workflow, consumed, factors, target, _, _, htarget, hguard⟩ := hfollows
  obtain ⟨waiting, first, hlog, _, _⟩ := log_of_trace (show _ =
    [Event.clock _, .taken (.loginWorkflow token) _] ++ _ from htrace)
  obtain ⟨m₀, hm₀, hfirst, _, hcount, _⟩ := h.around hempty hlog
  have hcounted : factors = LoginRepository.activeFactors workflow.userId m₀.db := hcount.tells
  have hsame : replay c.db ((i, Event.mfa (.activeFactors workflow.userId factors)) :: first) =
      m₀.db := by
    rw [replay_cons, Event.change_of_none rfl, ← hfirst, ← hm₀.db_eq hempty]
  have hmem : ∀ entry ∈ factors, m₀.db.mfaDevices.get entry.1 = some entry.2 ∧
      entry.2.userId = workflow.userId ∧ entry.2.status = .active := by
    intro entry hentry
    rw [hcounted] at hentry
    simpa using Table.mem_select.mp hentry
  obtain ⟨hwipes, hbacked⟩ := not_overtaken (hlog ▸ hcurrent)
  have hlater : ∀ entry ∈ factors,
      Remains (∃ later ∈ waiting, later.2.removes entry.1 = true) entry.1 entry.2 m.db := by
    intro entry hentry
    obtain ⟨hget, huser, _⟩ := hmem entry hentry
    exact remains_since h hempty hlog hwipes (hsame ▸ hget) huser
  have hother : ∃ entry ∈ factors, OtherStrong f entry := by
    have hfound := List.mem_of_find?_eq_some htarget
    have hid : target.1 = f := by simpa using List.find?_some htarget
    obtain ⟨row', hget, hpersists⟩ := hlater target hfound
    obtain ⟨row, hrow, _, hisStrong, _⟩ := hstrong
    rw [hid, hrow] at hget
    obtain rfl := Option.some.inj hget
    rw [isStrong_eq hpersists.factorType] at hisStrong
    rw [hcounted] at hguard ⊢
    exact otherStrong_of_length (hguard hisStrong)
  obtain ⟨entry, hentry, ⟨hne, hisStrong⟩, hkept⟩ := hbacked hother
  obtain ⟨_, huser, hactive⟩ := hmem entry hentry
  have hstill : Strong workflow.userId entry.1 m.db := by
    refine (hlater entry hentry).strong huser hisStrong hactive ?_
    rintro ⟨later, hin, hremoved⟩
    rw [hkept later hin] at hremoved
    cases hremoved
  exact ⟨entry.1, hstill.change hagrees rfl (by simp [Event.removes, Ne.symm hne])⟩

/-- Who has an authenticator or a passkey keeps one until the factors are wiped, as
long as no removal is overtaken. -/
theorem strong_factor_kept (hempty : c.store.log = [])
    {s : Config schema World AuthError Result} (h : (application env).Reachable c s)
    {later between earlier : List (Nat × Event)}
    (hlog : s.core.store.log = later ++ (between ++ earlier))
    (hstart : ∃ g, Strong u g (replay c.db earlier))
    (hwipes : ∀ entry ∈ between, entry.2.wipes u = false)
    (hcurrent : ∀ after i f now before,
      between = after ++ (i, .mfa (.factorRevoked u f now true)) :: before →
        Strong u f (replay c.db (before ++ earlier)) → ¬Overtaken u f i (before ++ earlier)) :
    ∃ g, Strong u g (replay c.db (between ++ earlier)) := by
  refine (history_of_reachable hempty h).along
    (P := fun _ d => ∃ g, Strong u g d) hempty hlog hstart ?_
  rintro m i e after before hsplit hm hlog' hfollows hagrees ⟨g, hstrong⟩
  by_cases hremoves : e.removes g = true
  · obtain ⟨now, rfl⟩ := removed_by_owner hstrong hagrees hremoves
    refine strong_after_removal hm hempty hstrong hfollows hagrees ?_
    rw [hlog']
    refine hcurrent after i g now before hsplit ?_
    rwa [← hlog', ← hm.db_eq hempty]
  · refine ⟨g, hstrong.change hagrees (hwipes (i, e) ?_) (by simpa using hremoves)⟩
    rw [hsplit]
    exact List.mem_append_right _ List.mem_cons_self

end Runs

/-- Ann has an authenticator and a passkey. -/
def enrolledCore : Core Db World :=
  sampleStart
    { sampleDb [⟨.given 1, "ann", .active⟩] with
      mfaDevices := sampleTable
        [(.given 1, ⟨.given 1, .totp, none, .active, none, none, none, none, none⟩),
          (.given 2, ⟨.given 1, .passkey, none, .active, none, none, none, none, none⟩)]
      credentials := (∅ : Table String WebAuthnCredential).add "key" ⟨.given 2, "key", 0, false⟩ }

/-- A login with the passkey; its workflow is the token that call `i + 1` draws. -/
def passkeyLogin (i : Nat) : List SampleMove :=
  perform i (.passkeyAuthenticationOptions none) 2 ++
    perform (i + 1) (.verifyPasskey (.drawn i 0) "key") 11

/-- Ann removes the authenticator. -/
def removalMoves : List SampleMove :=
  passkeyLogin 0 ++ perform 2 (.revokeFactor (.drawn 1 9) (.given 1)) 16

/-- Ann removes both factors, and each removal counts before the other commits. -/
def bothRemovedMoves : List SampleMove :=
  passkeyLogin 0 ++ passkeyLogin 2 ++ perform 4 (.revokeFactor (.drawn 1 9) (.given 1)) 2 ++
    perform 5 (.revokeFactor (.drawn 3 9) (.given 2)) 2 ++ steps 4 14 ++ steps 5 14

/-- Whether call `i` has returned without an error. -/
def succeeded (i : Nat) (w : World) : Bool :=
  w.log.any fun
    | (j, .returned (.ok _)) => j == i
    | _ => false

def isRemoval (entry : Nat × Event) : Bool :=
  match entry.2 with
  | .mfa (.factorRevoked _ _ _ true) => true
  | _ => false

/-- The only removal of a run is not overtaken. -/
theorem current_of_single {u f : Uuid} {i : Nat} {now : Time}
    {log after before : List (Nat × Event)}
    (hlog : log = after ++ (i, .mfa (.factorRevoked u f now true)) :: before)
    (hsingle : log.countP isRemoval ≤ 1) (hwipes : ∀ entry ∈ log, entry.2.wipes u = false) :
    ¬Overtaken u f i before := by
  have hnone : before.countP isRemoval = 0 := by
    rw [hlog, List.countP_append, List.countP_cons] at hsingle
    simp only [isRemoval, if_true] at hsingle
    omega
  rintro ⟨waiting, counted, first, rfl, ⟨entry, hentry, hwiped⟩ | ⟨⟨entry, hentry, hother⟩, hall⟩⟩
  · rw [hwipes entry (by simp [hlog, hentry])] at hwiped
    cases hwiped
  · obtain ⟨⟨j, e⟩, hlater, hremoved⟩ := hall entry hentry hother
    rw [List.countP_eq_zero] at hnone
    have hnot := hnone (j, e) (List.mem_append_left _ hlater)
    simp only [Event.removes] at hremoved
    split at hremoved
    · exact hnot rfl
    · cases hremoved

theorem strong_factor_kept_removal :
    ∃ s, (application sampleEnv).Reachable enrolledCore s ∧ succeeded 2 s.core.store = true ∧
      ∃ g, Strong (.given 1) g (replay enrolledCore.db s.core.store.log) := by
  obtain ⟨s, hreach, hrun⟩ := Service.reachable_of_run
    (show ((application sampleEnv).run (Service.start enrolledCore) removalMoves).map (fun s =>
        succeeded 2 s.core.store && decide (s.core.store.log.countP isRemoval ≤ 1) &&
          s.core.store.log.all fun entry => !entry.2.wipes (.given 1)) = some true by
      decide +kernel)
  simp only [Bool.and_eq_true, decide_eq_true_eq, List.all_eq_true, Bool.not_eq_true'] at hrun
  obtain ⟨⟨hdone, hsingle⟩, hwipes⟩ := hrun
  refine ⟨s, hreach, hdone, ?_⟩
  have hkept := strong_factor_kept rfl hreach
    (show s.core.store.log = [] ++ (s.core.store.log ++ []) by simp)
    (show ∃ g, Strong (.given 1) g enrolledCore.db by decide +kernel) hwipes
    fun after i f now before hsplit _ => by
      rw [List.append_nil]
      exact current_of_single hsplit hsingle hwipes
  rwa [List.append_nil] at hkept

/-- The last two factors of Ann go although nobody reset her account. -/
theorem both_factors_removed :
    (∃ g, Strong (.given 1) g enrolledCore.db) ∧
      ∃ s, (application sampleEnv).Reachable enrolledCore s ∧
        succeeded 4 s.core.store = true ∧ succeeded 5 s.core.store = true ∧
        (∀ entry ∈ s.core.store.log, entry.2.wipes (.given 1) = false) ∧
        ¬∃ g, Strong (.given 1) g s.core.db := by
  refine ⟨by decide +kernel, ?_⟩
  obtain ⟨s, hreach, hrun⟩ := Service.reachable_of_run
    (show ((application sampleEnv).run (Service.start enrolledCore) bothRemovedMoves).map
        (fun s : Config schema World AuthError Result =>
          succeeded 4 s.core.store && succeeded 5 s.core.store &&
          (s.core.store.log.all fun entry => !entry.2.wipes (.given 1)) &&
          !decide (∃ g, Strong (.given 1) g s.core.db)) = some true by
      decide +kernel)
  simp only [Bool.and_eq_true, List.all_eq_true, Bool.not_eq_true', decide_eq_false_iff_not] at hrun
  exact ⟨s, hreach, hrun.1.1.1, hrun.1.1.2, hrun.1.2, hrun.2⟩

end AuthCore
