/-
Recovery codes.  A user gets a list of them at once; from then on the stored list only loses
the codes that are accepted, and the last one takes the factor along.
-/
import AuthCore.Accounts.Factors
import AuthCore.Model.Sample

namespace AuthCore

open Interleave Relational

/-- Two characters that are the same but for the case of an ASCII letter. -/
def SameLetter (a b : Char) : Prop :=
  a = b ∨ a.isAlpha = true ∧ b.isAlpha = true ∧ a.toUpper = b.toUpper

/-- Two ways to write a code: with other ASCII cases and with hyphens elsewhere. -/
inductive Variant : List Char → List Char → Prop
  | nil : Variant [] []
  | letter {a b : Char} {l l' : List Char} : SameLetter a b → Variant l l' →
      Variant (a :: l) (b :: l')
  | inserted {l l' : List Char} : Variant l l' → Variant l ('-' :: l')
  | removed {l l' : List Char} : Variant l l' → Variant ('-' :: l) l'

/-- The recovery code of the user `u` that an event accepts. -/
def Event.spends (u : Uuid) : Event → Option Digest
  | mfa (.backupConsumed owner candidate _ _ true) => if owner = u then some candidate else none
  | _ => none

/-- An event that puts other codes in the place of those of `f`, or takes the factor away. -/
def Event.replacesCodes (u f : Uuid) : Event → Bool
  | mfa (.backupStored owner _ _ _ _) => owner == u
  | mfa (.factorRevoked _ id _ _) => id == f
  | recovery (.resetExecuted _ _ (some (_, user))) => user.userId == u
  | account (.erased args _ _) => args.userId == u
  | _ => false

/-- The codes of `u` that have been accepted, the last one first. -/
def spentCodes (u : Uuid) (log : List (Nat × Event)) : List Digest :=
  log.filterMap fun entry => entry.2.spends u

/-- The codes that are left, in the order in which they were issued. -/
def codesLeft (issued spent : List Digest) : List Digest :=
  issued.filter fun code => !spent.contains code

/-- The only active recovery codes of `u` are those of the factor `f`. -/
def OnlyBackup (u f : Uuid) (d : Db) : Prop :=
  ∀ g row, d.mfaDevices.get g = some row → MFARepository.isBackup u row = true → g = f

/-- The factor `f` of `u` holds what `issued` has left after `spent`. -/
structure Holding (u f : Uuid) (issued spent : List Digest) (d : Db) : Prop where
  row : ∃ row, d.mfaDevices.get f = some row ∧ row.userId = u ∧ row.factorType = .backupCodes ∧
    row.encryptedSecret = some (.codes (codesLeft issued spent)) ∧
    row.status = if issued ≠ [] ∧ codesLeft issued spent = [] then .revoked else .active
  only : OnlyBackup u f d
  once : spent.Nodup
  issued : ∀ code ∈ spent, code ∈ issued

section Codes

variable {env : Env} {issued spent : List Digest} {candidate : Digest}

theorem ascii_of_isAlpha {a : Char} (h : a.isAlpha = true) : a.val < 128 := by
  have hcase : a.isUpper = true ∨ a.isLower = true := Bool.or_eq_true_iff.mp h
  rcases hcase with hupper | hlower
  · have hrange : 'A'.val ≤ a.val ∧ a.val ≤ 'Z'.val := of_decide_eq_true hupper
    exact UInt32.lt_of_le_of_lt hrange.2 (by decide)
  · have hle : a.val ≤ 'z'.val := of_decide_eq_true (Bool.and_eq_true_iff.mp hlower).2
    exact UInt32.lt_of_le_of_lt hle (by decide)

theorem ne_hyphen_of_isAlpha {a : Char} (h : a.isAlpha = true) : a ≠ '-' := by
  rintro rfl
  exact absurd h (by decide)

/-- The digest of a code does not depend on the way it is written. -/
theorem backupHash_of_variant {code code' : String} (h : Variant code.toList code'.toList) :
    env.backupHash code' = env.backupHash code := by
  have hchars : ∀ {l l' : List Char}, Variant l l' →
      (l'.filter (· ≠ '-')).flatMap env.upperChar = (l.filter (· ≠ '-')).flatMap env.upperChar := by
    intro l l' h
    induction h with
    | nil => rfl
    | inserted _ ih => simpa using ih
    | removed _ ih => simpa using ih
    | @letter a b l l' hsame _ ih =>
        rcases hsame with rfl | ⟨ha, hb, hupper⟩
        · by_cases hhyphen : a = '-'
          · simpa [hhyphen] using ih
          · simpa [hhyphen] using ih
        · have hchar : env.upperChar b = env.upperChar a := by
            rw [env.upperChar_ascii a (ascii_of_isAlpha ha),
              env.upperChar_ascii b (ascii_of_isAlpha hb), hupper]
          simpa [ne_hyphen_of_isAlpha ha, ne_hyphen_of_isAlpha hb, hchar] using ih
  unfold Env.backupHash Env.normalizedBackup
  rw [hchars h]

theorem mem_codesLeft {code : Digest} :
    code ∈ codesLeft issued spent ↔ code ∈ issued ∧ code ∉ spent := by
  simp [codesLeft]

/-- Taking one code out of a list without repetitions. -/
theorem erase_codesLeft (hdistinct : issued.Nodup) :
    (codesLeft issued spent).erase candidate = codesLeft issued (candidate :: spent) := by
  unfold codesLeft
  rw [(hdistinct.filter _).erase_eq_filter, List.filter_filter]
  refine List.filter_congr fun code _ => ?_
  by_cases hcode : code = candidate
  · simp [hcode]
  · simp [hcode]

end Codes

section Steps

variable {u f g : Uuid} {issued spent : List Digest} {e : Event} {row row' : MFADevice}
  {m : Core Db World}

/-- An accepted code was one of the stored ones, and is taken out. -/
theorem used_of_spends {candidate : Digest} {now : Time} {found : Option Uuid}
    (h : (Event.mfa (.backupConsumed u candidate now found true)).Agrees m) :
    ∃ k row, found = some k ∧ m.db.mfaDevices.get k = some row ∧
      MFARepository.isBackup u row = true ∧ MFARepository.hasCode candidate row = true ∧
      ((Event.mfa (.backupConsumed u candidate now found true)).change m.db).mfaDevices.get k =
        some (MFARepository.useCode candidate now row) := by
  obtain ⟨change, halone, hchange⟩ := h.commits rfl
  cases found with
  | none => cases halone
  | some k =>
      rcases alone_changeFactor halone with heq | ⟨row, hrow, hcondition, heq⟩
      · cases heq
      · cases heq
        rw [Bool.and_eq_true] at hcondition
        refine ⟨k, row, rfl, hrow, hcondition.1, hcondition.2, ?_⟩
        rw [hchange]
        change ((DbChange.setFactor k _).apply m.db).mfaDevices.get k = _
        rw [get_setFactor, hrow, Option.map_some, if_pos rfl]

/-- A code that is stored with the factor that the call has found is accepted. -/
theorem spends_of_found {candidate : Digest} {now : Time} {k : Uuid} {result : Bool}
    (h : (Event.mfa (.backupConsumed u candidate now (some k) result)).Agrees m)
    (hrow : m.db.mfaDevices.get k = some row) (hbackup : MFARepository.isBackup u row = true)
    (hcode : MFARepository.hasCode candidate row = true) : result = true := by
  obtain ⟨change, halone, _⟩ := h.commits rfl
  change (MFARepository.changeFactor k _ (MFARepository.useCode candidate now)).alone m.db id =
    _ at halone
  rw [changeFactor_alone, hrow] at halone
  simp only [hbackup, hcode, Bool.and_self, if_true] at halone
  cases halone
  rfl

/-- No other recovery codes of the user become active. -/
theorem backup_of_backup {old : Option MFADevice} (h : FactorStep g old e (some row'))
    (hkept : e.replacesCodes u f = false) (hbackup : MFARepository.isBackup u row' = true) :
    ∃ row, old = some row ∧ MFARepository.isBackup u row = true := by
  have hparts : row'.userId = u ∧ row'.factorType = .backupCodes ∧ row'.status = .active := by
    simpa [MFARepository.isBackup, and_assoc] using hbackup
  obtain ⟨howner, htype, hactive⟩ := hparts
  generalize hnow : some row' = now at h
  cases h with
  | same => exact ⟨row', hnow.symm, hbackup⟩
  | pending | passkey =>
      cases hnow
      cases htype
  | dropped | removed | reset =>
      cases hnow
      cases hactive
  | activated hold _ hkind =>
      cases hnow
      rw [htype] at hkind
      cases hkind
  | @advanced previous step now row hold hstatus =>
      cases hnow
      exact ⟨row, hold, by simpa [MFARepository.isBackup, hstatus] using ⟨howner, htype⟩⟩
  | codes =>
      cases hnow
      simp [Event.replacesCodes] at hkept
      exact absurd howner hkept
  | recoded hold hwas =>
      cases hnow
      simp only [MFARepository.isBackup, Bool.and_eq_true, beq_iff_eq] at hwas
      simp only [Event.replacesCodes, beq_eq_false_iff_ne] at hkept
      exact absurd (hwas.1.1.symm.trans howner) hkept
  | @used owner candidate now row hold hwas hcode =>
      cases hnow
      refine ⟨row, hold, ?_⟩
      have huser : (MFARepository.useCode candidate now row).userId = row.userId := by
        unfold MFARepository.useCode
        split
        · rfl
        · rfl
      simp only [MFARepository.isBackup, Bool.and_eq_true, beq_iff_eq] at hwas ⊢
      exact ⟨⟨huser.symm.trans howner, hwas.1.2⟩, hwas.2⟩
  | erased => cases hnow

/-- What an event leaves of the factor when it accepts no code. -/
theorem unspent_of_step {old : Option MFADevice} (h : FactorStep f (some row) e old)
    (hkept : e.replacesCodes u f = false) (hnone : e.spends u = none) (howner : row.userId = u)
    (htype : row.factorType = .backupCodes) :
    ∃ row', old = some row' ∧ row'.userId = u ∧ row'.factorType = .backupCodes ∧
      row'.encryptedSecret = row.encryptedSecret ∧ row'.status = row.status := by
  generalize hold : some row = first at h
  cases h with
  | same => exact ⟨row, hold.symm, howner, htype, rfl, rfl⟩
  | pending hf | codes hf | passkey hf =>
      subst hold
      cases hf
  | dropped hf _ hkind | activated hf _ hkind =>
      subst hold
      cases hf
      rw [htype] at hkind
      cases hkind
  | advanced hf hstatus =>
      subst hold
      cases hf
      exact ⟨_, rfl, howner, htype, rfl, rfl⟩
  | recoded hf hwas =>
      subst hold
      cases hf
      simp only [MFARepository.isBackup, Bool.and_eq_true, beq_iff_eq] at hwas
      simp only [Event.replacesCodes, beq_eq_false_iff_ne] at hkept
      exact absurd (hwas.1.1.symm.trans howner) hkept
  | used hf hwas =>
      subst hold
      cases hf
      simp only [MFARepository.isBackup, Bool.and_eq_true, beq_iff_eq] at hwas
      simp [Event.spends, hwas.1.1.symm.trans howner] at hnone
  | removed => simp [Event.replacesCodes] at hkept
  | reset hf huser =>
      subst hold
      cases hf
      simp only [Event.replacesCodes, beq_eq_false_iff_ne] at hkept
      exact absurd (huser.symm.trans howner) hkept
  | erased hf huser =>
      subst hold
      cases hf
      simp only [Event.replacesCodes, beq_eq_false_iff_ne] at hkept
      exact absurd (huser.symm.trans howner) hkept

theorem spentCodes_cons {i : Nat} {log : List (Nat × Event)} :
    spentCodes u ((i, e) :: log) = (e.spends u).toList ++ spentCodes u log := by
  unfold spentCodes
  rw [List.filterMap_cons]
  cases e.spends u with
  | none => rfl
  | some code => rfl

theorem spends_eq_some {candidate : Digest} (h : e.spends u = some candidate) :
    ∃ now found, e = .mfa (.backupConsumed u candidate now found true) := by
  unfold Event.spends at h
  split at h
  · rename_i owner code now found
    split at h
    · rename_i howner
      cases h
      exact ⟨now, found, by rw [howner]⟩
    · cases h
  · cases h

/-- What is left when a code is taken out. -/
theorem useCode_holding {candidate : Digest} (now : Time) (hdistinct : issued.Nodup)
    (hsecret : row.encryptedSecret = some (.codes (codesLeft issued spent)))
    (hactive : row.status = .active) (hleft : candidate ∈ codesLeft issued spent) :
    (MFARepository.useCode candidate now row).userId = row.userId ∧
      (MFARepository.useCode candidate now row).encryptedSecret =
        some (.codes (codesLeft issued (candidate :: spent))) ∧
      (MFARepository.useCode candidate now row).status =
        if issued ≠ [] ∧ codesLeft issued (candidate :: spent) = [] then .revoked
        else .active := by
  have hissued : issued ≠ [] := List.ne_nil_of_mem (mem_codesLeft.mp hleft).1
  unfold MFARepository.useCode
  rw [hsecret]
  dsimp only
  rw [erase_codesLeft hdistinct, hactive]
  refine ⟨rfl, rfl, ?_⟩
  simp [hissued]

theorem Holding.event {i : Nat} {log : List (Nat × Event)}
    (h : Holding u f issued (spentCodes u log) m.db) (hdistinct : issued.Nodup)
    (hagrees : e.Agrees m) (hkept : e.replacesCodes u f = false) :
    Holding u f issued (spentCodes u ((i, e) :: log)) (e.change m.db) := by
  have honly : OnlyBackup u f (e.change m.db) := by
    intro g row hrow hbackup
    have hstep := factorStep_of_agrees (g := g) hagrees
    rw [hrow] at hstep
    obtain ⟨old, hold, hwas⟩ := backup_of_backup hstep hkept hbackup
    exact h.only g old hold hwas
  obtain ⟨row, hrow, howner, htype, hsecret, hstatus⟩ := h.row
  rw [spentCodes_cons]
  cases hspends : e.spends u with
  | none =>
      have hstep := factorStep_of_agrees (g := f) hagrees
      rw [hrow] at hstep
      obtain ⟨row', hrow', howner', htype', hsecret', hstatus'⟩ :=
        unspent_of_step hstep hkept hspends howner htype
      refine ⟨⟨row', hrow', howner', htype', hsecret'.trans hsecret, hstatus'.trans hstatus⟩,
        honly, h.once, h.issued⟩
  | some candidate =>
      obtain ⟨now, found, rfl⟩ := spends_eq_some hspends
      obtain ⟨k, old, rfl, hold, hbackup, hcode, hnew⟩ := used_of_spends hagrees
      obtain rfl := (h.only k old hold hbackup).symm
      rw [hrow] at hold
      cases hold
      have hleft : candidate ∈ codesLeft issued (spentCodes u log) := by
        simpa [MFARepository.hasCode, hsecret] using hcode
      simp only [MFARepository.isBackup, Bool.and_eq_true, beq_iff_eq] at hbackup
      obtain ⟨howner', hsecret', hstatus'⟩ :=
        useCode_holding now hdistinct hsecret hbackup.2 hleft
      obtain ⟨hissued, hunspent⟩ := mem_codesLeft.mp hleft
      refine ⟨⟨_, hnew, howner'.trans howner, ?_, hsecret', hstatus'⟩, honly, ?_, ?_⟩
      · rw [useCode_factorType]
        exact htype
      · exact List.nodup_cons.mpr ⟨hunspent, h.once⟩
      · intro code hmem
        rcases List.mem_cons.mp hmem with rfl | hmem
        · exact hissued
        · exact h.issued code hmem

end Steps

section Runs

variable {env : Env} {u f : Uuid} {issued : List Digest} {c m : Core Db World}
  {later stretch earlier : List (Nat × Event)}

/-- The factor at the end of a stretch of the log. -/
theorem holding_of_stretch (h : History env c m) (hempty : c.store.log = [])
    (hlog : m.store.log = later ++ (stretch ++ earlier)) (hdistinct : issued.Nodup)
    (hstart : Holding u f issued [] (replay c.db earlier))
    (hkept : ∀ entry ∈ stretch, entry.2.replacesCodes u f = false) :
    Holding u f issued (spentCodes u stretch) (replay c.db (stretch ++ earlier)) := by
  refine h.along (P := fun log d => Holding u f issued (spentCodes u log) d) hempty hlog hstart ?_
  intro m i e after before heq _ _ _ hagrees hP
  refine hP.event hdistinct hagrees (hkept (i, e) ?_)
  rw [heq]
  exact List.mem_append_right _ List.mem_cons_self

/-- A factor that has codes left is the one that the user's lookup finds. -/
theorem Holding.found {spent : List Digest} {d : Db} {candidate : Digest}
    (h : Holding u f issued spent d) (hleft : candidate ∈ codesLeft issued spent) :
    ∃ row, d.mfaDevices.get f = some row ∧ MFARepository.isBackup u row = true ∧
      MFARepository.hasCode candidate row = true ∧ MFARepository.backupFactor u d = some f := by
  obtain ⟨row, hrow, howner, htype, hsecret, hstatus⟩ := h.row
  rw [if_neg fun hnone => List.ne_nil_of_mem hleft hnone.2] at hstatus
  have hbackup : MFARepository.isBackup u row = true := by
    simp [MFARepository.isBackup, howner, htype, hstatus]
  refine ⟨row, hrow, hbackup, by simp [MFARepository.hasCode, hsecret, hleft], ?_⟩
  have hmem : (f, row) ∈ d.mfaDevices.select fun _ row => MFARepository.isBackup u row :=
    Table.mem_select.mpr ⟨hrow, hbackup⟩
  unfold MFARepository.backupFactor
  cases hselect : d.mfaDevices.select fun _ row => MFARepository.isBackup u row with
  | nil =>
      rw [hselect] at hmem
      cases hmem
  | cons first rest =>
      have hfirst : first ∈ d.mfaDevices.select fun _ row => MFARepository.isBackup u row := by
        rw [hselect]
        exact List.mem_cons_self
      obtain ⟨hget, hactive⟩ := Table.mem_select.mp hfirst
      exact congrArg some (h.only first.1 first.2 hget hactive)

theorem spent_subset (after before : List (Nat × Event)) {candidate : Digest}
    (h : candidate ∈ spentCodes u before) : candidate ∈ spentCodes u (after ++ before) := by
  unfold spentCodes at h ⊢
  rw [List.filterMap_append]
  exact List.mem_append_right _ h

/-- A use of a code is accepted if the code is one of those that are left, provided that the
factor was looked for after the codes were issued. -/
theorem accepted_iff_left (h : History env c m) (hempty : c.store.log = [])
    (hlog : m.store.log = later ++ (stretch ++ earlier)) (hdistinct : issued.Nodup)
    (hstart : Holding u f issued [] (replay c.db earlier))
    (hkept : ∀ entry ∈ stretch, entry.2.replacesCodes u f = false)
    {after before : List (Nat × Event)} {i : Nat} {candidate : Digest} {now : Time}
    {found : Option Uuid} {result : Bool}
    (hentry : stretch = after ++ (i, .mfa (.backupConsumed u candidate now found result)) :: before) :
    (result = true → candidate ∈ issued) ∧
      ((i, .mfa (.backupFactor u found)) ∈ before → candidate ∈ issued →
        (result = true ↔ candidate ∉ spentCodes u before)) := by
  have hpart : ∀ {a b : List (Nat × Event)}, stretch = a ++ b →
      Holding u f issued (spentCodes u b) (replay c.db (b ++ earlier)) := by
    intro a b heq
    have hsplit : m.store.log = (later ++ a) ++ (b ++ earlier) := by
      rw [hlog, heq, List.append_assoc, List.append_assoc]
    exact holding_of_stretch h hempty hsplit hdistinct hstart fun entry hmem =>
      hkept entry (heq ▸ List.mem_append_right _ hmem)
  have hbefore := hpart (hentry.trans (List.append_cons _ _ _))
  have hentered : m.store.log = (later ++ after) ++
      (i, .mfa (.backupConsumed u candidate now found result)) :: (before ++ earlier) := by
    rw [hlog, hentry]
    simp
  obtain ⟨m₀, hm₀, hlog₀, _, hagrees, _⟩ := h.around hempty hentered
  rw [← hlog₀, ← hm₀.db_eq hempty] at hbefore
  have hused : result = true → candidate ∈ codesLeft issued (spentCodes u before) := by
    rintro rfl
    obtain ⟨k, row, rfl, hrow, hbackup, hcode, _⟩ := used_of_spends hagrees
    obtain rfl := (hbefore.only k row hrow hbackup).symm
    obtain ⟨row', hrow', _, _, hsecret, _⟩ := hbefore.row
    rw [hrow] at hrow'
    cases hrow'
    simpa [MFARepository.hasCode, hsecret] using hcode
  refine ⟨fun hresult => (mem_codesLeft.mp (hused hresult)).1, ?_⟩
  intro hlookup hissued
  refine ⟨fun hresult => (mem_codesLeft.mp (hused hresult)).2, ?_⟩
  intro hunspent
  obtain ⟨a, b, rfl⟩ := List.append_of_mem hlookup
  have hthen := hpart (b := b) (a := after ++ (i, .mfa (.backupConsumed u candidate now found
    result)) :: a ++ [(i, .mfa (.backupFactor u found))]) (by rw [hentry]; simp)
  have hlooked : m.store.log =
      (later ++ after ++ (i, .mfa (.backupConsumed u candidate now found result)) :: a) ++
        (i, .mfa (.backupFactor u found)) :: (b ++ earlier) := by
    rw [hlog, hentry]
    simp
  obtain ⟨m₁, hm₁, hlog₁, _, hasked, _⟩ := h.around hempty hlooked
  rw [← hlog₁, ← hm₁.db_eq hempty] at hthen
  have hearlier : candidate ∈ codesLeft issued (spentCodes u b) := by
    refine mem_codesLeft.mpr ⟨hissued, fun hspent => hunspent ?_⟩
    rw [List.append_cons]
    exact spent_subset _ b hspent
  obtain ⟨_, _, _, _, hfound⟩ := hthen.found hearlier
  have htold : found = MFARepository.backupFactor u m₁.db := hasked.tells
  rw [hfound] at htold
  subst htold
  obtain ⟨row, hrow, hbackup, hcode, _⟩ := hbefore.found (mem_codesLeft.mpr ⟨hissued, hunspent⟩)
  exact spends_of_found hagrees hrow hbackup hcode

/-- Between two times that a user gets codes, each of them is good for one use, in whatever
way it is written. -/
theorem backup_codes_once (hempty : c.store.log = []) {codes : List String}
    {s : Config schema World AuthError Result} (h : (application env).Reachable c s)
    (hlog : s.core.store.log = later ++ (stretch ++ earlier))
    (hdistinct : (codes.map env.backupHash).Nodup)
    (hstart : Holding u f (codes.map env.backupHash) [] (replay c.db earlier))
    (hkept : ∀ entry ∈ stretch, entry.2.replacesCodes u f = false) :
    Holding u f (codes.map env.backupHash) (spentCodes u stretch)
        (replay c.db (stretch ++ earlier)) ∧
      ∀ after i candidate now found result before,
        stretch = after ++ (i, .mfa (.backupConsumed u candidate now found result)) :: before →
        ∃ token code, .called (.verifyChallenge token code) ∈ trace i (before ++ earlier) ∧
          candidate = env.backupHash code ∧
          (result = true → candidate ∈ codes.map env.backupHash) ∧
          ∀ issued ∈ codes, Variant issued.toList code.toList →
            candidate = env.backupHash issued ∧
              ((i, .mfa (.backupFactor u found)) ∈ before →
                (result = true ↔ env.backupHash issued ∉ spentCodes u before)) := by
  have hhistory := history_of_reachable hempty h
  refine ⟨holding_of_stretch hhistory hempty hlog hdistinct hstart hkept, ?_⟩
  intro after i candidate now found result before hentry
  obtain ⟨hissued, haccepted⟩ :=
    accepted_iff_left hhistory hempty hlog hdistinct hstart hkept hentry
  have hsplit : s.core.store.log = (later ++ after) ++
      (i, .mfa (.backupConsumed u candidate now found result)) :: (before ++ earlier) := by
    rw [hlog, hentry]
    simp
  obtain ⟨m, _, hearlier, hfollows, _⟩ := hhistory.around hempty hsplit
  have hspends : Spends env (trace i (before ++ earlier)) u candidate now found := hfollows
  generalize htrace : trace i (before ++ earlier) = t at hspends
  obtain @⟨token, code, payload, _, _, _, _⟩ := hspends
  refine ⟨token, code, by simp, rfl, hissued, ?_⟩
  intro issued hmem hvariant
  have hsame := @backupHash_of_variant env _ _ hvariant
  refine ⟨hsame, fun hlookup => ?_⟩
  rw [← hsame]
  refine haccepted hlookup ?_
  rw [hsame]
  exact List.mem_map_of_mem hmem

end Runs

/-- Ann has two recovery codes. -/
def codesCore : Core Db World :=
  sampleStart { sampleDb [⟨.given 1, "ann", .active⟩] with
    mfaDevices := sampleTable [(.given 9, ⟨.given 1, .backupCodes, some (.codes [2, 3]), .active,
      some "Recovery codes", none, none, none, none⟩)] }

theorem holding_codesCore : Holding (.given 1) (.given 9) [2, 3] [] codesCore.db where
  row := ⟨_, rfl, rfl, rfl, rfl, rfl⟩
  only := by
    intro g row hrow _
    change (Table.add _ _ ∅).get g = some row at hrow
    rw [Table.get_add, Table.get_empty, Option.none_or] at hrow
    split at hrow
    · assumption
    · cases hrow
  once := List.nodup_nil
  issued := by simp

/-- Ann uses her first code, which she writes with a hyphen and in small letters. -/
def codeMoves : List SampleMove :=
  perform 0 (.loginPassword "ann" "pw" "phone" none) 16 ++
    perform 1 (.issueChallenge (.drawn 0 0) .backupCode) 7 ++
    perform 2 (.verifyChallenge (.drawn 1 0) "a-b") 13

theorem backup_codes_once_used :
    ∃ s, (application sampleEnv).Reachable codesCore s ∧
      spentCodes (.given 1) s.core.store.log = [2] ∧
      Holding (.given 1) (.given 9) [2, 3] [2] (replay codesCore.db s.core.store.log) := by
  obtain ⟨s, hreach, hrun⟩ := Service.reachable_of_run
    (show ((application sampleEnv).run (Service.start codesCore) codeMoves).map
        (fun s : Config schema World AuthError Result => (spentCodes (.given 1) s.core.store.log,
          s.core.store.log.all fun entry => !entry.2.replacesCodes (.given 1) (.given 9))) =
          some ([2], true) by
      decide +kernel)
  obtain ⟨hspent, hkept⟩ := Prod.mk.inj hrun
  have hlog : s.core.store.log = [] ++ (s.core.store.log ++ []) := by simp
  have honce : Holding (.given 1) (.given 9) (["ab", "abc"].map sampleEnv.backupHash)
      (spentCodes (.given 1) s.core.store.log) (replay codesCore.db (s.core.store.log ++ [])) :=
    (backup_codes_once rfl hreach hlog (by decide) holding_codesCore (by simpa using hkept)).1
  rw [hspent, List.append_nil] at honce
  exact ⟨s, hreach, hspent, honce⟩

end AuthCore
