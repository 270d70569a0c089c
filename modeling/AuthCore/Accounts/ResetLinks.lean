/-
Links for a new password.  A link works once and before it runs out.  Issues that
do not overlap leave a user with at most one link that is open.
-/
import AuthCore.Accounts.Standing
import AuthCore.Model.Sample

namespace AuthCore

open Interleave Relational RegistrationRepository RecoveryRepository

/-- The row is the old one, or the old one used up. -/
def EphemeralToken.Spent (row row' : EphemeralToken) : Prop :=
  row' = row ∨ ∃ now, row' = { row with consumedAt := some now }

/-- Mailed tokens are used up or deleted, and those of `new` are inserted. -/
def Mailing (new : Uuid → EphemeralToken → Prop) (d d' : Db) : Prop :=
  ∀ id row', d'.ephemeral.get id = some row' →
    ∃ row, (d.ephemeral.get id = some row ∨ new id row) ∧ row.Spent row'

def Event.mails : Event → Uuid → EphemeralToken → Prop
  | recovery event => event.mails
  | _ => fun _ _ => False

section Steps

variable {new : Uuid → EphemeralToken → Prop} {d d' : Db}

namespace EphemeralToken.Spent

variable {row row' row'' : EphemeralToken}

theorem trans (h : row.Spent row') (h' : row'.Spent row'') : row.Spent row'' := by
  rcases h' with rfl | ⟨now, rfl⟩
  · exact h
  · rcases h with rfl | ⟨earlier, rfl⟩
    · exact Or.inr ⟨now, rfl⟩
    · exact Or.inr ⟨now, rfl⟩

theorem userId (h : row.Spent row') : row'.userId = row.userId := by
  rcases h with rfl | ⟨_, rfl⟩
  · rfl
  · rfl

theorem purpose (h : row.Spent row') : row'.purpose = row.purpose := by
  rcases h with rfl | ⟨_, rfl⟩
  · rfl
  · rfl

theorem of_unused (h : row.Spent row') (hunused : row'.consumedAt = none) : row' = row := by
  rcases h with rfl | ⟨_, rfl⟩
  · rfl
  · cases hunused

end EphemeralToken.Spent

theorem Mailing.of_eq (h : d'.ephemeral = d.ephemeral) : Mailing new d d' := by
  intro id row hget
  exact ⟨row, Or.inl (h ▸ hget), Or.inl rfl⟩

theorem Mailing.trans {d'' : Db} (h : Mailing new d d') (h' : Mailing new d' d'') :
    Mailing new d d'' := by
  intro id row'' hget
  obtain ⟨row', hrow', hspent'⟩ := h' id row'' hget
  rcases hrow' with hold | hnew
  · obtain ⟨row, hrow, hspent⟩ := h id row' hold
    exact ⟨row, hrow, hspent.trans hspent'⟩
  · exact ⟨row', Or.inr hnew, hspent'⟩

theorem mailing_of_steps (h : Relation.ReflTransGen (Mailing new) d d') : Mailing new d d' := by
  induction h with
  | refl => exact .of_eq rfl
  | tail _ hstep ih => exact ih.trans hstep

theorem mailing_useMailed (id : Uuid) (now : Time) :
    Mailing new d ((DbChange.useMailed id now).apply d) := by
  intro k row' hget
  obtain ⟨row, hrow, rfl⟩ := Table.get_update_eq_some.mp hget
  refine ⟨row, Or.inl hrow, ?_⟩
  by_cases hk : k = id
  · exact Or.inr ⟨now, by simp [hk]⟩
  · exact Or.inl (by simp [hk])

theorem mailing_addMailed {id : Uuid} {row : EphemeralToken} (h : new id row) :
    Mailing new d ((DbChange.addMailed id row).apply d) := by
  intro k row' hget
  rcases Table.get_add_eq_some hget with hold | ⟨rfl, rfl⟩
  · exact ⟨row', Or.inl hold, Or.inl rfl⟩
  · exact ⟨row', Or.inr h, Or.inl rfl⟩

theorem erasing_mailing (user : Uuid) : Erasing (Mailing new) user where
  artifacts _ _ := .of_eq rfl
  «export» _ _ _ _ := .of_eq rfl
  contactChange _ _ := .of_eq rfl
  mailed _ _ _ _ := fun _ row hget =>
    ⟨row, Or.inl (Table.get_delete_eq_some.mp hget).1, Or.inl rfl⟩
  factor _ _ _ := .of_eq rfl
  device _ _ _ _ := .of_eq rfl
  staff _ := .of_eq rfl
  binding _ _ _ _ := .of_eq rfl
  identity _ _ _ _ := .of_eq rfl
  family _ _ _ := .of_eq rfl
  referrals _ := .of_eq rfl
  referred _ _ := .of_eq rfl
  invitation _ _ _ := .of_eq rfl
  organization _ _ _ := .of_eq rfl
  user _ _ _ _ := .of_eq rfl
  request _ _ _ _ _ := .of_eq rfl
  audit _ _ := .of_eq rfl

theorem mailing_recovery (event : RecoveryEvent) (d : Db) :
    Mailing event.mails d ((Event.recovery event).change d) := by
  refine mailing_of_steps
    (Event.steps_change (e := .recovery event) (fun commit hcommit => ?_) d)
  have hsame : ∀ {d d' : Db}, d'.ephemeral = d.ephemeral → Mailing event.mails d d' := .of_eq
  refine event.guarantees ?_ (fun _ => ?_) (fun _ => ?_) (fun _ _ _ _ => hsame rfl) hcommit
  · exact ⟨fun _ _ _ => hsame rfl, fun _ _ _ => hsame rfl, fun _ _ _ _ => hsame rfl,
      fun _ _ _ => hsame rfl, fun _ _ _ => hsame rfl, fun _ _ _ => mailing_addMailed,
      fun _ => mailing_useMailed, fun _ _ _ => hsame rfl, fun _ _ _ => hsame rfl,
      fun _ _ => hsame rfl, fun _ _ => hsame rfl⟩
  · exact ⟨fun _ _ _ => hsame rfl, fun _ _ _ _ => hsame rfl, fun _ _ _ _ _ => hsame rfl,
      fun _ _ _ _ _ => hsame rfl, fun _ _ _ _ => hsame rfl⟩
  · exact ⟨fun _ _ _ => hsame rfl, fun _ _ _ => hsame rfl⟩

theorem mailing_account (event : AccountEvent) (d : Db) :
    Mailing new d ((Event.account event).change d) := by
  by_cases hstays : ∀ args email found result, event ≠ .erased args (.erased email found) result
  · exact .of_eq (Event.keeps_part (e := .account event) (π := Db.ephemeral)
      (fun commit hcommit => event.keeps hcommit hstays) (fun _ => rfl) d)
  · simp only [not_forall, ne_eq, not_not] at hstays
    obtain ⟨args, email, found, result, rfl⟩ := hstays
    refine mailing_of_steps (Event.steps_change (fun commit hcommit => ?_) d)
    cases hcommit
    exact guarantees_eraseWrites (erasing_mailing _) _ _

/-- What any event does to the mailed tokens. -/
theorem mailing_change (e : Event) (d : Db) : Mailing e.mails d (e.change d) := by
  by_cases haccount : ∃ event, e = .account event
  · obtain ⟨event, rfl⟩ := haccount
    exact mailing_account event d
  · by_cases hrecovery : ∃ event, e = .recovery event
    · obtain ⟨event, rfl⟩ := hrecovery
      exact mailing_recovery event d
    · have haside : Aside Db.ephemeral :=
        ⟨fun _ => rfl, fun _ => rfl, fun _ => rfl, fun _ => rfl, fun _ => rfl, fun _ _ => rfl⟩
      exact .of_eq (haside.change d (fun event heq => absurd ⟨event, heq⟩ haccount)
        fun event heq => absurd ⟨event, heq⟩ hrecovery)

end Steps

/-- A link of the user that a reset would take. -/
def OpenLink (u id : Uuid) (d : Db) : Prop :=
  ∃ row, d.ephemeral.get id = some row ∧ row.userId = u ∧ row.purpose ∈ resetPurposes ∧
    row.consumedAt = none

section Links

variable {u : Uuid} {m : Core Db World}

theorem OpenLink.before {new : Uuid → EphemeralToken → Prop} {d d' : Db} {id : Uuid}
    (h : OpenLink u id d') (hstep : Mailing new d d') :
    OpenLink u id d ∨ ∃ row, new id row ∧ row.userId = u ∧ row.purpose ∈ resetPurposes := by
  obtain ⟨row', hget, huser, hpurpose, hunused⟩ := h
  obtain ⟨row, hrow, hspent⟩ := hstep id row' hget
  obtain rfl := hspent.of_unused hunused
  rcases hrow with hold | hnew
  · exact Or.inl ⟨row', hold, huser, hpurpose, hunused⟩
  · exact Or.inr ⟨row', hnew, huser, hpurpose⟩

theorem OpenLink.of_mailing {d d' : Db} {id : Uuid} (h : OpenLink u id d')
    (hstep : Mailing (fun _ _ => False) d d') : OpenLink u id d := by
  rcases h.before hstep with hold | ⟨_, hnone, _⟩
  · exact hold
  · exact hnone.elim

theorem not_open_useMailed (d : Db) (id : Uuid) (now : Time) :
    ¬OpenLink u id ((DbChange.useMailed id now).apply d) := by
  rintro ⟨row', hget, _, _, hunused⟩
  obtain ⟨row, _, rfl⟩ := Table.get_update_eq_some.mp hget
  rw [beq_self_eq_true, if_pos rfl] at hunused
  cases hunused

theorem guarantees_mailing_useUp (args : MailArgs) (id : Uuid) :
    (useUp args id).Guarantees (Mailing fun _ _ => False) :=
  guarantees_useUp (fun _ id => mailing_useMailed id args.now) id

/-- An issue closes the links it has found. -/
theorem closed_of_useUp {args : MailArgs} {found : List Uuid} {d : Db} {change : Db → Db}
    (h : (Tx.each (useUp args) found).alone d id = .ok ((), change)) {k : Uuid} (hk : k ∈ found)
    (hpurposes : args.purposes = resetPurposes) : ¬OpenLink args.userId k (change d) := by
  rintro hopen
  obtain ⟨p, q, hbody, hsteps⟩ := (Tx.Sequence.each h).at (List.mem_map_of_mem hk)
  obtain ⟨hbefore, hafter⟩ := hsteps (Mailing fun _ _ => False) (fun body hbody => by
    obtain ⟨id, _, rfl⟩ := List.mem_map.mp hbody
    exact guarantees_mailing_useUp args id) d
  have hq := hopen.of_mailing (mailing_of_steps hafter)
  rw [useUp_alone] at hbody
  cases hget : d.ephemeral.get k with
  | none =>
      rw [hget] at hbody
      cases hbody
      have hold : OpenLink args.userId k d := hq.of_mailing (mailing_of_steps hbefore)
      obtain ⟨row, hrow, _⟩ := hold
      rw [hget] at hrow
      cases hrow
  | some row =>
      rw [hget] at hbody
      dsimp only at hbody
      split at hbody
      · cases hbody
        exact not_open_useMailed _ _ _ hq
      · rename_i hcondition
        cases hbody
        have hold : OpenLink args.userId k d := hq.of_mailing (mailing_of_steps hbefore)
        obtain ⟨row', hrow, huser, hpurpose, hunused⟩ := hold
        obtain rfl := Option.some.inj (hget.symm.trans hrow)
        rw [← hpurposes] at hpurpose
        simp only [huser, hunused, BEq.rfl, Option.isNone_none, Bool.and_true, Bool.true_and,
          List.contains_iff_mem] at hcondition
        exact hcondition hpurpose

theorem open_of_mailed {args : MailArgs} {found : List Uuid}
    (h : (Event.recovery (.mailed args found)).Agrees m) (hpurposes : args.purposes = resetPurposes)
    (hfound : ∀ k, OpenLink args.userId k m.db → k ∈ found) {k : Uuid}
    (hopen : OpenLink args.userId k ((Event.recovery (.mailed args found)).change m.db)) :
    k = args.tokenId := by
  obtain ⟨change, halone, hchange⟩ := h.commits rfl
  rw [hchange] at hopen
  obtain ⟨_, p, huse, hrest⟩ := Tx.alone_bind_eq_ok halone
  obtain ⟨_, _, hreserve, hend⟩ := Tx.alone_bind_eq_ok hrest
  cases (entries_of_reserve hreserve).2
  cases hend
  obtain ⟨row, hget, hrow⟩ := hopen
  rcases Table.get_add_eq_some hget with hold | ⟨hid, _⟩
  · have hbefore : OpenLink args.userId k (p m.db) := ⟨row, hold, hrow⟩
    have hguarantee := (Tx.guarantees_each (guarantees_mailing_useUp args) found).alone huse m.db
    have hmem := hfound k (hbefore.of_mailing (mailing_of_steps hguarantee))
    exact absurd hbefore (closed_of_useUp huse hmem hpurposes)
  · exact hid

/-- A reset that changes a password uses an open link, in time. -/
theorem link_of_reset {args : ResetArgs} {found : Option Uuid} {user : Option RecoveryUser}
    (h : (Event.recovery (.passwordReset args found (.updated, user))).Agrees m) :
    ∃ id row owner, found = some id ∧ user = some owner ∧ m.db.ephemeral.get id = some row ∧
      row.userId = owner.userId ∧ row.tokenHash = args.tokenHash ∧ row.purpose ∈ resetPurposes ∧
      row.consumedAt = none ∧ args.now < row.expiresAt ∧ ∀ u, ¬OpenLink u id
        ((Event.recovery (.passwordReset args found (.updated, user))).change m.db) := by
  obtain ⟨change, halone, hchange⟩ := h.commits rfl
  rw [hchange]
  obtain ⟨id, row, _, _, _, hfound, hget, hhash, hpurpose, hunused, hexpiry, _, _, _, _, _,
    huser, hstore⟩ := alone_resetUpdated halone
  cases hstore
  refine ⟨id, row, _, hfound, huser, hget, rfl, hhash, hpurpose, hunused, hexpiry, ?_⟩
  exact fun u hopen => not_open_useMailed m.db id args.now hopen

end Links

/-- The event issues a link for the user. -/
def Event.issues (u : Uuid) : Event → Bool
  | recovery (.mailed args _) => args.userId == u && args.purposes == resetPurposes
  | _ => false

/-- A link is issued for the user between the query of another issue and its commit. -/
def Overlapping (u : Uuid) (log : List (Nat × Event)) : Prop :=
  ∃ later i args found waiting first,
    log = later ++ (i, .recovery (.mailed args found)) ::
      (waiting ++ (i, .recovery (.unusedFound u resetPurposes found)) :: first) ∧
    (Event.recovery (.mailed args found)).issues u = true ∧
    ∃ entry ∈ waiting, entry.2.issues u = true

/-- The user has at most one link that a reset would take. -/
def SingleLink (u : Uuid) (d : Db) : Prop :=
  ∀ id id', OpenLink u id d → OpenLink u id' d → id = id'

section Runs

variable {env : Env} {c m : Core Db World} {u : Uuid} {i : Nat} {e : Event}

theorem Mails.of_purpose {t : List Event} {args : MailArgs} {found : List Uuid}
    (h : Mails env i t args found) (hpurpose : args.purpose ∈ resetPurposes) :
    args.purposes = resetPurposes ∧ args.tokenId = .drawn i 1 := by
  cases h with
  | verification _ _ _ hother =>
      rw [hother] at hpurpose
      exact absurd hpurpose (by decide)
  | link _ _ hid _ hpurposes => exact ⟨hpurposes, hid⟩

theorem Mails.of_purposes {t : List Event} {args : MailArgs} {found : List Uuid}
    (h : Mails env i t args found) (hpurposes : args.purposes = resetPurposes) :
    args.purpose ∈ resetPurposes := by
  cases h with
  | verification _ _ _ _ hother =>
      rw [hother] at hpurposes
      exact absurd hpurposes (by decide)
  | link _ _ _ hpurpose _ => exact hpurpose

theorem Mails.first {t : List Event} {args args' : MailArgs} {found found' : List Uuid}
    (h : Mails env i t args found) : .recovery (.mailed args' found') ∉ t := by
  cases h with
  | verification hrest => simpa using hrest args' found'
  | link hrest => simpa using hrest args' found'

/-- Only a link for a reset is inserted as one, by an issue. -/
theorem mailed_of_mails {t : List Event} (hfollows : e.Follows env i t) {id : Uuid}
    {row : EphemeralToken} (h : e.mails id row) (hpurpose : row.purpose ∈ resetPurposes) :
    ∃ args found, e = .recovery (.mailed args found) ∧ Mails env i t args found ∧
      args.tokenId = id ∧ args.purposes = resetPurposes ∧ args.userId = row.userId := by
  cases e with
  | recovery event =>
      cases event with
      | emailRegistered args =>
          rw [h.2] at hpurpose
          exact absurd hpurpose (by decide)
      | mailed args found =>
          obtain ⟨rfl, rfl⟩ := h
          have hmails : Mails env i t args found := hfollows
          exact ⟨args, found, rfl, hmails, rfl, (hmails.of_purpose hpurpose).1, rfl⟩
      | _ => exact h.elim
  | _ => exact h.elim

theorem OpenLink.kept {t : List Event} {d : Db} {id : Uuid} (h : OpenLink u id (e.change d))
    (hfollows : e.Follows env i t) (hother : e.issues u = false) : OpenLink u id d := by
  rcases h.before (mailing_change e d) with hold | ⟨row, hnew, huser, hpurpose⟩
  · exact hold
  · obtain ⟨args, found, rfl, _, _, hpurposes, howner⟩ :=
      mailed_of_mails hfollows hnew hpurpose
    simp [Event.issues, howner, huser, hpurposes] at hother

theorem mem_unused {d : Db} {id : Uuid} (h : OpenLink u id d) : id ∈ unused u resetPurposes d := by
  obtain ⟨row, hget, huser, hpurpose, hunused⟩ := h
  refine List.mem_map.mpr ⟨(id, row), Table.mem_select.mpr ⟨hget, ?_⟩, rfl⟩
  simp [huser, hunused, hpurpose]

/-- Unless issues overlap, every event keeps the user at one link. -/
theorem SingleLink.change (h : SingleLink u m.db) (hempty : c.store.log = [])
    (hm : History env c m) (hfollows : e.Follows env i (trace i m.store.log))
    (hagrees : e.Agrees m) (hturns : ¬Overlapping u ((i, e) :: m.store.log)) :
    SingleLink u (e.change m.db) := by
  by_cases hissues : e.issues u = true
  · have hissue := hissues
    unfold Event.issues at hissues
    split at hissues
    · rename_i args found
      simp only [Bool.and_eq_true, beq_iff_eq] at hissues
      obtain ⟨rfl, hpurposes⟩ := hissues
      suffices hfound : ∀ k, OpenLink args.userId k m.db → k ∈ found by
        intro id id' hopen hopen'
        rw [open_of_mailed hagrees hpurposes hfound hopen,
          open_of_mailed hagrees hpurposes hfound hopen']
      obtain ⟨rest, htrace⟩ : ∃ rest, trace i m.store.log =
          .recovery (.unusedFound args.userId resetPurposes found) :: rest := by
        have hmails : Mails env i (trace i m.store.log) args found := hfollows
        generalize trace i m.store.log = t at hmails
        cases hmails with
        | verification => exact ⟨_, by rw [hpurposes]⟩
        | link => exact ⟨_, by rw [hpurposes]⟩
      obtain ⟨waiting, first, hlog, _, _⟩ := log_of_trace (show _ = [] ++ _ from htrace)
      obtain ⟨m₀, hm₀, rfl, _, hasked, _⟩ := hm.around hempty hlog
      have htold : found = unused args.userId resetPurposes m₀.db := hasked.tells
      rw [hm.db_eq hempty, hlog]
      refine hm.through (P := fun d => ∀ k, OpenLink args.userId k d → k ∈ found) hempty
        (show _ = [] ++ (waiting ++ _) from hlog) ?_ ?_
      · rw [replay_cons, Event.change_of_none rfl, ← hm₀.db_eq hempty, htold]
        exact fun k hopen => mem_unused hopen
      · intro m' j e' hmem _ hfollows' _ hP k hopen
        have hother : e'.issues args.userId = false := by
          by_contra hissues'
          refine hturns ⟨[], i, args, found, waiting, m₀.store.log, ?_, hissue, (j, e'), hmem,
            Bool.eq_true_of_not_eq_false hissues'⟩
          rw [hlog, List.nil_append]
        exact hP k (hopen.kept hfollows' hother)
    · cases hissues
  · intro id id' hopen hopen'
    have hother := Bool.eq_false_iff.mpr hissues
    exact h id id' (hopen.kept hfollows hother) (hopen'.kept hfollows hother)

theorem single_of_history (hempty : c.store.log = []) (hnone : c.db.ephemeral = ∅)
    (h : History env c m) (hturns : ¬Overlapping u m.store.log) : SingleLink u m.db := by
  rw [h.db_eq hempty]
  have hwhole := h.along (P := fun log d => ¬Overlapping u log → SingleLink u d) hempty
    (show m.store.log = [] ++ (m.store.log ++ []) by simp) ?_ ?_
  · rw [List.append_nil] at hwhole
    exact hwhole hturns
  · rintro - id id' ⟨row, hget, _⟩ -
    change c.db.ephemeral.get id = some row at hget
    rw [hnone] at hget
    cases hget
  · intro m' i e after before hsplit hm' hlog hfollows hagrees hP hturns'
    rw [List.append_nil] at hlog
    subst hlog
    refine SingleLink.change (hP ?_) hempty hm' hfollows hagrees hturns'
    rintro ⟨later, j, args, found, waiting, first, heq, hrest⟩
    exact hturns' ⟨(i, e) :: later, j, args, found, waiting, first, by simp [heq], hrest⟩

/-- A link in the table has been issued. -/
def Issued (log : List (Nat × Event)) (id user : Uuid) : Prop :=
  ∃ k args found, (k, .recovery (.mailed args found)) ∈ log ∧ args.tokenId = id ∧
    args.purposes = resetPurposes ∧ args.userId = user

theorem issued_of_history (hempty : c.store.log = []) (hnone : c.db.ephemeral = ∅)
    (h : History env c m) {id : Uuid} {row : EphemeralToken}
    (hget : m.db.ephemeral.get id = some row) (hpurpose : row.purpose ∈ resetPurposes) :
    Issued m.store.log id row.userId := by
  rw [h.db_eq hempty] at hget
  have hwhole := h.along (P := fun log d => ∀ id row, d.ephemeral.get id = some row →
      row.purpose ∈ resetPurposes → Issued log id row.userId) hempty
    (show m.store.log = [] ++ (m.store.log ++ []) by simp) ?_ ?_
  · rw [List.append_nil] at hwhole
    exact hwhole id row hget hpurpose
  · intro id row hget _
    change c.db.ephemeral.get id = some row at hget
    rw [hnone] at hget
    cases hget
  · intro m' i e after before hsplit hm' hlog hfollows hagrees hP id row' hget hpurpose
    obtain ⟨row, hrow, hspent⟩ := mailing_change e m'.db id row' hget
    rw [hspent.purpose] at hpurpose
    rw [hspent.userId]
    rcases hrow with hold | hnew
    · obtain ⟨k, args, found, hmem, hissue⟩ := hP id row hold hpurpose
      exact ⟨k, args, found, List.mem_cons_of_mem _ hmem, hissue⟩
    · obtain ⟨args, found, rfl, _, hid, hpurposes, howner⟩ :=
        mailed_of_mails hfollows hnew hpurpose
      exact ⟨i, args, found, List.mem_cons_self, hid, hpurposes, howner⟩

theorem id_of_issued (hempty : c.store.log = []) (h : History env c m) {k : Nat} {args : MailArgs}
    {found : List Uuid} (hmem : (k, .recovery (.mailed args found)) ∈ m.store.log)
    (hpurposes : args.purposes = resetPurposes) : args.tokenId = .drawn k 1 := by
  obtain ⟨later, earlier, hsplit⟩ := List.append_of_mem hmem
  obtain ⟨_, _, _, hfollows, _, _⟩ := h.around hempty hsplit
  have hmails : Mails env k (trace k earlier) args found := hfollows
  exact (hmails.of_purpose (hmails.of_purposes hpurposes)).2

/-- A link that has been issued is not issued again. -/
theorem not_issued_again (hempty : c.store.log = []) (h : History env c m)
    (hfollows : e.Follows env i (trace i m.store.log)) {id user : Uuid}
    (hissued : Issued m.store.log id user) {row : EphemeralToken}
    (hpurpose : row.purpose ∈ resetPurposes) : ¬e.mails id row := by
  rintro hnew
  obtain ⟨args, found, rfl, hmails, hid, hpurposes, _⟩ := mailed_of_mails hfollows hnew hpurpose
  obtain ⟨k, args', found', hmem, hid', hpurposes', _⟩ := hissued
  have hcall : Uuid.drawn i 1 = .drawn k 1 := by
    rw [← id_of_issued hempty h hmem hpurposes', hid', ← hid]
    exact (hmails.of_purpose (hmails.of_purposes hpurposes)).2.symm
  cases hcall
  exact hmails.first (mem_trace_iff.mpr hmem)

/-- An issued link is of one user. -/
theorem Issued.user_unique (hempty : c.store.log = []) (h : History env c m) {id user user' : Uuid}
    (hissued : Issued m.store.log id user) (hissued' : Issued m.store.log id user') :
    user = user' := by
  obtain ⟨k, args, found, hmem, hid, hpurposes, huser⟩ := hissued
  obtain ⟨k', args', found', hmem', hid', hpurposes', huser'⟩ := hissued'
  have hcall : Uuid.drawn k 1 = .drawn k' 1 := by
    rw [← id_of_issued hempty h hmem hpurposes, ← id_of_issued hempty h hmem' hpurposes', hid, hid']
  cases hcall
  have hfirst : ∀ {a a' f f'}, (∃ later earlier, m.store.log =
      later ++ (k, .recovery (.mailed a f)) :: earlier ∧
        (k, Event.recovery (.mailed a' f')) ∈ earlier) → False := by
    rintro a a' f f' ⟨later, earlier, hsplit, hearlier⟩
    obtain ⟨_, _, _, hfollows, _, _⟩ := h.around hempty hsplit
    have hmails : Mails env k (trace k earlier) a f := hfollows
    exact hmails.first (mem_trace_iff.mpr hearlier)
  rcases order_of_mem hmem hmem' with heq | hlater | hearlier
  · cases heq
    rw [← huser, ← huser']
  · exact (hfirst hlater).elim
  · exact (hfirst hearlier).elim

/-- A link that is closed after it has been issued stays closed. -/
theorem stays_closed (hempty : c.store.log = []) (h : History env c m)
    {later between earlier : List (Nat × Event)}
    (hlog : m.store.log = later ++ (between ++ earlier)) {id user : Uuid}
    (hissued : Issued earlier id user) (hclosed : ∀ u, ¬OpenLink u id (replay c.db earlier)) :
    ∀ u, ¬OpenLink u id (replay c.db (between ++ earlier)) := by
  refine (h.along (P := fun log d => Issued (log ++ earlier) id user ∧ ∀ u, ¬OpenLink u id d)
    hempty hlog ⟨hissued, hclosed⟩ ?_).2
  rintro m' i e after before _ hm' hlog' hfollows _ ⟨hissued', hclosed'⟩
  constructor
  · obtain ⟨k, args, found, hmem, hissue⟩ := hissued'
    exact ⟨k, args, found, List.mem_cons_of_mem _ hmem, hissue⟩
  · intro u hopen
    rcases hopen.before (mailing_change e m'.db) with hold | ⟨row, hnew, _, hpurpose⟩
    · exact hclosed' u hold
    · exact not_issued_again hempty hm' hfollows (hlog'.symm ▸ hissued') hpurpose hnew

/-- A reset has used the link. -/
def Accepted (log : List (Nat × Event)) (id : Uuid) : Prop :=
  ∃ j args user, (j, .recovery (.passwordReset args (some id) (.updated, user))) ∈ log

theorem not_accepted (hempty : c.store.log = []) (h : History env c m)
    {later earlier : List (Nat × Event)} (hlog : m.store.log = later ++ earlier) {id user : Uuid}
    (hissued : Issued earlier id user) (hclosed : ∀ u, ¬OpenLink u id (replay c.db earlier)) :
    ¬Accepted later id := by
  rintro ⟨j, args, answer, hmem⟩
  obtain ⟨after, between, rfl⟩ := List.append_of_mem hmem
  obtain ⟨m', hm', hlog', _, hagrees, _⟩ := h.around hempty
    (show m.store.log = after ++ (j, .recovery (.passwordReset args (some id) (.updated, answer))) ::
      (between ++ earlier) by simp [hlog])
  obtain ⟨id', row, _, hid, _, hget, _, _, hpurpose, hunused, _⟩ := link_of_reset hagrees
  cases hid
  rw [hm'.db_eq hempty, hlog'] at hget
  have hwhole : m.store.log =
      (after ++ [(j, .recovery (.passwordReset args (some id) (.updated, answer)))]) ++
        (between ++ earlier) := by simp [hlog]
  exact stays_closed hempty h hwhole hissued hclosed row.userId
    ⟨row, hget, rfl, hpurpose, hunused⟩

/-- A link works once and in time, a refusal changes nothing, and once a reset has used a
link the ones issued before are dead unless issues have overlapped.  A change of contact
does not touch links. -/
theorem reset_links (hempty : c.store.log = []) (hnone : c.db.ephemeral = ∅)
    {s : Config schema World AuthError Result} (h : (application env).Reachable c s) :
    (∀ later i args found user earlier, s.core.store.log =
        later ++ (i, .recovery (.passwordReset args found (.updated, user))) :: earlier →
      ∃ id row owner, found = some id ∧ user = some owner ∧
        (replay c.db earlier).ephemeral.get id = some row ∧ row.userId = owner.userId ∧
        row.tokenHash = args.tokenHash ∧ row.purpose ∈ resetPurposes ∧ row.consumedAt = none ∧
        args.now < row.expiresAt ∧ ¬Accepted later id ∧
        (¬Overlapping owner.userId earlier →
          ∀ id', Issued earlier id' owner.userId → ¬Accepted later id')) ∧
    (∀ later i args found result earlier, s.core.store.log =
        later ++ (i, .recovery (.passwordReset args found result)) :: earlier →
      result.1 ≠ .updated →
        replay c.db ((i, .recovery (.passwordReset args found result)) :: earlier) =
          replay c.db earlier) ∧
    (∀ known args found d result change,
      (resetWith known args found).alone d id = .ok (result, change) → result.1 ≠ .updated →
        change = id) ∧
    ∀ later i args result earlier, s.core.store.log =
        later ++ (i, .recovery (.contactVerified args result)) :: earlier →
      (replay c.db ((i, .recovery (.contactVerified args result)) :: earlier)).ephemeral =
        (replay c.db earlier).ephemeral := by
  have hhistory := history_of_reachable hempty h
  constructor
  case left =>
    intro later i args found user earlier hlog
    obtain ⟨m, hm, rfl, hfollows, hagrees, _⟩ := hhistory.around hempty hlog
    obtain ⟨id, row, owner, hfound, huser, hget, howner, hhash, hpurpose, hunused, hexpiry,
      hclosed⟩ := link_of_reset hagrees
    have hissued := issued_of_history hempty hnone hm hget hpurpose
    have hlater : ∀ {id' user'}, Issued m.store.log id' user' →
        (∀ u, ¬OpenLink u id' ((Event.recovery (.passwordReset args found (.updated, user))).change
          m.db)) → ¬Accepted later id' := by
      rintro id' user' ⟨k, issue, found', hmem, hissue⟩ hclosed'
      refine not_accepted hempty hhistory hlog
        ⟨k, issue, found', List.mem_cons_of_mem _ hmem, hissue⟩ fun u => ?_
      rw [replay_cons, ← hm.db_eq hempty]
      exact hclosed' u
    refine ⟨id, row, owner, hfound, huser, ?_, howner, hhash, hpurpose, hunused, hexpiry,
      hlater hissued hclosed, fun hturns id' hissued' => hlater hissued' fun u hopen => ?_⟩
    · rw [← hm.db_eq hempty]
      exact hget
    · obtain ⟨row', hget', huser', hpurpose', hunused'⟩ := hopen.kept hfollows rfl
      have hsame : row'.userId = owner.userId :=
        (issued_of_history hempty hnone hm hget' hpurpose').user_unique hempty hm hissued'
      have hsingle := single_of_history hempty hnone hm hturns id id'
        ⟨row, hget, howner, hpurpose, hunused⟩ ⟨row', hget', hsame, hpurpose', hunused'⟩
      subst hsingle
      exact hclosed u hopen
  case right =>
    refine ⟨?_, ?_, ?_⟩
    · intro later i args found result earlier _ hother
      obtain ⟨outcome, user⟩ := result
      rw [replay_cons, Event.change_of_none]
      cases outcome with
      | updated => exact absurd rfl hother
      | _ => rfl
    · intro known args found d result change halone hother
      rcases alone_resetWith halone with ⟨hupdated, _⟩ | ⟨_, hnothing⟩
      · exact absurd hupdated hother
      · exact hnothing
    · intro later i args result earlier _
      rw [replay_cons]
      refine Event.keeps_change (e := .recovery (.contactVerified args result)) ?_ _
      intro commit hcommit
      cases hcommit
      exact guarantees_proveContactChange ⟨fun _ _ _ => rfl, fun _ _ _ _ => rfl,
        fun _ _ _ _ _ => rfl, fun _ _ _ _ _ => rfl, fun _ _ _ _ => rfl⟩ (fun _ _ => rfl) args

end Runs

/-- Ann asks for a link and uses it. -/
def resetMoves : List SampleMove :=
  mailLink 0 "ann" ++ useLink 1 (.drawn 0 0) "new"

/-- Whether the entry is a reset with the link. -/
def Event.accepts (id : Uuid) : Event → Bool
  | recovery (.passwordReset _ (some k) (.updated, _)) => k == id
  | _ => false

theorem accepted_of_accepts {id : Uuid} {e : Event} (h : e.accepts id = true) :
    ∃ args user, e = .recovery (.passwordReset args (some id) (.updated, user)) := by
  unfold Event.accepts at h
  split at h
  · rw [beq_iff_eq.mp h]
    exact ⟨_, _, rfl⟩
  · cases h

theorem reset_links_once :
    ∃ s, (application sampleEnv).Reachable sampleCore s ∧ ∃ later j args user earlier,
      s.core.store.log = later ++
        (j, .recovery (.passwordReset args (some (.drawn 0 1)) (.updated, user))) :: earlier ∧
      ¬Accepted later (.drawn 0 1) := by
  obtain ⟨s, hreach, hrun⟩ := Service.reachable_of_run
    (show ((application sampleEnv).run (Service.start sampleCore) resetMoves).map
        (fun s : Config schema World AuthError Result =>
          anyEntry (fun _ e _ => e.accepts (.drawn 0 1)) s.core.store.log) = some true by
      decide +kernel)
  obtain ⟨later, j, e, earlier, hlog, haccepts⟩ := exists_of_anyEntry hrun
  obtain ⟨args, user, rfl⟩ := accepted_of_accepts haccepts
  obtain ⟨id, _, _, hid, _, _, _, _, _, _, _, honce, _⟩ :=
    (reset_links rfl rfl hreach).1 later j args _ user earlier hlog
  cases hid
  exact ⟨s, hreach, later, j, args, user, earlier, hlog, honce⟩

/-- The user whose password an event has reset. -/
def Event.resetOf : Event → Option Uuid
  | recovery (.passwordReset _ _ (.updated, some user)) => some user.userId
  | _ => none

/-- The user whose address an event has changed. -/
def Event.movedFrom : Event → Option Uuid
  | recovery (.contactVerified args (some record)) =>
      if record.contactType = .email && record.appliedAt.isSome then some args.userId else none
  | _ => none

/-- A link is used after an event of its user that came after the link. -/
def Outlived (f : Event → Option Uuid) (id : Uuid) (log : List (Nat × Event)) : Prop :=
  ∃ later j e between k e' earlier, log = later ++ (j, e) :: (between ++ (k, e') :: earlier) ∧
    e.accepts id = true ∧ ∃ user, f e' = some user ∧ Issued earlier id user

def outlives (f : Event → Option Uuid) (id : Uuid) (log : List (Nat × Event)) : Bool :=
  anyEntry (fun _ e earlier => e.accepts id && anyEntry (fun _ e' first => (f e').any fun user =>
    anyEntry (fun _ issue _ => issue.issues user && match issue with
      | .recovery (.mailed args _) => args.tokenId == id
      | _ => false) first) earlier) log

theorem outlived_of_outlives {f : Event → Option Uuid} {id : Uuid} {log : List (Nat × Event)}
    (h : outlives f id log = true) : Outlived f id log := by
  obtain ⟨later, j, e, rest, rfl, hused⟩ := exists_of_anyEntry h
  obtain ⟨haccepts, hrest⟩ := Bool.and_eq_true_iff.mp hused
  obtain ⟨between, k, e', earlier, rfl, hended⟩ := exists_of_anyEntry hrest
  obtain ⟨user, huser, hissued⟩ := (Option.any_eq_true _ _).mp hended
  obtain ⟨l, i, issue, first, rfl, hissue⟩ := exists_of_anyEntry hissued
  obtain ⟨hissues, hid⟩ := Bool.and_eq_true_iff.mp hissue
  refine ⟨later, j, e, between, k, e', _, rfl, haccepts, user, huser, ?_⟩
  unfold Event.issues at hissues
  split at hissues
  · rename_i args found
    simp only [Bool.and_eq_true, beq_iff_eq] at hissues
    exact ⟨i, args, found, by simp, beq_iff_eq.mp hid, hissues.2, hissues.1⟩
  · cases hissues

/-- Ann moves to another address between the link and its use. -/
def movedMoves : List SampleMove :=
  mailLink 0 "ann" ++
    perform 1 (.startContactChange (strongClaims (.given 1)) .email "amy") 10 ++
    perform 2 (.verifyContactChange (strongClaims (.given 1)) (.drawn 1 2) .old "code") 6 ++
    perform 3 (.verifyContactChange (strongClaims (.given 1)) (.drawn 1 2) .new "code") 21 ++
    useLink 4 (.drawn 0 0) "new"

/-- Two links are asked for at once, and both are used. -/
def twoLinksMoves : List SampleMove :=
  perform 0 (.requestPasswordReset "ann") 7 ++ perform 1 (.requestPasswordReset "ann") 13 ++
    steps 0 6 ++ useLink 2 (.drawn 0 0) "new" ++ useLink 3 (.drawn 1 0) "newer"

/-- A link outlives a change of the address it was sent to, and a reset with another
link. -/
theorem link_outlives :
    (∃ s, (application sampleEnv).Reachable sampleCore s ∧
      Outlived Event.movedFrom (.drawn 0 1) s.core.store.log) ∧
    ∃ s, (application sampleEnv).Reachable sampleCore s ∧
      Outlived Event.resetOf (.drawn 1 1) s.core.store.log := by
  constructor
  · obtain ⟨s, hreach, hrun⟩ := Service.reachable_of_run
      (show ((application sampleEnv).run (Service.start sampleCore) movedMoves).map
          (fun s : Config schema World AuthError Result =>
            outlives Event.movedFrom (.drawn 0 1) s.core.store.log) = some true by
        decide +kernel)
    exact ⟨s, hreach, outlived_of_outlives hrun⟩
  · obtain ⟨s, hreach, hrun⟩ := Service.reachable_of_run
      (show ((application sampleEnv).run (Service.start sampleCore) twoLinksMoves).map
          (fun s : Config schema World AuthError Result =>
            outlives Event.resetOf (.drawn 1 1) s.core.store.log) = some true by
        decide +kernel)
    exact ⟨s, hreach, outlived_of_outlives hrun⟩

end AuthCore
