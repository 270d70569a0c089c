/-
The devices of a user.  A login writes down the device it comes from before
anything else is proved, so a device is unfamiliar to its first login only.
-/
import AuthCore.History.Alone
import AuthCore.Accounts.Rehashes

namespace AuthCore

open Interleave Relational LoginRepository

/-- The row is about the device whose signals are asked for. -/
structure SignalArgs.Concerns (args : SignalArgs) (row : TrustedDevice) : Prop where
  user : row.userId = args.userId
  fingerprint : row.fingerprintHash = args.fingerprintHash

section Signals

variable {args : SignalArgs} {found : Option Uuid} {signals : DeviceSignals} {d : Db}
  {change : Db → Db}

theorem alone_unknown (h : (noteDevice.unknown args).alone d id = .ok (signals, change)) :
    signals = ⟨false, false, false⟩ ∧ (change d).devices = d.devices.add args.deviceId
      ⟨args.userId, args.fingerprintHash, .unknown, args.ip, args.now⟩ := by
  obtain ⟨_, _, hreserve, h⟩ := Tx.alone_bind_eq_ok h
  cases (alone_reserve hreserve).2
  cases h
  exact ⟨rfl, rfl⟩

/-- A device that is found was on record, and has its address written over. -/
theorem alone_noteDevice (h : (noteDevice args found).alone d id = .ok (signals, change)) :
    (signals = ⟨false, false, false⟩ ∧ (change d).devices = d.devices.add args.deviceId
      ⟨args.userId, args.fingerprintHash, .unknown, args.ip, args.now⟩) ∨
    ∃ k row, d.devices.get k = some row ∧ args.Concerns row ∧
      signals = ⟨true, row.trustState == .trusted,
        args.ip.isSome && row.lastIpAddress.isSome && row.lastIpAddress != args.ip⟩ ∧
      (change d).devices = d.devices.update (fun k' _ => k' == k)
        fun v => { v with lastIpAddress := args.ip, lastSeenAt := args.now } := by
  cases found with
  | none => exact Or.inl (alone_unknown h)
  | some k =>
      rw [noteDevice_alone] at h
      split at h
      · rename_i row hrow
        split at h
        · rename_i hmatch
          cases h
          have hconcerns : args.Concerns row := by
            constructor <;> simp_all
          exact Or.inr ⟨k, row, hrow, hconcerns, rfl, rfl⟩
        · exact Or.inl (alone_unknown h)
      · exact Or.inl (alone_unknown h)

end Signals

section Steps

variable {e : Event} {m : Core Db World}

/-- What an event does to the devices: only a login writes one, and it writes its own. -/
def DeviceStep (e : Event) (d d' : Db) : Prop :=
  ∀ k row, d'.devices.get k = some row → d.devices.get k = some row ∨
    ∃ args found signals, e = .login (.signalled args found signals) ∧ args.Concerns row ∧
      row.lastIpAddress = args.ip ∧ (signals = ⟨false, false, false⟩ ∨
        ∃ k' old, d.devices.get k' = some old ∧ args.Concerns old)

/-- A statement that at most takes devices away. -/
def DropsDevices (d d' : Db) : Prop :=
  ∀ k row, d'.devices.get k = some row → d.devices.get k = some row

theorem DropsDevices.of_eq {d d' : Db} (h : d'.devices = d.devices) : DropsDevices d d' :=
  fun _ _ hrow => h ▸ hrow

end Steps

/-- The device was stored before the run, or a login that did not find it wrote it down. -/
def Introduced (start : Db) (log : List (Nat × Event)) (user : Uuid) (fingerprint : Digest) :
    Prop :=
  (∃ k row, start.devices.get k = some row ∧ row.userId = user ∧
    row.fingerprintHash = fingerprint) ∨
  ∃ j args found, (j, .login (.signalled args found ⟨false, false, false⟩)) ∈ log ∧
    args.userId = user ∧ args.fingerprintHash = fingerprint

/-- The device has been seen at this address. -/
def SeenAt (start : Db) (log : List (Nat × Event)) (user : Uuid) (fingerprint : Digest)
    (ip : Option String) : Prop :=
  (∃ k row, start.devices.get k = some row ∧ row.userId = user ∧
    row.fingerprintHash = fingerprint ∧ row.lastIpAddress = ip) ∨
  ∃ j args found signals, (j, .login (.signalled args found signals)) ∈ log ∧
    args.userId = user ∧ args.fingerprintHash = fingerprint ∧ args.ip = ip

/-- Where a stored device comes from. -/
structure OnRecord (start : Db) (log : List (Nat × Event)) (row : TrustedDevice) : Prop where
  introduced : Introduced start log row.userId row.fingerprintHash
  seenAt : SeenAt start log row.userId row.fingerprintHash row.lastIpAddress

section Records

variable {start : Db} {log : List (Nat × Event)} {i : Nat} {e : Event} {row : TrustedDevice}

theorem Introduced.cons {user : Uuid} {fingerprint : Digest}
    (h : Introduced start log user fingerprint) :
    Introduced start ((i, e) :: log) user fingerprint := by
  rcases h with hstored | ⟨j, args, found, hmem, huser, hfingerprint⟩
  · exact Or.inl hstored
  · exact Or.inr ⟨j, args, found, List.mem_cons_of_mem _ hmem, huser, hfingerprint⟩

theorem OnRecord.cons (h : OnRecord start log row) : OnRecord start ((i, e) :: log) row := by
  constructor
  · exact h.introduced.cons
  · rcases h.seenAt with hstored | ⟨j, args, found, signals, hmem, hrest⟩
    · exact Or.inl hstored
    · exact Or.inr ⟨j, args, found, signals, List.mem_cons_of_mem _ hmem, hrest⟩

theorem OnRecord.step {d d' : Db} (h : ∀ k row, d.devices.get k = some row → OnRecord start log row)
    (hstep : DeviceStep e d d') {k : Uuid} (hrow : d'.devices.get k = some row) :
    OnRecord start ((i, e) :: log) row := by
  rcases hstep k row hrow with hold | ⟨args, found, signals, rfl, hconcerns, hip, horigin⟩
  · exact (h k row hold).cons
  · constructor
    · rw [hconcerns.user, hconcerns.fingerprint]
      rcases horigin with rfl | ⟨k', old, hold, hconcerns'⟩
      · exact Or.inr ⟨i, args, found, List.mem_cons_self, rfl, rfl⟩
      · have hintroduced := (h k' old hold).introduced
        rw [hconcerns'.user, hconcerns'.fingerprint] at hintroduced
        exact hintroduced.cons
    · exact Or.inr ⟨i, args, found, signals, List.mem_cons_self, hconcerns.user.symm,
        hconcerns.fingerprint.symm, hip.symm⟩

end Records

section Runs

variable {env : Env} {c m : Core Db World} {i : Nat}

end Runs

section Samples

/-- The call that begins with the event. -/
def Event.made : Event → Option Call
  | called call => some call
  | _ => none

end Samples

end AuthCore
