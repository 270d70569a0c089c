/-
Who owns an organization.  The removal of a member asks for the distinct users
with an active owner entry, the erasure of an account for the bindings of other
users to owner entries of any kind.
-/
import Mathlib.Data.List.Dedup
import AuthCore.Model.Sample

namespace AuthCore

open Interleave Relational

/-- The user has an unrevoked binding in the organization to an entry with `p`. -/
def HoldsEntry (p : RolePermissionCatalog → Prop) (user org : Uuid) (d : Db) : Prop :=
  ∃ id binding entry, d.bindings.get id = some binding ∧ binding.userId = user ∧
    binding.orgId = org ∧ binding.revokedAt = none ∧
    d.catalog.get binding.catalogId = some entry ∧ p entry

theorem HoldsEntry.imp {p q : RolePermissionCatalog → Prop} {user org : Uuid} {d : Db}
    (hpq : ∀ entry, p entry → q entry) (h : HoldsEntry p user org d) :
    HoldsEntry q user org d := by
  obtain ⟨id, binding, entry, hbinding, huser, horg, hopen, hentry, hp⟩ := h
  exact ⟨id, binding, entry, hbinding, huser, horg, hopen, hentry, hpq entry hp⟩

/-- An owner entry, active or retired. -/
def RolePermissionCatalog.Owner (entry : RolePermissionCatalog) : Prop :=
  entry.role = "OWNER"

def RolePermissionCatalog.ActiveOwner (entry : RolePermissionCatalog) : Prop :=
  entry.role = "OWNER" ∧ entry.active = true

theorem RolePermissionCatalog.ActiveOwner.owner {entry : RolePermissionCatalog}
    (h : entry.ActiveOwner) : entry.Owner :=
  h.1

def IsOrganization (org : Uuid) (d : Db) : Prop :=
  ∃ row, d.organizations.get org = some row ∧ row.workspaceType = .organization

section Queries

variable {d : Db} {user org : Uuid}

theorem mem_boundEntries {p : UserRoleBinding → RolePermissionCatalog → Bool} {id : Uuid}
    {binding : UserRoleBinding} : (id, binding) ∈ WorkspaceRepository.boundEntries org p d ↔
      d.bindings.get id = some binding ∧ binding.orgId = org ∧ binding.revokedAt = none ∧
        ∃ entry, d.catalog.get binding.catalogId = some entry ∧ p binding entry = true := by
  rw [WorkspaceRepository.boundEntries, Table.mem_select]
  cases d.catalog.get binding.catalogId with
  | none => simp
  | some entry => simp [and_assoc]

/-- The roles of a user are those of the active entries the user is bound to. -/
theorem mem_roles {role : String} : role ∈ WorkspaceRepository.roles user org d ↔
    HoldsEntry (fun entry => entry.role = role ∧ entry.active = true) user org d := by
  rw [WorkspaceRepository.roles, List.mem_insertionSort, List.mem_dedup, List.mem_map]
  constructor
  · rintro ⟨entry, hentry, rfl⟩
    obtain ⟨⟨id, binding⟩, hmem, hget⟩ := List.mem_filterMap.mp hentry
    obtain ⟨hbinding, horg, hopen, entry', hget', hp⟩ := mem_boundEntries.mp hmem
    obtain rfl := Option.some.inj (hget.symm.trans hget')
    rw [Bool.and_eq_true, beq_iff_eq] at hp
    exact ⟨id, binding, entry, hbinding, hp.1, horg, hopen, hget, rfl, hp.2⟩
  · rintro ⟨id, binding, entry, hbinding, rfl, horg, hopen, hget, rfl, hactive⟩
    refine ⟨entry, List.mem_filterMap.mpr ⟨(id, binding), ?_, hget⟩, rfl⟩
    exact mem_boundEntries.mpr ⟨hbinding, horg, hopen, entry, hget, by simp [hactive]⟩

theorem mem_owners {owner : Uuid} :
    (∃ id binding, (id, binding) ∈ WorkspaceRepository.boundEntries org (fun _ entry =>
      entry.role == OrganizationRole.owner.value && entry.active) d ∧ binding.userId = owner) ↔
      HoldsEntry RolePermissionCatalog.ActiveOwner owner org d := by
  constructor
  · rintro ⟨id, binding, hmem, rfl⟩
    obtain ⟨hbinding, horg, hopen, entry, hget, hp⟩ := mem_boundEntries.mp hmem
    rw [Bool.and_eq_true, beq_iff_eq] at hp
    exact ⟨id, binding, entry, hbinding, rfl, horg, hopen, hget, hp⟩
  · rintro ⟨id, binding, entry, hbinding, huser, horg, hopen, hget, hp⟩
    refine ⟨id, binding, mem_boundEntries.mpr ⟨hbinding, horg, hopen, entry, hget, ?_⟩, huser⟩
    rw [Bool.and_eq_true, beq_iff_eq]
    exact hp

/-- Where the user is an owner, at most one is counted when there is no other. -/
theorem ownerCount_le_one (h : HoldsEntry RolePermissionCatalog.ActiveOwner user org d) :
    WorkspaceRepository.ownerCount org d ≤ 1 ↔
      ∀ other, HoldsEntry RolePermissionCatalog.ActiveOwner other org d → other = user := by
  rw [WorkspaceRepository.ownerCount]
  set owners := ((WorkspaceRepository.boundEntries org (fun _ entry =>
    entry.role == OrganizationRole.owner.value && entry.active) d).map
      fun row => row.2.userId).dedup with howners
  have hmem : ∀ owner, owner ∈ owners ↔
      HoldsEntry RolePermissionCatalog.ActiveOwner owner org d := by
    intro owner
    rw [howners, List.mem_dedup, List.mem_map, ← mem_owners]
    constructor
    · rintro ⟨⟨id, binding⟩, hmem, howner⟩
      exact ⟨id, binding, hmem, howner⟩
    · rintro ⟨id, binding, hmem, howner⟩
      exact ⟨(id, binding), hmem, howner⟩
  constructor
  · intro hle other hother
    obtain ⟨owner, howner⟩ := List.length_eq_one_iff.mp
      (le_antisymm hle (List.length_pos_of_mem ((hmem user).mpr h)))
    have hsame : ∀ other ∈ owners, other = owner := by
      intro other hother
      rw [howner] at hother
      exact List.mem_singleton.mp hother
    exact (hsame other ((hmem other).mpr hother)).trans (hsame user ((hmem user).mpr h)).symm
  · intro hall
    have hsub : owners ⊆ [user] := by
      intro owner howner
      exact List.mem_singleton.mpr (hall owner ((hmem owner).mp howner))
    exact (List.subperm_of_subset (List.nodup_dedup _) hsub).length_le

theorem mem_ownedOrganizations : org ∈ PrivacyRepository.ownedOrganizations user d ↔
    HoldsEntry RolePermissionCatalog.Owner user org d ∧ IsOrganization org d := by
  rw [PrivacyRepository.ownedOrganizations, List.mem_map]
  constructor
  · rintro ⟨⟨id, binding⟩, hmem, rfl⟩
    obtain ⟨hbinding, hp⟩ := Table.mem_select.mp hmem
    cases hentry : d.catalog.get binding.catalogId with
    | none => simp [hentry] at hp
    | some entry =>
        cases horg : d.organizations.get binding.orgId with
        | none => simp [horg] at hp
        | some row =>
            simp only [hentry, horg, Bool.and_eq_true, beq_iff_eq, Option.isNone_iff_eq_none] at hp
            exact ⟨⟨id, binding, entry, hbinding, hp.1.1.1, rfl, hp.1.1.2, hentry, hp.1.2⟩,
              row, horg, hp.2⟩
  · rintro ⟨⟨id, binding, entry, hbinding, huser, rfl, hopen, hentry, howner⟩, row, horg, htype⟩
    refine ⟨(id, binding), Table.mem_select.mpr ⟨hbinding, ?_⟩, rfl⟩
    have hrole : entry.role = "OWNER" := howner
    simp [hentry, horg, huser, hopen, hrole, htype]

theorem otherOwners_eq_zero : PrivacyRepository.otherOwners user org d = 0 ↔
    ∀ other, HoldsEntry RolePermissionCatalog.Owner other org d → other = user := by
  rw [PrivacyRepository.otherOwners, List.length_eq_zero_iff, List.eq_nil_iff_forall_not_mem]
  constructor
  · rintro h other ⟨id, binding, entry, hbinding, rfl, horg, hopen, hentry, howner⟩
    by_contra hne
    have hrole : entry.role = "OWNER" := howner
    exact h (id, binding) (Table.mem_select.mpr ⟨hbinding, by simp [*]⟩)
  · rintro h ⟨id, binding⟩ hmem
    obtain ⟨hbinding, hp⟩ := Table.mem_select.mp hmem
    cases hentry : d.catalog.get binding.catalogId with
    | none => simp [hentry] at hp
    | some entry =>
        simp only [hentry, Bool.and_eq_true, beq_iff_eq, bne_iff_ne,
          Option.isNone_iff_eq_none] at hp
        exact hp.1.1.2 (h _ ⟨id, binding, entry, hbinding, rfl, hp.1.1.1, hp.1.2, hentry, hp.2⟩)

theorem alone_anyWithoutOthers (owned : List Uuid) :
    ∃ sole, (PrivacyRepository.anyWithoutOthers user owned).alone d id = .ok (sole, id) ∧
      (sole = true ↔ ∃ org ∈ owned, PrivacyRepository.otherOwners user org d = 0) := by
  induction owned with
  | nil => exact ⟨false, rfl, by simp⟩
  | cons org rest ih =>
      by_cases hzero : PrivacyRepository.otherOwners user org d = 0
      · refine ⟨true, ?_, by simp [hzero]⟩
        change Tx.alone d id (if PrivacyRepository.otherOwners user org d = 0 then _ else _) = _
        rw [if_pos hzero]
        rfl
      · obtain ⟨sole, halone, hsole⟩ := ih
        refine ⟨sole, ?_, by simp [hzero, hsole]⟩
        change Tx.alone d id (if PrivacyRepository.otherOwners user org d = 0 then _ else _) = _
        rw [if_neg hzero]
        exact halone

end Queries

/-- Nobody else has an entry with `p` in the organization. -/
def NoOther (p : RolePermissionCatalog → Prop) (user org : Uuid) (d : Db) : Prop :=
  ∀ other, HoldsEntry p other org d → other = user

/-- What an erasure looks for. -/
theorem alone_hasSoleOwnedOrganization (d : Db) (user : Uuid) :
    ∃ sole, (PrivacyRepository.hasSoleOwnedOrganization user).alone d id = .ok (sole, id) ∧
      (sole = true ↔ ∃ org, IsOrganization org d ∧
        HoldsEntry RolePermissionCatalog.Owner user org d ∧
        NoOther RolePermissionCatalog.Owner user org d) := by
  obtain ⟨sole, halone, hsole⟩ :=
    @alone_anyWithoutOthers d user (PrivacyRepository.ownedOrganizations user d)
  refine ⟨sole, halone, hsole.trans ⟨?_, ?_⟩⟩
  · rintro ⟨org, hmem, hzero⟩
    obtain ⟨hholds, horg⟩ := mem_ownedOrganizations.mp hmem
    exact ⟨org, horg, hholds, otherOwners_eq_zero.mp hzero⟩
  · rintro ⟨org, horg, hholds, hother⟩
    exact ⟨org, mem_ownedOrganizations.mpr ⟨hholds, horg⟩, otherOwners_eq_zero.mpr hother⟩

/-- What the removal of a member looks for. -/
theorem counts_as_sole_owner (d : Db) (user org : Uuid) :
    ("OWNER" ∈ WorkspaceRepository.roles user org d ∧ WorkspaceRepository.ownerCount org d ≤ 1) ↔
      HoldsEntry RolePermissionCatalog.ActiveOwner user org d ∧
        NoOther RolePermissionCatalog.ActiveOwner user org d := by
  rw [mem_roles]
  constructor
  · rintro ⟨hholds, hcount⟩
    exact ⟨hholds, (ownerCount_le_one hholds).mp hcount⟩
  · rintro ⟨hholds, hother⟩
    exact ⟨hholds, (ownerCount_le_one hholds).mpr hother⟩

/-- The user alone holds owner entries, and all of them are retired. -/
def RetiredOwner (user org : Uuid) (d : Db) : Prop :=
  IsOrganization org d ∧ HoldsEntry RolePermissionCatalog.Owner user org d ∧
    ¬HoldsEntry RolePermissionCatalog.ActiveOwner user org d ∧
    NoOther RolePermissionCatalog.Owner user org d

/-- The user has an active owner entry, and those of all others are retired. -/
def AmongRetired (user org : Uuid) (d : Db) : Prop :=
  IsOrganization org d ∧ HoldsEntry RolePermissionCatalog.ActiveOwner user org d ∧
    NoOther RolePermissionCatalog.ActiveOwner user org d ∧
    ¬NoOther RolePermissionCatalog.Owner user org d

/-- The user alone holds owner entries, and one of them is active. -/
def SoleOwner (user org : Uuid) (d : Db) : Prop :=
  IsOrganization org d ∧ HoldsEntry RolePermissionCatalog.ActiveOwner user org d ∧
    NoOther RolePermissionCatalog.Owner user org d

theorem NoOther.active {user org : Uuid} {d : Db}
    (h : NoOther RolePermissionCatalog.Owner user org d) :
    NoOther RolePermissionCatalog.ActiveOwner user org d :=
  fun other hother => h other (hother.imp fun _ => RolePermissionCatalog.ActiveOwner.owner)

theorem sole_or_retired {user org : Uuid} {d : Db} :
    (IsOrganization org d ∧ HoldsEntry RolePermissionCatalog.Owner user org d ∧
      NoOther RolePermissionCatalog.Owner user org d) ↔
      SoleOwner user org d ∨ RetiredOwner user org d := by
  constructor
  · rintro ⟨horg, hholds, hother⟩
    by_cases hactive : HoldsEntry RolePermissionCatalog.ActiveOwner user org d
    · exact Or.inl ⟨horg, hactive, hother⟩
    · exact Or.inr ⟨horg, hholds, hactive, hother⟩
  · rintro (⟨horg, hactive, hother⟩ | ⟨horg, hholds, _, hother⟩)
    · exact ⟨horg, hactive.imp fun _ => RolePermissionCatalog.ActiveOwner.owner, hother⟩
    · exact ⟨horg, hholds, hother⟩

theorem sole_or_among {user org : Uuid} {d : Db} :
    (IsOrganization org d ∧ HoldsEntry RolePermissionCatalog.ActiveOwner user org d ∧
      NoOther RolePermissionCatalog.ActiveOwner user org d) ↔
      SoleOwner user org d ∨ AmongRetired user org d := by
  constructor
  · rintro ⟨horg, hactive, hother⟩
    by_cases hany : NoOther RolePermissionCatalog.Owner user org d
    · exact Or.inl ⟨horg, hactive, hany⟩
    · exact Or.inr ⟨horg, hactive, hother, hany⟩
  · rintro (⟨horg, hactive, hother⟩ | ⟨horg, hactive, hother, _⟩)
    · exact ⟨horg, hactive, hother.active⟩
    · exact ⟨horg, hactive, hother⟩

/-- The two guards give the same answer exactly when retired entries do not decide
it: some organization is the user's own by active entries alone, or the
organizations that only the erasure counts are matched by such that only the
removal counts. -/
theorem last_owner_guards (d : Db) (user : Uuid) :
    ∃ sole, (PrivacyRepository.hasSoleOwnedOrganization user).alone d id = .ok (sole, id) ∧
      ((sole = true ↔ ∃ org, IsOrganization org d ∧
          "OWNER" ∈ WorkspaceRepository.roles user org d ∧
          WorkspaceRepository.ownerCount org d ≤ 1) ↔
        (∃ org, SoleOwner user org d) ∨
          ((∃ org, RetiredOwner user org d) ↔ ∃ org, AmongRetired user org d)) := by
  obtain ⟨sole, halone, hsole⟩ := alone_hasSoleOwnedOrganization d user
  refine ⟨sole, halone, ?_⟩
  simp only [counts_as_sole_owner, sole_or_retired, sole_or_among, exists_or] at hsole ⊢
  rw [hsole]
  tauto

/-- An organization with two owners, one of them by an entry of an older version
that has been retired. -/
def retiredDb : Db :=
  { sampleDb [⟨.given 1, "ann", .active⟩, ⟨.given 2, "bob", .active⟩] with
    organizations := sampleTable [(.given 301, ⟨"acme", "acme", .organization, none, .active⟩)]
    catalog := sampleTable [(.given 101, ⟨"OWNER", "members.manage", true⟩),
      (.given 103, ⟨"OWNER", "members.manage", false⟩)]
    bindings := sampleTable
      [(.given 401, ⟨.given 1, .given 301, .given 101, .given 1, none⟩),
        (.given 402, ⟨.given 2, .given 301, .given 103, .given 1, none⟩)] }

/-- Ann is the only owner that counts, and the erasure of her account goes ahead. -/
theorem last_owner_guards_differ :
    ¬(((PrivacyRepository.hasSoleOwnedOrganization (.given 1)).alone retiredDb id).toOption.map
        Prod.fst = some true ↔
      ∃ org, IsOrganization org retiredDb ∧
        "OWNER" ∈ WorkspaceRepository.roles (.given 1) org retiredDb ∧
        WorkspaceRepository.ownerCount org retiredDb ≤ 1) := by
  intro h
  have hcounts : "OWNER" ∈ WorkspaceRepository.roles (.given 1) (.given 301) retiredDb ∧
      WorkspaceRepository.ownerCount (.given 301) retiredDb ≤ 1 := by decide +kernel
  have hsole := h.mpr ⟨.given 301, ⟨_, rfl, rfl⟩, hcounts⟩
  exact absurd hsole (by decide +kernel)

end AuthCore
