/-
The workspaces a user is shown and those the user can enter.  The list goes by
bindings of any kind, the access check by the active roles behind them.
-/
import AuthCore.Interleave.Solo
import AuthCore.Workspaces.Owners

namespace AuthCore

open Interleave Relational

namespace WorkspaceRepository

/-- The user has an unrevoked binding in the workspace. -/
def Bound (user org : Uuid) (d : Db) : Prop :=
  ∃ id binding, d.bindings.get id = some binding ∧ binding.userId = user ∧
    binding.orgId = org ∧ binding.revokedAt = none

section Queries

variable {d : Db} {user org : Uuid}

theorem hasOrgMembership_iff : hasOrgMembership org user d = true ↔ Bound user org d := by
  rw [hasOrgMembership, Bool.not_eq_true', ← Bool.not_eq_true, List.isEmpty_iff,
    unrevokedBindings]
  constructor
  · intro h
    obtain ⟨⟨id, binding⟩, hmem⟩ := List.exists_mem_of_ne_nil _ (mt List.map_eq_nil_iff.mpr h)
    obtain ⟨hget, hp⟩ := Table.mem_select.mp hmem
    simp only [Bool.and_eq_true, beq_iff_eq, Option.isNone_iff_eq_none] at hp
    exact ⟨id, binding, hget, hp.1.1, hp.1.2, hp.2⟩
  · rintro ⟨id, binding, hget, huser, horg, hopen⟩ hnil
    have hrow : (id, binding) ∈ d.bindings.select fun _ binding => binding.userId == user &&
        binding.orgId == org && binding.revokedAt.isNone :=
      Table.mem_select.mpr ⟨hget, by simp [huser, horg, hopen]⟩
    rw [List.map_eq_nil_iff.mp hnil] at hrow
    cases hrow

theorem roles_ne_nil : roles user org d ≠ [] ↔
    HoldsEntry (fun entry => entry.active = true) user org d := by
  constructor
  · intro h
    obtain ⟨role, hrole⟩ := List.exists_mem_of_ne_nil _ h
    exact (mem_roles.mp hrole).imp fun _ hentry => hentry.2
  · rintro ⟨id, binding, entry, hget, huser, horg, hopen, hentry, hactive⟩
    exact List.ne_nil_of_mem (mem_roles.mpr
      ⟨id, binding, entry, hget, huser, horg, hopen, hentry, rfl, hactive⟩)

theorem bound_of_roles (h : roles user org d ≠ []) : Bound user org d := by
  obtain ⟨id, binding, _, hget, huser, horg, hopen, _⟩ := roles_ne_nil.mp h
  exact ⟨id, binding, hget, huser, horg, hopen⟩

/-- What a workspace is listed with. -/
def shown (user : Uuid) (d : Db) (row : Uuid × Organization) : WorkspaceSummary :=
  summary row.1 row.2 (if row.2.workspaceType = .personal then ["OWNER"] else roles user row.1 d)

theorem mem_workspacesOf {row : Organization} : (org, row) ∈ workspacesOf user d ↔
    d.organizations.get org = some row ∧ row.state = .active ∧
      (row.personalOwnerUserId = some user ∨ Bound user org d) := by
  rw [workspacesOf, List.mem_insertionSort, Table.mem_select, ← hasOrgMembership_iff]
  simp

theorem nodup_workspacesOf : ((workspacesOf user d).map Prod.fst).Nodup :=
  ((List.perm_insertionSort _ _).map Prod.fst).nodup_iff.mpr (Table.nodup_keys_select _ _)

/-- The access of a user to a workspace, as one look at a database gives it. -/
def accessOf (user org : Uuid) (d : Db) : Option WorkspaceSummary :=
  match d.organizations.get org with
  | none => none
  | some row =>
      if row.state ≠ .active then none
      else if row.workspaceType = .personal then
        if row.personalOwnerUserId = some user then some (shown user d (org, row)) else none
      else if roles user org d = [] then none
      else some (shown user d (org, row))

end Queries

section Solo

variable {i : Nat} {c : Core Db World} {user org : Uuid}

/-- Any answer of the outside world will do: these calls ask for none. -/
def anyAnswer (_ : World) : Bool := true

theorem solo_look {α β : Type} (query : Db → β) (event : β → Event) (k : β → Proc α) :
    (look query event >>= k).solo i anyAnswer c =
      (k (query c.db)).solo i anyAnswer ⟨c.db, c.store.record i (event (query c.db))⟩ :=
  rfl

theorem solo_listedRoles {α : Type} (row : Organization) (k : List String → Proc α) :
    ∃ w, (listedRoles user org row >>= k).solo i anyAnswer c =
      (k (shown user c.db (org, row)).roles).solo i anyAnswer ⟨c.db, w⟩ := by
  by_cases htype : row.workspaceType = .personal
  · refine ⟨c.store, ?_⟩
    simp only [listedRoles, shown, if_pos htype]
    rfl
  · have hshown : (shown user c.db (org, row)).roles = roles user org c.db := if_neg htype
    rw [listedRoles, if_neg htype, hshown]
    exact ⟨_, solo_look _ _ _⟩

theorem solo_summaries (found : List (Uuid × Organization)) : ∃ w,
    (summaries user found).solo i anyAnswer c =
      some (.ok (found.map (shown user c.db)), ⟨c.db, w⟩) := by
  induction found generalizing c with
  | nil => exact ⟨c.store, rfl⟩
  | cons row rest ih =>
      obtain ⟨w, hroles⟩ := @solo_listedRoles i c user row.1 _ row.2
        fun held => summaries user rest >>= fun others =>
          pure (summary row.1 row.2 held :: others)
      obtain ⟨w', hrest⟩ := @ih ⟨c.db, w⟩
      exact ⟨w', hroles.trans (Prog.solo_bind_ok hrest)⟩

theorem solo_listWorkspaces : ∃ w, (listWorkspaces user).solo i anyAnswer c =
    some (.ok ((workspacesOf user c.db).map (shown user c.db)), ⟨c.db, w⟩) := by
  rw [listWorkspaces, solo_look]
  exact solo_summaries _

theorem solo_getWorkspaceAccess : ∃ w, (getWorkspaceAccess user org).solo i anyAnswer c =
    some (.ok (accessOf user org c.db), ⟨c.db, w⟩) := by
  rw [getWorkspaceAccess, solo_look, accessOf]
  cases c.db.organizations.get org with
  | none => exact ⟨_, rfl⟩
  | some row =>
      dsimp only
      by_cases hstate : row.state = .active
      · rw [if_neg (not_not_intro hstate), if_neg (not_not_intro hstate)]
        by_cases htype : row.workspaceType = .personal
        · rw [if_pos htype, if_pos htype, shown, if_pos htype]
          by_cases howner : row.personalOwnerUserId = some user
          · rw [if_pos howner, if_pos howner]
            exact ⟨_, rfl⟩
          · rw [if_neg howner, if_neg howner]
            exact ⟨_, rfl⟩
        · rw [if_neg htype, if_neg htype, solo_look, shown, if_neg htype]
          simp only [List.isEmpty_iff]
          by_cases hroles : roles user org c.db = []
          · rw [if_pos hroles, if_pos hroles]
            exact ⟨_, rfl⟩
          · rw [if_neg hroles, if_neg hroles]
            exact ⟨_, rfl⟩
      · rw [if_pos hstate, if_pos hstate]
        exact ⟨_, rfl⟩

end Solo

/-- The list and the access check say the same about a workspace. -/
structure Agreed (workspace : Uuid) (listed : List WorkspaceSummary)
    (access : Option WorkspaceSummary) : Prop where
  both : workspace ∈ listed.map (·.workspaceId) ↔ access ≠ none
  once : (listed.map (·.workspaceId)).count workspace ≤ 1
  same : ∀ s ∈ listed, s.workspaceId = workspace → access = some s ∧ s.roles ≠ []

/-- Whoever is found in an active workspace, as its owner or by a binding, owns it
when it is a personal one and has an active role when it is an organization. -/
def Enterable (user org : Uuid) (d : Db) : Prop :=
  ∀ row, d.organizations.get org = some row → row.state = .active →
    (row.personalOwnerUserId = some user ∨ Bound user org d) →
    match row.workspaceType with
    | .personal => row.personalOwnerUserId = some user
    | .organization => HoldsEntry (fun entry => entry.active = true) user org d

section Agreement

variable {d : Db} {user org : Uuid}

theorem mem_listed : org ∈ ((workspacesOf user d).map (shown user d)).map (·.workspaceId) ↔
    ∃ row, (org, row) ∈ workspacesOf user d := by
  simp only [List.map_map, List.mem_map, Prod.exists]
  constructor
  · rintro ⟨id, row, hmem, rfl⟩
    exact ⟨row, hmem⟩
  · rintro ⟨row, hmem⟩
    exact ⟨org, row, hmem, rfl⟩

theorem accessOf_of_get {row : Organization} (hget : d.organizations.get org = some row) :
    accessOf user org d = some (shown user d (org, row)) ↔ row.state = .active ∧
      match row.workspaceType with
      | .personal => row.personalOwnerUserId = some user
      | .organization => HoldsEntry (fun entry => entry.active = true) user org d := by
  simp only [accessOf, hget, ← roles_ne_nil]
  by_cases hstate : row.state = .active
  · cases htype : row.workspaceType with
    | personal => simp [hstate]
    | organization => simp [hstate]
  · simp [hstate]

/-- Access is given with what the list shows or not at all. -/
theorem accessOf_eq {row : Organization} (hget : d.organizations.get org = some row) :
    accessOf user org d = none ∨ accessOf user org d = some (shown user d (org, row)) := by
  simp only [accessOf, hget]
  split
  · exact Or.inl rfl
  · split
    · split
      · exact Or.inr rfl
      · exact Or.inl rfl
    · split
      · exact Or.inl rfl
      · exact Or.inr rfl

theorem agreed_iff : Agreed org ((workspacesOf user d).map (shown user d)) (accessOf user org d) ↔
    Enterable user org d := by
  constructor
  · intro h row hget hstate hfound
    have hlisted : org ∈ ((workspacesOf user d).map (shown user d)).map (·.workspaceId) :=
      mem_listed.mpr ⟨row, mem_workspacesOf.mpr ⟨hget, hstate, hfound⟩⟩
    have haccess := (accessOf_eq hget).resolve_left (h.both.mp hlisted)
    exact ((accessOf_of_get hget).mp haccess).2
  · intro h
    have hsame : ∀ row, (org, row) ∈ workspacesOf user d →
        accessOf user org d = some (shown user d (org, row)) := by
      intro row hmem
      obtain ⟨hget, hstate, hfound⟩ := mem_workspacesOf.mp hmem
      exact (accessOf_of_get hget).mpr ⟨hstate, h row hget hstate hfound⟩
    refine ⟨mem_listed.trans ⟨?_, ?_⟩, ?_, ?_⟩
    · rintro ⟨row, hmem⟩
      rw [hsame row hmem]
      simp
    · intro haccess
      cases hget : d.organizations.get org with
      | none => exact absurd (by rw [accessOf, hget]) haccess
      | some row =>
          obtain ⟨hstate, hown⟩ :=
            (accessOf_of_get hget).mp ((accessOf_eq hget).resolve_left haccess)
          refine ⟨row, mem_workspacesOf.mpr ⟨hget, hstate, ?_⟩⟩
          cases htype : row.workspaceType with
          | personal =>
              rw [htype] at hown
              exact Or.inl hown
          | organization =>
              rw [htype] at hown
              exact Or.inr (bound_of_roles (roles_ne_nil.mpr hown))
    · rw [List.map_map]
      exact (List.nodup_iff_count_le_one.mp nodup_workspacesOf) org
    · intro s hs hid
      obtain ⟨⟨id, row⟩, hmem, rfl⟩ := List.mem_map.mp hs
      obtain rfl : id = org := hid
      refine ⟨hsame row hmem, ?_⟩
      obtain ⟨hget, hstate, hfound⟩ := mem_workspacesOf.mp hmem
      have hown := h row hget hstate hfound
      cases htype : row.workspaceType with
      | personal => simp [shown, summary, htype]
      | organization =>
          rw [htype] at hown
          simpa [shown, summary, htype] using roles_ne_nil.mpr hown

end Agreement

end WorkspaceRepository

open WorkspaceRepository

/-- For a user and a workspace the list and the access check agree exactly when the
user is not found there without a role that is active. -/
theorem listing_and_access (i : Nat) (c : Core Db World) (user org : Uuid) :
    ∃ listed access w w',
      (listWorkspaces user).solo i anyAnswer c = some (.ok listed, ⟨c.db, w⟩) ∧
      (getWorkspaceAccess user org).solo i anyAnswer c = some (.ok access, ⟨c.db, w'⟩) ∧
      (Agreed org listed access ↔ Enterable user org c.db) := by
  obtain ⟨w, hlist⟩ := @solo_listWorkspaces i c user
  obtain ⟨w', haccess⟩ := @solo_getWorkspaceAccess i c user org
  exact ⟨_, _, w, w', hlist, haccess, agreed_iff⟩

/-- Bob's only entry is retired: he is shown the organization without a role and
cannot enter it. -/
theorem listed_without_access :
    ((listWorkspaces (.given 2)).solo 0 anyAnswer (sampleStart retiredDb)).map Prod.fst =
        some (.ok [⟨.given 301, "acme", "acme", .organization, []⟩]) ∧
      ((getWorkspaceAccess (.given 2) (.given 301)).solo 0 anyAnswer
        (sampleStart retiredDb)).map Prod.fst = some (.ok none) ∧
      ¬Agreed (.given 301) [⟨.given 301, "acme", "acme", .organization, []⟩] none := by
  refine ⟨by decide +kernel, by decide +kernel, fun h => ?_⟩
  exact h.both.mp (by simp) rfl

end AuthCore
