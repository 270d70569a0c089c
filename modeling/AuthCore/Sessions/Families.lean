/-
Refresh-token families.  A family owns its tokens and one session, and the
three tables move together: this is what a family looks like at rest, and the
operations on it that keep it so.
-/
import AuthCore.Model.SessionRepository

namespace AuthCore

open Relational

/-- The three tables of the session repository. -/
structure SessionTables where
  families : Table Uuid RefreshTokenFamily
  tokens : Table Uuid RefreshToken
  sessions : Table Uuid Session

def Db.sessionTables (d : Db) : SessionTables :=
  ⟨d.families, d.tokens, d.sessions⟩

namespace SessionTables

/-- Family `f` at rest, with `n` rotations behind it. -/
structure WellFormed (T : SessionTables) (f : Uuid) (family : RefreshTokenFamily) (n : Nat) :
    Prop where
  reached : ∀ g ≤ n, ∃ k t, T.tokens.get k = some t ∧ t.familyId = f ∧ t.generation = g
  unrepeated : ∀ k k' t t', T.tokens.get k = some t → T.tokens.get k' = some t' →
    t.familyId = f → t'.familyId = f → t.generation = t'.generation → k = k'
  bounded : ∀ k t, T.tokens.get k = some t → t.familyId = f → t.generation ≤ n
  spent : ∀ k t, T.tokens.get k = some t → t.familyId = f → t.generation < n →
    t.usedAt.isSome ∧ t.revokedAt.isSome
  latest : ∀ k t, T.tokens.get k = some t → t.familyId = f → t.generation = n →
    t.usedAt = none ∧ (t.revokedAt.isSome ↔ family.revokedAt.isSome)
  expiry : ∀ k t, T.tokens.get k = some t → t.familyId = f →
    t.expiresAt ≤ family.absoluteExpiresAt
  session : ∃ k s, T.sessions.get k = some s ∧ s.familyId = f
  sole : ∀ k k' s s', T.sessions.get k = some s → T.sessions.get k' = some s' →
    s.familyId = f → s'.familyId = f → k = k'
  mirrored : ∀ k s, T.sessions.get k = some s → s.familyId = f →
    s.userId = family.userId ∧ (s.revokedAt.isSome ↔ family.revokedAt.isSome)

/-- Every family is at rest, nothing is without its family and no hash is
stored twice. -/
structure AtRest (T : SessionTables) : Prop where
  formed : ∀ f family, T.families.get f = some family → ∃ n, WellFormed T f family n
  tokenFamily : ∀ k t, T.tokens.get k = some t → ∃ family, T.families.get t.familyId = some family
  sessionFamily : ∀ k s, T.sessions.get k = some s →
    ∃ family, T.families.get s.familyId = some family
  hashes : ∀ k k' t t', T.tokens.get k = some t → T.tokens.get k' = some t' →
    t.tokenHash = t'.tokenHash → k = k'

/-- The family row after its revocation. -/
def revokedFamily (mark : Option Time → Time) (reason : Option String → Option String)
    (family : RefreshTokenFamily) : RefreshTokenFamily :=
  { family with
    revokedAt := some (mark family.revokedAt)
    revocationReason := reason family.revocationReason }

/-- Revoke a family, its session and its tokens. -/
def revoke (f k : Uuid) (mark : Option Time → Time) (reason : Option String → Option String)
    (T : SessionTables) : SessionTables where
  families := T.families.update (fun id _ => id == f) (revokedFamily mark reason)
  tokens := T.tokens.update (fun _ t => t.familyId == f) fun t =>
    { t with revokedAt := some (mark t.revokedAt) }
  sessions := T.sessions.update (fun id _ => id == k) fun s =>
    { s with revokedAt := some (mark s.revokedAt) }

/-- Move a session to another workspace under another access token. -/
def scope (k : Uuid) (org : Option Uuid) (jti : Uuid) (now : Time) (T : SessionTables) :
    SessionTables :=
  { T with
    sessions := T.sessions.update (fun id _ => id == k) fun s =>
      { s with orgId := org, accessJti := jti, lastActivityAt := now } }

/-- Delete a family with everything it owns. -/
def delete (f : Uuid) (T : SessionTables) : SessionTables where
  families := T.families.delete fun id _ => id == f
  tokens := T.tokens.delete fun _ t => t.familyId == f
  sessions := T.sessions.delete fun _ s => s.familyId == f

/-- A new family with its first token and its session. -/
def create (args : CreateArgs) (T : SessionTables) : SessionTables where
  families := T.families.add args.familyId (SessionRepository.newFamily args)
  tokens := T.tokens.add args.refreshTokenId (SessionRepository.newToken args)
  sessions := T.sessions.add args.sessionId (SessionRepository.newSession args)

/-- Use up token `k` and issue the next one of its family. -/
def renew (args : RotateArgs) (k : Uuid) (token : RefreshToken) (family : RefreshTokenFamily)
    (T : SessionTables) : SessionTables :=
  { T with
    tokens := (T.tokens.update (fun id t => t.familyId == token.familyId && id == k) fun t =>
        { t with usedAt := some args.now, revokedAt := some args.now }).add args.replacementId
      (SessionRepository.replacementToken args token family) }

variable {T T' : SessionTables} {f k : Uuid} {family : RefreshTokenFamily} {n : Nat}

/-- A family is at rest as long as what it owns stays the same. -/
theorem WellFormed.congr (h : WellFormed T f family n)
    (htokens : ∀ k t, t.familyId = f → (T'.tokens.get k = some t ↔ T.tokens.get k = some t))
    (hsessions : ∀ k s, s.familyId = f →
      (T'.sessions.get k = some s ↔ T.sessions.get k = some s)) :
    WellFormed T' f family n where
  reached g hg := by
    obtain ⟨k, t, hget, hf, hgen⟩ := h.reached g hg
    exact ⟨k, t, (htokens k t hf).mpr hget, hf, hgen⟩
  unrepeated k k' t t' hk hk' hf hf' :=
    h.unrepeated k k' t t' ((htokens k t hf).mp hk) ((htokens k' t' hf').mp hk') hf hf'
  bounded k t hk hf := h.bounded k t ((htokens k t hf).mp hk) hf
  spent k t hk hf := h.spent k t ((htokens k t hf).mp hk) hf
  latest k t hk hf := h.latest k t ((htokens k t hf).mp hk) hf
  expiry k t hk hf := h.expiry k t ((htokens k t hf).mp hk) hf
  session := by
    obtain ⟨k, s, hget, hf⟩ := h.session
    exact ⟨k, s, (hsessions k s hf).mpr hget, hf⟩
  sole k k' s s' hk hk' hf hf' :=
    h.sole k k' s s' ((hsessions k s hf).mp hk) ((hsessions k' s' hf').mp hk') hf hf'
  mirrored k s hk hf := h.mirrored k s ((hsessions k s hf).mp hk) hf

section Revoke

variable {mark : Option Time → Time} {reason : Option String → Option String}

theorem WellFormed.revoke {s : Session} (h : WellFormed T f family n)
    (hk : T.sessions.get k = some s) (hs : s.familyId = f) :
    WellFormed (T.revoke f k mark reason) f (revokedFamily mark reason family) n := by
  have htoken : ∀ j t', (T.revoke f k mark reason).tokens.get j = some t' → t'.familyId = f →
      ∃ t, T.tokens.get j = some t ∧ t.familyId = f ∧
        t' = { t with revokedAt := some (mark t.revokedAt) } := by
    intro j t' hget hf
    obtain ⟨t, hold, rfl⟩ := Table.get_update_eq_some.mp hget
    grind
  have hsession : ∀ j s', (T.revoke f k mark reason).sessions.get j = some s' →
      s'.familyId = f → ∃ s, T.sessions.get j = some s ∧ s.familyId = f ∧
        s' = { s with revokedAt := some (mark s.revokedAt) } := by
    intro j s' hget hf
    obtain ⟨s'', hold, rfl⟩ := Table.get_update_eq_some.mp hget
    have hsole := h.sole j k s'' s hold hk
    grind
  constructor
  · intro g hg
    obtain ⟨j, t, hget, hf, hgen⟩ := h.reached g hg
    refine ⟨j, { t with revokedAt := some (mark t.revokedAt) }, ?_, hf, hgen⟩
    exact Table.get_update_eq_some.mpr ⟨t, hget, by simp [hf]⟩
  · intro j j' t t' hj hj' hf hf' hgen
    obtain ⟨u, hu, huf, rfl⟩ := htoken j t hj hf
    obtain ⟨u', hu', huf', rfl⟩ := htoken j' t' hj' hf'
    exact h.unrepeated j j' u u' hu hu' huf huf' hgen
  · intro j t hj hf
    obtain ⟨u, hu, huf, rfl⟩ := htoken j t hj hf
    exact h.bounded j u hu huf
  · intro j t hj hf hgen
    obtain ⟨u, hu, huf, rfl⟩ := htoken j t hj hf
    exact ⟨(h.spent j u hu huf hgen).1, rfl⟩
  · intro j t hj hf hgen
    obtain ⟨u, hu, huf, rfl⟩ := htoken j t hj hf
    exact ⟨(h.latest j u hu huf hgen).1, by simp [revokedFamily]⟩
  · intro j t hj hf
    obtain ⟨u, hu, huf, rfl⟩ := htoken j t hj hf
    exact h.expiry j u hu huf
  · refine ⟨k, { s with revokedAt := some (mark s.revokedAt) }, ?_, hs⟩
    exact Table.get_update_eq_some.mpr ⟨s, hk, by simp⟩
  · intro j j' s' s'' hj hj' hf hf'
    obtain ⟨u, hu, huf, rfl⟩ := hsession j s' hj hf
    obtain ⟨u', hu', huf', rfl⟩ := hsession j' s'' hj' hf'
    exact h.sole j j' u u' hu hu' huf huf'
  · intro j s' hj hf
    obtain ⟨u, hu, huf, rfl⟩ := hsession j s' hj hf
    exact ⟨(h.mirrored j u hu huf).1, by simp [revokedFamily]⟩

theorem AtRest.revoke {s : Session} (h : AtRest T) (hk : T.sessions.get k = some s)
    (hs : s.familyId = f) : AtRest (T.revoke f k mark reason) := by
  constructor
  · intro g family hget
    obtain ⟨family, hold, rfl⟩ := Table.get_update_eq_some.mp hget
    obtain ⟨n, hn⟩ := h.formed g family hold
    by_cases hg : g = f
    · subst hg
      refine ⟨n, ?_⟩
      simpa using hn.revoke hk hs
    · refine ⟨n, ?_⟩
      have hother : WellFormed (T.revoke f k mark reason) g family n := by
        refine hn.congr ?_ ?_
        · intro j t ht
          simp only [SessionTables.revoke, Table.get_update_eq_some]
          grind
        · intro j s' hs'
          simp only [SessionTables.revoke, Table.get_update_eq_some]
          grind
      simpa [hg] using hother
  · intro j t hget
    obtain ⟨u, hold, rfl⟩ := Table.get_update_eq_some.mp hget
    obtain ⟨family, hfamily⟩ := h.tokenFamily j u hold
    simp only [SessionTables.revoke, Table.get_update_eq_some]
    grind
  · intro j s' hget
    obtain ⟨u, hold, rfl⟩ := Table.get_update_eq_some.mp hget
    obtain ⟨family, hfamily⟩ := h.sessionFamily j u hold
    simp only [SessionTables.revoke, Table.get_update_eq_some]
    grind
  · intro j j' t t' hget hget' hhash
    obtain ⟨u, hold, rfl⟩ := Table.get_update_eq_some.mp hget
    obtain ⟨u', hold', rfl⟩ := Table.get_update_eq_some.mp hget'
    have hsame := h.hashes j j' u u' hold hold'
    grind

end Revoke

theorem AtRest.scope {org : Option Uuid} {jti : Uuid} {now : Time} (h : AtRest T) :
    AtRest (T.scope k org jti now) := by
  have hsession : ∀ j s', (T.scope k org jti now).sessions.get j = some s' →
      ∃ s, T.sessions.get j = some s ∧ s'.familyId = s.familyId ∧ s'.userId = s.userId ∧
        s'.revokedAt = s.revokedAt := by
    intro j s' hget
    obtain ⟨s, hold, rfl⟩ := Table.get_update_eq_some.mp hget
    grind
  refine ⟨?_, h.tokenFamily, ?_, h.hashes⟩
  · intro g family hfamily
    obtain ⟨n, hn⟩ := h.formed g family hfamily
    refine ⟨n, hn.reached, hn.unrepeated, hn.bounded, hn.spent, hn.latest, hn.expiry, ?_, ?_, ?_⟩
    · obtain ⟨j, s, hget, hs⟩ := hn.session
      refine ⟨j, _, Table.get_update_eq_some.mpr ⟨s, hget, rfl⟩, ?_⟩
      grind
    · intro j j' s' s'' hj hj' hf hf'
      obtain ⟨u, hu, huf, _⟩ := hsession j s' hj
      obtain ⟨u', hu', huf', _⟩ := hsession j' s'' hj'
      exact hn.sole j j' u u' hu hu' (huf ▸ hf) (huf' ▸ hf')
    · intro j s' hj hf
      obtain ⟨u, hu, huf, huser, hrevoked⟩ := hsession j s' hj
      rw [huser, hrevoked]
      exact hn.mirrored j u hu (huf ▸ hf)
  · intro j s' hj
    obtain ⟨u, hu, huf, _⟩ := hsession j s' hj
    exact huf ▸ h.sessionFamily j u hu

theorem AtRest.delete (h : AtRest T) : AtRest (T.delete f) := by
  have hkept : ∀ {V : Type} {table : Table Uuid V} {p : Uuid → V → Bool} {j : Uuid} {v : V},
      (table.delete p).get j = some v → table.get j = some v ∧ p j v = false :=
    Table.get_delete_eq_some.mp
  constructor
  · intro g family hget
    obtain ⟨hold, hg⟩ := hkept hget
    obtain ⟨n, hn⟩ := h.formed g family hold
    refine ⟨n, hn.congr ?_ ?_⟩
    · intro j t ht
      simp only [SessionTables.delete, Table.get_delete_eq_some]
      grind
    · intro j s hs
      simp only [SessionTables.delete, Table.get_delete_eq_some]
      grind
  · intro j t hget
    obtain ⟨hold, ht⟩ := hkept hget
    obtain ⟨family, hfamily⟩ := h.tokenFamily j t hold
    exact ⟨family, Table.get_delete_eq_some.mpr ⟨hfamily, ht⟩⟩
  · intro j s hget
    obtain ⟨hold, hs⟩ := hkept hget
    obtain ⟨family, hfamily⟩ := h.sessionFamily j s hold
    exact ⟨family, Table.get_delete_eq_some.mpr ⟨hfamily, hs⟩⟩
  · intro j j' t t' hget hget'
    exact h.hashes j j' t t' (hkept hget).1 (hkept hget').1

section Create

variable {args : CreateArgs}

/-- The identifiers of a new family are new. -/
structure Unnamed (args : CreateArgs) (T : SessionTables) : Prop where
  family : T.families.get args.familyId = none
  token : T.tokens.get args.refreshTokenId = none
  session : T.sessions.get args.sessionId = none

theorem WellFormed.create (h : AtRest T) (hnew : Unnamed args T)
    (hexpiry : args.refreshExpiresAt ≤ args.familyExpiresAt) :
    WellFormed (T.create args) args.familyId (SessionRepository.newFamily args) 0 := by
  have htoken : ∀ j t, (T.create args).tokens.get j = some t → t.familyId = args.familyId →
      j = args.refreshTokenId ∧ t = SessionRepository.newToken args := by
    intro j t hget hf
    simp only [SessionTables.create, Table.get_add_of_new hnew.token] at hget
    split at hget
    · rename_i hj
      exact ⟨hj, by simpa using hget.symm⟩
    · obtain ⟨family, hfamily⟩ := h.tokenFamily j t hget
      rw [hf, hnew.family] at hfamily
      cases hfamily
  have hsession : ∀ j s, (T.create args).sessions.get j = some s → s.familyId = args.familyId →
      j = args.sessionId ∧ s = SessionRepository.newSession args := by
    intro j s hget hf
    simp only [SessionTables.create, Table.get_add_of_new hnew.session] at hget
    split at hget
    · rename_i hj
      exact ⟨hj, by simpa using hget.symm⟩
    · obtain ⟨family, hfamily⟩ := h.sessionFamily j s hget
      rw [hf, hnew.family] at hfamily
      cases hfamily
  constructor
  · intro g hg
    refine ⟨args.refreshTokenId, SessionRepository.newToken args, ?_, rfl, ?_⟩
    · simp [SessionTables.create, Table.get_add_of_new hnew.token]
    · exact (Nat.le_zero.mp hg).symm
  · intro j j' t t' hj hj' hf hf' _
    rw [(htoken j t hj hf).1, (htoken j' t' hj' hf').1]
  · intro j t hj hf
    rw [(htoken j t hj hf).2]
    exact Nat.le_refl 0
  · intro j t hj hf hlt
    exact absurd hlt (Nat.not_lt_zero _)
  · intro j t hj hf _
    rw [(htoken j t hj hf).2]
    exact ⟨rfl, Iff.rfl⟩
  · intro j t hj hf
    rw [(htoken j t hj hf).2]
    exact hexpiry
  · refine ⟨args.sessionId, SessionRepository.newSession args, ?_, rfl⟩
    simp [SessionTables.create, Table.get_add_of_new hnew.session]
  · intro j j' s s' hj hj' hf hf'
    rw [(hsession j s hj hf).1, (hsession j' s' hj' hf').1]
  · intro j s hj hf
    rw [(hsession j s hj hf).2]
    exact ⟨rfl, Iff.rfl⟩

theorem AtRest.create (h : AtRest T) (hnew : Unnamed args T)
    (hexpiry : args.refreshExpiresAt ≤ args.familyExpiresAt)
    (hhash : ∀ j t, T.tokens.get j = some t → t.tokenHash ≠ args.refreshTokenHash) :
    AtRest (T.create args) := by
  have hfamilies : ∀ g, (T.create args).families.get g =
      if g = args.familyId then some (SessionRepository.newFamily args) else T.families.get g :=
    Table.get_add_of_new hnew.family
  have htokens : ∀ j, (T.create args).tokens.get j =
      if j = args.refreshTokenId then some (SessionRepository.newToken args)
      else T.tokens.get j := Table.get_add_of_new hnew.token
  have hsessions : ∀ j, (T.create args).sessions.get j =
      if j = args.sessionId then some (SessionRepository.newSession args)
      else T.sessions.get j := Table.get_add_of_new hnew.session
  have howned : ∀ g family, T.families.get g = some family →
      ∃ family, (T.create args).families.get g = some family := by
    intro g family hg
    rw [hfamilies]
    split
    · exact ⟨_, rfl⟩
    · exact ⟨family, hg⟩
  constructor
  · intro g family hget
    rw [hfamilies] at hget
    by_cases hg : g = args.familyId
    · rw [if_pos hg, Option.some.injEq] at hget
      subst hg hget
      exact ⟨0, .create h hnew hexpiry⟩
    · rw [if_neg hg] at hget
      obtain ⟨n, hn⟩ := h.formed g family hget
      refine ⟨n, hn.congr ?_ ?_⟩
      · intro j t ht
        rw [htokens]
        have hnone := hnew.token
        grind [SessionRepository.newToken]
      · intro j s hs
        rw [hsessions]
        have hnone := hnew.session
        grind [SessionRepository.newSession]
  · intro j t hget
    rw [htokens] at hget
    split at hget
    · obtain rfl := Option.some.inj hget
      exact ⟨_, by rw [hfamilies]; exact if_pos rfl⟩
    · obtain ⟨family, hfamily⟩ := h.tokenFamily j t hget
      exact howned _ _ hfamily
  · intro j s hget
    rw [hsessions] at hget
    split at hget
    · obtain rfl := Option.some.inj hget
      exact ⟨_, by rw [hfamilies]; exact if_pos rfl⟩
    · obtain ⟨family, hfamily⟩ := h.sessionFamily j s hget
      exact howned _ _ hfamily
  · intro j j' t t' hget hget' hsame
    rw [htokens] at hget hget'
    have hold := h.hashes j j' t t'
    have hfresh := hhash j t
    have hfresh' := hhash j' t'
    grind [SessionRepository.newToken]

end Create

section Renew

variable {args : RotateArgs} {token : RefreshToken}

/-- A token that can be rotated: it is there, nobody has used it and neither it
nor its family is revoked. -/
structure Rotatable (T : SessionTables) (k : Uuid) (token : RefreshToken)
    (family : RefreshTokenFamily) : Prop where
  stored : T.tokens.get k = some token
  owned : T.families.get token.familyId = some family
  unused : token.usedAt = none
  unrevoked : token.revokedAt = none
  active : family.revokedAt = none

theorem get_renew (hnew : T.tokens.get args.replacementId = none) (j : Uuid) :
    (T.renew args k token family).tokens.get j =
      if j = args.replacementId then some (SessionRepository.replacementToken args token family)
      else (T.tokens.get j).map fun t =>
        if t.familyId = token.familyId ∧ j = k then
          { t with usedAt := some args.now, revokedAt := some args.now }
        else t := by
  simp only [SessionTables.renew]
  rw [Table.get_add_of_new (by simp [Table.get_update, hnew])]
  simp only [Table.get_update, Bool.and_eq_true, beq_iff_eq]

theorem WellFormed.renew (h : WellFormed T token.familyId family n)
    (hrotatable : Rotatable T k token family)
    (hnew : T.tokens.get args.replacementId = none) :
    WellFormed (T.renew args k token family) token.familyId family (n + 1) := by
  have hlast : token.generation = n := by
    have hle := h.bounded k token hrotatable.stored rfl
    by_contra hne
    have hspent := (h.spent k token hrotatable.stored rfl (by omega)).1
    rw [hrotatable.unused] at hspent
    cases hspent
  -- a token of the family is the replacement, the one just used or an older one
  have htoken : ∀ j t, (T.renew args k token family).tokens.get j = some t →
      t.familyId = token.familyId →
      j = args.replacementId ∧ t = SessionRepository.replacementToken args token family ∨
        j = k ∧ t = { token with usedAt := some args.now, revokedAt := some args.now } ∨
        j ≠ k ∧ T.tokens.get j = some t ∧ t.generation < n := by
    intro j t hget hf
    rw [get_renew hnew] at hget
    split at hget
    · rename_i hj
      exact Or.inl ⟨hj, (Option.some.inj hget).symm⟩
    · obtain ⟨u, hu, rfl⟩ := Option.map_eq_some_iff.mp hget
      refine Or.inr ?_
      by_cases hjk : j = k
      · subst hjk
        rw [hrotatable.stored, Option.some.injEq] at hu
        subst hu
        exact Or.inl ⟨rfl, by simp⟩
      · simp only [hjk, and_false, if_false] at hf ⊢
        have hle := h.bounded j u hu hf
        have hne : u.generation ≠ n := fun hgen =>
          hjk (h.unrepeated j k u token hu hrotatable.stored hf rfl (hgen.trans hlast.symm))
        exact Or.inr ⟨hjk, hu, by omega⟩
  have hreplacement : (SessionRepository.replacementToken args token family).generation =
      n + 1 := by rw [← hlast]; rfl
  constructor
  · intro g hg
    by_cases hgn : g = n + 1
    · refine ⟨args.replacementId, _, ?_, ?_, hreplacement.trans hgn.symm⟩
      · rw [get_renew hnew]
        exact if_pos rfl
      · rfl
    · obtain ⟨j, t, hget, hf, hgen⟩ := h.reached g (by omega)
      refine ⟨j, ?_⟩
      have hj : j ≠ args.replacementId := by
        rintro rfl
        rw [hnew] at hget
        cases hget
      rw [get_renew hnew, if_neg hj, hget]
      refine ⟨_, rfl, ?_⟩
      dsimp only
      split
      · exact ⟨hf, hgen⟩
      · exact ⟨hf, hgen⟩
  · intro j j' t t' hj hj' hf hf' hgen
    rcases htoken j t hj hf with ⟨rfl, rfl⟩ | ⟨rfl, rfl⟩ | ⟨_, hold, hlt⟩
    · rcases htoken j' t' hj' hf' with ⟨rfl, rfl⟩ | ⟨rfl, rfl⟩ | ⟨_, hold', hlt'⟩
      · rfl
      · rw [hreplacement] at hgen
        simp only [hlast] at hgen
        omega
      · omega
    · rcases htoken j' t' hj' hf' with ⟨rfl, rfl⟩ | ⟨rfl, rfl⟩ | ⟨_, hold', hlt'⟩
      · rw [hreplacement] at hgen
        simp only [hlast] at hgen
        omega
      · rfl
      · simp only [hlast] at hgen
        omega
    · rcases htoken j' t' hj' hf' with ⟨rfl, rfl⟩ | ⟨rfl, rfl⟩ | ⟨_, hold', hlt'⟩
      · omega
      · simp only [hlast] at hgen
        omega
      · exact h.unrepeated j j' t t' hold hold' hf hf' hgen
  · intro j t hj hf
    rcases htoken j t hj hf with ⟨_, rfl⟩ | ⟨_, rfl⟩ | ⟨_, _, hlt⟩
    · omega
    · simp only [hlast]
      omega
    · omega
  · intro j t hj hf hlt
    rcases htoken j t hj hf with ⟨_, rfl⟩ | ⟨_, rfl⟩ | ⟨_, hold, hlt'⟩
    · omega
    · exact ⟨rfl, rfl⟩
    · exact h.spent j t hold hf hlt'
  · intro j t hj hf hgen
    rcases htoken j t hj hf with ⟨_, rfl⟩ | ⟨_, rfl⟩ | ⟨_, _, hlt⟩
    · refine ⟨rfl, ?_⟩
      rw [hrotatable.active]
      rfl
    · simp only [hlast] at hgen
      omega
    · omega
  · intro j t hj hf
    rcases htoken j t hj hf with ⟨_, rfl⟩ | ⟨_, rfl⟩ | ⟨_, hold, _⟩
    · exact min_le_right _ _
    · exact h.expiry k token hrotatable.stored rfl
    · exact h.expiry j t hold hf
  · exact h.session
  · exact h.sole
  · exact h.mirrored

theorem AtRest.renew (h : AtRest T) (hrotatable : Rotatable T k token family)
    (hnew : T.tokens.get args.replacementId = none)
    (hhash : ∀ j t, T.tokens.get j = some t → t.tokenHash ≠ args.replacementHash) :
    AtRest (T.renew args k token family) := by
  constructor
  · intro g family' hget
    obtain ⟨n, hn⟩ := h.formed g family' hget
    by_cases hg : g = token.familyId
    · subst hg
      have heq : family' = family := Option.some.inj (hget.symm.trans hrotatable.owned)
      subst heq
      exact ⟨n + 1, hn.renew hrotatable hnew⟩
    · refine ⟨n, hn.congr ?_ fun _ _ _ => Iff.rfl⟩
      intro j t ht
      rw [get_renew hnew]
      by_cases hj : j = args.replacementId
      · rw [if_pos hj, hj, hnew]
        grind [SessionRepository.replacementToken]
      · rw [if_neg hj, Option.map_eq_some_iff]
        grind
  · intro j t hget
    rw [get_renew hnew] at hget
    split at hget
    · obtain rfl := Option.some.inj hget
      exact ⟨family, hrotatable.owned⟩
    · obtain ⟨u, hu, rfl⟩ := Option.map_eq_some_iff.mp hget
      obtain ⟨owner, howner⟩ := h.tokenFamily j u hu
      refine ⟨owner, ?_⟩
      split
      · exact howner
      · exact howner
  · exact h.sessionFamily
  · have hstored : ∀ j t, (T.renew args k token family).tokens.get j = some t →
        j = args.replacementId ∧ t.tokenHash = args.replacementHash ∨
          ∃ u, T.tokens.get j = some u ∧ t.tokenHash = u.tokenHash := by
      intro j t hget
      rw [get_renew hnew] at hget
      split at hget
      · rename_i hj
        obtain rfl := Option.some.inj hget
        exact Or.inl ⟨hj, rfl⟩
      · obtain ⟨u, hu, rfl⟩ := Option.map_eq_some_iff.mp hget
        refine Or.inr ⟨u, hu, ?_⟩
        split
        · rfl
        · rfl
    intro j j' t t' hget hget' hsame
    rcases hstored j t hget with ⟨rfl, ht⟩ | ⟨u, hu, ht⟩
    · rcases hstored j' t' hget' with ⟨rfl, ht'⟩ | ⟨u', hu', ht'⟩
      · rfl
      · exact absurd (ht'.symm.trans (hsame.symm.trans ht)) (hhash j' u' hu')
    · rcases hstored j' t' hget' with ⟨rfl, ht'⟩ | ⟨u', hu', ht'⟩
      · exact absurd (ht.symm.trans (hsame.trans ht')) (hhash j u hu)
      · exact h.hashes j j' u u' hu hu' (ht.symm.trans (hsame.trans ht'))

end Renew

/-- What the rows under one identifier keep, whatever happens to them short of
an insertion: owners and lifetimes stay, and nothing used or revoked comes
back. -/
structure Descends (k : Uuid) (T T' : SessionTables) : Prop where
  family : ∀ x', T'.families.get k = some x' → ∃ x, T.families.get k = some x ∧
    x'.userId = x.userId ∧ x'.absoluteExpiresAt = x.absoluteExpiresAt ∧
    (x.revokedAt.isSome → x'.revokedAt.isSome)
  token : ∀ t', T'.tokens.get k = some t' → ∃ t, T.tokens.get k = some t ∧
    t'.familyId = t.familyId ∧ t'.tokenHash = t.tokenHash ∧ t'.generation = t.generation ∧
    (t.usedAt.isSome → t'.usedAt.isSome) ∧ (t.revokedAt.isSome → t'.revokedAt.isSome)
  session : ∀ s', T'.sessions.get k = some s' → ∃ s, T.sessions.get k = some s ∧
    s'.familyId = s.familyId ∧ s'.userId = s.userId ∧ s'.createdAt = s.createdAt ∧
    s'.expiresAt = s.expiresAt ∧ (s.revokedAt.isSome → s'.revokedAt.isSome)

theorem Descends.refl (k : Uuid) (T : SessionTables) : Descends k T T where
  family x h := ⟨x, h, rfl, rfl, fun h => h⟩
  token t h := ⟨t, h, rfl, rfl, rfl, fun h => h, fun h => h⟩
  session s h := ⟨s, h, rfl, rfl, rfl, rfl, fun h => h⟩

theorem Descends.trans {T'' : SessionTables} (h : Descends k T T') (h' : Descends k T' T'') :
    Descends k T T'' := by
  constructor
  · intro x'' hx''
    obtain ⟨x', hx', huser', habsolute', hrevoked'⟩ := h'.family x'' hx''
    obtain ⟨x, hx, huser, habsolute, hrevoked⟩ := h.family x' hx'
    exact ⟨x, hx, huser'.trans huser, habsolute'.trans habsolute, fun hr =>
      hrevoked' (hrevoked hr)⟩
  · intro t'' ht''
    obtain ⟨t', ht', hf', hh', hg', hu', hr'⟩ := h'.token t'' ht''
    obtain ⟨t, ht, hf, hh, hg, hu, hr⟩ := h.token t' ht'
    exact ⟨t, ht, hf'.trans hf, hh'.trans hh, hg'.trans hg, fun h => hu' (hu h), fun h =>
      hr' (hr h)⟩
  · intro s'' hs''
    obtain ⟨s', hs', hf', hu', hc', he', hr'⟩ := h'.session s'' hs''
    obtain ⟨s, hs, hf, hu, hc, he, hr⟩ := h.session s' hs'
    exact ⟨s, hs, hf'.trans hf, hu'.trans hu, hc'.trans hc, he'.trans he, fun h => hr' (hr h)⟩

theorem Descends.of_revoke (j f k : Uuid) (mark : Option Time → Time)
    (reason : Option String → Option String) (T : SessionTables) :
    Descends j T (T.revoke f k mark reason) := by
  constructor
  · intro x' hx'
    obtain ⟨x, hx, rfl⟩ := Table.get_update_eq_some.mp hx'
    grind [revokedFamily]
  · intro t' ht'
    obtain ⟨t, ht, rfl⟩ := Table.get_update_eq_some.mp ht'
    grind
  · intro s' hs'
    obtain ⟨s, hs, rfl⟩ := Table.get_update_eq_some.mp hs'
    grind

theorem Descends.of_scope (j k : Uuid) (org : Option Uuid) (jti : Uuid) (now : Time)
    (T : SessionTables) : Descends j T (T.scope k org jti now) where
  family := (Descends.refl j T).family
  token := (Descends.refl j T).token
  session s' hs' := by
    obtain ⟨s, hs, rfl⟩ := Table.get_update_eq_some.mp hs'
    grind

theorem Descends.of_delete (j f : Uuid) (T : SessionTables) : Descends j T (T.delete f) where
  family x hx := (Descends.refl j T).family x (Table.get_delete_eq_some.mp hx).1
  token t ht := (Descends.refl j T).token t (Table.get_delete_eq_some.mp ht).1
  session s hs := (Descends.refl j T).session s (Table.get_delete_eq_some.mp hs).1

theorem Descends.of_create {j : Uuid} {args : CreateArgs}
    (hnew : j ≠ args.familyId ∧ j ≠ args.refreshTokenId ∧ j ≠ args.sessionId)
    (T : SessionTables) : Descends j T (T.create args) := by
  obtain ⟨hfamily, htoken, hsession⟩ := hnew
  constructor
  · intro x hx
    simp only [SessionTables.create, Table.get_add, hfamily, if_false, Option.or_none] at hx
    exact (Descends.refl j T).family x hx
  · intro t ht
    simp only [SessionTables.create, Table.get_add, htoken, if_false, Option.or_none] at ht
    exact (Descends.refl j T).token t ht
  · intro s hs
    simp only [SessionTables.create, Table.get_add, hsession, if_false, Option.or_none] at hs
    exact (Descends.refl j T).session s hs

theorem Descends.of_renew {j : Uuid} {args : RotateArgs} {token : RefreshToken}
    (hnew : j ≠ args.replacementId) (T : SessionTables) :
    Descends j T (T.renew args k token family) where
  family := (Descends.refl j T).family
  session := (Descends.refl j T).session
  token t' ht' := by
    simp only [SessionTables.renew, Table.get_add, hnew, if_false, Option.or_none] at ht'
    obtain ⟨t, ht, rfl⟩ := Table.get_update_eq_some.mp ht'
    grind

section Revocations

variable {rows : List SessionRepository.Locked}
  {mark : SessionRepository.Locked → Option Time → Time}
  {reason : SessionRepository.Locked → Option String → Option String}

theorem Descends.of_revocations (j : Uuid) (rows : List SessionRepository.Locked)
    (T : SessionTables) : Descends j T (rows.foldl (fun T row =>
      T.revoke row.session.familyId row.sessionId (mark row) (reason row)) T) := by
  induction rows generalizing T with
  | nil => exact .refl j T
  | cons row rest ih => exact (Descends.of_revoke j _ _ _ _ T).trans (ih _)

/-- Every listed session is revoked. -/
theorem revoked_of_revocations {T : SessionTables} {row : SessionRepository.Locked}
    (hrow : row ∈ rows) {s' : Session}
    (hget : (rows.foldl (fun T row => T.revoke row.session.familyId row.sessionId (mark row)
      (reason row)) T).sessions.get row.sessionId = some s') : s'.revokedAt.isSome := by
  induction rows generalizing T with
  | nil => cases hrow
  | cons first rest ih =>
      rw [List.foldl_cons] at hget
      rcases List.mem_cons.mp hrow with rfl | hrest
      · obtain ⟨s, hs, _, _, _, _, hrevoked⟩ :=
          (Descends.of_revocations row.sessionId rest _).session s' hget
        refine hrevoked ?_
        obtain ⟨s₀, _, rfl⟩ := Table.get_update_eq_some.mp hs
        simp
      · exact ih hrest hget

end Revocations

end SessionTables

end AuthCore
