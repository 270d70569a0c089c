/-
The names of the security store.  Keys of different families never have one name, and two keys
of one family only if the keyed digest confuses two of the texts it is given.
-/
import AuthCore.KeyValue.SecurityStore

namespace AuthCore

open Gateway KeyValue SecurityKeyFactory

namespace Spelling

variable (sp : Spelling)

/-- The texts that are hidden in the name of a key. -/
def texts : CacheKey → List String
  | .loginWorkflow token | .mfaChallenge token | .webauthnChallenge token | .oidcWorkflow token =>
      [sp.token token]
  | .otp user purpose => [sp.keys.format.text user, sp.purpose purpose]
  | .rateLimit route subject => [route, sp.subject subject]
  | .loginLock subject => [subject]
  | .factorLock id | .accessRevocation id | .familyRevocation id | .userRevocation id =>
      [sp.keys.format.text id]
  | .organizationRevocation user org => [sp.keys.format.text user, sp.keys.format.text org]

/-- The kinds of keys. -/
inductive Family where
  | loginWorkflow
  | mfaChallenge
  | webauthnChallenge
  | oidcWorkflow
  | otp
  | rateLimit
  | loginLock
  | factorLock
  | accessRevocation
  | familyRevocation
  | userRevocation
  | organizationRevocation
deriving DecidableEq

def family : CacheKey → Family
  | .loginWorkflow _ => .loginWorkflow
  | .mfaChallenge _ => .mfaChallenge
  | .webauthnChallenge _ => .webauthnChallenge
  | .oidcWorkflow _ => .oidcWorkflow
  | .otp _ _ => .otp
  | .rateLimit _ _ => .rateLimit
  | .loginLock _ => .loginLock
  | .factorLock _ => .factorLock
  | .accessRevocation _ => .accessRevocation
  | .familyRevocation _ => .familyRevocation
  | .userRevocation _ => .userRevocation
  | .organizationRevocation _ _ => .organizationRevocation

/-- The words that the names of a kind begin with. -/
def Family.words : Family → List String
  | loginWorkflow => ["auth", "login-workflow"]
  | mfaChallenge => ["auth", "mfa-challenge"]
  | webauthnChallenge => ["auth", "webauthn"]
  | oidcWorkflow => ["auth", "oidc"]
  | otp => ["auth", "otp"]
  | rateLimit => ["auth", "rate"]
  | loginLock => ["auth", "lock", "login"]
  | factorLock => ["auth", "lock", "mfa"]
  | accessRevocation => ["auth", "revocation", "jti"]
  | familyRevocation => ["auth", "revocation", "family"]
  | userRevocation => ["auth", "revocation", "user"]
  | organizationRevocation => ["auth", "revocation", "org"]

def segments (key : CacheKey) : List String :=
  (family key).words ++ (sp.texts key).map sp.keys.opaqueText

theorem join_two {first a b x : String} (h : a ++ ":" ++ b ++ ":" = first) :
    first ++ x = ":".intercalate [a, b, x] := by
  rw [String.intercalate_cons_cons, String.intercalate_cons_cons, String.intercalate_singleton, ← h]
  simp only [String.append_assoc]

theorem join_three {first a b c x : String} (h : a ++ ":" ++ b ++ ":" ++ c ++ ":" = first) :
    first ++ x = ":".intercalate [a, b, c, x] := by
  rw [String.intercalate_cons_cons, ← join_two rfl, ← h]
  simp only [String.append_assoc]

/-- Another hidden text at the end of a name. -/
theorem join_last {n x : String} {l : List String} (h : n = ":".intercalate l) (hl : l ≠ []) :
    n ++ ":" ++ x = ":".intercalate (l ++ [x]) := by
  subst h
  induction l with
  | nil => exact absurd rfl hl
  | cons a rest ih =>
      cases rest with
      | nil =>
          simp only [List.cons_append, List.nil_append, String.intercalate_cons_cons,
            String.intercalate_singleton]
      | cons b rest =>
          have hrest := ih (List.cons_ne_nil b rest)
          simp only [List.cons_append, String.intercalate_cons_cons, String.append_assoc] at hrest ⊢
          rw [hrest]

theorem name_eq (key : CacheKey) : name sp key = ":".intercalate (sp.segments key) := by
  cases key with
  | loginWorkflow token =>
      change "auth:login-workflow:" ++ _ = ":".intercalate ["auth", "login-workflow", _]
      exact join_two rfl
  | mfaChallenge token =>
      change "auth:mfa-challenge:" ++ _ = ":".intercalate ["auth", "mfa-challenge", _]
      exact join_two rfl
  | webauthnChallenge token =>
      change "auth:webauthn:" ++ _ = ":".intercalate ["auth", "webauthn", _]
      exact join_two rfl
  | oidcWorkflow state =>
      change "auth:oidc:" ++ _ = ":".intercalate ["auth", "oidc", _]
      exact join_two rfl
  | otp user purpose =>
      change "auth:otp:" ++ _ ++ ":" ++ _ = ":".intercalate (["auth", "otp", _] ++ [_])
      exact join_last (join_two rfl) (List.cons_ne_nil _ _)
  | rateLimit route subject =>
      change "auth:rate:" ++ _ ++ ":" ++ _ = ":".intercalate (["auth", "rate", _] ++ [_])
      exact join_last (join_two rfl) (List.cons_ne_nil _ _)
  | loginLock subject =>
      change "auth:lock:login:" ++ _ = ":".intercalate ["auth", "lock", "login", _]
      exact join_three rfl
  | factorLock factor =>
      change "auth:lock:mfa:" ++ _ = ":".intercalate ["auth", "lock", "mfa", _]
      exact join_three rfl
  | accessRevocation jti =>
      change "auth:revocation:jti:" ++ _ = ":".intercalate ["auth", "revocation", "jti", _]
      exact join_three rfl
  | familyRevocation family =>
      change "auth:revocation:family:" ++ _ = ":".intercalate ["auth", "revocation", "family", _]
      exact join_three rfl
  | userRevocation user =>
      change "auth:revocation:user:" ++ _ = ":".intercalate ["auth", "revocation", "user", _]
      exact join_three rfl
  | organizationRevocation user org =>
      change "auth:revocation:org:" ++ _ ++ ":" ++ _ =
        ":".intercalate (["auth", "revocation", "org", _] ++ [_])
      exact join_last (join_three rfl) (List.cons_ne_nil _ _)

/-- The words of the kinds are a prefix code. -/
theorem Family.eq_of_prefix (f g : Family) (h : f.words <+: g.words) : f = g := by
  cases f <;> cases g <;> first
    | rfl
    | exact absurd h (by decide)

theorem Family.eq_of_append {f g : Family} {l l' : List String}
    (h : f.words ++ l = g.words ++ l') : f = g := by
  have hf : f.words <+: g.words ++ l' := h ▸ List.prefix_append _ _
  rcases List.prefix_or_prefix_of_prefix hf (List.prefix_append _ _) with hprefix | hprefix
  · exact Family.eq_of_prefix f g hprefix
  · exact (Family.eq_of_prefix g f hprefix).symm

theorem Family.colon (f : Family) : ∀ word ∈ f.words, ':' ∉ word.toList := by
  cases f <;> decide

/-- Texts without the separator are told apart in what joins them. -/
theorem intercalate_inj {l l' : List String} (hl : ∀ s ∈ l, ':' ∉ s.toList)
    (hl' : ∀ s ∈ l', ':' ∉ s.toList) (hne : l ≠ []) (hne' : l' ≠ [])
    (h : ":".intercalate l = ":".intercalate l') : l = l' := by
  have hchars := congrArg String.toList h
  rw [String.toList_intercalate, String.toList_intercalate] at hchars
  have hsplit := congrArg (List.splitOn ':') hchars
  change List.splitOn ':' ([':'].intercalate _) = List.splitOn ':' ([':'].intercalate _) at hsplit
  rw [List.splitOn_intercalate, List.splitOn_intercalate] at hsplit
  · exact List.map_injective_iff.mpr (fun _ _ => String.toList_inj.mp) hsplit
  · simpa using hl'
  · simpa using hne'
  · simpa using hl
  · simpa using hne

end Spelling

/-- Subjects that are written alike: two texts, two identifiers or two members. -/
def Subject.SameKind : Subject → Subject → Prop
  | .text _, .text _ => True
  | .id _, .id _ => True
  | .member _ _, .member _ _ => True
  | _, _ => False

/-- What is assumed of the writing of the keys in `K`: identifiers, tokens and digests are told
apart by their texts, digests and identifiers are written without colons, the keyed digest
confuses no two texts of these keys, and the subjects of a route are of one kind. -/
structure Spelling.Apart (sp : Spelling) (K : Set CacheKey) : Prop where
  token : Function.Injective sp.token
  digest : Function.Injective sp.digest
  colon : ∀ t, ':' ∉ (sp.keys.opaqueText t).toList
  uuid : ∀ u, ':' ∉ (sp.keys.format.text u).toList
  collision : ∀ key ∈ K, ∀ key' ∈ K, ∀ t ∈ sp.texts key, ∀ t' ∈ sp.texts key',
    sp.keys.opaqueText t = sp.keys.opaqueText t' → t = t'
  subjects : ∀ route subject subject', .rateLimit route subject ∈ K →
    .rateLimit route subject' ∈ K → subject.SameKind subject'

namespace Spelling

variable {sp : Spelling}

theorem text_injective : Function.Injective sp.keys.format.text := by
  intro u u' h
  have hparse := sp.keys.format.parse_text u
  rw [h, sp.keys.format.parse_text] at hparse
  exact (Option.some.inj hparse).symm

theorem mfa_ne (text : String) {other : String} (h : other.toList.head? = some 'p') :
    "mfa:" ++ text ≠ other := by
  intro heq
  have hhead : ("mfa:" ++ text).toList.head? = some 'm' := by simp
  rw [heq, h] at hhead
  cases hhead

theorem purpose_injective (htoken : Function.Injective sp.token) :
    Function.Injective sp.purpose := by
  have hphone : ("phone_login" : String) ≠ "phone_verify" := by decide
  have hlogin : ∀ text, "mfa:" ++ text ≠ "phone_login" := fun _ => mfa_ne _ (by decide)
  have hverify : ∀ text, "mfa:" ++ text ≠ "phone_verify" := fun _ => mfa_ne _ (by decide)
  intro p p' h
  cases p with
  | phoneLogin =>
      cases p' with
      | phoneLogin => rfl
      | phoneVerify => exact absurd h hphone
      | mfa token => exact absurd h.symm (hlogin _)
  | phoneVerify =>
      cases p' with
      | phoneLogin => exact absurd h.symm hphone
      | phoneVerify => rfl
      | mfa token => exact absurd h.symm (hverify _)
  | mfa token =>
      cases p' with
      | phoneLogin => exact absurd h (hlogin _)
      | phoneVerify => exact absurd h (hverify _)
      | mfa token' =>
          have htext : sp.token token = sp.token token' := by
            simpa [purpose] using h
          rw [htoken htext]

theorem subject_inj (huuid : ∀ u, ':' ∉ (sp.keys.format.text u).toList) {a b : Subject}
    (hkind : a.SameKind b) (h : sp.subject a = sp.subject b) : a = b := by
  cases a with
  | text value =>
      cases b with
      | text value' => exact congrArg _ h
      | _ => exact hkind.elim
  | id value =>
      cases b with
      | id value' => exact congrArg _ (text_injective h)
      | _ => exact hkind.elim
  | member user workspace =>
      cases b with
      | member user' workspace' =>
          have hjoin : ∀ u w, sp.subject (.member u w) =
              ":".intercalate [sp.keys.format.text u, sp.keys.format.text w] := by
            intro u w
            rw [String.intercalate_cons_cons, String.intercalate_singleton, subject]
          rw [hjoin, hjoin] at h
          have hparts := intercalate_inj (by simp [huuid]) (by simp [huuid]) (by simp) (by simp) h
          simp only [List.cons.injEq, and_true] at hparts
          rw [text_injective hparts.1, text_injective hparts.2]
      | _ => exact hkind.elim

variable {K : Set CacheKey}

/-- Keys of one kind with the same texts. -/
theorem Apart.eq_of_texts (h : sp.Apart K) {key key' : CacheKey} (hkey : key ∈ K)
    (hkey' : key' ∈ K) (hfamily : family key = family key')
    (htexts : sp.texts key = sp.texts key') : key = key' := by
  cases key <;> cases key' <;> cases hfamily
  case rateLimit route subject route' subject' =>
    simp only [texts, List.cons.injEq, and_true] at htexts
    obtain ⟨rfl, hsubject⟩ := htexts
    rw [subject_inj h.uuid (h.subjects route _ _ hkey hkey') hsubject]
  case otp user purpose user' purpose' =>
    simp only [texts, List.cons.injEq, and_true] at htexts
    rw [text_injective htexts.1, purpose_injective h.token htexts.2]
  case organizationRevocation user org user' org' =>
    simp only [texts, List.cons.injEq, and_true] at htexts
    rw [text_injective htexts.1, text_injective htexts.2]
  case loginLock subject subject' => exact congrArg _ (List.cons.inj htexts).1
  case loginWorkflow => exact congrArg _ (h.token (List.cons.inj htexts).1)
  case mfaChallenge => exact congrArg _ (h.token (List.cons.inj htexts).1)
  case webauthnChallenge => exact congrArg _ (h.token (List.cons.inj htexts).1)
  case oidcWorkflow => exact congrArg _ (h.token (List.cons.inj htexts).1)
  all_goals exact congrArg _ (text_injective (List.cons.inj htexts).1)

theorem eq_of_map_eq {f : String → String} {l l' : List String}
    (hf : ∀ t ∈ l, ∀ t' ∈ l', f t = f t' → t = t') (h : l.map f = l'.map f) : l = l' := by
  induction l generalizing l' with
  | nil => exact (List.map_eq_nil_iff.mp h.symm).symm
  | cons t rest ih =>
      cases l' with
      | nil => cases h
      | cons t' rest' =>
          rw [List.map_cons, List.map_cons, List.cons.injEq] at h
          have hhead := hf t List.mem_cons_self t' List.mem_cons_self h.1
          have htail := ih (fun a ha b hb =>
            hf a (List.mem_cons_of_mem _ ha) b (List.mem_cons_of_mem _ hb)) h.2
          rw [hhead, htail]

/-- No two keys share a name. -/
theorem Apart.name_injOn (h : sp.Apart K) : Set.InjOn (name sp) K := by
  intro key hkey key' hkey' hname
  have hcolon : ∀ key, ∀ s ∈ sp.segments key, ':' ∉ s.toList := by
    intro key s hs
    rcases List.mem_append.mp hs with hword | htext
    · exact Family.colon _ s hword
    · obtain ⟨t, _, rfl⟩ := List.mem_map.mp htext
      exact h.colon t
  have hne : ∀ key, sp.segments key ≠ [] := by
    intro key
    cases key <;> exact List.cons_ne_nil _ _
  rw [name_eq, name_eq] at hname
  have hsegments := intercalate_inj (hcolon key) (hcolon key') (hne key) (hne key') hname
  have hfamily := Family.eq_of_append hsegments
  unfold segments at hsegments
  rw [hfamily, List.append_cancel_left_eq] at hsegments
  exact h.eq_of_texts hkey hkey' hfamily
    (eq_of_map_eq (h.collision key hkey key' hkey') hsegments)

end Spelling

end AuthCore
