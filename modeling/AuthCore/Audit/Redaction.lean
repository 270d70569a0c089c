/-
What the redaction of audit metadata hides and what it leaves: the result does
not depend on what stands under a sensitive key or past the limits, and nothing
of that is left in it.
-/
import AuthCore.Audit.Metadata

namespace AuthCore

open AuditQueryControl

variable {lower : String → String}

mutual

/-- Two values of one shape that differ only where the redaction does not look. -/
inductive Resembles (lower : String → String) : Json → Json → Prop
  | same (value : Json) : Resembles lower value value
  | string {s t : String} : s.toList.take 120 = t.toList.take 120 →
      Resembles lower (.string s) (.string t)
  | list {items items' : List Json} : ResemblesItems lower (items.take 20) (items'.take 20) →
      Resembles lower (.list items) (.list items')
  | object {entries entries' : List (String × Json)} : ResemblesEntries lower entries entries' →
      Resembles lower (.object entries) (.object entries')

inductive ResemblesItems (lower : String → String) : List Json → List Json → Prop
  | nil : ResemblesItems lower [] []
  | cons {item item' : Json} {rest rest' : List Json} : Resembles lower item item' →
      ResemblesItems lower rest rest' → ResemblesItems lower (item :: rest) (item' :: rest')

inductive ResemblesEntries (lower : String → String) :
    List (String × Json) → List (String × Json) → Prop
  | nil : ResemblesEntries lower [] []
  | hidden {key : String} {value value' : Json} {rest rest' : List (String × Json)} :
      sensitive lower key = true → ResemblesEntries lower rest rest' →
      ResemblesEntries lower ((key, value) :: rest) ((key, value') :: rest')
  | shown {key : String} {value value' : Json} {rest rest' : List (String × Json)} :
      Resembles lower value value' → ResemblesEntries lower rest rest' →
      ResemblesEntries lower ((key, value) :: rest) ((key, value') :: rest')

end

theorem safeItems_take (n : Nat) (items : List Json) :
    safeItems lower n (items.take n) = safeItems lower n items := by
  induction items generalizing n with
  | nil => rw [List.take_nil]
  | cons item rest ih =>
      cases n with
      | zero => rfl
      | succ n =>
          rw [List.take_succ_cons, safeItems, safeItems, ih]

mutual

theorem safeValue_of_alike : ∀ {value value' : Json}, Resembles lower value value' →
    safeValue lower value = safeValue lower value'
  | _, _, .same _ => rfl
  | _, _, .string h => by
      rw [safeValue, safeValue, shortened, shortened, h]
  | .list items, .list items', .list h => by
      have hitems := safeItems_of_alike h 20
      rw [safeItems_take, safeItems_take] at hitems
      rw [safeValue, safeValue, hitems]
  | _, _, .object h => by
      rw [safeValue, safeValue, safeEntries_of_alike h []]

theorem safeItems_of_alike : ∀ {items items' : List Json}, ResemblesItems lower items items' →
    ∀ n, safeItems lower n items = safeItems lower n items'
  | _, _, .nil, _ => rfl
  | _, _, .cons _ _, 0 => rfl
  | _, _, .cons hitem hrest, n + 1 => by
      rw [safeItems, safeItems, safeValue_of_alike hitem, safeItems_of_alike hrest]

theorem safeEntries_of_alike : ∀ {entries entries' : List (String × Json)},
    ResemblesEntries lower entries entries' →
    ∀ safe, safeEntries lower safe entries = safeEntries lower safe entries'
  | _, _, .nil, _ => rfl
  | _, _, .hidden hkey hrest, safe => by
      rw [safeEntries, safeEntries, if_pos hkey, if_pos hkey, safeEntries_of_alike hrest]
  | _, _, .shown hvalue hrest, safe => by
      rw [safeEntries, safeEntries, safeValue_of_alike hvalue, safeEntries_of_alike hrest]

end

/-- A value in which nothing is left to hide. -/
inductive Safe (lower : String → String) : Json → Prop
  | null : Safe lower .null
  | bool (value : Bool) : Safe lower (.bool value)
  | int (value : Int) : Safe lower (.int value)
  | float (text : String) : Safe lower (.float text)
  | string {value : String} : value.length ≤ 120 → Safe lower (.string value)
  | list {items : List Json} : items.length ≤ 20 → (∀ item ∈ items, Safe lower item) →
      Safe lower (.list items)
  | object {entries : List (String × Json)} : (entries.map Prod.fst).Nodup →
      (∀ entry ∈ entries, sensitive lower entry.1 = true → entry.2 = redacted) →
      (∀ entry ∈ entries, sensitive lower entry.1 = false → Safe lower entry.2) →
      Safe lower (.object entries)

/-- The items of a safe object. -/
structure SafeEntries (lower : String → String) (entries : List (String × Json)) : Prop where
  keys : (entries.map Prod.fst).Nodup
  hidden : ∀ entry ∈ entries, sensitive lower entry.1 = true → entry.2 = redacted
  shown : ∀ entry ∈ entries, sensitive lower entry.1 = false → Safe lower entry.2

theorem safe_redacted : Safe lower redacted :=
  .string (by decide)

theorem length_shortened (value : String) : (shortened value).length ≤ 120 := by
  unfold shortened
  rw [String.length_ofList, List.length_take]
  exact Nat.min_le_left _ _

theorem shortened_of_length {value : String} (h : value.length ≤ 120) : shortened value = value := by
  unfold shortened
  rw [List.take_of_length_le h, String.ofList_toList]

theorem keys_setItem (key : String) (value : Json) (entries : List (String × Json)) :
    (setItem key value entries).map Prod.fst =
      if key ∈ entries.map Prod.fst then entries.map Prod.fst
      else entries.map Prod.fst ++ [key] := by
  induction entries with
  | nil => rfl
  | cons entry rest ih =>
      by_cases heq : entry.1 = key
      · simp [setItem, heq]
      · have hne : key ≠ entry.1 := fun h => heq h.symm
        rw [setItem, if_neg heq, List.map_cons, ih]
        by_cases hmem : key ∈ rest.map Prod.fst
        · simp [hmem]
        · simp [hmem, hne]

theorem mem_setItem {key : String} {value : Json} {entries : List (String × Json)}
    {entry : String × Json} (h : entry ∈ setItem key value entries) :
    entry = (key, value) ∨ entry ∈ entries := by
  induction entries with
  | nil => exact Or.inl (List.mem_singleton.mp h)
  | cons first rest ih =>
      by_cases heq : first.1 = key
      · rw [setItem, if_pos heq] at h
        rcases List.mem_cons.mp h with hnew | hold
        · exact Or.inl hnew
        · exact Or.inr (List.mem_cons_of_mem _ hold)
      · rw [setItem, if_neg heq] at h
        rcases List.mem_cons.mp h with hfirst | hrest
        · exact Or.inr (hfirst ▸ List.mem_cons_self)
        · rcases ih hrest with hnew | hold
          · exact Or.inl hnew
          · exact Or.inr (List.mem_cons_of_mem _ hold)

theorem SafeEntries.setItem {entries : List (String × Json)} (h : SafeEntries lower entries)
    {key : String} {value : Json} (hhidden : sensitive lower key = true → value = redacted)
    (hshown : sensitive lower key = false → Safe lower value) :
    SafeEntries lower (setItem key value entries) where
  keys := by
    rw [keys_setItem]
    split
    · exact h.keys
    · rename_i hnew
      rw [List.nodup_append]
      refine ⟨h.keys, List.pairwise_singleton _ key, fun old hold new hmem => ?_⟩
      rw [List.mem_singleton.mp hmem]
      exact fun heq => hnew (heq ▸ hold)
  hidden entry hentry hkey := by
    rcases mem_setItem hentry with rfl | hold
    · exact hhidden hkey
    · exact h.hidden entry hold hkey
  shown entry hentry hkey := by
    rcases mem_setItem hentry with rfl | hold
    · exact hshown hkey
    · exact h.shown entry hold hkey

mutual

theorem safe_safeValue : ∀ value, Safe lower (safeValue lower value)
  | .object entries => by
      have hsafe := safe_safeEntries entries
        (show SafeEntries lower [] from ⟨List.nodup_nil, by simp, by simp⟩)
      rw [safeValue]
      exact .object hsafe.keys hsafe.hidden hsafe.shown
  | .list items => by
      obtain ⟨hlength, hsafe⟩ := safe_safeItems items 20
      rw [safeValue]
      exact .list hlength hsafe
  | .string value => by
      rw [safeValue]
      exact .string (length_shortened value)
  | .null => by
      rw [safeValue]
      exact .null
  | .bool value => by
      rw [safeValue]
      exact .bool value
  | .int value => by
      rw [safeValue]
      exact .int value
  | .float text => by
      rw [safeValue]
      exact .float text
  | .other _ => by
      rw [safeValue]
      exact safe_redacted

theorem safe_safeItems : ∀ items n, (safeItems lower n items).length ≤ n ∧
    ∀ item ∈ safeItems lower n items, Safe lower item
  | [], n => ⟨Nat.zero_le n, by simp [safeItems]⟩
  | _ :: _, 0 => ⟨Nat.zero_le 0, by simp [safeItems]⟩
  | item :: rest, n + 1 => by
      obtain ⟨hlength, hsafe⟩ := safe_safeItems rest n
      rw [safeItems]
      constructor
      · exact Nat.succ_le_succ hlength
      · intro other hother
        rcases List.mem_cons.mp hother with rfl | hrest
        · exact safe_safeValue item
        · exact hsafe other hrest

theorem safe_safeEntries : ∀ entries {safe}, SafeEntries lower safe →
    SafeEntries lower (safeEntries lower safe entries)
  | [], _, h => h
  | (key, value) :: rest, safe, h => by
      rw [safeEntries]
      refine safe_safeEntries rest (h.setItem (fun hkey => ?_) fun hkey => ?_)
      · rw [if_pos hkey]
      · rw [if_neg (by simp [hkey])]
        exact safe_safeValue value

end

theorem safeItems_of_fixed {items : List Json} {n : Nat} (hlength : items.length ≤ n)
    (h : ∀ item ∈ items, safeValue lower item = item) : safeItems lower n items = items := by
  induction items generalizing n with
  | nil => rfl
  | cons item rest ih =>
      cases n with
      | zero => cases hlength
      | succ n =>
          have hrest := ih (Nat.le_of_succ_le_succ hlength) fun other hother =>
            h other (List.mem_cons_of_mem _ hother)
          rw [safeItems, h item List.mem_cons_self, hrest]

theorem setItem_of_new {key : String} {value : Json} {entries : List (String × Json)}
    (h : key ∉ entries.map Prod.fst) : setItem key value entries = entries ++ [(key, value)] := by
  induction entries with
  | nil => rfl
  | cons entry rest ih =>
      simp only [List.map_cons, List.mem_cons, not_or] at h
      rw [setItem, if_neg (Ne.symm h.1), ih h.2, List.cons_append]

theorem safeEntries_of_fixed {entries safe : List (String × Json)}
    (hkeys : ((safe ++ entries).map Prod.fst).Nodup)
    (h : ∀ entry ∈ entries,
      (if sensitive lower entry.1 then redacted else safeValue lower entry.2) = entry.2) :
    safeEntries lower safe entries = safe ++ entries := by
  induction entries generalizing safe with
  | nil => rw [safeEntries, List.append_nil]
  | cons entry rest ih =>
      obtain ⟨key, value⟩ := entry
      have hnew : key ∉ safe.map Prod.fst := by
        rw [List.map_append, List.nodup_append] at hkeys
        exact fun hmem => hkeys.2.2 key hmem key List.mem_cons_self rfl
      rw [safeEntries, h (key, value) List.mem_cons_self, setItem_of_new hnew, ih]
      · rw [List.append_assoc, List.singleton_append]
      · rwa [List.append_assoc, List.singleton_append]
      · exact fun other hother => h other (List.mem_cons_of_mem _ hother)

/-- What is safe is not changed again. -/
theorem safeValue_of_safe {value : Json} (h : Safe lower value) : safeValue lower value = value := by
  induction h with
  | null => rw [safeValue]
  | bool value => rw [safeValue]
  | int value => rw [safeValue]
  | float text => rw [safeValue]
  | string hlength => rw [safeValue, shortened_of_length hlength]
  | list hlength _ ih => rw [safeValue, safeItems_of_fixed hlength ih]
  | @object entries hkeys hhidden _ ih =>
      have hfixed : safeEntries lower [] entries = [] ++ entries := by
        refine safeEntries_of_fixed hkeys fun entry hentry => ?_
        by_cases hkey : sensitive lower entry.1 = true
        · rw [if_pos hkey, hhidden entry hentry hkey]
        · rw [if_neg hkey, ih entry hentry (by simpa using hkey)]
      rw [safeValue, hfixed, List.nil_append]

/-- `part` is the value `whole` or stands somewhere in it. -/
inductive Occurs (part : Json) : Json → Prop
  | self : Occurs part part
  | item {items : List Json} {item : Json} : item ∈ items → Occurs part item →
      Occurs part (.list items)
  | entry {entries : List (String × Json)} {entry : String × Json} : entry ∈ entries →
      Occurs part entry.2 → Occurs part (.object entries)

theorem Safe.of_occurs {part whole : Json} (hoccurs : Occurs part whole) (h : Safe lower whole) :
    Safe lower part := by
  induction hoccurs with
  | self => exact h
  | item hmem _ ih =>
      cases h with
      | list _ hitems => exact ih (hitems _ hmem)
  | @entry entries entry hmem _ ih =>
      cases h with
      | object _ hhidden hshown =>
          by_cases hkey : sensitive lower entry.1 = true
          · rw [hhidden entry hmem hkey] at ih
            exact ih safe_redacted
          · exact ih (hshown entry hmem (by simpa using hkey))

theorem mem_keys_safeEntries {entries safe : List (String × Json)} {key : String} :
    key ∈ (safeEntries lower safe entries).map Prod.fst ↔
      key ∈ safe.map Prod.fst ∨ key ∈ entries.map Prod.fst := by
  induction entries generalizing safe with
  | nil => simp [safeEntries]
  | cons entry rest ih =>
      obtain ⟨first, value⟩ := entry
      rw [safeEntries, ih, keys_setItem]
      split
      · rename_i hold
        constructor
        · rintro (hsafe | hrest)
          · exact Or.inl hsafe
          · exact Or.inr (List.mem_cons_of_mem _ hrest)
        · rintro (hsafe | hentries)
          · exact Or.inl hsafe
          · rcases List.mem_cons.mp hentries with rfl | hrest
            · exact Or.inl hold
            · exact Or.inr hrest
      · simp [or_assoc]

/-- What a redacted value may be. -/
structure Hidden (lower : String → String) (value : Json) : Prop where
  strings : ∀ text, value = .string text → text.length ≤ 120
  lists : ∀ items, value = .list items → items.length ≤ 20
  entries : ∀ entries, value = .object entries →
    ∀ entry ∈ entries, sensitive lower entry.1 = true → entry.2 = redacted

theorem Safe.hidden {value : Json} (h : Safe lower value) : Hidden lower value where
  strings text heq := by
    subst heq
    cases h with
    | string hlength => exact hlength
  lists items heq := by
    subst heq
    cases h with
    | list hlength _ => exact hlength
  entries entries heq := by
    subst heq
    cases h with
    | object _ hhidden _ => exact hhidden

/-- Metadata that differ only under sensitive keys or past the limits are shown alike; the keys
stay, everything shown keeps to the limits and shows nothing under a sensitive key, and showing
it again changes nothing. -/
theorem metadata_redacted (lower : String → String) :
    (∀ metadata metadata', ResemblesEntries lower metadata metadata' →
      safeMetadata lower metadata = safeMetadata lower metadata') ∧
    ∀ metadata,
      (∀ key, key ∈ (safeMetadata lower metadata).map Prod.fst ↔ key ∈ metadata.map Prod.fst) ∧
      ((safeMetadata lower metadata).map Prod.fst).Nodup ∧
      (∀ part, Occurs part (.object (safeMetadata lower metadata)) → Hidden lower part) ∧
      safeMetadata lower (safeMetadata lower metadata) = safeMetadata lower metadata := by
  refine ⟨fun metadata metadata' h => safeEntries_of_alike h [], fun metadata => ?_⟩
  have hvalue : Json.object (safeMetadata lower metadata) = safeValue lower (.object metadata) := by
    rw [safeValue]
    rfl
  have hsafe : Safe lower (.object (safeMetadata lower metadata)) := by
    rw [hvalue]
    exact safe_safeValue _
  refine ⟨fun key => ?_, ?_, fun part hpart => (hsafe.of_occurs hpart).hidden, ?_⟩
  · unfold safeMetadata
    rw [mem_keys_safeEntries]
    simp
  · cases hsafe with
    | object hkeys _ _ => exact hkeys
  · have hfixed := safeValue_of_safe hsafe
    rw [safeValue] at hfixed
    exact Json.object.inj hfixed

/-- An object in a list in an object. -/
example : safeMetadata (fun key => key)
    [("attempts", .list [.object [("reason", .string "late"), ("phone", .string "+4912345")]]),
      ("ip", .string "10.0.0.1")] =
    [("attempts", .list [.object [("reason", .string "late"), ("phone", redacted)]]),
      ("ip", redacted)] := by
  rfl

end AuthCore
