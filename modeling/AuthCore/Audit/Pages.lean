/-
The pages of an audit search from the first to the last, while the table grows.
A position is carried from page to page: what stands before it has been
returned, and every page moves it on.
-/
import AuthCore.Audit.Cursor
import AuthCore.Model.Sample
import Mathlib.Logic.Relation
import Mathlib.Order.OrderIsoNat
import Mathlib.Order.WithBot
import Mathlib.Data.Fintype.Card

namespace AuthCore

open Relational AuditQueryControl AuditRepository

variable {δ ι : Type} [LinearOrder δ] [LinearOrder ι]

/-- Where a record stands in the order of the pages. -/
def AuditRecord.place (record : AuditRecord δ ι) : δ ×ₗ ι :=
  toLex (record.occurredAt, record.auditId)

omit [LinearOrder δ] [LinearOrder ι] in
theorem place_toRecord (entry : ι × AuditRow δ) : (toRecord entry).place = rank entry :=
  rfl

theorem behind_some_iff {position : δ × ι} {id : ι} {row : AuditRow δ} :
    behind (some position) id row = true ↔ rank (id, row) < toLex position := by
  unfold behind rank
  rw [Option.all_some, Prod.Lex.toLex_lt_toLex]
  simp

theorem not_behind_iff {position : Option (δ × ι)} {id : ι} {row : AuditRow δ} :
    behind position id row = false ↔ ∃ p, position = some p ∧ toLex p ≤ rank (id, row) := by
  cases position with
  | none => simp [behind]
  | some p =>
      rw [← not_iff_not, Bool.not_eq_false, behind_some_iff]
      simp

/-- One page of the rows that match behind a position. -/
structure Paged (forms : TextForms δ ι) (table : Table ι (AuditRow δ))
    (filters : AuditSearchFilter δ) (position : Option (δ × ι)) (limit : Nat)
    (page : AuditPage δ ι) : Prop where
  length : page.items.length ≤ limit
  ordered : page.items.Pairwise fun r s => s.place < r.place
  known : ∀ item ∈ page.items, ∃ row, table.get item.auditId = some row ∧
    behind position item.auditId row = true ∧ item = toRecord (item.auditId, row)
  last : page.nextCursor = none → ∀ id row, table.get id = some row →
    conditions filters row = true → behind position id row = true →
    toRecord (id, row) ∈ page.items
  next : ∀ text, page.nextCursor = some text → ∃ item ∈ page.items,
    text = encodeCursor forms item.occurredAt item.auditId ∧
    (∀ other ∈ page.items, item.place ≤ other.place) ∧
    ∀ id row, table.get id = some row → conditions filters row = true →
      behind position id row = true → toRecord (id, row) ∈ page.items ∨ rank (id, row) < item.place

section Page

variable {forms : TextForms δ ι} {table : Table ι (AuditRow δ)} {filters : AuditSearchFilter δ}
  {position : Option (δ × ι)} {limit : Nat}

/-- The rows that the query of a page is about. -/
def matching (table : Table ι (AuditRow δ)) (filters : AuditSearchFilter δ)
    (position : Option (δ × ι)) : List (ι × AuditRow δ) :=
  table.select fun id row => conditions filters row && behind position id row

theorem mem_matching {entry : ι × AuditRow δ} : entry ∈ matching table filters position ↔
    table.get entry.1 = some entry.2 ∧ conditions filters entry.2 = true ∧
      behind position entry.1 entry.2 = true := by
  obtain ⟨id, row⟩ := entry
  unfold matching
  rw [Table.mem_select, Bool.and_eq_true]

theorem nodup_ranks : ((matching table filters position).map rank).Nodup := by
  have hkeys : ((matching table filters position).map Prod.fst).Nodup :=
    Table.nodup_keys_select _ table
  rw [List.Nodup, List.pairwise_map] at hkeys ⊢
  exact hkeys.imp fun hne heq => hne (congrArg Prod.snd (toLex.injective heq))

/-- One row more than the page holds tells whether there is a next one. -/
theorem page_of_search {actor correlationId : Uuid} {id : ι} {now : δ} :
    (searchAuditLogs forms table actor filters position limit correlationId id now).1 =
      ⟨((ranked rank (matching table filters position)).take limit).map toRecord,
        match ((ranked rank (matching table filters position)).take limit).getLast? with
        | none => none
        | some last => if limit < (ranked rank (matching table filters position)).length then
            some (encodeCursor forms last.2.occurredAt last.1) else none⟩ := by
  have hquery : (table.select fun id row => conditions filters row && behind position id row) =
      matching table filters position := rfl
  generalize hall : ranked rank (matching table filters position) = all
  have htake : (all.take (limit + 1)).take limit = all.take limit := by
    rw [List.take_take, Nat.min_eq_left (Nat.le_succ limit)]
  have hmore : limit < (all.take (limit + 1)).length ↔ limit < all.length := by
    rw [List.length_take]
    omega
  unfold searchAuditLogs
  dsimp only
  rw [hquery, hall, htake]
  cases (all.take limit).getLast? with
  | none => rfl
  | some last => simp only [hmore, decide_eq_true_eq]

theorem paged_of_search (hlimit : 1 ≤ limit) {actor correlationId : Uuid} {id : ι} {now : δ} :
    Paged forms table filters position limit
      (searchAuditLogs forms table actor filters position limit correlationId id now).1 := by
  set all := ranked rank (matching table filters position)
  have hstrict : (all.take limit).Pairwise fun r s => rank s < rank r :=
    (ranked_strict nodup_ranks).sublist (List.take_sublist _ _)
  have hmem : ∀ entry ∈ all.take limit, entry ∈ matching table filters position :=
    fun entry hentry => mem_ranked.mp (List.mem_of_mem_take hentry)
  rw [page_of_search]
  constructor
  case length =>
    rw [List.length_map, List.length_take]
    exact Nat.min_le_left _ _
  case ordered =>
    rw [List.pairwise_map]
    exact hstrict
  case known =>
    intro item hitem
    obtain ⟨entry, hentry, rfl⟩ := List.mem_map.mp hitem
    obtain ⟨hget, _, hbehind⟩ := mem_matching.mp (hmem entry hentry)
    exact ⟨entry.2, hget, hbehind, rfl⟩
  case last =>
    intro hnone k row hget hmatch hbehind
    have hshort : all.length ≤ limit := by
      by_contra hlong
      dsimp only at hnone
      cases hlast : (all.take limit).getLast? with
      | none =>
          have hnil := congrArg List.length (List.getLast?_eq_none_iff.mp hlast)
          rw [List.length_take, List.length_nil] at hnil
          omega
      | some entry =>
          rw [hlast] at hnone
          dsimp only at hnone
          rw [if_pos (Nat.lt_of_not_le hlong)] at hnone
          cases hnone
    have hall' : (k, row) ∈ all := mem_ranked.mpr (mem_matching.mpr ⟨hget, hmatch, hbehind⟩)
    refine List.mem_map.mpr ⟨(k, row), ?_, rfl⟩
    rwa [List.take_of_length_le hshort]
  case next =>
    intro text htext
    dsimp only at htext
    cases hlast : (all.take limit).getLast? with
    | none =>
        rw [hlast] at htext
        cases htext
    | some entry =>
        rw [hlast] at htext
        dsimp only at htext
        rw [Option.ite_none_right_eq_some] at htext
        have hentry := List.mem_of_getLast? hlast
        refine ⟨toRecord entry, List.mem_map_of_mem hentry, (Option.some.inj htext.2).symm, ?_, ?_⟩
        · intro other hother
          obtain ⟨entry', hentry', rfl⟩ := List.mem_map.mp hother
          rw [place_toRecord, place_toRecord]
          obtain ⟨rest, hsplit⟩ := List.getLast?_eq_some_iff.mp hlast
          rw [hsplit] at hentry' hstrict
          rcases List.mem_append.mp hentry' with hrest | hself
          · rw [List.pairwise_append] at hstrict
            exact (hstrict.2.2 entry' hrest entry List.mem_cons_self).le
          · rw [List.mem_singleton.mp hself]
        · intro k row hget hmatch hbehind
          rcases on_page_or_behind nodup_ranks limit
            (mem_matching.mpr ⟨hget, hmatch, hbehind⟩ :
              (k, row) ∈ matching table filters position) with hon | hafter
          · exact Or.inl (List.mem_map.mpr ⟨(k, row), hon, rfl⟩)
          · exact Or.inr (hafter entry hentry)

end Page

/-- A search from page to page: the table, the cursor of the next search, the
pages so far with the last one first, and whether there is no next page. -/
structure Walk (δ ι : Type) where
  table : Table ι (AuditRow δ)
  cursor : Option String
  pages : List (AuditPage δ ι)
  done : Bool

namespace Walk

def start (table : Table ι (AuditRow δ)) : Walk δ ι :=
  ⟨table, none, [], false⟩

def items (w : Walk δ ι) : List (AuditRecord δ ι) :=
  w.pages.reverse.flatMap AuditPage.items

/-- Records are appended and never changed or removed. -/
def Grows (table table' : Table ι (AuditRow δ)) : Prop :=
  ∀ id row, table.get id = some row → table'.get id = some row

variable (forms : TextForms δ ι) (lower : String → String)
  (staffHasRole : Uuid → StaffRole → Bool) (claims : AccessClaims)
  (filters : AuditSearchFilter δ) (limit : Nat)

/-- The next page is searched for, and then others append what they like. -/
inductive Next (w : Walk δ ι) : Walk δ ι → Prop
  | page {page : AuditPage δ ι} {after later : Table ι (AuditRow δ)} {correlationId : Uuid}
      {id : ι} {now : δ} : w.done = false → w.table.get id = none →
      search forms lower staffHasRole w.table claims filters w.cursor limit correlationId id now =
        .ok (page, after) → Grows after later →
      Next w ⟨later, page.nextCursor, page :: w.pages, page.nextCursor.isNone⟩

/-- What has been returned of the records that were there at the start: all that
match and do not stand behind the position of the next search. -/
structure Reading (start : Table ι (AuditRow δ)) (w : Walk δ ι) (position : Option (δ × ι)) :
    Prop where
  read : cursorOf forms w.cursor = .ok position
  before : ∀ item ∈ w.items, behind position item.auditId item.toAuditRow = false
  returned : ∀ id row, start.get id = some row → conditions filters row = true →
    behind position id row = false → redact lower (toRecord (id, row)) ∈ w.items

/-- The invariant of a walk. -/
structure Walked (start : Table ι (AuditRow δ)) (w : Walk δ ι) : Prop where
  grown : Grows start w.table
  known : ∀ item ∈ w.items, ∃ row, w.table.get item.auditId = some row ∧
    item = redact lower (toRecord (item.auditId, row))
  ordered : w.items.Pairwise fun r s => s.place < r.place
  lengths : ∀ page ∈ w.pages, page.items.length ≤ limit
  reading : w.done = false → ∃ position, Reading forms lower filters start w position
  complete : w.done = true → ∀ id row, start.get id = some row → conditions filters row = true →
    redact lower (toRecord (id, row)) ∈ w.items

variable {forms lower staffHasRole claims filters limit}

omit [LinearOrder δ] [LinearOrder ι] in
theorem place_redact (record : AuditRecord δ ι) : (redact lower record).place = record.place :=
  rfl

/-- The search of a reviewer with recent MFA and the role is the search of the
repository, with the metadata redacted. -/
theorem search_eq (hmfa : requireRecentMfa claims = .ok ())
    (hrole : staffHasRole claims.userId .securitySupervisorL3 = true)
    {table : Table ι (AuditRow δ)} {cursor : Option String} {position : Option (δ × ι)}
    (hread : cursorOf forms cursor = .ok position) (correlationId : Uuid) (id : ι) (now : δ) :
    search forms lower staffHasRole table claims filters cursor limit correlationId id now =
      let found := searchAuditLogs forms table claims.userId filters position limit correlationId
        id now
      .ok (⟨found.1.items.map (redact lower), found.1.nextCursor⟩, found.2) := by
  unfold search
  rw [hmfa, hread, hrole]
  rfl

/-- A search from a position, with nothing appended but the record of the search. -/
def searched (forms : TextForms δ ι) (lower : String → String) (claims : AccessClaims)
    (filters : AuditSearchFilter δ) (limit : Nat) (w : Walk δ ι) (position : Option (δ × ι))
    (correlationId : Uuid) (id : ι) (now : δ) : Walk δ ι :=
  let found := searchAuditLogs forms w.table claims.userId filters position limit correlationId
    id now
  ⟨found.2, found.1.nextCursor,
    ⟨found.1.items.map (redact lower), found.1.nextCursor⟩ :: w.pages, found.1.nextCursor.isNone⟩

theorem next_searched (hmfa : requireRecentMfa claims = .ok ())
    (hrole : staffHasRole claims.userId .securitySupervisorL3 = true) {w : Walk δ ι}
    {position : Option (δ × ι)} {correlationId : Uuid} {id : ι} {now : δ} (hopen : w.done = false)
    (hfresh : w.table.get id = none) (hread : cursorOf forms w.cursor = .ok position) :
    Next forms lower staffHasRole claims filters limit w
      (w.searched forms lower claims filters limit position correlationId id now) :=
  .page hopen hfresh (search_eq hmfa hrole hread correlationId id now) fun _ _ hget => hget

omit [LinearOrder δ] [LinearOrder ι] in
theorem cursorOf_encodeCursor (forms : TextForms δ ι) (time : δ) (id : ι) :
    cursorOf forms (some (encodeCursor forms time id)) = .ok (some (time, id)) := by
  unfold cursorOf decodeCursor
  dsimp only
  rw [if_neg (encodeCursor_ne_empty forms time id), readCursor_encodeCursor]
  rfl

omit [LinearOrder δ] in
theorem grows_add (table : Table ι (AuditRow δ)) (id : ι) (row : AuditRow δ) :
    Grows table (table.add id row) := by
  intro k old hget
  rw [Table.get_add, hget]
  rfl

omit [LinearOrder δ] in
theorem Grows.trans {table table' table'' : Table ι (AuditRow δ)} (h : Grows table table')
    (h' : Grows table' table'') : Grows table table'' :=
  fun id row hget => h' id row (h id row hget)

theorem walked_start (table : Table ι (AuditRow δ)) :
    Walked forms lower filters limit table (start table) where
  grown := fun _ _ hget => hget
  known := by simp [start, items]
  ordered := List.Pairwise.nil
  lengths := by simp [start]
  reading _ := ⟨none, rfl, by simp [start, items], fun _ _ _ _ hbehind => by cases hbehind⟩
  complete hdone := by cases hdone

omit [LinearOrder δ] [LinearOrder ι] in
theorem items_cons (w : Walk δ ι) (page : AuditPage δ ι) (table : Table ι (AuditRow δ))
    (cursor : Option String) (done : Bool) :
    (⟨table, cursor, page :: w.pages, done⟩ : Walk δ ι).items = w.items ++ page.items := by
  unfold items
  simp

/-- The bound that a position is for what comes next. -/
def bound : Option (δ × ι) → WithTop (δ ×ₗ ι)
  | none => ⊤
  | some p => WithTop.some (toLex p)

theorem behind_iff_bound {position : Option (δ × ι)} {id : ι} {row : AuditRow δ} :
    behind position id row = true ↔ (rank (id, row) : WithTop (δ ×ₗ ι)) < bound position := by
  cases position with
  | none => simp [behind, bound]
  | some p => rw [behind_some_iff, bound, WithTop.coe_lt_coe]

theorem text_of_open {cursor : Option String} (h : cursor.isNone = false) :
    ∃ text, cursor = some text := by
  cases cursor with
  | none => cases h
  | some text => exact ⟨text, rfl⟩

section Step

variable {t₀ after later : Table ι (AuditRow δ)} {w : Walk δ ι} {page : AuditPage δ ι}
  {position : Option (δ × ι)}

/-- A page and the position behind its last record. -/
theorem position_of_page (hpaged : Paged forms w.table filters position limit page) {text : String}
    (htext : page.nextCursor = some text) :
    ∃ p, cursorOf forms (some text) = .ok (some p) ∧ bound (some p) < bound position ∧
      (∀ item ∈ page.items, toLex p ≤ item.place) ∧
      ∀ id row, w.table.get id = some row → conditions filters row = true →
        behind position id row = true → behind (some p) id row = false →
        toRecord (id, row) ∈ page.items := by
  obtain ⟨last, hlast, rfl, hleast, hrest⟩ := hpaged.next text htext
  obtain ⟨row, _, hbehind, heq⟩ := hpaged.known last hlast
  have hplace : last.place = rank (last.auditId, row) := by
    rw [heq]
    rfl
  refine ⟨(last.occurredAt, last.auditId), cursorOf_encodeCursor forms _ _, ?_, hleast, ?_⟩
  · have hlt := behind_iff_bound.mp hbehind
    rw [← hplace] at hlt
    exact hlt
  · intro id row' hget hmatch hold hnew
    rcases hrest id row' hget hmatch hold with hmem | hlt
    · exact hmem
    · have htrue : behind (some (last.occurredAt, last.auditId)) id row' = true :=
        behind_some_iff.mpr hlt
      rw [hnew] at htrue
      cases htrue

/-- One more page keeps the invariant. -/
theorem Walked.step (hw : Walked forms lower filters limit t₀ w)
    (hreading : Reading forms lower filters t₀ w position)
    (hpaged : Paged forms w.table filters position limit page) (hgrows : Grows w.table later) :
    Walked forms lower filters limit t₀ ⟨later, page.nextCursor,
      ⟨page.items.map (redact lower), page.nextCursor⟩ :: w.pages, page.nextCursor.isNone⟩ := by
  have hnew : ∀ id row, toRecord (id, row) ∈ page.items → redact lower (toRecord (id, row)) ∈
      w.items ++ page.items.map (redact lower) := fun id row hmem =>
    List.mem_append_right _ (List.mem_map_of_mem hmem)
  have hsaid : ∀ id row, t₀.get id = some row → conditions filters row = true →
      behind position id row = false ∨ toRecord (id, row) ∈ page.items →
      redact lower (toRecord (id, row)) ∈ w.items ++ page.items.map (redact lower) := by
    intro id row hget hmatch hcases
    rcases hcases with hbefore | hmem
    · exact List.mem_append_left _ (hreading.returned id row hget hmatch hbefore)
    · exact hnew id row hmem
  constructor
  case grown => exact hw.grown.trans hgrows
  case known =>
    rw [items_cons]
    intro item hitem
    rcases List.mem_append.mp hitem with hold | hmem
    · obtain ⟨row, hget, heq⟩ := hw.known item hold
      exact ⟨row, hgrows _ _ hget, heq⟩
    · obtain ⟨record, hrecord, rfl⟩ := List.mem_map.mp hmem
      obtain ⟨row, hget, _, heq⟩ := hpaged.known record hrecord
      exact ⟨row, hgrows _ _ hget, congrArg (redact lower) heq⟩
  case ordered =>
    rw [items_cons, List.pairwise_append, List.pairwise_map]
    refine ⟨hw.ordered, hpaged.ordered, fun old hold item hitem => ?_⟩
    obtain ⟨record, hrecord, rfl⟩ := List.mem_map.mp hitem
    obtain ⟨row, _, hbehind, heq⟩ := hpaged.known record hrecord
    obtain ⟨p, rfl, hle⟩ := not_behind_iff.mp (hreading.before old hold)
    have hlt : rank (record.auditId, row) < toLex p := behind_some_iff.mp hbehind
    have hplace : record.place = rank (record.auditId, row) := by
      rw [heq]
      rfl
    rw [place_redact, hplace]
    exact hlt.trans_le hle
  case lengths =>
    intro other hother
    rcases List.mem_cons.mp hother with rfl | hold
    · rw [List.length_map]
      exact hpaged.length
    · exact hw.lengths other hold
  case reading =>
    intro hopen
    obtain ⟨text, htext⟩ := text_of_open hopen
    obtain ⟨p, hread, hlt, hleast, hrest⟩ := position_of_page hpaged htext
    refine ⟨some p, ⟨by rw [htext]; exact hread, ?_, ?_⟩⟩
    · rw [items_cons]
      intro item hitem
      rcases List.mem_append.mp hitem with hold | hmem
      · obtain ⟨q, rfl, hle⟩ := not_behind_iff.mp (hreading.before item hold)
        exact not_behind_iff.mpr ⟨p, rfl, (WithTop.coe_lt_coe.mp hlt).le.trans hle⟩
      · obtain ⟨record, hrecord, rfl⟩ := List.mem_map.mp hmem
        exact not_behind_iff.mpr ⟨p, rfl, hleast record hrecord⟩
    · rw [items_cons]
      intro id row hget hmatch hbehind
      refine hsaid id row hget hmatch ?_
      cases hold : behind position id row with
      | false => exact Or.inl rfl
      | true => exact Or.inr (hrest id row (hw.grown id row hget) hmatch hold hbehind)
  case complete =>
    intro hdone id row hget hmatch
    rw [items_cons]
    refine hsaid id row hget hmatch ?_
    cases hold : behind position id row with
    | false => exact Or.inl rfl
    | true =>
        exact Or.inr (hpaged.last (Option.isNone_iff_eq_none.mp hdone) id row
          (hw.grown id row hget) hmatch hold)

end Step

section Runs

variable {t₀ : Table ι (AuditRow δ)} {w w' : Walk δ ι}

/-- A search of a walk: the invariant is kept and the position moves on. -/
theorem Walked.next (hmfa : requireRecentMfa claims = .ok ())
    (hrole : staffHasRole claims.userId .securitySupervisorL3 = true) (hlimit : 1 ≤ limit)
    (hw : Walked forms lower filters limit t₀ w)
    (h : Next forms lower staffHasRole claims filters limit w w') :
    ∃ position, cursorOf forms w.cursor = .ok position ∧
      Walked forms lower filters limit t₀ w' ∧
      (w'.done = false → ∃ p, cursorOf forms w'.cursor = .ok (some p) ∧
        bound (some p) < bound position) := by
  cases h with
  | @page page after later correlationId id now hopen hfresh hsearch hgrows =>
      obtain ⟨position, hreading⟩ := hw.reading hopen
      rw [search_eq hmfa hrole hreading.read] at hsearch
      dsimp only at hsearch
      obtain ⟨rfl, rfl⟩ := Prod.mk.inj (Except.ok.inj hsearch)
      have hpaged : Paged forms w.table filters position limit
          (searchAuditLogs forms w.table claims.userId filters position limit correlationId
            id now).1 := paged_of_search hlimit
      refine ⟨position, hreading.read, hw.step hreading hpaged ?_, fun hopen' => ?_⟩
      · exact (grows_add _ _ _).trans hgrows
      · dsimp only at hopen' ⊢
        obtain ⟨text, htext⟩ := text_of_open hopen'
        obtain ⟨p, hread, hlt, _, _⟩ := position_of_page hpaged htext
        exact ⟨p, by rw [htext]; exact hread, hlt⟩

theorem Next.opened (h : Next forms lower staffHasRole claims filters limit w w') :
    w.done = false := by
  cases h with
  | page hopen _ _ _ => exact hopen

theorem walked_of_run (hmfa : requireRecentMfa claims = .ok ())
    (hrole : staffHasRole claims.userId .securitySupervisorL3 = true) (hlimit : 1 ≤ limit)
    (h : Relation.ReflTransGen (Next forms lower staffHasRole claims filters limit) (start t₀) w) :
    Walked forms lower filters limit t₀ w := by
  induction h with
  | refl => exact walked_start t₀
  | tail _ hnext ih =>
      obtain ⟨_, _, hw, _⟩ := ih.next hmfa hrole hlimit hnext
      exact hw

/-- No search goes on forever. -/
theorem no_endless_walk [Finite δ] [Finite ι] (hmfa : requireRecentMfa claims = .ok ())
    (hrole : staffHasRole claims.userId .securitySupervisorL3 = true) (hlimit : 1 ≤ limit)
    (walk : Nat → Walk δ ι) (hstart : walk 0 = start t₀)
    (hnext : ∀ n, Next forms lower staffHasRole claims filters limit (walk n) (walk (n + 1))) :
    False := by
  have hwalked : ∀ n, Walked forms lower filters limit t₀ (walk n) := by
    intro n
    induction n with
    | zero =>
        rw [hstart]
        exact walked_start t₀
    | succ n ih =>
        obtain ⟨_, _, hw, _⟩ := ih.next hmfa hrole hlimit (hnext n)
        exact hw
  have hopen : ∀ n, (walk n).done = false := fun n => (hnext n).opened
  have hposition : ∀ n, ∃ position, cursorOf forms (walk n).cursor = .ok position := fun n => by
    obtain ⟨position, hreading⟩ := (hwalked n).reading (hopen n)
    exact ⟨position, hreading.read⟩
  choose position hread using hposition
  apply not_strictAnti_of_wellFoundedLT fun n => bound (position n)
  apply strictAnti_nat_of_succ_lt
  intro n
  obtain ⟨before, hbefore, _, hmoves⟩ := (hwalked n).next hmfa hrole hlimit (hnext n)
  obtain ⟨p, hafter, hlt⟩ := hmoves (hopen (n + 1))
  rw [hread n] at hbefore
  rw [hread (n + 1)] at hafter
  cases hbefore
  rw [Except.ok.inj hafter]
  exact hlt

/-- Exactly one of the returned records has the identifier. -/
theorem Walked.once (hw : Walked forms lower filters limit t₀ w) {id : ι} {row : AuditRow δ}
    (hget : t₀.get id = some row) (hmem : redact lower (toRecord (id, row)) ∈ w.items) :
    w.items.filter (fun item => decide (item.auditId = id)) =
      [redact lower (toRecord (id, row))] := by
  have hall : ∀ item ∈ w.items.filter (fun item => decide (item.auditId = id)),
      item = redact lower (toRecord (id, row)) := by
    intro item hitem
    obtain ⟨hitem, hid⟩ := List.mem_filter.mp hitem
    obtain ⟨row', hget', heq⟩ := hw.known item hitem
    rw [of_decide_eq_true hid, hw.grown id row hget] at hget'
    rw [of_decide_eq_true hid] at heq
    cases hget'
    exact heq
  have hpairwise := hw.ordered.filter fun item => decide (item.auditId = id)
  have hmem' : redact lower (toRecord (id, row)) ∈
      w.items.filter (fun item => decide (item.auditId = id)) :=
    List.mem_filter.mpr ⟨hmem, decide_eq_true rfl⟩
  generalize w.items.filter (fun item => decide (item.auditId = id)) = found at *
  match found with
  | [] => cases hmem'
  | [item] => rw [hall item List.mem_cons_self]
  | item :: other :: rest =>
      have hlt := (List.pairwise_cons.mp hpairwise).1 other List.mem_cons_self
      rw [hall item List.mem_cons_self, hall other (by simp)] at hlt
      exact absurd hlt (lt_irrefl _)

end Runs

end Walk

/-- Following the cursors of a search, whatever others append meanwhile: every search is answered,
there is a last page, and by then every matching record that was there at the start has been
returned exactly once, in strictly descending order and on pages within the limit.  Datetimes and
UUIDs are finitely many. -/
theorem audit_pages [Finite δ] [Finite ι] {forms : TextForms δ ι} {lower : String → String}
    {staffHasRole : Uuid → StaffRole → Bool} {claims : AccessClaims}
    {filters : AuditSearchFilter δ} {limit : Nat} (hmfa : requireRecentMfa claims = .ok ())
    (hrole : staffHasRole claims.userId .securitySupervisorL3 = true) (hlimit : 1 ≤ limit)
    (table : Table ι (AuditRow δ)) :
    (∀ w, Relation.ReflTransGen (Walk.Next forms lower staffHasRole claims filters limit)
        (Walk.start table) w → w.done = false → ∀ correlationId id now, ∃ page after,
      search forms lower staffHasRole w.table claims filters w.cursor limit correlationId id now =
        .ok (page, after)) ∧
    (¬∃ walk : Nat → Walk δ ι, walk 0 = Walk.start table ∧
      ∀ n, Walk.Next forms lower staffHasRole claims filters limit (walk n) (walk (n + 1))) ∧
    ∀ w, Relation.ReflTransGen (Walk.Next forms lower staffHasRole claims filters limit)
        (Walk.start table) w → w.done = true →
      (w.items.Pairwise fun r s => s.place < r.place) ∧
      (∀ page ∈ w.pages, page.items.length ≤ limit) ∧
      ∀ id row, table.get id = some row → conditions filters row = true →
        w.items.filter (fun item => decide (item.auditId = id)) =
          [redact lower (toRecord (id, row))] := by
  refine ⟨?_, ?_, ?_⟩
  · intro w hrun hopen correlationId id now
    obtain ⟨position, hreading⟩ := (Walk.walked_of_run hmfa hrole hlimit hrun).reading hopen
    exact ⟨_, _, Walk.search_eq hmfa hrole hreading.read correlationId id now⟩
  · rintro ⟨walk, hstart, hnext⟩
    exact Walk.no_endless_walk hmfa hrole hlimit walk hstart hnext
  · intro w hrun hdone
    have hw := Walk.walked_of_run hmfa hrole hlimit hrun
    exact ⟨hw.ordered, hw.lengths, fun id row hget hmatch =>
      hw.once hget (hw.complete hdone id row hget hmatch)⟩

/-- Two instants and four identifiers with their texts. -/
def sampleForms : TextForms (Fin 2) (Fin 4) where
  isoformat time := if time = 0 then "2026-01-01T00:00:00+00:00" else "2026-01-01T00:00:01+00:00"
  fromisoformat text :=
    if text = "2026-01-01T00:00:00+00:00" then some (.aware 0)
    else if text = "2026-01-01T00:00:01+00:00" then some (.aware 1) else none
  uuidText id :=
    ["00000000-0000-4000-8000-000000000000", "00000000-0000-4000-8000-000000000001",
      "00000000-0000-4000-8000-000000000002", "00000000-0000-4000-8000-000000000003"].getD id ""
  uuid text := (["00000000-0000-4000-8000-000000000000", "00000000-0000-4000-8000-000000000001",
    "00000000-0000-4000-8000-000000000002", "00000000-0000-4000-8000-000000000003"].idxOf?
      text).map (Fin.ofNat 4)
  fromisoformat_isoformat := by decide
  uuid_uuidText := by decide
  bar_not_mem := by decide

/-- Two logins at one instant. -/
def sampleAudit : Table (Fin 4) (AuditRow (Fin 2)) :=
  ((∅ : Table (Fin 4) (AuditRow (Fin 2))).add 0
    ⟨none, none, none, "LOGIN", "success", .given 5, [("ip", .string "10.0.0.1")], 0⟩).add 1
    ⟨none, none, none, "LOGIN", "success", .given 6, [], 0⟩

def loginsOnly : AuditSearchFilter (Fin 2) :=
  ⟨none, some "LOGIN", none, none, none⟩

/-- One search of one record a page, with nothing appended but the record of the search. -/
def sampleSearch (w : Walk (Fin 2) (Fin 4)) (position : Option (Fin 2 × Fin 4)) (id : Fin 4) :
    Walk (Fin 2) (Fin 4) :=
  w.searched sampleForms (fun key => key) (strongClaims (.given 1)) loginsOnly 1 position (.given 9)
    id 1

/-- A record on each of two pages. -/
theorem audit_pages_of_two_logins : ∃ w,
    Relation.ReflTransGen (Walk.Next sampleForms (fun key => key) (fun _ _ => true)
      (strongClaims (.given 1)) loginsOnly 1) (Walk.start sampleAudit) w ∧
    w.done = true ∧ w.pages.length = 2 ∧
    (w.items.Pairwise fun r s => s.place < r.place) ∧
    (∀ page ∈ w.pages, page.items.length ≤ 1) ∧
    ∀ id row, sampleAudit.get id = some row → conditions loginsOnly row = true →
      w.items.filter (fun item => decide (item.auditId = id)) =
        [redact (fun key => key) (toRecord (id, row))] := by
  have hmfa : requireRecentMfa (strongClaims (.given 1)) = .ok () := rfl
  set first := sampleSearch (Walk.start sampleAudit) none 2
  set second := sampleSearch first (some (0, 1)) 3
  have hcursor : first.cursor = some (encodeCursor sampleForms 0 1) := rfl
  have hfirst : Walk.Next sampleForms (fun key => key) (fun _ _ => true) (strongClaims (.given 1))
      loginsOnly 1 (Walk.start sampleAudit) first :=
    Walk.next_searched hmfa rfl rfl rfl rfl
  have hsecond : Walk.Next sampleForms (fun key => key) (fun _ _ => true)
      (strongClaims (.given 1)) loginsOnly 1 first second :=
    Walk.next_searched hmfa rfl rfl rfl (hcursor ▸ Walk.cursorOf_encodeCursor _ _ _)
  have hrun := (Relation.ReflTransGen.single hfirst).tail hsecond
  have hdone : second.done = true := rfl
  have hpages := (audit_pages hmfa rfl (Nat.le_refl 1) sampleAudit).2.2 second hrun hdone
  exact ⟨second, hrun, hdone, rfl, hpages⟩

end AuthCore
