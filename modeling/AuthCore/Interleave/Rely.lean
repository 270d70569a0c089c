/-
A rely condition for each call and a weakest precondition under it.  Every
rule about locks is proved here once: what a transaction has read under a
lock is still the committed value when it commits.
-/
import AuthCore.Interleave.Machine

namespace Interleave

variable {D : Type}

/-- `inv` holds between any two steps.  `rely i` is what the other calls and
the clock may do while call `i` is between two of its steps.  `idle i` is what
holds as long as call `i` has not been made and `final i` what holds from its
return on. -/
structure Protocol (D X : Type) where
  inv : Core D X → Prop
  rely : Nat → Core D X → Core D X → Prop
  idle : Nat → Core D X → Prop
  final : Nat → Core D X → Prop
  rely_refl : ∀ i c, rely i c c
  rely_trans : ∀ {i c c' c''}, rely i c c' → rely i c' c'' → rely i c c''
  idle_stable : ∀ {i c c'}, rely i c c' → idle i c → idle i c'
  final_stable : ∀ {i c c'}, rely i c c' → final i c → final i c'

variable {L : Rows D} {X ε α β : Type}

namespace Protocol

variable (P : Protocol D X)

/-- A step of call `i` that the protocol accepts. -/
def Allows (i : Nat) (c c' : Core D X) : Prop :=
  P.inv c' ∧ ∀ j, j ≠ i → P.rely j c c'

/-- What a transaction has read under its locks is still committed. -/
def Current (seen : List ((row : L.Row) × L.View row)) (d : D) : Prop :=
  ∀ entry ∈ seen, L.view entry.1 d = entry.2

/-- A state call `i` can find itself in after waiting in `c`. -/
def Later (i : Nat) (c c' : Core D X) : Prop :=
  P.rely i c c' ∧ P.inv c'

/-- The precondition of the rest of a transaction of call `i` that has read
`seen` under its locks and has the uncommitted changes `pending`. -/
def wpTx (i : Nat) (note : Nat → β → X → X) (K : Except (Fault ε) β → Core D X → Prop) :
    List ((row : L.Row) × L.View row) → (D → D) → Tx L X ε β → Core D X → Prop
  | seen, pending, .ret a, c => ∀ c', P.Later i c c' → Current seen c'.db →
      P.Allows i c' ⟨pending c'.db, note i a c'.store⟩ ∧
        K (.ok a) ⟨pending c'.db, note i a c'.store⟩
  | _, _, .raise fault, c => K (.error fault) c
  | seen, pending, .select query selected body, c =>
      ∀ c', P.Later i c c' → Current seen c'.db →
        P.Allows i c' ⟨c'.db, selected i (query (pending c'.db)) c'.store⟩ ∧
        wpTx i note K seen pending (body (query (pending c'.db)))
          ⟨c'.db, selected i (query (pending c'.db)) c'.store⟩
  | seen, pending, .lock row body, c =>
      (∀ c', P.Later i c c' → Current seen c'.db →
        wpTx i note K (⟨row, L.view row c'.db⟩ :: seen) pending
          (body (L.view row c'.db)) c') ∧
      K (.error .deadlock) c
  | seen, pending, .write change body, c =>
      wpTx i note K seen (change.apply ∘ pending) body c ∧ K (.error .deadlock) c

/-- The precondition of the rest of call `i`: every step keeps the protocol
and the end meets `Q` or, for an exception, `E`. -/
def wp (i : Nat) (Q : α → Core D X → Prop) (E : ε → Core D X → Prop) :
    Prog L X ε α → Core D X → Prop
  | .done a, c => Q a c
  | .raise e, c => E e c
  | .act f k, c => ∀ c', P.Later i c c' → ∀ answer ∈ f i c'.db c'.store,
      P.Allows i c' ⟨c'.db, answer.2⟩ ∧ wp i Q E (k answer.1) ⟨c'.db, answer.2⟩
  | .txn note body k, c => P.wpTx i note (fun r c' => wp i Q E (k r) c') [] id body c

/-- A condition that survives what the other calls do. -/
def Stable (i : Nat) (Q : Core D X → Prop) : Prop :=
  ∀ c c', P.Later i c c' → Q c → Q c'

theorem Later.trans {P : Protocol D X} {i : Nat} {c c' c'' : Core D X}
    (h : P.Later i c c') (h' : P.Later i c' c'') : P.Later i c c'' :=
  ⟨P.rely_trans h.1 h'.1, h'.2⟩

theorem Later.refl {P : Protocol D X} {i : Nat} {c : Core D X} (h : P.inv c) :
    P.Later i c c :=
  ⟨P.rely_refl i c, h⟩

theorem Current.cons {seen : List ((row : L.Row) × L.View row)} {d : D}
    (h : Current seen d) (row : L.Row) : Current (⟨row, L.view row d⟩ :: seen) d := by
  intro entry hentry
  rcases List.mem_cons.mp hentry with rfl | hold
  · rfl
  · exact h entry hold

theorem wpTx_stable {i : Nat} {note : Nat → β → X → X}
    {K : Except (Fault ε) β → Core D X → Prop} (hK : ∀ r, P.Stable i (K r))
    (seen : List ((row : L.Row) × L.View row)) (pending : D → D) (body : Tx L X ε β) :
    P.Stable i (P.wpTx i note K seen pending body) := by
  intro c c' hlater hwp
  induction body generalizing seen pending with
  | ret a => exact fun c'' h => hwp c'' (hlater.trans h)
  | raise fault => exact hK _ c c' hlater hwp
  | select query selected body _ => exact fun c'' h => hwp c'' (hlater.trans h)
  | lock row body _ =>
      exact ⟨fun c'' h => hwp.1 c'' (hlater.trans h), hK _ c c' hlater hwp.2⟩
  | write change body ih =>
      exact ⟨ih seen _ hwp.1, hK _ c c' hlater hwp.2⟩

theorem wp_stable {i : Nat} {Q : α → Core D X → Prop} {E : ε → Core D X → Prop}
    (hQ : ∀ a, P.Stable i (Q a)) (hE : ∀ e, P.Stable i (E e)) (p : Prog L X ε α) :
    P.Stable i (P.wp i Q E p) := by
  induction p with
  | done a => exact hQ a
  | raise e => exact hE e
  | act f k _ => exact fun c c' hlater hwp c'' h => hwp c'' (hlater.trans h)
  | txn note body k ih => exact P.wpTx_stable (fun r => ih r) [] id body

theorem wpTx_mono {i : Nat} {note : Nat → β → X → X}
    {K K' : Except (Fault ε) β → Core D X → Prop} (hK : ∀ r c, K r c → K' r c)
    {seen : List ((row : L.Row) × L.View row)} {pending : D → D} {body : Tx L X ε β}
    {c : Core D X} (h : P.wpTx i note K seen pending body c) :
    P.wpTx i note K' seen pending body c := by
  induction body generalizing seen pending c with
  | ret a => exact fun c' hl hs => ⟨(h c' hl hs).1, hK _ _ (h c' hl hs).2⟩
  | raise fault => exact hK _ _ h
  | select query selected body ih =>
      exact fun c' hl hs => ⟨(h c' hl hs).1, ih _ (h c' hl hs).2⟩
  | lock row body ih => exact ⟨fun c' hl hs => ih _ (h.1 c' hl hs), hK _ _ h.2⟩
  | write change body ih => exact ⟨ih h.1, hK _ _ h.2⟩

theorem wp_mono {i : Nat} {Q Q' : α → Core D X → Prop} {E E' : ε → Core D X → Prop}
    (hQ : ∀ a c, Q a c → Q' a c) (hE : ∀ e c, E e c → E' e c) {p : Prog L X ε α}
    {c : Core D X} (h : P.wp i Q E p c) : P.wp i Q' E' p c := by
  induction p generalizing c with
  | done a => exact hQ _ _ h
  | raise e => exact hE _ _ h
  | act f k ih => exact fun c' hl answer hmem =>
      ⟨(h c' hl answer hmem).1, ih _ (h c' hl answer hmem).2⟩
  | txn note body k ih => exact P.wpTx_mono (fun r c' hr => ih r hr) h

/-- Sequencing: the rest of the call is the postcondition of its beginning. -/
theorem wp_bind {i : Nat} {Q : β → Core D X → Prop} {E : ε → Core D X → Prop}
    {p : Prog L X ε α} {f : α → Prog L X ε β} {c : Core D X}
    (h : P.wp i (fun a => P.wp i Q E (f a)) E p c) : P.wp i Q E (p >>= f) c := by
  change P.wp i Q E (p.bind f) c
  induction p generalizing c with
  | done a => exact h
  | raise e => exact h
  | act g k ih => exact fun c' hl answer hmem =>
      ⟨(h c' hl answer hmem).1, ih _ (h c' hl answer hmem).2⟩
  | txn note body k ih => exact P.wpTx_mono (fun r c' hr => ih r hr) h

/-- The outcome of running `body` alone on the database it commits to. -/
def Outcome (i : Nat) (note : Nat → β → X → X) (K : Except (Fault ε) β → Core D X → Prop)
    (pending : D → D) (body : Tx L X ε β) (c : Core D X) : Prop :=
  match body.alone c.db pending with
  | .ok (a, change) => P.Allows i c ⟨change c.db, note i a c.store⟩ ∧
      K (.ok a) ⟨change c.db, note i a c.store⟩
  | .error fault => K (.error fault) c

/-- A transaction that reads only rows it has locked is atomic: it is enough
to look at it running alone on the database it commits to. -/
theorem wpTx_of_lockOnly {i : Nat} {note : Nat → β → X → X}
    {K : Except (Fault ε) β → Core D X → Prop}
    {seen : List ((row : L.Row) × L.View row)} {pending : D → D} {body : Tx L X ε β}
    {c : Core D X} (hbody : body.LockOnly) (hinv : P.inv c) (hseen : Current seen c.db)
    (hrun : ∀ c', P.Later i c c' → Current seen c'.db →
      P.Outcome i note K pending body c')
    (hdead : ∀ c', P.Later i c c' → K (.error .deadlock) c') :
    P.wpTx i note K seen pending body c := by
  induction body generalizing seen pending c with
  | ret a => exact hrun
  | raise fault => exact hrun c (Later.refl hinv) hseen
  | select query selected body _ => exact hbody.elim
  | lock row body ih =>
      refine ⟨fun c' hlater hcur => ?_, hdead c (Later.refl hinv)⟩
      refine ih _ (hbody _) hlater.2 (hcur.cons row) ?_
        fun c'' h => hdead c'' (hlater.trans h)
      intro c'' hlater' hcur'
      have hview : L.view row c''.db = L.view row c'.db :=
        hcur' ⟨row, L.view row c'.db⟩ List.mem_cons_self
      have hold := hrun c'' (hlater.trans hlater')
        fun entry hentry => hcur' entry (List.mem_cons_of_mem _ hentry)
      simpa only [Outcome, Tx.alone, hview] using hold
  | write change body ih =>
      exact ⟨ih hbody hinv hseen hrun hdead, hdead c (Later.refl hinv)⟩

/-- The same for the beginning of a transaction: whatever database the rest
commits to, the beginning would have answered the same on it. -/
theorem wpTx_bind_lockOnly {γ : Type} {i : Nat} {note : Nat → β → X → X}
    {K : Except (Fault ε) β → Core D X → Prop}
    {seen : List ((row : L.Row) × L.View row)} {pending : D → D} {body : Tx L X ε γ}
    {k : γ → Tx L X ε β} {c : Core D X} (hbody : body.LockOnly) (hinv : P.inv c)
    (hseen : Current seen c.db)
    (hrest : ∀ c' a seen' pending', P.Later i c c' → Current seen' c'.db →
      (∀ d, Current seen' d → Current seen d ∧
        body.alone d pending = .ok (a, pending')) →
      P.wpTx i note K seen' pending' (k a) c')
    (hfault : ∀ fault c', P.Later i c c' → K (.error fault) c') :
    P.wpTx i note K seen pending (body >>= k) c := by
  change P.wpTx i note K seen pending (body.bind k) c
  induction body generalizing seen pending c with
  | ret a =>
      exact hrest c a seen pending (Later.refl hinv) hseen fun d hd => ⟨hd, rfl⟩
  | raise fault => exact hfault fault c (Later.refl hinv)
  | select query selected body _ => exact hbody.elim
  | lock row body ih =>
      refine ⟨fun c' hlater hcur => ?_, hfault _ c (Later.refl hinv)⟩
      refine ih _ (hbody _) hlater.2 (hcur.cons row) ?_
        fun fault c'' h => hfault fault c'' (hlater.trans h)
      intro c'' a seen' pending' hlater' hcur' hsame
      refine hrest c'' a seen' pending' (hlater.trans hlater') hcur' fun d hd => ?_
      obtain ⟨hold, halone⟩ := hsame d hd
      have hview : L.view row d = L.view row c'.db :=
        hold ⟨row, L.view row c'.db⟩ List.mem_cons_self
      refine ⟨fun entry hentry => hold entry (List.mem_cons_of_mem _ hentry), ?_⟩
      simpa only [Tx.alone, hview] using halone
  | write change body ih =>
      exact ⟨ih hbody hinv hseen hrest hfault, hfault _ c (Later.refl hinv)⟩

end Protocol

end Interleave
