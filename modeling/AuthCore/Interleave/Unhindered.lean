/-
Runs in which a call is not hindered: nothing is in its way when it takes a
lock, and no transaction whose failure it does not handle is aborted.  What
such a call leads to is read off its program: the precondition here is that of
`Rely` without these two branches, and without a guarantee.
-/
import AuthCore.Interleave.Soundness

namespace Interleave

variable {D : Type} {L : Rows D} {X ε α β : Type}

/-- The call ends at once with an error. -/
def Prog.Fails : Prog L X ε α → Prop
  | .raise _ => True
  | _ => False

theorem Prog.Fails.bind {p : Prog L X ε α} (h : p.Fails) (f : α → Prog L X ε β) :
    (p >>= f).Fails := by
  cases p with
  | raise e => trivial
  | done a => exact h.elim
  | act g k => exact h.elim
  | txn note body k => exact h.elim

namespace Config

/-- Nothing is in the way of the lock that call `i` takes next. -/
def Unblocked (free : L.Row → D → Prop) (s : Config L X ε α) (i : Nat) : Prop :=
  ∀ (β : Type) (note : Nat → β → X → X) pending row body k,
    s.threads i = some (.inTx note pending (.lock row body) k) → free row s.core.db

/-- Call `i` goes on when its transaction is aborted. -/
def Resumes (s : Config L X ε α) (i : Nat) : Prop :=
  ∀ (β : Type) (note : Nat → β → X → X) pending (body : Tx L X ε β) k,
    s.threads i = some (.inTx note pending body k) → ¬(k (.error .deadlock)).Fails

end Config

/-- The move hinders none of the calls in `who`. -/
def Unhindered {S : Service L X ε α} (free : L.Row → D → Prop) (who : Nat → Core D X → Prop)
    (s : Config L X ε α) : Move S → Prop
  | .step i _ => who i s.core → s.Unblocked free i
  | .abort i => who i s.core → s.Resumes i
  | _ => True

/-- `s` is reached from `c` by moves that all meet `C`. -/
inductive Service.ReachableBy [DecidableEq L.Row] (S : Service L X ε α)
    (C : Config L X ε α → Move S → Prop) (c : Core D X) : Config L X ε α → Prop
  | start : ReachableBy S C c (Service.start c)
  | move {s s' : Config L X ε α} {m : Move S} :
      ReachableBy S C c s → C s m → S.exec s m = some s' → ReachableBy S C c s'

theorem Service.ReachableBy.reachable [DecidableEq L.Row] {S : Service L X ε α}
    {C : Config L X ε α → Move S → Prop} {c : Core D X} {s : Config L X ε α}
    (h : S.ReachableBy C c s) : S.Reachable c s := by
  induction h with
  | start => exact ⟨[], rfl⟩
  | @move _ _ m _ _ hexec ih =>
      obtain ⟨moves, hrun⟩ := ih
      refine ⟨moves ++ [m], ?_⟩
      rw [Service.run_append, hrun]
      simp only [Option.bind_some, Service.run, hexec]

/-- Run the moves as long as they pass a check. -/
def Service.runBy [DecidableEq L.Row] (S : Service L X ε α)
    (check : Config L X ε α → Move S → Bool) (s : Config L X ε α) :
    List (Move S) → Option (Config L X ε α)
  | [] => some s
  | m :: rest =>
      if check s m then (S.exec s m).bind fun s' => runBy S check s' rest else none

/-- A run whose moves all pass exhibits a state reached by such moves. -/
theorem Service.reachableBy_of_runBy [DecidableEq L.Row] {S : Service L X ε α}
    {C : Config L X ε α → Move S → Prop} {check : Config L X ε α → Move S → Bool}
    (hcheck : ∀ s m, check s m = true → C s m) {c : Core D X} {moves : List (Move S)}
    {s s' : Config L X ε α} (hs : S.ReachableBy C c s)
    (hrun : (S.runBy check s moves).isSome = true) (hend : S.run s moves = some s') :
    S.ReachableBy C c s' := by
  induction moves generalizing s with
  | nil =>
      obtain rfl := Option.some.inj hend
      exact hs
  | cons m rest ih =>
      obtain ⟨mid, hexec, hrest⟩ := Option.bind_eq_some_iff.mp hend
      rw [runBy] at hrun
      by_cases hm : check s m = true
      · rw [if_pos hm, hexec] at hrun
        exact ih (hs.move (hcheck s m hm) hexec) hrun hrest
      · rw [if_neg hm] at hrun
        cases hrun

namespace Protocol

variable (P : Protocol D X) (free : L.Row → D → Prop)

/-- The liberal precondition of the rest of a transaction.  `handled` says that
the call goes on when the transaction is aborted. -/
def wlpTx (i : Nat) (note : Nat → β → X → X) (handled : Prop)
    (K : Except (Fault ε) β → Core D X → Prop) : (D → D) → Tx L X ε β → Core D X → Prop
  | pending, .ret a, c => ∀ c', P.Later i c c' →
      P.Allows i c' ⟨pending c'.db, note i a c'.store⟩ →
        K (.ok a) ⟨pending c'.db, note i a c'.store⟩
  | _, .raise fault, c => K (.error fault) c
  | pending, .select query selected body, c => ∀ c', P.Later i c c' →
      P.Allows i c' ⟨c'.db, selected i (query (pending c'.db)) c'.store⟩ →
        wlpTx i note handled K pending (body (query (pending c'.db)))
          ⟨c'.db, selected i (query (pending c'.db)) c'.store⟩
  | pending, .lock row body, c =>
      (∀ c', P.Later i c c' → free row c'.db →
        wlpTx i note handled K pending (body (L.view row c'.db)) c') ∧
      (handled → K (.error .deadlock) c)
  | pending, .write change body, c =>
      wlpTx i note handled K (change.apply ∘ pending) body c ∧ (handled → K (.error .deadlock) c)

/-- The liberal precondition of the rest of call `i`. -/
def wlp (i : Nat) (Q : α → Core D X → Prop) (E : ε → Core D X → Prop) :
    Prog L X ε α → Core D X → Prop
  | .done a, c => Q a c
  | .raise e, c => E e c
  | .act f k, c => ∀ c', P.Later i c c' → ∀ answer ∈ f i c'.db c'.store,
      P.Allows i c' ⟨c'.db, answer.2⟩ → wlp i Q E (k answer.1) ⟨c'.db, answer.2⟩
  | .txn note body k, c => P.wlpTx free i note (¬(k (.error .deadlock)).Fails)
      (fun r c' => wlp i Q E (k r) c') id body c

section Rules

variable {P} {free} {i : Nat} {note : Nat → β → X → X} {c : Core D X}

theorem wlpTx_mono {handled handled' : Prop} {K K' : Except (Fault ε) β → Core D X → Prop}
    (hhandled : handled' → handled) (hK : ∀ r c, K r c → K' r c) {pending : D → D}
    {body : Tx L X ε β} (h : P.wlpTx free i note handled K pending body c) :
    P.wlpTx free i note handled' K' pending body c := by
  induction body generalizing pending c with
  | ret a => exact fun c' hl ha => hK _ _ (h c' hl ha)
  | raise fault => exact hK _ _ h
  | select query selected body ih => exact fun c' hl ha => ih _ (h c' hl ha)
  | lock row body ih =>
      exact ⟨fun c' hl hfree => ih _ (h.1 c' hl hfree), fun hh => hK _ _ (h.2 (hhandled hh))⟩
  | write change body ih => exact ⟨ih h.1, fun hh => hK _ _ (h.2 (hhandled hh))⟩

theorem wlp_mono {Q Q' : α → Core D X → Prop} {E E' : ε → Core D X → Prop}
    (hQ : ∀ a c, Q a c → Q' a c) (hE : ∀ e c, E e c → E' e c) {p : Prog L X ε α}
    (h : P.wlp free i Q E p c) : P.wlp free i Q' E' p c := by
  induction p generalizing c with
  | done a => exact hQ _ _ h
  | raise e => exact hE _ _ h
  | act f k ih => exact fun c' hl answer hmem ha => ih _ (h c' hl answer hmem ha)
  | txn note body k ih => exact wlpTx_mono (fun hh => hh) (fun r c' hr => ih r hr) h

theorem wlp_bind {Q : β → Core D X → Prop} {E : ε → Core D X → Prop} {p : Prog L X ε α}
    {f : α → Prog L X ε β} (h : P.wlp free i (fun a => P.wlp free i Q E (f a)) E p c) :
    P.wlp free i Q E (p >>= f) c := by
  change P.wlp free i Q E (p.bind f) c
  induction p generalizing c with
  | done a => exact h
  | raise e => exact h
  | act g k ih => exact fun c' hl answer hmem ha => ih _ (h c' hl answer hmem ha)
  | txn note body k ih =>
      exact wlpTx_mono (fun hnot hfails => hnot (hfails.bind f)) (fun r c' hr => ih r hr) h

theorem wlpTx_stable {handled : Prop} {K : Except (Fault ε) β → Core D X → Prop}
    (hK : ∀ r, P.Stable i (K r)) (pending : D → D) (body : Tx L X ε β) :
    P.Stable i (P.wlpTx free i note handled K pending body) := by
  intro c c' hlater hwlp
  induction body generalizing pending with
  | ret a => exact fun c'' h => hwlp c'' (hlater.trans h)
  | raise fault => exact hK _ c c' hlater hwlp
  | select query selected body _ => exact fun c'' h => hwlp c'' (hlater.trans h)
  | lock row body _ =>
      exact ⟨fun c'' h => hwlp.1 c'' (hlater.trans h), fun hh => hK _ c c' hlater (hwlp.2 hh)⟩
  | write change body ih =>
      exact ⟨ih _ hwlp.1, fun hh => hK _ c c' hlater (hwlp.2 hh)⟩

theorem wlp_stable {Q : α → Core D X → Prop} {E : ε → Core D X → Prop}
    (hQ : ∀ a, P.Stable i (Q a)) (hE : ∀ e, P.Stable i (E e)) (p : Prog L X ε α) :
    P.Stable i (P.wlp free i Q E p) := by
  induction p with
  | done a => exact hQ a
  | raise e => exact hE e
  | act f k _ => exact fun c c' hlater hwlp c'' h => hwlp c'' (hlater.trans h)
  | txn note body k ih => exact wlpTx_stable (fun r => ih r) id body

end Rules

end Protocol

section Steady

/-- Every fault that the transaction raises satisfies `F`, and every answer that
it gives `Y`. -/
def Tx.Results (F : Fault ε → Prop) (Y : α → Prop) : Tx L X ε α → Prop
  | ret a => Y a
  | raise fault => F fault
  | select _ _ k => ∀ b, (k b).Results F Y
  | lock _ k => ∀ v, (k v).Results F Y
  | write _ k => k.Results F Y

theorem Tx.Results.bind {F : Fault ε → Prop} {Y : α → Prop} {Z : β → Prop} {body : Tx L X ε α}
    {f : α → Tx L X ε β} (h : body.Results F Y) (hf : ∀ a, Y a → (f a).Results F Z) :
    (body >>= f).Results F Z := by
  change (body.bind f).Results F Z
  induction body with
  | ret a => exact hf a h
  | raise fault => exact h
  | select query note k ih => exact fun b => ih b (h b)
  | lock row k ih => exact fun v => ih v (h v)
  | write change k ih => exact ih h

theorem Tx.Results.mono {F F' : Fault ε → Prop} {Y Y' : α → Prop} {body : Tx L X ε α}
    (h : body.Results F Y) (hF : ∀ fault, F fault → F' fault) (hY : ∀ a, Y a → Y' a) :
    body.Results F' Y' := by
  induction body with
  | ret a => exact hY a h
  | raise fault => exact hF fault h
  | select query note k ih => exact fun b => ih b (h b)
  | lock row k ih => exact fun v => ih v (h v)
  | write change k ih => exact ih h

theorem Tx.results_true (body : Tx L X ε α) : body.Results (fun _ => True) fun _ => True := by
  induction body with
  | ret a => trivial
  | raise fault => trivial
  | select query note k ih => exact ih
  | lock row k ih => exact ih
  | write change k ih => exact ih

theorem Tx.results_collect {ι : Type} {F : Fault ε → Prop} {visit : ι → Tx L X ε (Option β)}
    (h : ∀ j, (visit j).Results F fun _ => True) (js : List ι) :
    (Tx.collect visit js).Results F fun _ => True := by
  induction js with
  | nil => trivial
  | cons j rest ih => exact (h j).bind fun _ _ => ih.bind fun _ _ => trivial

theorem Tx.results_each {ι : Type} {F : Fault ε → Prop} {visit : ι → Tx L X ε Unit}
    (h : ∀ j, (visit j).Results F fun _ => True) (js : List ι) :
    (Tx.each visit js).Results F fun _ => True := by
  induction js with
  | nil => trivial
  | cons j rest ih => exact (h j).bind fun _ _ => ih

/-- Wherever the call stops, its answer satisfies `A` or its error `E`, except
at an abort that it does not handle. -/
def Prog.Steady (A : α → Prop) (E : ε → Prop) : Prog L X ε α → Prop
  | .done a => A a
  | .raise e => E e
  | .act _ k => ∀ b, (k b).Steady A E
  | .txn _ body k =>
      body.Results (fun fault => (k (.error fault)).Steady A E) (fun b => (k (.ok b)).Steady A E) ∧
        (¬(k (.error .deadlock)).Fails → (k (.error .deadlock)).Steady A E)

theorem Prog.Steady.bind {A : α → Prop} {B : β → Prop} {E : ε → Prop} {p : Prog L X ε α}
    {f : α → Prog L X ε β} (h : p.Steady A E) (hf : ∀ a, A a → (f a).Steady B E) :
    (p >>= f).Steady B E := by
  change (p.bind f).Steady B E
  induction p with
  | done a => exact hf a h
  | raise e => exact h
  | act g k ih => exact fun b => ih b (h b)
  | txn note body k ih =>
      exact ⟨h.1.mono (fun fault => ih _) fun b => ih _,
        fun hnot => ih _ (h.2 fun hfails => hnot (hfails.bind f))⟩

theorem Prog.steady_each {ι : Type} {E : ε → Prop} {visit : ι → Prog L X ε Unit}
    (h : ∀ j, (visit j).Steady (fun _ => True) E) (js : List ι) :
    (Prog.each visit js).Steady (fun _ => True) E := by
  induction js with
  | nil => trivial
  | cons j rest ih => exact (h j).bind fun _ _ => ih

namespace Protocol

variable {P : Protocol D X} {free : L.Row → D → Prop}

/-- A fact that no call takes back. -/
def Lasting (P : Protocol D X) (R : Core D X → Prop) : Prop :=
  ∀ j, P.Stable j R

theorem Lasting.allows {R : Core D X → Prop} (h : P.Lasting R) {i : Nat} {c c' : Core D X}
    (hallows : P.Allows i c c') (hc : R c) : R c' :=
  h (i + 1) c c' ⟨hallows.2 _ (by omega), hallows.1⟩ hc

variable {R : Core D X → Prop} {i : Nat}

theorem wlpTx_of_results (hR : P.Lasting R) {note : Nat → β → X → X} {handled : Prop}
    {K : Except (Fault ε) β → Core D X → Prop} {F : Fault ε → Prop} {Y : β → Prop}
    {body : Tx L X ε β} (hbody : body.Results F Y) (hok : ∀ b, Y b → ∀ c, R c → K (.ok b) c)
    (hfault : ∀ fault, F fault → ∀ c, R c → K (.error fault) c)
    (hdead : handled → ∀ c, R c → K (.error .deadlock) c) {pending : D → D} {c : Core D X}
    (hc : R c) : P.wlpTx free i note handled K pending body c := by
  induction body generalizing pending c with
  | ret b => exact fun c' hl ha => hok b hbody _ (hR.allows ha (hR i c c' hl hc))
  | raise fault => exact hfault fault hbody c hc
  | select query selected body ih =>
      exact fun c' hl ha => ih _ (hbody _) (hR.allows ha (hR i c c' hl hc))
  | lock row body ih =>
      exact ⟨fun c' hl _ => ih _ (hbody _) (hR i c c' hl hc), fun hh => hdead hh c hc⟩
  | write change body ih => exact ⟨ih hbody hc, fun hh => hdead hh c hc⟩

/-- A call that ends in one of these ways does so, and what lasts still holds. -/
theorem wlp_of_steady (hR : P.Lasting R) {A : α → Prop} {E : ε → Prop} {p : Prog L X ε α}
    (hp : p.Steady A E) {c : Core D X} (hc : R c) :
    P.wlp free i (fun a c' => A a ∧ R c') (fun e c' => E e ∧ R c') p c := by
  induction p generalizing c with
  | done a => exact ⟨hp, hc⟩
  | raise e => exact ⟨hp, hc⟩
  | act f k ih =>
      exact fun c' hl answer _ ha => ih _ (hp _) (hR.allows ha (hR i c c' hl hc))
  | txn note body k ih =>
      exact wlpTx_of_results hR hp.1 (fun b hb c hc => ih _ hb hc)
        (fun fault hfault c hc => ih _ hfault hc) (fun hh c hc => ih _ (hp.2 hh) hc) hc

end Protocol

end Steady

namespace Protocol

variable {P : Protocol D X} {S : Service L X ε α} {free : L.Row → D → Prop}
  {F : Nat → Core D X → Prop}

/-- With this result recorded the call satisfies `F`. -/
def Answers (P : Protocol D X) (S : Service L X ε α) (F : Nat → Core D X → Prop) (i : Nat)
    (result : Except ε α) (c : Core D X) : Prop :=
  ∀ c', P.Later i c c' → P.Allows i c' ⟨c'.db, S.onReturn i result c'.store⟩ →
    F i ⟨c'.db, S.onReturn i result c'.store⟩

theorem answers_stable (i : Nat) (result : Except ε α) : P.Stable i (P.Answers S F i result) :=
  fun _ _ hlater h c'' hlater' => h c'' (hlater.trans hlater')

/-- The liberal precondition of a whole call. -/
def wlpCall (P : Protocol D X) (S : Service L X ε α) (free : L.Row → D → Prop)
    (F : Nat → Core D X → Prop) (i : Nat) : Prog L X ε α → Core D X → Prop :=
  P.wlp free i (fun a => P.Answers S F i (.ok a)) fun e => P.Answers S F i (.error e)

theorem wlpCall_stable (i : Nat) (p : Prog L X ε α) : P.Stable i (P.wlpCall S free F i p) :=
  wlp_stable (fun a => answers_stable i (.ok a)) (fun e => answers_stable i (.error e)) p

/-- What is left of call `i` leads to `F`. -/
def Leads (P : Protocol D X) (S : Service L X ε α) (free : L.Row → D → Prop)
    (F : Nat → Core D X → Prop) (i : Nat) (c : Core D X) : Thread L X ε α → Prop
  | .run p => P.wlpCall S free F i p c
  | .inTx note pending body k => P.wlpTx free i note (¬(k (.error .deadlock)).Fails)
      (fun r => P.wlpCall S free F i (k r)) pending body c
  | .returned => F i c

theorem leads_stable (hF : ∀ i, P.Stable i (F i)) (i : Nat) (t : Thread L X ε α) :
    P.Stable i fun c => P.Leads S free F i c t := by
  cases t with
  | run p => exact wlpCall_stable i p
  | inTx note pending body k => exact wlpTx_stable (fun r => wlpCall_stable i (k r)) pending body
  | returned => exact hF i

variable {s s' : Config L X ε α}

theorem StepOf.accepts {i : Nat} (hsys : P.SystemOk S s) (h : P.StepOf S i s s') :
    P.Allows i s.core s'.core := by
  rcases h.allows with heq | hallows
  · rw [heq]
    exact ⟨hsys.inv, fun j _ => P.rely_refl j s.core⟩
  · exact hallows

/-- A step of an unhindered call. -/
theorem leads_stepThread [DecidableEq L.Row] (hsys : P.SystemOk S s) {i choice : Nat}
    {t : Thread L X ε α} (ht : s.threads i = some t) (hfree : s.Unblocked free i)
    (hleads : P.Leads S free F i s.core t) (hstep : S.stepThread s i choice t = some s') :
    ∃ t', s'.threads i = some t' ∧ P.Leads S free F i s'.core t' := by
  have hallows := (P.stepThread_stepOf S hsys ht hstep).accepts hsys
  have hnow : P.Later i s.core s.core := Later.refl hsys.inv
  match t with
  | .run (.done a) =>
      cases hstep
      exact ⟨.returned, by simp [Config.setThread], hleads s.core hnow hallows⟩
  | .run (.raise e) =>
      cases hstep
      exact ⟨.returned, by simp [Config.setThread], hleads s.core hnow hallows⟩
  | .run (.act f k) =>
      simp only [Service.stepThread] at hstep
      split at hstep
      · cases hstep
      · rename_i answer hanswer
        cases hstep
        exact ⟨.run (k answer.1), by simp [Config.setThread],
          hleads s.core hnow answer (List.mem_of_getElem? hanswer) hallows⟩
  | .run (.txn note body k) =>
      cases hstep
      exact ⟨.inTx note id body k, by simp [Config.setThread], hleads⟩
  | .inTx note pending (.ret a) k =>
      cases hstep
      exact ⟨.run (k (.ok a)), by simp [Config.leaveTx, Config.setThread],
        hleads s.core hnow hallows⟩
  | .inTx note pending (.raise fault) k =>
      cases hstep
      exact ⟨.run (k (.error fault)), by simp [Config.leaveTx, Config.setThread], hleads⟩
  | .inTx note pending (.select query selected body) k =>
      cases hstep
      exact ⟨.inTx note pending (body (query (pending s.core.db))) k,
        by simp [Config.setThread], hleads s.core hnow hallows⟩
  | .inTx note pending (.lock row body) k =>
      simp only [Service.stepThread, Option.ite_none_right_eq_some, Option.some.injEq] at hstep
      obtain ⟨_, rfl⟩ := hstep
      exact ⟨.inTx note pending (body (L.view row s.core.db)) k, by simp [Config.setThread],
        hleads.1 s.core hnow (hfree _ _ _ _ _ _ ht)⟩
  | .inTx note pending (.write change body) k =>
      simp only [Service.stepThread, Option.ite_none_right_eq_some, Option.some.injEq] at hstep
      obtain ⟨_, rfl⟩ := hstep
      exact ⟨.inTx note (change.apply ∘ pending) body k, by simp [Config.setThread], hleads.1⟩
  | .returned => cases hstep

theorem leads_abortThread {i : Nat} {t : Thread L X ε α} (ht : s.threads i = some t)
    (hresumes : s.Resumes i) (hleads : P.Leads S free F i s.core t)
    (hstep : s.abortThread i t = some s') :
    ∃ t', s'.threads i = some t' ∧ P.Leads S free F i s'.core t' := by
  match t with
  | .inTx note pending (.lock row body) k =>
      cases hstep
      exact ⟨.run (k (.error .deadlock)), by simp [Config.leaveTx, Config.setThread],
        hleads.2 (hresumes _ _ _ _ _ ht)⟩
  | .inTx note pending (.write change body) k =>
      cases hstep
      exact ⟨.run (k (.error .deadlock)), by simp [Config.leaveTx, Config.setThread],
        hleads.2 (hresumes _ _ _ _ _ ht)⟩
  | .inTx _ _ (.ret _) _ => cases hstep
  | .inTx _ _ (.raise _) _ => cases hstep
  | .inTx _ _ (.select _ _ _) _ => cases hstep
  | .run _ => cases hstep
  | .returned => cases hstep

/-- A call that was made leads to `F` when it is one of `W`. -/
def AllLead (P : Protocol D X) (S : Service L X ε α) (free : L.Row → D → Prop)
    (F : Nat → Core D X → Prop) (made : Nat → S.Call → Core D X → Prop) (W : Nat → S.Call → Prop)
    (s : Config L X ε α) : Prop :=
  ∀ i t, s.threads i = some t →
    ∃ call, made i call s.core ∧ (W i call → P.Leads S free F i s.core t)

variable {made : Nat → S.Call → Core D X → Prop} {W : Nat → S.Call → Prop}

/-- A move of call `i`, seen by all calls. -/
theorem AllLead.of_stepOf {i : Nat} (hF : ∀ i, P.Stable i (F i))
    (hlasts : ∀ i call, P.Lasting (made i call)) (h : P.AllLead S free F made W s)
    (hallows : P.Allows i s.core s'.core) (hothers : ∀ j, j ≠ i → s'.threads j = s.threads j)
    (hown : ∃ call, made i call s'.core ∧
      (W i call → ∃ t, s'.threads i = some t ∧ P.Leads S free F i s'.core t)) :
    P.AllLead S free F made W s' := by
  intro j t hj
  by_cases hji : j = i
  · subst hji
    obtain ⟨call, hmade, hleads⟩ := hown
    refine ⟨call, hmade, fun hW => ?_⟩
    obtain ⟨t', ht', hlast⟩ := hleads hW
    rw [ht'] at hj
    cases hj
    exact hlast
  · rw [hothers j hji] at hj
    obtain ⟨call, hmade, hleads⟩ := h j t hj
    have hlater : P.Later j s.core s'.core := ⟨hallows.2 j hji, hallows.1⟩
    exact ⟨call, hlasts j call j _ _ hlater hmade, fun hW =>
      leads_stable hF j t _ _ hlater (hleads hW)⟩

/-- In a run that hinders no call of `W`, each of them leads to `F`. -/
theorem allLead_of_reachableBy [DecidableEq L.Row] (hkept : P.Kept S) {c : Core D X}
    (hinv : P.inv c) (hidle : ∀ i, P.idle i c) (hF : ∀ i, P.Stable i (F i))
    (hmade : ∀ i call c, P.inv c → P.idle i c → made i call ⟨c.db, S.onCall i call c.store⟩)
    (hlasts : ∀ i call, P.Lasting (made i call))
    (hprog : ∀ i call c, W i call → P.inv c → P.idle i c →
      P.inv ⟨c.db, S.onCall i call c.store⟩ →
      P.wlpCall S free F i (S.prog i call) ⟨c.db, S.onCall i call c.store⟩)
    (h : S.ReachableBy (Unhindered free fun i c => ∃ call, made i call c ∧ W i call) c s) :
    P.AllLead S free F made W s := by
  induction h with
  | start => exact fun i t ht => nomatch ht
  | @move s s' m hreach hC hexec ih =>
      have hsys := hkept.systemOk hinv hidle hreach.reachable
      cases m with
      | call i call =>
          simp only [Service.exec] at hexec
          split at hexec
          · rename_i hnone
            cases hexec
            have hborn : P.idle i s.core := by simpa [hnone, ThreadOk] using hsys.threads i
            obtain ⟨hallows, _⟩ := hkept.call i call s.core hsys.inv hborn
            have hnow := hmade i call s.core hsys.inv hborn
            refine ih.of_stepOf hF hlasts hallows (fun j hj => ?_) ⟨call, hnow, fun hW => ?_⟩
            · simp [Config.setThread, Config.setCore, hj]
            · exact ⟨.run (S.prog i call), by simp [Config.setThread],
                hprog i call _ hW hsys.inv hborn hallows.1⟩
          · cases hexec
      | step i choice =>
          obtain ⟨t, ht, hstep⟩ := Option.bind_eq_some_iff.mp hexec
          have hof := P.stepThread_stepOf S hsys ht hstep
          have hallows := hof.accepts hsys
          obtain ⟨call, hcall, hleads⟩ := ih i t ht
          exact ih.of_stepOf hF hlasts hallows hof.others
            ⟨call, (hlasts i call).allows hallows hcall, fun hW =>
              leads_stepThread hsys ht (hC ⟨call, hcall, hW⟩) (hleads hW) hstep⟩
      | abort i =>
          obtain ⟨t, ht, hstep⟩ := Option.bind_eq_some_iff.mp hexec
          have hof := P.abortThread_stepOf S hsys ht hstep
          have hallows := hof.accepts hsys
          obtain ⟨call, hcall, hleads⟩ := ih i t ht
          exact ih.of_stepOf hF hlasts hallows hof.others
            ⟨call, (hlasts i call).allows hallows hcall, fun hW =>
              leads_abortThread ht (hC ⟨call, hcall, hW⟩) (hleads hW) hstep⟩
      | tick n =>
          cases hexec
          obtain ⟨hlast, hrely⟩ := hkept.tick n s.core hsys.inv
          intro i t ht
          obtain ⟨call, hcall, hleads⟩ := ih i t ht
          have hlater : P.Later i s.core ⟨s.core.db, S.tick n s.core.store⟩ := ⟨hrely i, hlast⟩
          exact ⟨call, hlasts i call i _ _ hlater hcall, fun hW =>
            leads_stable hF i t _ _ hlater (hleads hW)⟩

end Protocol

end Interleave
