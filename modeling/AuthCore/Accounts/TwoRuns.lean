/-
Calls made with nobody else around, as their callers see them: what two runs
from different databases share.
-/
import AuthCore.Interleave.Solo
import AuthCore.Model.Service

namespace AuthCore

open Interleave

/-- How the services outside behave, the same on every call. -/
structure Providers where
  captcha : Option Bool
  breach : Option Bool
  delivers : Bool

/-- The last answer in the log is the one these services give. -/
def Providers.allow (providers : Providers) (w : World) : Bool :=
  match w.log with
  | (_, .captcha valid) :: _ => valid == providers.captcha
  | (_, .recovery (.breached found)) :: _ => found == providers.breach
  | (_, .sent _ delivered) :: _ => delivered == providers.delivers
  | _ => true

/-- The security store and the clock are the same. -/
structure SameStore (c c' : Core Db World) : Prop where
  cache : c.store.cache = c'.store.cache
  now : c.store.now = c'.store.now

abbrev Alike {α : Type} (i : Nat) (providers : Providers) (p q : Proc α) : Prop :=
  Prog.Alike i providers.allow SameStore p q

variable {α β : Type} {i : Nat} {providers : Providers}

theorem solo_step {f : Db → World → β × World} {event : β → Event} {k : β → Proc α}
    {c : Core Db World}
    (hpass : ∀ (b : β) (w : World), providers.allow (w.record i (event b)) = true) :
    (step f event >>= k).solo i providers.allow c = (k (f c.db c.store).1).solo i providers.allow
      ⟨c.db, (f c.db c.store).2.record i (event (f c.db c.store).1)⟩ := by
  have hfind : List.find? (fun answer : β × World => providers.allow answer.2)
      [((f c.db c.store).1, (f c.db c.store).2.record i (event (f c.db c.store).1))] =
        some ((f c.db c.store).1, (f c.db c.store).2.record i (event (f c.db c.store).1)) :=
    List.find?_cons_of_pos (hpass _ _)
  change (Option.bind (List.find? _ [_]) _) = _
  rw [hfind]
  rfl

/-- A command whose answer and effect depend on the store and the clock. -/
theorem alike_step {f : Db → World → β × World} {event : β → Event}
    (hpass : ∀ (b : β) (w : World), providers.allow (w.record i (event b)) = true)
    (hsame : ∀ c c' : Core Db World, SameStore c c' →
      (f c.db c.store).1 = (f c'.db c'.store).1 ∧
        SameStore ⟨c.db, (f c.db c.store).2⟩ ⟨c'.db, (f c'.db c'.store).2⟩) :
    Alike i providers (step f event) (step f event) := by
  intro c c' h
  obtain ⟨hanswer, hstore⟩ := hsame c c' h
  have hfirst := solo_step (f := f) (k := fun b => (pure b : Proc β)) (c := c) hpass
  have hsecond := solo_step (f := f) (k := fun b => (pure b : Proc β)) (c := c') hpass
  rw [hanswer] at hfirst
  exact ⟨_, _, _, hfirst, hsecond, hstore.cache, hstore.now⟩

theorem alike_get (key : CacheKey) : Alike i providers (Redis.get key) (Redis.get key) :=
  alike_step (fun _ _ => rfl) fun c c' h => ⟨by rw [h.cache, h.now], h⟩

theorem alike_set (key : CacheKey) (value : key.Value) (ttl : Nat) :
    Alike i providers (Redis.set key value ttl) (Redis.set key value ttl) :=
  alike_step (fun _ _ => rfl) fun c c' h =>
    ⟨rfl, by simp only [h.cache, h.now], h.now⟩

theorem alike_count (route : String) (subject : Subject) (window : Nat) :
    Alike i providers (Redis.incrementRateLimit route subject window)
      (Redis.incrementRateLimit route subject window) := by
  refine alike_step (fun _ _ => rfl) fun c c' h => ?_
  unfold Redis.count
  dsimp only
  rw [h.cache, h.now]
  split <;> exact ⟨rfl, rfl, rfl⟩

theorem alike_isSome {key : CacheKey} :
    Alike i providers (do return (← Redis.get key).isSome)
      (do return (← Redis.get key).isSome) :=
  (alike_get key).bind fun _ => Prog.alike_pure _

/-- A transaction that only adds an entry to the audit log. -/
theorem alike_audit (eventType outcome : String) (user user' : Option Uuid) :
    Alike i providers (LoginRepository.audit eventType outcome user)
      (LoginRepository.audit eventType outcome user') :=
  fun _ _ h => ⟨.ok (), _, _, rfl, rfl, h.cache, h.now⟩

theorem alone_reserve_of_free {key : IndexKey} {d : Db} (h : key.entries d = [])
    (removed : List Uuid) (pending : Db → Db) :
    (reserve key removed).alone d pending = .ok ((), pending) := by
  change Tx.alone d pending
    (if (key.entries d).all removed.contains then return () else .raise .integrity :
      Trans Unit) = _
  rw [h]
  rfl

abbrev Succeeds {α : Type} (i : Nat) (providers : Providers) (p : Proc α) (c : Core Db World) :
    Prop :=
  Prog.Succeeds i providers.allow p c

theorem succeeds_step {f : Db → World → β × World} {event : β → Event}
    (hpass : ∀ (b : β) (w : World), providers.allow (w.record i (event b)) = true)
    (c : Core Db World) : Succeeds i providers (step f event) c :=
  ⟨_, _, solo_step (k := fun b => (pure b : Proc β)) hpass, _, rfl⟩

theorem succeeds_set (key : CacheKey) (value : key.Value) (ttl : Nat) (c : Core Db World) :
    Succeeds i providers (Redis.set key value ttl) c :=
  succeeds_step (fun _ _ => rfl) c

theorem succeeds_delete (key : CacheKey) (c : Core Db World) :
    Succeeds i providers (Redis.delete key) c :=
  succeeds_step (fun _ _ => rfl) c

theorem succeeds_loginAudit (eventType outcome : String) (user : Option Uuid)
    (c : Core Db World) : Succeeds i providers (LoginRepository.audit eventType outcome user) c :=
  ⟨.ok (), _, rfl, (), rfl⟩

section Ends

variable {P : Except AuthError α → Prop} {k : β → Proc α} {c : Core Db World}

abbrev Ends (i : Nat) (providers : Providers) (P : Except AuthError α → Prop) (p : Proc α)
    (c : Core Db World) : Prop :=
  Prog.Ends i providers.allow P p c

theorem ends_step {f : Db → World → β × World} {event : β → Event}
    (hpass : ∀ (b : β) (w : World), providers.allow (w.record i (event b)) = true)
    (hrest : ∀ w, Ends i providers P (k (f c.db c.store).1) ⟨c.db, w⟩) :
    Ends i providers P (step f event >>= k) c := by
  obtain ⟨result, d, hsolo, hresult⟩ :=
    hrest ((f c.db c.store).2.record i (event (f c.db c.store).1))
  exact ⟨result, d, (solo_step hpass).trans hsolo, hresult⟩

end Ends

end AuthCore
