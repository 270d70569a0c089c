/-
Calls made one after the other: what a call leaves behind, step by step, and
whose number stands in the log.
-/
import AuthCore.Interleave.Solo
import AuthCore.History.Refinement

namespace AuthCore

open Interleave

variable {α β : Type} {i : Nat} {pass : World → Bool}
  {Q : Except AuthError α → Core Db World → Prop} {c : Core Db World}

abbrev Leaves {α : Type} (i : Nat) (pass : World → Bool)
    (Q : Except AuthError α → Core Db World → Prop) (p : Proc α) (c : Core Db World) : Prop :=
  Prog.Leaves i pass Q p c

theorem leaves_step {f : Db → World → β × World} {event : β → Event} {k : β → Proc α}
    (h : Leaves i pass Q (k (f c.db c.store).1)
      ⟨c.db, (f c.db c.store).2.record i (event (f c.db c.store).1)⟩) :
    Leaves i pass Q (step f event >>= k) c := by
  refine Prog.leaves_act fun answer hanswer => ?_
  obtain rfl := List.mem_singleton.mp hanswer
  exact h

theorem leaves_clock {k : Time → Proc α}
    (h : ∀ now, Leaves i pass Q (k now) ⟨c.db, c.store.record i (.clock now)⟩) :
    Leaves i pass Q (clock >>= k) c :=
  leaves_step (h c.store.now)

theorem leaves_look {query : Db → β} {event : β → Event} {k : β → Proc α}
    (h : Leaves i pass Q (k (query c.db)) ⟨c.db, c.store.record i (event (query c.db))⟩) :
    Leaves i pass Q (look query event >>= k) c :=
  leaves_step h

theorem leaves_choose {answers : List β} {event : β → Event} {k : β → Proc α}
    (h : ∀ b, Leaves i pass Q (k b) ⟨c.db, c.store.record i (event b)⟩) :
    Leaves i pass Q (choose answers event >>= k) c := by
  refine Prog.leaves_act fun answer hanswer => ?_
  obtain ⟨b, _, rfl⟩ := List.mem_map.mp hanswer
  exact h b

theorem leaves_fail {error : AuthError} (h : Q (.error error) c) :
    Leaves i pass Q (fail error : Proc α) c :=
  Prog.leaves_raise h

/-- A call that gives this answer when it runs alone. -/
theorem solo_of_fst {α : Type} {o : Option (α × Core Db World)} {a : α} {c : Core Db World}
    (h : o.map Prod.fst = some a) : o = some (a, (o.map Prod.snd).getD c) := by
  obtain ⟨⟨a', c'⟩, ho, rfl⟩ := Option.map_eq_some_iff.mp h
  rw [ho]
  rfl

/-- Call `i` has sent nothing. -/
def Unsent (i : Nat) (w : World) : Prop :=
  ∀ recipient delivered, (i, Event.sent recipient delivered) ∉ w.log

theorem Unsent.record {v w : World} {e : Event} (h : Unsent i v) (hlog : w.log = v.log)
    (he : ∀ recipient delivered, e ≠ .sent recipient delivered) : Unsent i (w.record i e) := by
  intro recipient delivered hmem
  change (i, Event.sent recipient delivered) ∈ (i, e) :: w.log at hmem
  rcases List.mem_cons.mp hmem with heq | hold
  · exact he recipient delivered (Prod.mk.inj heq).2.symm
  · exact h recipient delivered (hlog ▸ hold)

theorem Unsent.clock {w : World} (h : Unsent i w) (now : Time) :
    Unsent i (w.record i (.clock now)) :=
  h.record rfl (by simp)

/-- A call that is yet to be made has recorded nothing. -/
theorem trace_of_sequential {env : Env} {c c' : Core Db World} {calls : List (Nat × Call)}
    (hlog : c.store.log = []) (h : Service.Sequential (application env) c calls c')
    (hnew : i ∉ calls.map Prod.fst) : trace i c'.store.log = [] := by
  obtain ⟨s, hreach, rfl, _, hthreads⟩ := h.reachable
  have hidle : ∀ j, ((ledger env).protocol c).idle j c := by
    intro j
    change trace j c.store.log = []
    rw [hlog]
    rfl
  have hthread := ((application_kept env c).systemOk Ledger.Leads.refl hidle hreach).threads i
  rw [hthreads i hnew] at hthread
  exact hthread

theorem unsent_of_sequential {env : Env} {c c' : Core Db World} {calls : List (Nat × Call)}
    (hlog : c.store.log = []) (h : Service.Sequential (application env) c calls c')
    (hnew : i ∉ calls.map Prod.fst) : Unsent i c'.store := by
  intro recipient delivered hmem
  have hentry := mem_trace_iff.mpr hmem
  rw [trace_of_sequential hlog h hnew] at hentry
  cases hentry

end AuthCore
