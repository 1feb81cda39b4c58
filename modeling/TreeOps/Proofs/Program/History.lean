import TreeOps.Proofs.Program.Ensures

/-!
# The history of a run

The history of a run is its events in order, each with the state that it led to. The journal of a
recorded run is the history without the states. What a program ensures is about the state in which
it ends; to learn something of every state on the way, a watch goes along that tells whether all of
them were good.
-/

namespace TreeOps

/-- A state, and whether every state so far was good. -/
structure Watch (σ : Type) where
  state : σ
  good : Prop

/-- The same answers with a watch on the states that they lead to. -/
def Answering.watching {σ : Type} (R : Answering σ) (good : σ → Prop) : Answering (Watch σ) :=
  fun r s a s' => R r s.state a s'.state ∧ s'.good = (s.good ∧ good s'.state)

namespace Program

variable {α β σ τ : Type} {h : Handler σ}

/-- The events of a run with the states that they led to. -/
def history (h : Handler σ) : Program α → σ → List (Event × σ)
  | done _, _ => []
  | ask request next, s =>
    (⟨request, (h request s).1⟩, (h request s).2) ::
      (next (h request s).1).history h (h request s).2

@[simp] theorem history_done (a : α) (s : σ) : (done a).history h s = [] := rfl

@[simp] theorem history_ask (r : Request) (k : r.Answer → Program α) (s : σ) :
    (ask r k).history h s = (⟨r, (h r s).1⟩, (h r s).2) :: (k (h r s).1).history h (h r s).2 := rfl

theorem history_bind (p : Program α) (f : α → Program β) (s : σ) :
    (p >>= f).history h s = p.history h s ++ (f (p.run h s).1).history h (p.run h s).2 := by
  induction p generalizing s with
  | done a => rfl
  | ask r k ih => rw [ask_bind, history_ask, history_ask, run_ask, ih, List.cons_append]

theorem run_recorded (p : Program α) (s : σ) (journal : List Event) :
    p.run h.recorded (s, journal) =
      ((p.run h s).1, (p.run h s).2, ((p.history h s).map Prod.fst).reverse ++ journal) := by
  induction p generalizing s journal with
  | done a => rfl
  | ask r k ih =>
    rw [run_ask, run_ask, history_ask, List.map_cons, List.reverse_cons, List.append_assoc]
    exact ih _ _ _

/-- A recorded run is the run with the events of its history. -/
theorem runRecorded_eq (p : Program α) (s : σ) :
    p.runRecorded h s = ((p.run h s).1, (p.run h s).2, (p.history h s).map Prod.fst) := by
  simp only [runRecorded, run_recorded, List.append_nil, List.reverse_reverse]

/-- What every request keeps holds after a run. -/
theorem run_keeps (inv : σ → Prop) (hstep : ∀ r s, inv s → inv (h r s).2) (p : Program α) {s : σ}
    (hs : inv s) : inv (p.run h s).2 := by
  induction p generalizing s with
  | done a => exact hs
  | ask r k ih => exact ih _ (hstep r s hs)

/-- A run ends in the state of its last event. -/
theorem run_state_eq (p : Program α) (s : σ) :
    (p.run h s).2 = ((p.history h s).getLast?.map Prod.snd).getD s := by
  induction p generalizing s with
  | done a => rfl
  | ask r k ih =>
    rw [run_ask, history_ask, ih, List.getLast?_cons]
    cases ((k (h r s).1).history h (h r s).2).getLast? <;> rfl

/-- What a watched program finds good is good in every state of a run. The handler may keep a state
of its own, of which the relation sees a part. -/
theorem Ensures.history {R : Answering σ} {good : σ → Prop} {handler : Handler τ} (view : τ → σ)
    (inv : τ → Prop) (hstep : ∀ r t, inv t →
      inv (handler r t).2 ∧ R r (view t) (handler r t).1 (view (handler r t).2))
    {p : Program α} {t : τ} {sofar : Prop}
    (hp : p.Ensures (R.watching good) ⟨view t, sofar⟩ fun _ s => s.good) (ht : inv t) :
    sofar ∧ ∀ e ∈ p.history handler t, good (view e.2) := by
  induction p generalizing t sofar with
  | done a => exact ⟨hp, by simp⟩
  | ask r k ih =>
    obtain ⟨hinv, hr⟩ := hstep r t ht
    have hrest := hp _ ⟨view (handler r t).2, sofar ∧ good (view (handler r t).2)⟩ ⟨hr, rfl⟩
    obtain ⟨⟨hsofar, hhere⟩, hlater⟩ := ih _ hrest hinv
    exact ⟨hsofar, List.forall_mem_cons.mpr ⟨hhere, hlater⟩⟩

end Program

end TreeOps
