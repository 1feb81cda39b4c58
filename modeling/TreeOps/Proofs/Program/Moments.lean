import TreeOps.Proofs.Program.Asks

/-!
# The moments of a run

A moment of a run is an event with the state that it finds and the state that it leads to. A watch
goes along to learn something of every moment: what a program ensures while it is observed holds at
each of them. A program stops at an answer if it asks for nothing more after it; then no moment of a
run comes after one with such an answer, and the answer tells the value.
-/

namespace TreeOps

/-- An event of a run, with the states around it. -/
structure Moment (σ : Type) where
  before : σ
  event : Event
  after : σ

/-- The same answers with a watch on the moments. -/
def Answering.observing {σ : Type} (R : Answering σ) (good : Moment σ → Prop) :
    Answering (Watch σ) :=
  fun r s a s' =>
    R r s.state a s'.state ∧ s'.good = (s.good ∧ good ⟨s.state, ⟨r, a⟩, s'.state⟩)

namespace Program

variable {α β σ : Type} {h : Handler σ}

/-- The moments of a run, in order. -/
def moments (h : Handler σ) : Program α → σ → List (Moment σ)
  | done _, _ => []
  | ask request next, s =>
    ⟨s, ⟨request, (h request s).1⟩, (h request s).2⟩ ::
      (next (h request s).1).moments h (h request s).2

@[simp] theorem moments_done (a : α) (s : σ) : (done a).moments h s = [] := rfl

@[simp] theorem moments_ask (r : Request) (k : r.Answer → Program α) (s : σ) :
    (ask r k).moments h s =
      ⟨s, ⟨r, (h r s).1⟩, (h r s).2⟩ :: (k (h r s).1).moments h (h r s).2 := rfl

/-- What an observed program ensures is true of a run, with what is good about all its moments. -/
theorem Ensures.observed {good : Moment σ → Prop} {p : Program α} {s : σ} {sofar : Prop}
    {Q : α → Watch σ → Prop} (hp : p.Ensures (h.answering.observing good) ⟨s, sofar⟩ Q) :
    Q (p.run h s).1 ⟨(p.run h s).2, sofar ∧ ∀ x ∈ p.moments h s, good x⟩ := by
  induction p generalizing s sofar with
  | done a => simpa [Ensures] using hp
  | ask r k ih =>
    have hrest := ih _ (hp (h r s).1
      ⟨(h r s).2, sofar ∧ good ⟨s, ⟨r, (h r s).1⟩, (h r s).2⟩⟩ ⟨rfl, rfl⟩)
    rwa [and_assoc, ← List.forall_mem_cons, ← moments_ask] at hrest

/-- Once a moment was not good, that stays seen. -/
theorem ensures_of_not_good {R : Answering σ} {good : Moment σ → Prop} {w : Watch σ}
    (p : Program α) (hw : ¬w.good) :
    p.Ensures (R.observing good) w fun _ w' => ¬w'.good := by
  induction p generalizing w with
  | done a => exact hw
  | ask r k ih => exact fun a w' hstep => ih a fun hgood => hw (hstep.2.mp hgood).1

/-! ### Final answers -/

/-- After a final answer a program asks for nothing more, and the answer tells its value. -/
def StopsAt (final : Event → Option α) : Program α → Prop
  | done _ => True
  | ask r k =>
    ∀ answer, (∀ a, final ⟨r, answer⟩ = some a → k answer = done a) ∧ (k answer).StopsAt final

/-- Where none of the answers to what a program asks for is final, there is nothing to stop at. -/
theorem Asks.stopsAt {allowed : Request → Prop} {value : α → Prop} {final : Event → Option α}
    {p : Program α} (h : p.Asks allowed value)
    (hfinal : ∀ r, allowed r → ∀ answer, final ⟨r, answer⟩ = none) : p.StopsAt final := by
  induction p with
  | done a => trivial
  | ask r k ih =>
    refine fun answer => ⟨fun a ha => ?_, ih answer (h.2 answer)⟩
    rw [hfinal r h.1 answer] at ha
    cases ha

/-- The moment with a final answer is the last one of a run. -/
theorem StopsAt.moments {final : Event → Option α} {p : Program α} (hp : p.StopsAt final) {s : σ}
    {before after : List (Moment σ)} {x : Moment σ} {a : α}
    (hmoments : p.moments h s = before ++ x :: after) (hx : final x.event = some a) :
    after = [] ∧ (p.run h s).1 = a := by
  induction p generalizing s before with
  | done b => cases before <;> cases hmoments
  | ask r k ih =>
    obtain ⟨hstop, hrest⟩ := hp (h r s).1
    rw [moments_ask] at hmoments
    cases before with
    | nil =>
      obtain ⟨rfl, rfl⟩ := List.cons.inj hmoments
      rw [run_ask, hstop a hx]
      exact ⟨rfl, rfl⟩
    | cons y before =>
      obtain ⟨-, hmoments⟩ := List.cons.inj hmoments
      exact ih _ hrest hmoments

end Program

namespace Operation

variable {α β σ : Type} {final : Event → Option Halt}

/-- What an observed operation finds good, however it ends, is good at every moment of a run. -/
theorem Ensures.moments {h : Handler σ} {good : Moment σ → Prop} {p : Operation α} {s : σ}
    {ok : α → Watch σ → Prop} {err : Halt → Watch σ → Prop}
    (hp : Ensures (h.answering.observing good) p ⟨s, True⟩ ok err)
    (hok : ∀ a w, ok a w → w.good) (herr : ∀ halt w, err halt w → w.good) :
    ∀ x ∈ p.run.moments h s, good x := by
  have hgood : Program.Ensures (h.answering.observing good) p.run ⟨s, True⟩ fun _ w => w.good := by
    refine Program.Ensures.mono hp fun result w hresult => ?_
    cases result with
    | ok a => exact hok a w hresult
    | error halt => exact herr halt w hresult
  exact hgood.observed.2

/-- Once a moment was not good, that stays seen, however the operation ends. -/
theorem ensures_of_not_good {R : Answering σ} {good : Moment σ → Prop} {w : Watch σ}
    (p : Operation α) (hw : ¬w.good) :
    Ensures (R.observing good) p w (fun _ w' => ¬w'.good) fun _ w' => ¬w'.good :=
  (Program.ensures_of_not_good p.run hw).mono fun result _ h => by cases result <;> exact h

/-- After a final answer an operation asks for nothing more, and the answer tells what halts it. -/
def StopsAt (final : Event → Option Halt) (p : Operation α) : Prop :=
  Program.StopsAt (fun e => (final e).map Except.error) p.run

theorem Asks.stopsAt {allowed : Request → Prop} {p : Operation α} {value : α → Prop}
    (h : Asks allowed p value) (hfinal : ∀ r, allowed r → ∀ answer, final ⟨r, answer⟩ = none) :
    StopsAt final p :=
  Program.Asks.stopsAt h fun r hr answer => by rw [hfinal r hr answer, Option.map_none]

/-- A run that comes to a final answer ends with it. -/
theorem StopsAt.moments {h : Handler σ} {p : Operation α} (hp : StopsAt final p) {s : σ}
    {before after : List (Moment σ)} {x : Moment σ} {halt : Halt}
    (hmoments : p.run.moments h s = before ++ x :: after) (hx : final x.event = some halt) :
    after = [] ∧ (p.run.run h s).1 = .error halt :=
  Program.StopsAt.moments hp hmoments (congrArg (Option.map Except.error) hx)

theorem stopsAt_pure {a : α} : StopsAt final (pure a) := trivial

theorem stopsAt_throw {halt : Halt} : StopsAt final (throw halt : Operation α) := trivial

theorem stopsAt_fail {e : TreeError} : StopsAt final (fail e : Operation α) := trivial

theorem stopsAt_bind {p : Operation α} {f : α → Operation β} (hp : StopsAt final p)
    (hf : ∀ a, StopsAt final (f a)) : StopsAt final (p >>= f) := by
  unfold StopsAt at hp ⊢
  rw [ExceptT.run_bind]
  generalize p.run = program at hp ⊢
  induction program with
  | done result =>
    cases result with
    | ok a => exact hf a
    | error halt => trivial
  | ask r k ih =>
    refine fun answer => ⟨fun a ha => ?_, ih answer (hp answer).2⟩
    obtain ⟨halt, hhalt, rfl⟩ := Option.map_eq_some_iff.mp ha
    have hdone : k answer = .done (.error halt) :=
      (hp answer).1 _ (congrArg (Option.map Except.error) hhalt)
    change k answer >>= _ = _
    rw [hdone]
    rfl

theorem stopsAt_seq {p : Operation α} {q : Operation β} (hp : StopsAt final p)
    (hq : StopsAt final q) : StopsAt final (p >>= fun _ => q) := stopsAt_bind hp fun _ => hq

/-- What follows a call has to end at once if the answer to the call is final. -/
theorem stopsAt_attempt_bind {tx : Option Transaction} {c : Call}
    {f : Except NativeError c.Result → Operation β}
    (h : ∀ answer, (∀ halt, final ⟨.call tx c, answer⟩ = some halt → f answer = throw halt) ∧
      StopsAt final (f answer)) : StopsAt final (attempt tx c >>= f) := by
  refine fun answer => ⟨fun a ha => ?_, (h answer).2⟩
  obtain ⟨halt, hhalt, rfl⟩ := Option.map_eq_some_iff.mp ha
  exact congrArg ExceptT.run ((h answer).1 halt hhalt)

theorem stopsAt_forM {f : β → Operation Unit} {l : List β} (h : ∀ b ∈ l, StopsAt final (f b)) :
    StopsAt final (l.forM f) := by
  induction l with
  | nil => exact stopsAt_pure
  | cons b l ih =>
    have hrest : StopsAt final (l.forM f) := ih fun b hb => h b (List.mem_cons_of_mem _ hb)
    exact stopsAt_seq (h b List.mem_cons_self) hrest

end Operation

end TreeOps
