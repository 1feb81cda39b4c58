import TreeOps.Program.Handler

/-!
# What a program ensures

A relation says how a request may be answered in a state and which states may follow. A program
ensures a condition if it ends in the condition however its requests are answered within the
relation. Operations have two conditions, one for their result and one for what halts them. Each way
to build an operation has one rule, so what an operation ensures is found along its text, and every
handler that stays within the relation makes it true of a run.
-/

namespace TreeOps

/-- How a request may be answered in a state, and which state may follow. -/
abbrev Answering (σ : Type) := (r : Request) → σ → r.Answer → σ → Prop

namespace Program

variable {α β σ τ : Type} {R : Answering σ}

/-- However its requests are answered, the program ends with a value and a state that meet `Q`. -/
def Ensures (R : Answering σ) : Program α → σ → (α → σ → Prop) → Prop
  | done a, s, Q => Q a s
  | ask r k, s, Q => ∀ a s', R r s a s' → (k a).Ensures R s' Q

theorem Ensures.mono {p : Program α} {s : σ} {Q Q' : α → σ → Prop} (h : p.Ensures R s Q)
    (himp : ∀ a s', Q a s' → Q' a s') : p.Ensures R s Q' := by
  induction p generalizing s with
  | done a => exact himp a s h
  | ask r k ih => exact fun a s' hr => ih a (h a s' hr)

theorem Ensures.and {p : Program α} {s : σ} {Q Q' : α → σ → Prop} (h : p.Ensures R s Q)
    (h' : p.Ensures R s Q') : p.Ensures R s fun a s' => Q a s' ∧ Q' a s' := by
  induction p generalizing s with
  | done a => exact ⟨h, h'⟩
  | ask r k ih => exact fun a s' hr => ih a (h a s' hr) (h' a s' hr)

theorem Ensures.weaken {R' : Answering σ} (hR : ∀ r s a s', R r s a s' → R' r s a s')
    {p : Program α} {s : σ} {Q : α → σ → Prop} (h : p.Ensures R' s Q) : p.Ensures R s Q := by
  induction p generalizing s with
  | done a => exact h
  | ask r k ih => exact fun a s' hr => ih a (h a s' (hR r s a s' hr))

theorem ensures_bind {p : Program α} {f : α → Program β} {s : σ} {Q : β → σ → Prop} :
    (p >>= f).Ensures R s Q ↔ p.Ensures R s fun a s' => (f a).Ensures R s' Q := by
  induction p generalizing s with
  | done a => exact Iff.rfl
  | ask r k ih => exact forall₃_congr fun a s' _ => ih a

/-- What a program ensures is true of its run against a handler that keeps within the relation. The
handler may keep a state of its own, of which the relation sees a part. -/
theorem Ensures.run {h : Handler τ} (view : τ → σ) (inv : τ → Prop)
    (hstep : ∀ r t, inv t → inv (h r t).2 ∧ R r (view t) (h r t).1 (view (h r t).2))
    {p : Program α} {t : τ} {Q : α → σ → Prop} (hp : p.Ensures R (view t) Q) (ht : inv t) :
    Q (p.run h t).1 (view (p.run h t).2) := by
  induction p generalizing t with
  | done a => exact hp
  | ask r k ih =>
    obtain ⟨hinv, hr⟩ := hstep r t ht
    rw [run_ask]
    exact ih _ (hp _ _ hr) hinv

end Program

namespace Operation

variable {α β σ : Type} {R : Answering σ} {s : σ} {err : Halt → σ → Prop}

/-- The condition that an operation ends in: one for its result, one for what halts it. -/
def Ends (ok : α → σ → Prop) (err : Halt → σ → Prop) : Except Halt α → σ → Prop
  | .ok a, s => ok a s
  | .error halt, s => err halt s

theorem Ends.elim {ends : σ → Prop} {result : Except Halt α}
    (h : Ends (fun _ => ends) (fun _ => ends) result s) : ends s := by
  cases result with
  | ok a => exact h
  | error halt => exact h

/-- What nothing can halt ends with a result. -/
theorem Ends.exists_ok {ok : α → σ → Prop} {result : Except Halt α}
    (h : Ends ok (fun _ _ => False) result s) : ∃ a, result = .ok a ∧ ok a s := by
  cases result with
  | ok a => exact ⟨a, rfl, h⟩
  | error halt => exact False.elim h

/-- What cannot end with a result is halted. -/
theorem Ends.exists_error {err : Halt → σ → Prop} {result : Except Halt α}
    (h : Ends (fun _ _ => False) err result s) : ∃ halt, result = .error halt ∧ err halt s := by
  cases result with
  | ok a => exact False.elim h
  | error halt => exact ⟨halt, rfl, h⟩

/-- However its requests are answered, the operation ends as the two conditions say. -/
def Ensures (R : Answering σ) (p : Operation α) (s : σ) (ok : α → σ → Prop)
    (err : Halt → σ → Prop) : Prop :=
  Program.Ensures R p.run s (Ends ok err)

theorem Ensures.mono {p : Operation α} {ok ok' : α → σ → Prop} {err' : Halt → σ → Prop}
    (h : Ensures R p s ok err) (hok : ∀ a s', ok a s' → ok' a s')
    (herr : ∀ halt s', err halt s' → err' halt s') : Ensures R p s ok' err' := by
  refine Program.Ensures.mono h fun r s' hr => ?_
  cases r with
  | ok a => exact hok a s' hr
  | error halt => exact herr halt s' hr

theorem Ensures.mono_ok {p : Operation α} {ok ok' : α → σ → Prop}
    (h : Ensures R p s ok err) (hok : ∀ a s', ok a s' → ok' a s') : Ensures R p s ok' err :=
  h.mono hok fun _ _ => id

theorem Ensures.and {p : Operation α} {ok ok' : α → σ → Prop} {err' : Halt → σ → Prop}
    (h : Ensures R p s ok err) (h' : Ensures R p s ok' err') :
    Ensures R p s (fun a s' => ok a s' ∧ ok' a s') fun halt s' => err halt s' ∧ err' halt s' := by
  refine Program.Ensures.mono (Program.Ensures.and h h') fun r s' hr => ?_
  cases r with
  | ok a => exact hr
  | error halt => exact hr

/-! ### One rule for each way to build an operation -/

theorem ensures_pure {a : α} {ok : α → σ → Prop} : Ensures R (pure a) s ok err ↔ ok a s := Iff.rfl

theorem ensures_throw {halt : Halt} {ok : α → σ → Prop} :
    Ensures R (throw halt) s ok err ↔ err halt s := Iff.rfl

theorem ensures_fail {e : TreeError} {ok : α → σ → Prop} :
    Ensures R (fail e) s ok err ↔ err (.failed e) s := Iff.rfl

theorem ensures_bind {p : Operation α} {f : α → Operation β} {ok : β → σ → Prop} :
    Ensures R (p >>= f) s ok err ↔ Ensures R p s (fun a s' => Ensures R (f a) s' ok err) err := by
  unfold Ensures
  rw [ExceptT.run_bind, Program.ensures_bind]
  constructor
  · intro h
    refine h.mono fun r s' hr => ?_
    cases r with
    | ok a => exact hr
    | error halt => exact hr
  · intro h
    refine h.mono fun r s' hr => ?_
    cases r with
    | ok a => exact hr
    | error halt => exact hr

theorem ensures_tryCatch {p : Operation α} {f : Halt → Operation α} {ok : α → σ → Prop} :
    Ensures R (p.tryCatch f) s ok err ↔
      Ensures R p s ok fun halt s' => Ensures R (f halt) s' ok err := by
  change Program.Ensures R (p.run >>= _) s _ ↔ _
  rw [Program.ensures_bind]
  constructor
  · intro h
    refine Program.Ensures.mono h fun r s' hr => ?_
    cases r with
    | ok a => exact hr
    | error halt => exact hr
  · intro h
    refine Program.Ensures.mono h fun r s' hr => ?_
    cases r with
    | ok a => exact hr
    | error halt => exact hr

theorem ensures_request {r : Request} {ok : r.Answer → σ → Prop} :
    Ensures R (ExceptT.lift (Program.request r)) s ok err ↔ ∀ a s', R r s a s' → ok a s' := Iff.rfl

theorem ensures_attempt {tx : Option Transaction} {c : Call}
    {ok : Except NativeError c.Result → σ → Prop} :
    Ensures R (attempt tx c) s ok err ↔ ∀ a s', R (.call tx c) s a s' → ok a s' := Iff.rfl

theorem ensures_note {n : Note} {ok : Unit → σ → Prop} :
    Ensures R (note n) s ok err ↔ ∀ a s', R (.note n) s a s' → ok a s' := Iff.rfl

theorem ensures_resolve {path : Path} {ok : Path → σ → Prop} :
    Ensures R (resolve path) s ok err ↔ ∀ a s', R (.resolve path) s a s' → ok a s' := Iff.rfl

theorem ensures_forM_cons {f : β → Operation Unit} {b : β} {l : List β} {ok : Unit → σ → Prop} :
    Ensures R ((b :: l).forM f) s ok err ↔
      Ensures R (f b) s (fun _ s' => Ensures R (l.forM f) s' ok err) err := by
  change Ensures R (f b >>= fun _ => l.forM f) s ok err ↔ _
  exact ensures_bind

/-- A loop keeps what holds of the part of the list that is done. -/
theorem ensures_foldlM {f : α → β → Operation α} {l : List β} {a : α}
    (inv : List β → α → σ → Prop) (hinit : inv [] a s)
    (hstep : ∀ before b after a s, l = before ++ b :: after → inv before a s →
      Ensures R (f a b) s (fun a' s' => inv (before ++ [b]) a' s') err) :
    Ensures R (l.foldlM f a) s (fun a' s' => inv l a' s') err := by
  have go (before after : List β) (a : α) (s : σ) (hl : l = before ++ after)
      (hinv : inv before a s) : Ensures R (after.foldlM f a) s (fun a' s' => inv l a' s') err := by
    induction after generalizing before a s with
    | nil =>
      rw [List.append_nil] at hl
      rw [hl]
      exact hinv
    | cons b after ih =>
      rw [List.foldlM_cons, ensures_bind]
      refine (hstep before b after a s hl hinv).mono_ok fun a' s' hinv' => ?_
      exact ih (before ++ [b]) a' s' (by simpa using hl) hinv'
  exact go [] l a s rfl hinit

/-- A loop without results. -/
theorem ensures_forM {f : β → Operation Unit} {l : List β} (inv : List β → σ → Prop)
    (hinit : inv [] s)
    (hstep : ∀ before b after s, l = before ++ b :: after → inv before s →
      Ensures R (f b) s (fun _ s' => inv (before ++ [b]) s') err) :
    Ensures R (l.forM f) s (fun _ s' => inv l s') err := by
  have go (before after : List β) (s : σ) (hl : l = before ++ after) (hinv : inv before s) :
      Ensures R (after.forM f) s (fun _ s' => inv l s') err := by
    induction after generalizing before s with
    | nil =>
      rw [List.append_nil] at hl
      rw [hl]
      exact hinv
    | cons b after ih =>
      rw [ensures_forM_cons]
      refine (hstep before b after s hl hinv).mono_ok fun _ s' hinv' => ?_
      exact ih (before ++ [b]) s' (by simpa using hl) hinv'
  exact go [] l s rfl hinit

end Operation

end TreeOps
