import TreeOps.Proofs.Program.Ensures

/-!
# What an operation keeps

An operation keeps an invariant if the invariant holds when it ends, with a result or halted,
however its requests are answered. Nothing but requests changes the state, so it is enough that each
request keeps the invariant: what is built from operations keeps what they keep. The value of an
operation may decide what comes next, so a condition on the value goes with it.
-/

namespace TreeOps

/-- How a handler answers. -/
def Handler.answering {σ : Type} (h : Handler σ) : Answering σ := fun r s a s' => h r s = (a, s')

namespace Program

variable {α σ : Type} {h : Handler σ}

/-- What a program ensures for the answers of a handler is true of its recorded run. -/
theorem Ensures.runRecorded {p : Program α} {s : σ} {Q : α → σ → Prop}
    (hp : p.Ensures h.answering s Q) : Q (p.runRecorded h s).1 (p.runRecorded h s).2.1 :=
  Ensures.run (τ := σ × List Event) Prod.fst (fun _ => True) (fun _ _ _ => ⟨trivial, rfl⟩)
    (t := (s, [])) hp trivial

end Program

namespace Operation

variable {α β σ : Type} {R : Answering σ} {inv : σ → Prop}

/-- However its requests are answered, an operation keeps an invariant, and its value meets a
condition. -/
def Keeps (R : Answering σ) (inv : σ → Prop) (p : Operation α)
    (value : α → Prop := fun _ => True) : Prop :=
  ∀ s, inv s → Ensures R p s (fun a s' => inv s' ∧ value a) (fun _ s' => inv s')

theorem Keeps.mono {p : Operation α} {value value' : α → Prop} (h : Keeps R inv p value)
    (himp : ∀ a, value a → value' a) : Keeps R inv p value' := by
  intro s hs
  apply (h s hs).mono_ok
  rintro a s' ⟨hs', ha⟩
  exact ⟨hs', himp a ha⟩

theorem keeps_pure {a : α} {value : α → Prop} (h : value a) : Keeps R inv (pure a) value :=
  fun _ hs => ensures_pure.mpr ⟨hs, h⟩

theorem keeps_throw {halt : Halt} {value : α → Prop} :
    Keeps R inv (throw halt : Operation α) value :=
  fun _ hs => ensures_throw.mpr hs

theorem keeps_fail {e : TreeError} {value : α → Prop} :
    Keeps R inv (fail e : Operation α) value :=
  fun _ hs => ensures_fail.mpr hs

theorem keeps_bind {p : Operation α} {f : α → Operation β} {value : α → Prop} {value' : β → Prop}
    (h : Keeps R inv p value) (hf : ∀ a, value a → Keeps R inv (f a) value') :
    Keeps R inv (p >>= f) value' := by
  intro s hs
  rw [ensures_bind]
  apply (h s hs).mono_ok
  rintro a s' ⟨hs', ha⟩
  exact hf a ha s' hs'

theorem keeps_seq {p : Operation α} {q : Operation β} {value' : β → Prop} (h : Keeps R inv p)
    (hq : Keeps R inv q value') : Keeps R inv (p >>= fun _ => q) value' :=
  keeps_bind h fun _ _ => hq

theorem keeps_tryCatch {p : Operation α} {f : Halt → Operation α} {value : α → Prop}
    (h : Keeps R inv p value) (hf : ∀ halt, Keeps R inv (f halt) value) :
    Keeps R inv (p.tryCatch f) value := by
  intro s hs
  rw [ensures_tryCatch]
  exact (h s hs).mono (fun _ _ => id) fun halt s' hs' => hf halt s' hs'

theorem keeps_request {r : Request} {value : r.Answer → Prop}
    (h : ∀ s a s', inv s → R r s a s' → inv s' ∧ value a) :
    Keeps R inv (ExceptT.lift (Program.request r)) value :=
  fun s hs => ensures_request.mpr fun a s' hr => h s a s' hs hr

/-- A call whose failure ends an operation. -/
theorem keeps_perform {tx : Option Transaction} {c : Call} {error : NativeError → TreeError}
    {value : c.Result → Prop}
    (h : Keeps R inv (attempt tx c) fun result => ∀ a, result = .ok a → value a) :
    Keeps R inv (perform tx c error) value := by
  apply keeps_bind h
  intro result hresult
  cases result with
  | ok a => exact keeps_pure (hresult a rfl)
  | error e => exact keeps_fail

theorem keeps_foldlM {f : α → β → Operation α} {l : List β} {a : α}
    (h : ∀ a, ∀ b ∈ l, Keeps R inv (f a b)) : Keeps R inv (l.foldlM f a) := by
  induction l generalizing a with
  | nil => exact keeps_pure trivial
  | cons b l ih =>
    rw [List.foldlM_cons]
    apply keeps_bind (h a b (by simp))
    intro a' _
    exact ih fun a b hb => h a b (List.mem_cons_of_mem _ hb)

theorem keeps_forM {f : β → Operation Unit} {l : List β} (h : ∀ b ∈ l, Keeps R inv (f b)) :
    Keeps R inv (l.forM f) := by
  induction l with
  | nil => exact keeps_pure trivial
  | cons b l ih =>
    have hrest : Keeps R inv (l.forM f) := ih fun b hb => h b (List.mem_cons_of_mem _ hb)
    exact keeps_seq (h b (by simp)) hrest

end Operation

end TreeOps
