import TreeOps.Proofs.Program.History
import TreeOps.Proofs.Program.Keeps

/-!
# What an operation asks for

An operation keeps to some requests if it makes no others, however they are answered. Nothing is
said about the answers here, so what follows holds on every file system and with every listener:
what each of the requests keeps is kept by the operation. The value of an operation may decide what
comes next, so a condition on the value goes with it.
-/

namespace TreeOps

namespace Program

variable {α β σ : Type} {allowed allowed' : Request → Prop} {value value' : α → Prop}

/-- However its requests are answered, a program makes only allowed ones, and its value meets a
condition. -/
def Asks (allowed : Request → Prop) (value : α → Prop) : Program α → Prop
  | done a => value a
  | ask r k => allowed r ∧ ∀ answer, (k answer).Asks allowed value

theorem Asks.mono {p : Program α} (h : p.Asks allowed value)
    (hallowed : ∀ r, allowed r → allowed' r) (hvalue : ∀ a, value a → value' a) :
    p.Asks allowed' value' := by
  induction p with
  | done a => exact hvalue a h
  | ask r k ih => exact ⟨hallowed r h.1, fun answer => ih answer (h.2 answer)⟩

theorem asks_bind {p : Program α} {f : α → Program β} {value : β → Prop} :
    (p >>= f).Asks allowed value ↔ p.Asks allowed fun a => (f a).Asks allowed value := by
  induction p with
  | done a => exact Iff.rfl
  | ask r k ih => exact and_congr_right fun _ => forall_congr' ih

theorem asks_request_bind {r : Request} {f : r.Answer → Program β} {value : β → Prop} :
    (request r >>= f).Asks allowed value ↔
      allowed r ∧ ∀ answer, (f answer).Asks allowed value := Iff.rfl

/-- What the allowed requests keep holds in the end. -/
theorem Asks.ensures {R : Answering σ} {inv : σ → Prop} {p : Program α} {s : σ}
    (h : p.Asks allowed value)
    (hkeeps : ∀ r s a s', allowed r → inv s → R r s a s' → inv s') (hs : inv s) :
    p.Ensures R s fun a s' => inv s' ∧ value a := by
  induction p generalizing s with
  | done a => exact ⟨hs, h⟩
  | ask r k ih => exact fun a s' hr => ih a (h.2 a) (hkeeps r s a s' h.1 hs hr)

/-- What a program ensures in one system it ensures in another one whose steps the first can follow,
as far as they answer what the program asks for. -/
theorem Asks.simulate {τ : Type} {R : Answering σ} {R' : Answering τ} (sim : σ → τ → Prop)
    (hfollow : ∀ r s t a s', allowed r → sim s t → R r s a s' → ∃ t', R' r t a t' ∧ sim s' t')
    {p : Program α} (h : p.Asks allowed value) {s : σ} {t : τ} (hsim : sim s t)
    {Q : α → τ → Prop} (hQ : p.Ensures R' t Q) :
    p.Ensures R s fun a s' => ∃ t', sim s' t' ∧ Q a t' := by
  induction p generalizing s t with
  | done a => exact ⟨t, hsim, hQ⟩
  | ask r k ih =>
    intro a s' hr
    obtain ⟨t', hr', hsim'⟩ := hfollow r s t a s' h.1 hsim hr
    exact ih a (h.2 a) hsim' (hQ a t' hr')

/-- Every request in the history of a run is an allowed one. -/
theorem Asks.history {h : Handler σ} {p : Program α} (hp : p.Asks allowed value) (s : σ) :
    ∀ e ∈ p.history h s, allowed e.1.request := by
  induction p generalizing s with
  | done a =>
    rw [history_done]
    exact List.forall_mem_nil _
  | ask r k ih =>
    rw [history_ask]
    exact List.forall_mem_cons.mpr ⟨hp.1, ih _ (hp.2 _) _⟩

end Program

namespace Operation

variable {α β σ : Type} {allowed allowed' : Request → Prop}

/-- However its requests are answered, an operation makes only allowed ones, and its value meets a
condition. -/
def Asks (allowed : Request → Prop) (p : Operation α) (value : α → Prop := fun _ => True) : Prop :=
  Program.Asks allowed (fun result => ∀ a, result = .ok a → value a) p.run

theorem Asks.mono {p : Operation α} {value : α → Prop} (h : Asks allowed p value)
    (hallowed : ∀ r, allowed r → allowed' r) : Asks allowed' p value :=
  Program.Asks.mono h hallowed fun _ => id

theorem Asks.forget {p : Operation α} {value : α → Prop} (h : Asks allowed p value) :
    Asks allowed p :=
  Program.Asks.mono h (fun _ => id) fun _ _ _ _ => trivial

theorem asks_pure {a : α} {value : α → Prop} (h : value a) : Asks allowed (pure a) value := by
  rintro _ ⟨⟩
  exact h

theorem asks_throw {halt : Halt} {value : α → Prop} :
    Asks allowed (throw halt : Operation α) value := nofun

theorem asks_fail {e : TreeError} {value : α → Prop} :
    Asks allowed (fail e : Operation α) value := nofun

theorem asks_bind {p : Operation α} {f : α → Operation β} {value : α → Prop} {value' : β → Prop}
    (h : Asks allowed p value) (hf : ∀ a, value a → Asks allowed (f a) value') :
    Asks allowed (p >>= f) value' := by
  unfold Asks
  rw [ExceptT.run_bind, Program.asks_bind]
  refine Program.Asks.mono h (fun _ => id) fun result hresult => ?_
  cases result with
  | ok a => exact hf a (hresult a rfl)
  | error halt => exact nofun

theorem asks_seq {p : Operation α} {q : Operation β} {value' : β → Prop} (h : Asks allowed p)
    (hq : Asks allowed q value') : Asks allowed (p >>= fun _ => q) value' :=
  asks_bind h fun _ _ => hq

theorem asks_tryCatch {p : Operation α} {f : Halt → Operation α} {value : α → Prop}
    (h : Asks allowed p value) (hf : ∀ halt, Asks allowed (f halt) value) :
    Asks allowed (p.tryCatch f) value := by
  change Program.Asks allowed _ (p.run >>= _)
  rw [Program.asks_bind]
  refine Program.Asks.mono h (fun _ => id) fun result hresult => ?_
  cases result with
  | ok a => exact hresult
  | error halt => exact hf halt

theorem asks_request {r : Request} (h : allowed r) :
    Asks allowed (ExceptT.lift (Program.request r)) :=
  ⟨h, fun _ _ _ => trivial⟩

theorem asks_note {n : Note} (h : allowed (.note n)) : Asks allowed (note n) := asks_request h

theorem asks_resolve {path : Path} (h : allowed (.resolve path)) : Asks allowed (resolve path) :=
  asks_request h

theorem asks_attempt {tx : Option Transaction} {c : Call} (h : allowed (.call tx c)) :
    Asks allowed (attempt tx c) := asks_request h

theorem asks_perform {tx : Option Transaction} {c : Call} {error : NativeError → TreeError}
    (h : allowed (.call tx c)) : Asks allowed (perform tx c error) := by
  refine asks_bind (asks_attempt h) fun result _ => ?_
  cases result with
  | ok a => exact asks_pure trivial
  | error e => exact asks_fail

theorem asks_forM {f : β → Operation Unit} {l : List β} (h : ∀ b ∈ l, Asks allowed (f b)) :
    Asks allowed (l.forM f) := by
  induction l with
  | nil => exact asks_pure trivial
  | cons b l ih =>
    have hrest : Asks allowed (l.forM f) := ih fun b hb => h b (List.mem_cons_of_mem _ hb)
    exact asks_seq (h b (by simp)) hrest

theorem asks_foldlM {f : α → β → Operation α} {l : List β} {a : α}
    (h : ∀ a, ∀ b ∈ l, Asks allowed (f a b)) : Asks allowed (l.foldlM f a) := by
  induction l generalizing a with
  | nil => exact asks_pure trivial
  | cons b l ih =>
    rw [List.foldlM_cons]
    exact asks_bind (h a b (by simp)) fun a' _ => ih fun a b hb => h a b (List.mem_cons_of_mem _ hb)

/-- What an operation ensures in one system it ensures in another one whose steps the first can
follow, as far as they answer what the operation asks for. -/
theorem Asks.simulate {τ : Type} {R : Answering σ} {R' : Answering τ} (sim : σ → τ → Prop)
    (hfollow : ∀ r s t a s', allowed r → sim s t → R r s a s' → ∃ t', R' r t a t' ∧ sim s' t')
    {p : Operation α} {value : α → Prop} (h : Asks allowed p value) {s : σ} {t : τ} (hsim : sim s t)
    {ok : α → τ → Prop} {err : Halt → τ → Prop} (hp : Ensures R' p t ok err) :
    Ensures R p s (fun a s' => ∃ t', sim s' t' ∧ ok a t')
      (fun halt s' => ∃ t', sim s' t' ∧ err halt t') := by
  refine (Program.Asks.simulate sim hfollow h hsim hp).mono fun result s' hresult => ?_
  cases result with
  | ok a => exact hresult
  | error halt => exact hresult

/-- What the allowed requests keep is kept by the operation. -/
theorem Asks.keeps {R : Answering σ} (inv : σ → Prop) {p : Operation α} {value : α → Prop}
    (h : Asks allowed p value)
    (hkeeps : ∀ r s a s', allowed r → inv s → R r s a s' → inv s') : Keeps R inv p value := by
  intro s hs
  refine Program.Ensures.mono (Program.Asks.ensures h hkeeps hs) fun result s' hresult => ?_
  cases result with
  | ok a => exact ⟨hresult.1, hresult.2 a rfl⟩
  | error halt => exact hresult.1

end Operation

end TreeOps
