import TreeOps.Proofs.Program.Asks

/-!
# Programs in either order

What matters of a state is what a view shows of it. Two steps can be taken in either order if each
has the result that it has without the other, and both orders leave the same in view. If this holds
of every request of one program and every request of another, it holds of the two programs: a
request is moved past a whole program, and then one program past the other.
-/

namespace TreeOps

variable {α β σ τ : Type} {view : σ → τ}

/-- The result of a step and what it leaves in view are told by what is in view. -/
def Sees (view : σ → τ) (f : σ → α × σ) : Prop :=
  ∀ s t, view s = view t → (f s).1 = (f t).1 ∧ view (f s).2 = view (f t).2

/-- Two steps can be taken in either order. -/
structure EitherOrder (view : σ → τ) (f : σ → α × σ) (g : σ → β × σ) : Prop where
  first : ∀ s, (f (g s).2).1 = (f s).1
  second : ∀ s, (g (f s).2).1 = (g s).1
  state : ∀ s, view (g (f s).2).2 = view (f (g s).2).2

theorem EitherOrder.symm {f : σ → α × σ} {g : σ → β × σ} (h : EitherOrder view f g) :
    EitherOrder view g f where
  first := h.second
  second := h.first
  state s := (h.state s).symm

namespace Program

variable {h h' : Handler σ}

/-- A run sees no more than its requests. -/
theorem sees_run (hsees : ∀ r, Sees view (h r)) (p : Program α) : Sees view (p.run h) := by
  induction p with
  | done a => exact fun s t hst => ⟨rfl, hst⟩
  | ask r k ih =>
    intro s t hst
    obtain ⟨hanswer, hstate⟩ := hsees r s t hst
    rw [run_ask, run_ask, hanswer]
    exact ih _ _ _ hstate

/-- A step that can be taken before or after each request of a program can be taken before or after
the program. -/
theorem eitherOrder_run (hsees : ∀ r, Sees view (h r)) {allowed : Request → Prop}
    {value : α → Prop} {g : σ → β × σ} (hstep : ∀ r, allowed r → EitherOrder view (h r) g)
    {p : Program α} (hp : p.Asks allowed value) : EitherOrder view (p.run h) g := by
  induction p with
  | done a => exact ⟨fun _ => rfl, fun _ => rfl, fun _ => rfl⟩
  | ask r k ih =>
    obtain ⟨hr, hrest⟩ := hp
    have hfirst := hstep r hr
    -- After the step the request is answered as before it, and the rest starts from what the step
    -- makes of the next state, as far as that is in view.
    have hmoved (s : σ) := sees_run hsees (k (h r s).1) _ _ (hfirst.state s).symm
    constructor
    · intro s
      rw [run_ask, run_ask, hfirst.first]
      exact (hmoved s).1.trans ((ih _ (hrest _)).first _)
    · intro s
      rw [run_ask]
      exact ((ih _ (hrest _)).second _).trans (hfirst.second s)
    · intro s
      rw [run_ask, run_ask, hfirst.first]
      exact ((ih _ (hrest _)).state _).trans (hmoved s).2.symm

/-- Two programs can be run in either order if their requests can be made in either order. -/
theorem eitherOrder_runs (hsees : ∀ r, Sees view (h r)) (hsees' : ∀ r, Sees view (h' r))
    {allowed allowed' : Request → Prop} {value : α → Prop} {value' : β → Prop}
    (hstep : ∀ r r', allowed r → allowed' r' → EitherOrder view (h r) (h' r'))
    {p : Program α} {q : Program β} (hp : p.Asks allowed value) (hq : q.Asks allowed' value') :
    EitherOrder view (p.run h) (q.run h') := by
  have hpast (r' : Request) (hr' : allowed' r') : EitherOrder view (h' r') (p.run h) :=
    (eitherOrder_run hsees (fun r hr => hstep r r' hr hr') hp).symm
  exact (eitherOrder_run hsees' hpast hq).symm

end Program

end TreeOps
