import TreeOps.Proofs.Memory.History
import TreeOps.Proofs.Transfer.Course
import TreeOps.Proofs.Transfer.Loss

/-!
# Canceling a transfer

Two runs are compared: one with a listener that lets everything go on, and one with a listener that
first cancels at some record. Up to the answer to that record they are one run. After it, the second
run leaves notes and asks for nothing, so it ends in the state in which the first run reported the
record. What fails later in the first run does not matter.
-/

namespace TreeOps

/-- The listener that lets everything go on. -/
def Listener.proceeding (l : Listener) : Listener := { l with progress := fun _ => .proceed }

namespace Program

variable {α σ : Type} {Q : α → Course → Prop}

theorem exists_answer (r : Request) : Nonempty r.Answer := by
  cases r with
  | call tx c => exact ⟨.error (NativeCode.accessDenied : NativeError)⟩
  | resolve path => exact ⟨path⟩
  | consult dir e => exact ⟨true⟩
  | report p => exact ⟨.proceed⟩
  | pause milliseconds => exact ⟨()⟩
  | note n => exact ⟨()⟩

/-- There is no way back from an overrun. -/
theorem not_ensures_overrun (hQ : ∀ a, ¬Q a .overrun) (p : Program α) :
    ¬p.Ensures heeding .overrun Q := by
  induction p with
  | done a => exact hQ a
  | ask r k ih =>
    intro h
    obtain ⟨answer⟩ := exists_answer r
    exact ih answer (h answer .overrun (by cases r <;> rfl))

/-- A program that has been stopped leaves notes and ends. -/
theorem Ensures.stopped {p : Program α} {records : List Progress} (hQ : ∀ a, ¬Q a .overrun)
    (h : p.Ensures heeding (.stopped records) Q) (fs : FileSystem σ) (l : Listener) (s : σ) :
    (∀ e ∈ p.history (fs.handler l) s, e.1.note?.isSome = true) ∧
      (p.run (fs.handler l) s).2 = s ∧ Q (p.run (fs.handler l) s).1 (.stopped records) := by
  induction p with
  | done a => exact ⟨by simp, rfl, h⟩
  | ask r k ih =>
    cases r with
    | note n =>
      obtain ⟨hnotes, hstate, hvalue⟩ := ih () (h () _ rfl)
      exact ⟨List.forall_mem_cons.mpr ⟨rfl, hnotes⟩, hstate, hvalue⟩
    | call tx c =>
      exact absurd (h (.error (NativeCode.accessDenied : NativeError)) _ rfl)
        (not_ensures_overrun hQ _)
    | resolve path => exact absurd (h path _ rfl) (not_ensures_overrun hQ _)
    | consult dir e => exact absurd (h true _ rfl) (not_ensures_overrun hQ _)
    | report p => exact absurd (h .proceed _ rfl) (not_ensures_overrun hQ _)
    | pause milliseconds => exact absurd (h () _ rfl) (not_ensures_overrun hQ _)

/-- A run that is stopped at the record `r` has the history of the run that nothing stops up to
there, and leaves `rest` to be done after it. -/
structure Cut (Q : α → Course → Prop) (p : Program α) (fs : FileSystem σ) (l : Listener) (s : σ)
    (records : List Progress) (r : Progress) (past : List (Event × σ)) (s' : σ)
    (future : List (Event × σ)) (rest : Program α) : Prop where
  whole : p.history (fs.handler l.proceeding) s = past ++ (⟨.report r, .proceed⟩, s') :: future
  stopped : p.history (fs.handler l) s =
    past ++ (⟨.report r, .cancel⟩, s') :: rest.history (fs.handler l) s'
  run : p.run (fs.handler l) s = rest.run (fs.handler l) s'
  course : rest.Ensures heeding
    (.stopped (records ++ past.filterMap (fun e => e.1.progress?) ++ [r])) Q

section Cut

variable {fs : FileSystem σ} {l : Listener} {s s' : σ} {records records' : List Progress}
  {r : Progress} {past future : List (Event × σ)} {rest : Program α}

/-- An event that is the same in both runs comes before the cut. -/
theorem Cut.pass {request : Request} {k : request.Answer → Program α} {answer : request.Answer}
    {s₁ : σ} (hproceeding : fs.handler l.proceeding request s = (answer, s₁))
    (hanswer : fs.handler l request s = (answer, s₁))
    (hrecords : records' = records ++ (Event.progress? ⟨request, answer⟩).toList)
    (h : Cut Q (k answer) fs l s₁ records' r past s' future rest) :
    Cut Q (ask request k) fs l s records r ((⟨request, answer⟩, s₁) :: past) s' future rest where
  whole := by rw [history_ask, hproceeding, h.whole, List.cons_append]
  stopped := by rw [history_ask, hanswer, h.stopped, List.cons_append]
  run := by rw [run_ask, hanswer, h.run]
  course := by
    have hcourse := h.course
    rw [hrecords] at hcourse
    cases hp : Event.progress? ⟨request, answer⟩ with
    | none => simpa [hp] using hcourse
    | some q => simpa [hp] using hcourse

/-- A run that a listener stops at some record is, up to that record, the run that nothing stops. -/
theorem exists_cut {p : Program α} {before after : List Progress}
    (h : p.Ensures heeding (.running records) Q)
    (hwhole : (p.history (fs.handler l.proceeding) s).filterMap (fun e => e.1.progress?) =
      before ++ r :: after)
    (hproceed : ∀ q ∈ before, l.progress q = .proceed) (hcancel : l.progress r = .cancel)
    (hkind : r.kind ≠ .treeMoved) :
    ∃ past s' future rest, Cut Q p fs l s records r past s' future rest ∧
      past.filterMap (fun e => e.1.progress?) = before := by
  induction p generalizing s records before with
  | done a => simp at hwhole
  | ask request k ih =>
    cases request with
    | report q =>
      cases before with
      | nil =>
        -- The cut is here.
        obtain ⟨rfl, -⟩ := List.cons.inj hwhole
        have hanswer : fs.handler l (.report q) s = (.cancel, s) := by
          rw [FileSystem.handler, hcancel]
        refine ⟨[], s, _, k .cancel, ⟨rfl, ?_, ?_, ?_⟩, rfl⟩
        · rw [history_ask, hanswer, List.nil_append]
        · rw [run_ask, hanswer]
        · refine h .cancel _ ?_
          simp [heeding, Course.next, hkind]
      | cons b before =>
        obtain ⟨rfl, htail⟩ := List.cons.inj hwhole
        have hanswer : fs.handler l (.report q) s = (.proceed, s) := by
          rw [FileSystem.handler, hproceed q List.mem_cons_self]
        obtain ⟨past, s', future, rest, hcut, hbefore⟩ := ih .proceed (h .proceed _ rfl) htail
          fun q' hq' => hproceed q' (List.mem_cons_of_mem q hq')
        exact ⟨_, s', future, rest, hcut.pass rfl hanswer rfl, congrArg (q :: ·) hbefore⟩
    | call | resolve | consult | pause | note =>
      obtain ⟨past, s', future, rest, hcut, hbefore⟩ := ih _ (h _ _ rfl) hwhole hproceed
      exact ⟨_, s', future, rest, hcut.pass rfl rfl (List.append_nil _).symm, hbefore⟩

end Cut

end Program

/-- A note reports no entry. -/
theorem Event.progress?_of_note? {e : Event} (h : e.note?.isSome = true) : e.progress? = none := by
  obtain ⟨request, answer⟩ := e
  cases request with
  | note n => rfl
  | call | resolve | consult | report | pause => cases h

namespace Memory

open Transfer Operation

section Source

variable {view : Place → Option Node} {s : Scene} {source destination : Path} {levels : Nat}
  {opts : TransferOptions} {m : MoveOptions} {t : Tally}
  (hsame : ∀ way, s.nodes.branch source.components way = view way)
  (hapart : Apart source.components destination.components)

/-- If a transfer has been canceled, its source looks as it did. -/
def Spares (view : Place → Option Node) (source : Path) (canceled : Bool) (s : Scene) : Prop :=
  canceled = true → ∀ way, s.nodes.branch source.components way = view way

include hsame hapart

/-- A copy leaves its source as it is. -/
theorem spares_copyTree (t : Tally) {tx : Option Transaction} {flags : CopyFlags} :
    Ensures (Replies True True) (copyTree tx flags levels true source destination t) s
      (fun _ s' => ∀ way, s'.nodes.branch source.components way = view way) (fun _ _ => True) := by
  refine ((touches_copyTree levels true source destination t).ensures s).mono ?_
    fun _ _ _ => trivial
  rintro _ _ ⟨hagree, -⟩ way
  exact (hapart.lookup_eq (hagree.mono fun _ => Or.imp Spelled.below And.right) way).trans
    (hsame way)

theorem spares_copyAndDelete :
    Ensures (Replies True True) (copyAndDelete levels m opts source destination t) s
      (fun t' s' => Spares view source t'.canceled s') (fun _ _ => True) := by
  unfold copyAndDelete
  rw [Operation.ensures_bind]
  refine (spares_copyTree hsame hapart t).mono_ok fun t' s' h => ?_
  split
  · rw [Operation.ensures_bind, ensures_note]
    exact ensures_pure.mpr fun _ => h
  · next hrunning =>
    rw [Operation.ensures_bind]
    refine ((touches_deleteResolved levels source).ensures s').mono (fun _ _ _ => ?_)
      fun _ _ _ => trivial
    rw [Operation.ensures_bind, ensures_note]
    exact ensures_pure.mpr fun hcanceled => absurd hcanceled hrunning

omit hsame in
/-- A rename cannot be canceled, and until one succeeds the source is as it was. -/
theorem phases_spared (ht : t.canceled = false) :
    Phases (Replies True True) levels m opts source destination t
      (fun _ s => ∀ way, s.nodes.branch source.components way = view way)
      (fun t' s => Spares view source t'.canceled s) (fun _ _ => True) where
  taken _ _ _ _ := trivial
  refuse _ _ _ _ := trivial
  attempt _ s hs := by
    refine attempted_tryRename hs (fun t' _ hsame _ hcanceled => ?_) fun _ => trivial
    exact absurd (hsame.trans ht) (by simp [hcanceled])
  replace _ s hs :=
    (touches_replaceDestination.ensures s).mono
      (fun _ _ h => branch_eq_of_agree hs hapart h.1) fun _ _ _ => trivial

theorem spares_moveTree (ht : t.canceled = false) :
    Ensures (Replies True True) (moveTree levels m opts source destination t) s
      (fun t' s' => Spares view source t'.canceled s') (fun _ _ => True) := by
  have hsurvey : Touches (destination.components <+: ·) (surveyMove opts source destination) :=
    touches_surveyMove
  apply (phases_spared hapart ht).ensures_moveTree
  · exact (hsurvey.ensures s).mono (fun _ _ h => branch_eq_of_agree hsame hapart h.1)
      fun _ _ _ => trivial
  · intro _ hs
    exact spares_copyAndDelete hs hapart

end Source

/-- A transfer that is canceled leaves its source as it was. -/
theorem spares_copyOrMove {s : Scene} {source destination : Path} {levels : Nat}
    {opts : TransferOptions} :
    Ensures (Replies True True) (copyOrMove levels opts source destination) s
      (fun o s' => Spares (s.nodes.branch source.components) source o.canceled s')
      (fun _ _ => True) := by
  rw [copyOrMove_eq, Operation.ensures_bind]
  apply ensures_makePlan
  · exact fun _ _ => trivial
  · exact fun _ _ => trivial
  · exact fun _ _ => trivial
  · exact fun _ _ _ => trivial
  · intro mode n _ hoverlap _ _
    have hapart := Path.apart (overlap_eq_none_iff.mp hoverlap)
    unfold transferTree
    cases mode with
    | copy c =>
      simp only [Operation.ensures_bind, ensures_note]
      exact (spares_copyTree (fun _ => rfl) hapart {}).mono_ok
        fun _ _ h => ensures_pure.mpr fun _ => h
    | move m =>
      simp only [Operation.ensures_bind, ensures_note]
      exact (spares_moveTree (fun _ => rfl) hapart rfl).mono_ok fun _ _ h => ensures_pure.mpr h

theorem not_ends_overrun (result : Except Halt Outcome) :
    ¬Ends Accounts (fun _ c => Running c) result .overrun := by
  cases result with
  | ok o => exact not_totals_overrun
  | error halt => exact nofun

/-- A listener that first cancels at a record cuts the run there. -/
theorem runs_of_cancel {m : Memory} {listener : Listener} {p : Operation Outcome}
    {before after : List Progress} {r : Progress}
    (h : Ensures heeding p (.running []) Accounts (fun _ c => Running c))
    (hwhole : (m.runs listener.proceeding p).records = before ++ r :: after)
    (hproceed : ∀ q ∈ before, listener.progress q = .proceed)
    (hcancel : listener.progress r = .cancel) (hkind : r.kind ≠ .treeMoved) :
    ∃ past future notes state outcome,
      m.history listener.proceeding p = past ++ (⟨.report r, .proceed⟩, state) :: future ∧
      m.history listener p = past ++ (⟨.report r, .cancel⟩, state) :: notes ∧
      (∀ e ∈ notes, e.1.note?.isSome = true) ∧
      m.runs listener p = ⟨.ok outcome, state, before ++ [r]⟩ ∧
      Accounts outcome (.stopped (before ++ [r])) := by
  rw [runs_eq] at hwhole
  obtain ⟨past, state, future, rest, hcut, hpast⟩ :=
    Program.exists_cut h hwhole hproceed hcancel hkind
  obtain ⟨hnotes, hstate, hends⟩ := hcut.course.stopped not_ends_overrun fileSystem listener state
  rw [List.nil_append, hpast] at hends
  have hsilent : (rest.history (fileSystem.handler listener) state).filterMap
      (fun e => e.1.progress?) = [] := by
    refine List.filterMap_eq_nil_iff.mpr fun e he => ?_
    exact Event.progress?_of_note? (hnotes e he)
  have hruns : m.runs listener p =
      ⟨(rest.run (fileSystem.handler listener) state).1, state, before ++ [r]⟩ := by
    rw [runs_eq, history, hcut.run, hstate, hcut.stopped, List.filterMap_append, hpast,
      List.filterMap_cons, hsilent]
    rfl
  cases hresult : (rest.run (fileSystem.handler listener) state).1 with
  | error halt =>
    rw [hresult] at hends
    exact nomatch hends
  | ok outcome =>
    rw [hresult] at hends hruns
    exact ⟨past, future, _, state, outcome, hcut.whole, hcut.stopped, hnotes, hruns, hends⟩

/-- With a listener that never cancels, a run is never stopped. -/
theorem ends_runs_running {α : Type} {m : Memory} {listener : Listener}
    (hproceed : ∀ p, listener.progress p = .proceed) {p : Operation α} {ok : α → Course → Prop}
    {err : Halt → Course → Prop} (h : Ensures heeding p (.running []) ok err) :
    Ends ok err (m.runs listener p).result (.running (m.runs listener p).records) := by
  refine Program.Ensures.run (fun state => Course.running (scene state).records) (fun _ => True)
    (fun r state _ => ⟨trivial, ?_⟩) (t := (m, [])) h trivial
  cases r with
  | report q =>
    simp [heeding, Course.next, scene, Handler.recorded, FileSystem.handler, Event.progress?,
      hproceed]
  | call | resolve | consult | pause | note =>
    simp [heeding, Course.next, scene, Handler.recorded, Event.progress?]

theorem canceled_eq_false {m : Memory} {listener : Listener} {levels : Nat}
    {opts : TransferOptions} {source destination : Path} {outcome : Outcome}
    (hproceed : ∀ p, listener.progress p = .proceed)
    (h : (m.runs listener (copyOrMove levels opts source destination)).result = .ok outcome) :
    outcome.canceled = false := by
  have haccounts : Ensures heeding (copyOrMove levels opts source destination) (.running [])
      Accounts fun _ c => Running c := accounts_copyOrMove
  have hends := ends_runs_running (m := m) hproceed haccounts
  rw [h] at hends
  exact totals_running hends

end Memory

end TreeOps
