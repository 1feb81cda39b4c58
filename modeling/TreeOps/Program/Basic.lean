import TreeOps.Log.Note
import TreeOps.Progress
import TreeOps.Program.Call
import TreeOps.TreeError

/-!
# Programs

An operation on trees is a `Program`: it asks for one thing at a time and goes on with the answer.
What answers is left open, so one definition of an operation serves every file system, and a
statement about all answers speaks of every failure and every listener. `run` lets a handler answer
from a state.
-/

namespace TreeOps

/-- What an operation asks for. -/
inductive Request where
  /-- Carry out a primitive call, in the caller's transaction if there is one. -/
  | call (transaction : Option Transaction) (call : Call)
  /-- The canonical form of a path. -/
  | resolve (path : Path)
  /-- Whether a directory that could not be listed may be skipped. -/
  | consult (dir : Path) (error : NativeError)
  /-- Report a completed entry. -/
  | report (progress : Progress)
  /-- Wait before the next attempt. -/
  | pause (milliseconds : Nat)
  /-- Leave a note. -/
  | note (note : Note)
deriving DecidableEq, Repr

/-- What a request is answered with. -/
@[reducible] def Request.Answer : Request → Type
  | call _ c => Except NativeError c.Result
  | resolve _ => Path
  | consult .. => Bool
  | report _ => ProgressAction
  | pause _ => Unit
  | note _ => Unit

/-- A computation that asks for things. -/
inductive Program (α : Type) : Type where
  | done (value : α)
  | ask (request : Request) (next : request.Answer → Program α)

namespace Program

variable {α β γ σ : Type}

/-- Go on with the value of a program. -/
def bind : Program α → (α → Program β) → Program β
  | done value, f => f value
  | ask request next, f => ask request fun answer => (next answer).bind f

instance : Monad Program where
  pure := done
  bind := bind

@[simp] theorem pure_eq (a : α) : (pure a : Program α) = done a := rfl

@[simp] theorem done_bind (a : α) (f : α → Program β) : done a >>= f = f a := rfl

@[simp] theorem ask_bind (r : Request) (k : r.Answer → Program α) (f : α → Program β) :
    ask r k >>= f = ask r fun x => k x >>= f := rfl

theorem bind_done (p : Program α) : p >>= done = p := by
  induction p with
  | done a => rfl
  | ask r k ih => rw [ask_bind]; congr; funext x; exact ih x

theorem bind_assoc (p : Program α) (f : α → Program β) (g : β → Program γ) :
    p >>= f >>= g = p >>= fun x => f x >>= g := by
  induction p with
  | done a => rfl
  | ask r k ih => simp only [ask_bind]; congr; funext x; exact ih x

instance : LawfulMonad Program :=
  LawfulMonad.mk' Program bind_done (fun _ _ => rfl) bind_assoc

/-- Make one request. -/
def request (r : Request) : Program r.Answer := ask r done

/-- Leave a note. -/
def note (n : Note) : Program Unit := request (.note n)

/-- Carry out a primitive call. -/
def call (tx : Option Transaction) (c : Call) : Program (Except NativeError c.Result) :=
  request (.call tx c)

/-- The canonical form of a path. -/
def resolve (path : Path) : Program Path := request (.resolve path)

end Program

/-- What answers requests from a state. -/
abbrev Handler (σ : Type) := (request : Request) → σ → request.Answer × σ

namespace Program

variable {α β σ : Type}

/-- Run a program against a handler. -/
def run (handler : Handler σ) : Program α → σ → α × σ
  | done value, s => (value, s)
  | ask request next, s =>
    let (answer, s') := handler request s
    (next answer).run handler s'

@[simp] theorem run_done (h : Handler σ) (a : α) (s : σ) : (done a).run h s = (a, s) := rfl

@[simp] theorem run_ask (h : Handler σ) (r : Request) (k : r.Answer → Program α) (s : σ) :
    (ask r k).run h s = (k (h r s).1).run h (h r s).2 := rfl

theorem run_bind (h : Handler σ) (p : Program α) (f : α → Program β) (s : σ) :
    (p >>= f).run h s = (f (p.run h s).1).run h (p.run h s).2 := by
  induction p generalizing s with
  | done a => rfl
  | ask r k ih => exact ih _ _

end Program

/-- Why an operation ended without a result. -/
inductive Halt where
  /-- The operation failed. -/
  | failed (error : TreeError)
  /-- The tree nests deeper than the operation was allowed to follow. -/
  | tooDeep
deriving DecidableEq, Repr

/-- An operation that can fail. -/
abbrev Operation := ExceptT Halt Program

namespace Operation

variable {α : Type}

/-- End with an error. -/
def fail (e : TreeError) : Operation α := throw (.failed e)

/-- Leave a note. -/
def note (n : Note) : Operation Unit := ExceptT.lift (Program.note n)

/-- Carry out a primitive call, and look at its outcome. -/
def attempt (tx : Option Transaction) (c : Call) : Operation (Except NativeError c.Result) :=
  ExceptT.lift (Program.call tx c)

/-- The canonical form of a path. -/
def resolve (path : Path) : Operation Path := ExceptT.lift (Program.resolve path)

/-- Carry out a primitive call; a failure of it ends the operation with the error given for it. -/
def perform (tx : Option Transaction) (c : Call) (error : NativeError → TreeError) :
    Operation c.Result := do
  match ← attempt tx c with
  | .ok value => pure value
  | .error e => fail (error e)

end Operation

end TreeOps
