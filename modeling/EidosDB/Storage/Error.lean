import EidosDB.Core.Types
import EidosDB.Lib.Bytes
import EidosDB.Lib.Effect

/-! # Errors of the Storage Backend -/

namespace EidosDB

/-- What the file system reports, by kind. -/
inductive IoError where
  | notFound
  | alreadyExists
  | unexpectedEof
  | invalidInput
  | fileTooLarge
  | other
  deriving DecidableEq, Repr

def IoError.text : IoError → String
  | .notFound => "No such file or directory (os error 2)"
  | .alreadyExists => "File exists (os error 17)"
  | .unexpectedEof => "failed to fill whole buffer"
  | .invalidInput => "out of range integral type conversion attempted"
  | .fileTooLarge => "File too large (os error 27)"
  | .other => "Input/output error (os error 5)"

inductive StorageError where
  | io (error : IoError)
  | catalog (message : String)
  | corruption (message : String)
  | formatMismatch (message : String)
  | index (error : IndexError)
  deriving DecidableEq, Repr

namespace StorageError

/-- `From<StorageError> for IndexError`: a domain error passes through, every
    other one becomes its message. -/
def toIndexError : StorageError → IndexError
  | .index inner => inner
  | .io e => .backend ("io error: " ++ e.text)
  | .catalog m => .backend ("catalog error: " ++ m)
  | .corruption m => .backend ("corrupt store: " ++ m)
  | .formatMismatch m => .backend ("format mismatch: " ++ m)

/-- The file system or the database failed. -/
def isFailure : StorageError → Bool
  | .io _ => true
  | .catalog _ => true
  | .corruption _ => false
  | .formatMismatch _ => false
  | .index _ => false

/-- A file operation that fails for no reason of the program's. -/
def ioFailure : StorageError := .io .other

/-- A transaction that fails to commit; the text is the database's own. -/
def commitFailure : StorageError := .catalog "Input/output error (os error 5)"

end StorageError

/-- A halt the program is not to blame for, given how the plan interrupts it:
    a crash or a failure the plan has in store, or a file system that has no
    room for a longer file. -/
def Interrupted (how : Option Effect.Stop) : Effect.Halt StorageError → Prop
  | .err e => e.isFailure = true ∧ (how ≠ some .fail → e = .io .fileTooLarge)
  | .crashed => how = some .crash
  | .panicked => False

/-- The interruption that a halt can come from. -/
def stopOf : Effect.Halt StorageError → Effect.Stop
  | .err _ => .fail
  | .crashed => .crash
  | .panicked => .fail

/-- Nothing but the state moved: no commit was counted, and what is left of
    the plan ends the run the same way. -/
structure Later {σ τ : Type} (w : Effect.World σ) (w' : Effect.World τ) : Prop where
  commits : w'.commits = w.commits
  how : w'.plan.how = w.plan.how

/-- A halt without a commit. -/
structure Halted {σ τ : Type} (w : Effect.World σ) (r : Effect.Halt StorageError)
    (w' : Effect.World τ) : Prop where
  cause : Interrupted w.plan.how r
  commits : w'.commits = w.commits

/-- A halt without a commit that the plan had in store. -/
structure Stopped {σ τ : Type} (w : Effect.World σ) (r : Effect.Halt StorageError)
    (w' : Effect.World τ) : Prop extends Halted w r w' where
  planned : w.plan.how = some (stopOf r)

section Worlds

variable {σ τ ρ : Type} {w : Effect.World σ} {w' : Effect.World τ} {w'' : Effect.World ρ}
  {r : Effect.Halt StorageError}

theorem Later.refl (w : Effect.World σ) : Later w w := ⟨rfl, rfl⟩

theorem Later.trans (h : Later w w') (h' : Later w' w'') : Later w w'' where
  commits := h'.commits.trans h.commits
  how := h'.how.trans h.how

theorem Halted.after (h : Later w w') (h' : Halted w' r w'') : Halted w r w'' where
  cause := h.how ▸ h'.cause
  commits := h'.commits.trans h.commits

theorem Stopped.after (h : Later w w') (h' : Stopped w' r w'') : Stopped w r w'' where
  toHalted := h'.toHalted.after h
  planned := h.how ▸ h'.planned

end Worlds

/-! ## Crash plans -/

/-- A crash before durable step number `n + 1` of a call, or none. -/
def crashPlan : Option Nat → Effect.Plan
  | none => .none
  | some n => .stop n .crash

theorem how_crashPlan (crash : Option Nat) : (crashPlan crash).how ≠ some .fail := by
  cases crash <;> simp [crashPlan, Effect.Plan.how]

section Steps

open Effect

variable {σ : Type} {w : World σ} {f : σ → σ} {e : StorageError}

/-- The rule for a durable step whose failure is the file system's. -/
theorem ends_durable_storage {Q : Unit → World σ → Prop}
    {E : Halt StorageError → World σ → Prop} (he : e.isFailure = true)
    (hQ : ∀ w', Later w w' → w'.state = f w.state → Q () w')
    (hE : ∀ r w', Stopped w r w' → w'.state = w.state → E r w') :
    ends (durable e f) Q E w := by
  apply ends_durable
  · intro plan hplan
    exact hQ _ ⟨rfl, hplan⟩ rfl
  · intro hhow plan
    exact hE _ _ ⟨⟨hhow, rfl⟩, hhow⟩ rfl
  · intro hhow plan
    exact hE _ _ ⟨⟨⟨he, fun h => absurd hhow h⟩, rfl⟩, hhow⟩ rfl

/-- The rule for a commit. -/
theorem ends_commit_storage {Q : Unit → World σ → Prop}
    {E : Halt StorageError → World σ → Prop} (he : e.isFailure = true)
    (hQ : ∀ w', w'.commits = w.commits + 1 → w'.plan.how = w.plan.how →
      w'.state = f w.state → Q () w')
    (hE : ∀ r w', Stopped w r w' → w'.state = w.state → E r w') :
    ends (commit e f) Q E w := by
  apply ends_commit
  · intro plan hplan
    exact hQ _ rfl hplan rfl
  · intro hhow plan
    exact hE _ _ ⟨⟨hhow, rfl⟩, hhow⟩ rfl
  · intro hhow plan
    exact hE _ _ ⟨⟨⟨he, fun h => absurd hhow h⟩, rfl⟩, hhow⟩ rfl

end Steps

end EidosDB
