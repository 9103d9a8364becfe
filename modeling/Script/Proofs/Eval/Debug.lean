import Script.Proofs.Eval.Thin

/-!
# Debug mode changes labels alone

Whether errors are attributed to statements is asked wherever one may escape from a statement, in
imported modules too, but nothing ever depends on what an error is attributed to. The one trace that
it leaves is the line in the message about a module that failed. So a run in debug mode goes in step
with one that is not, through the same states.
-/

namespace Script

open Lockstep

/-! ### Errors but for their labels -/

/-- The failure of a module for a cause. -/
def Cause.inModule (module : String) (line : Nat) (cause : Cause) : Cause :=
  .moduleFailed module s!"line {line}: {cause.message}"

/-- The causes differ at most in the lines that they quote from modules that failed. -/
inductive Cause.Alike : Cause → Cause → Prop
  | same (cause : Cause) : Alike cause cause
  | inModule (module : String) (line line' : Nat) {cause cause' : Cause} (h : Alike cause cause') :
    Alike (cause.inModule module line) (cause'.inModule module line')

namespace Cause.Alike

variable {cause cause' : Cause} (h : Alike cause cause')

include h

theorem name : cause'.name = cause.name := by
  cases h <;> rfl

theorem kind : cause'.kind = cause.kind := by
  cases h <;> rfl

/-- The messages are the same unless a module failed, which is the same one then. -/
theorem message : cause'.message = cause.message ∨ ∃ module text text',
    cause = .moduleFailed module text ∧ cause' = .moduleFailed module text' := by
  cases h with
  | same => exact .inl rfl
  | inModule module => exact .inr ⟨module, _, _, rfl, rfl⟩

end Cause.Alike

/-- The stops differ at most in how errors are labelled. -/
inductive Stop.Alike : Stop → Stop → Prop
  | failed {e e' : Error} (h : e.cause.Alike e'.cause) : Alike (.failed e) (.failed e')
  | outOfFuel : Alike .outOfFuel .outOfFuel

theorem isFatal_of_alike {e e' : Error} (h : e.cause.Alike e'.cause) : e'.isFatal = e.isFatal := by
  rw [Error.isFatal, Error.isFatal, Error.kind, Error.kind, h.kind]

theorem exitCode_of_alike {e e' : Error} (h : e.cause.Alike e'.cause) :
    (Failure.program e').exitCode = (Failure.program e).exitCode := by
  rw [Failure.exitCode, Failure.exitCode, isFatal_of_alike h]

theorem moduleError_alike {e e' : Error} (h : e.cause.Alike e'.cause) (module : String) :
    (moduleError module e).cause.Alike (moduleError module e').cause := by
  unfold moduleError
  rw [isFatal_of_alike h]
  split
  · exact h
  · exact .inModule module e.position.line e'.position.line h

namespace Stop.Alike

variable {stop stop' : Stop} (h : Alike stop stop')

include h

/-- To which statement an error is attributed, and whether it is, makes no difference. -/
theorem attributed (ctx ctx' : Context) (kind kind' : StmtKind) (position position' : Position) :
    Alike (stop.attributed ctx kind position) (stop'.attributed ctx' kind' position') := by
  cases h with
  | outOfFuel =>
    rw [Stop.attributed_outOfFuel, Stop.attributed_outOfFuel]
    exact .outOfFuel
  | @failed e e' h =>
    obtain ⟨_, heq, hcause⟩ := Stop.attributed_failed ctx kind position e
    obtain ⟨_, heq', hcause'⟩ := Stop.attributed_failed ctx' kind' position' e'
    rw [heq, heq']
    exact .failed (hcause.symm ▸ hcause'.symm ▸ h)

theorem moduleError (module : String) :
    Alike (stop.mapError (Script.moduleError module)) (stop'.mapError (Script.moduleError module)) := by
  cases h with
  | failed h => exact .failed (moduleError_alike h module)
  | outOfFuel => exact .outOfFuel

end Stop.Alike

/-! ### The two runs -/

/-- The runs go through the same states, and stop with errors that may have other labels. -/
def relabelled : Translation where
  value := id
  Stops := Stop.Alike

instance : relabelled.lockstep.Faithful := ⟨fun _ _ _ h => h⟩

theorem relabelled_plain : relabelled.Plain := ⟨rfl, rfl, rfl⟩

theorem relabelled_attributes (ctx ctx' : Context) : relabelled.lockstep.Attributes ctx ctx' where
  stops hstops _ _ := Stop.Alike.attributed hstops ..
  left hleft := hleft.elim

theorem relabelled_sound : relabelled.Sound where
  transparent := transparent_id
  sinks := Translation.sinksAgree_of_id rfl
  stopping :=
    { fails := fun e _ => .failed (.same e.cause)
      exhausted := .outOfFuel
      left := fun hleft => hleft.elim }

theorem relabelled_lawful : relabelled.lockstep.LawfulModules where
  toLawfulImports := Translation.imports relabelled_sound
  moduleErrors :=
    { stops := fun hstops module => Stop.Alike.moduleError hstops module
      left := fun hleft => hleft.elim }

/-- Debug mode only changes how errors are labelled. A program ends in the same state with and
without it, so with the same output, warnings and bindings, and in the same way, except that an
error of the program may be another one then, which has the same cause or comes from the same module
that failed: it is of the same kind, gives the same exit code, and unless a module failed has the same
message. -/
theorem execute_debug (fuel : Nat) (ctx : Context) (source : String) (m : Machine) :
    let run := execute fuel { ctx with debug := false } source m
    let debugged := execute fuel { ctx with debug := true } source m
    debugged.2.toState = run.2.toState ∧
    (debugged.1 = run.1 ∨ ∃ e e' : Error,
      run.1 = .failed (.program e) ∧ debugged.1 = .failed (.program e') ∧
      e'.cause.name = e.cause.name ∧ e'.kind = e.kind ∧
      (Failure.program e').exitCode = (Failure.program e).exitCode ∧
      (e'.message = e.message ∨ ∃ module text text',
        e.cause = .moduleFailed module text ∧ e'.cause = .moduleFailed module text')) := by
  intro run debugged
  have hends : relabelled.lockstep.Ends m run debugged :=
    relabelled_lawful.execute_ends (.of_value rfl (relabelled_attributes ..))
      (settlesFiles_of_unmoved rfl _) fuel (settles_of_unmoved rfl source)
      ((relabelled_plain.states_iff rfl).2 rfl)
  obtain ⟨houtcomes, hrel, -⟩ := hends.met_of_total
  refine ⟨(relabelled_plain.states_iff rfl).1 hrel, ?_⟩
  generalize run.1 = outcome, debugged.1 = outcome' at houtcomes ⊢
  cases houtcomes with
  | stopped hstops =>
    cases hstops with
    | outOfFuel => exact .inl rfl
    | @failed e e' h =>
      exact .inr ⟨e, e', rfl, rfl, h.name, h.kind, exitCode_of_alike h, h.message⟩
  | _ => exact .inl rfl

end Script
