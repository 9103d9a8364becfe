import Script.Proofs.Eval.Inferred

/-!
# More calls allowed

How many calls may be in progress at once matters to no program that does not come to the limit. Up
to the first call that is refused, a run with more calls allowed is the same run. If no call is
refused, also none in a module that is imported, the two are the same to their end.
-/

namespace Script

open Lockstep

/-- The causes that a machine has raised since it had raised the first ones. -/
def Machine.RaisedSince (first later : List Cause) (m : Machine) : Prop :=
  m.raised = later ++ first

theorem Primitive.raisedSince {own : Set String} {m n : Machine} {first : List Cause}
    (h : Primitive own m n) (hm : ∃ later, m.RaisedSince first later) :
    ∃ later, n.RaisedSince first later := by
  obtain ⟨later, hlater⟩ := hm
  cases h with
  | raised cause =>
    refine ⟨cause :: later, ?_⟩
    rw [Machine.RaisedSince, Machine.raised_raise, hlater, List.cons_append]
  | _ => exact ⟨later, by simpa [Machine.RaisedSince] using hlater⟩

theorem guarded_raised (first : List Cause) :
    GuardedModules (fun m => ∃ later, m.RaisedSince first later) fun _ _ _ => True where
  refl := trivial
  trans _ _ := trivial
  mono _ _ := trivial
  primitive hm h := ⟨h.raisedSince hm, trivial⟩
  enterScope hm := by simpa [Machine.RaisedSince, Machine.enterScope] using hm
  leaveScope _ hn _ := by simpa [Machine.RaisedSince, Machine.leaveScope] using hn
  enterCall hm _ := by simpa [Machine.RaisedSince, Machine.enterCall] using hm
  leaveCall _ hn _ := by simpa [Machine.RaisedSince, Machine.leaveCall] using hn
  enterFile hm _ := by simpa [Machine.RaisedSince, Machine.enterFile] using hm
  leaveFile _ hn _ := by simpa [Machine.RaisedSince, Machine.leaveFile] using hn
  fresh hm := by simpa [Machine.RaisedSince] using hm
  resume _ hn _ := by simpa [Machine.RaisedSince] using hn

/-- A call has been refused since the first causes were raised. -/
def CallRefused (first raised : List Cause) : Prop :=
  ∃ later, raised = later ++ first ∧ ∃ limit, .callDepthExceeded limit ∈ later

/-- A run that may leave the other one behind at the first call that is refused. -/
def upToRefusal (first : List Cause) : Lockstep :=
  alone (fun m => ∃ later, m.RaisedSince first later) (fun _ _ _ => True) (CallRefused first)

instance (first : List Cause) : (upToRefusal first).Exact := inferInstanceAs (alone _ _ _).Exact

theorem lawful_upToRefusal (first : List Cause) : (upToRefusal first).LawfulModules :=
  (guarded_raised first).lawful

theorem surroundings_upToRefusal (first : List Cause) (ctx : Context) {limit : Nat}
    (h : ctx.maxDepth ≤ limit) :
    (upToRefusal first).Surroundings ctx { ctx with maxDepth := limit } where
  file := rfl
  attributes := .of_debug rfl
  limits := by
    refine .inr ⟨h, ?_⟩
    rintro _ m ⟨rfl, later, hlater⟩
    refine ⟨.callDepthExceeded ctx.maxDepth :: later, ?_, ctx.maxDepth, List.mem_cons_self⟩
    rw [Machine.raised_raise, hlater, List.cons_append]
  files := rfl
  exports := (contexts_alone ctx).exports

/-- With more calls allowed a program that succeeds does the very same, and so does one that fails
without a call having been refused anywhere in its run: it ends the same way on the same machine,
with the same output, warnings and bindings. -/
theorem execute_of_le_maxDepth (fuel : Nat) (ctx : Context) (source : String) (m : Machine)
    {limit : Nat} (h : ctx.maxDepth ≤ limit) :
    let run := execute fuel ctx source m
    ∃ later, run.2.raised = later ++ m.raised ∧
      ((run.1 = .finished ∨ ∀ refused, .callDepthExceeded refused ∉ later) →
        execute fuel { ctx with maxDepth := limit } source m = run) := by
  intro run
  have hlawful := lawful_upToRefusal m.raised
  have hctx := surroundings_upToRefusal m.raised ctx h
  obtain ⟨hfailed, later, hlater, refused, hmem⟩ | ⟨houtcome, ⟨hmachine, later, hlater⟩, -⟩ :=
    hlawful.execute_within hctx (hlawful.runModule fuel ctx _ hctx) source ⟨rfl, [], rfl⟩
  · refine ⟨later, hlater, fun hcase => ?_⟩
    obtain hfinished | hnone := hcase
    · exact absurd hfinished hfailed
    · exact absurd hmem (hnone refused)
  · exact ⟨later, hlater, fun _ => Prod.ext houtcome hmachine⟩

def Outcome.isFinished : Outcome → Bool
  | finished => true
  | failed _ | outOfFuel => false

theorem Outcome.eq_finished {outcome : Outcome} (h : outcome.isFinished) : outcome = .finished := by
  cases outcome with
  | finished => rfl
  | _ => cases h

/-- Three calls in progress at once are just enough. -/
theorem execute_of_le_maxDepth_of_recursion :
    let ctx : Context := ⟨"main.vi", false, 3, .standard, .empty⟩
    let source := "fn f(n) \x7b if n == 0 \x7b return 0; \x7d return f(n - 1); \x7d " ++
      "fn main(files) \x7b f(1); \x7d"
    let m := Machine.first ctx (.empty none)
    3 ≤ 200 ∧ (execute 8 ctx source m).1 = .finished ∧
      execute 8 { ctx with maxDepth := 200 } source m = execute 8 ctx source m := by
  intro ctx source m
  have hfinished : (execute 8 ctx source m).1 = .finished :=
    Outcome.eq_finished (by decide +kernel)
  obtain ⟨later, -, hsame⟩ :=
    execute_of_le_maxDepth 8 ctx source m (show ctx.maxDepth ≤ 200 by decide)
  exact ⟨by decide, hfinished, hsame (.inl hfinished)⟩

end Script
