import Mathlib.Data.Prod.Lex
import Script.Proofs.Eval.Lockstep.Alone
import Script.Proofs.Eval.Returns

/-!
# Once a call has returned

A `return` may stand anywhere in the blocks, conditionals and loops of a body. The parts of the body
that are run are told by what each of them runs in turn, and from which machine. When a `return` has
been executed, every part that it stands in ends with its value, and all that is left to do is to
leave the scopes of the blocks around it.
-/

namespace Script

open Lockstep

/-! ### Loops -/

section

variable {condition : Run Bool} {body : Run Flow} {m k : Machine} {flow : Flow}

theorem repeatWhile_eq_ok {limit : Nat} :
    repeatWhile condition body (limit + 1) m = .ok flow k ↔
      (condition m = .ok false k ∧ flow = .next) ∨
      ∃ n, condition m = .ok true n ∧
        ((∃ n', body n = .ok .next n' ∧ repeatWhile condition body limit n' = .ok flow k) ∨
          ∃ value, flow = .returned value ∧ body n = .ok (.returned value) k) := by
  rw [repeatWhile]
  rcases hcondition : condition m with ⟨_ | _, n⟩ | ⟨_, n⟩
  · simp [hcondition, and_comm, eq_comm]
  · rcases hbody : body n with ⟨_ | _, n'⟩ | ⟨_, n'⟩ <;> simp [hcondition, hbody, eq_comm]
  · simp [hcondition]

/-- So many turns of a loop, each of which has gone on. -/
inductive Turns (condition : Run Bool) (body : Run Flow) : Nat → Machine → Machine → Prop
  | none (m : Machine) : Turns condition body 0 m m
  | more {count : Nat} {m n n' k : Machine} (hcondition : condition m = .ok true n)
      (hbody : body n = .ok .next n') (h : Turns condition body count n' k) :
    Turns condition body (count + 1) m k

/-- A loop returns just when its body does after some turns, and with that it ends. -/
theorem repeatWhile_returned {limit : Nat} {value : Value} :
    repeatWhile condition body limit m = .ok (.returned value) k ↔
      ∃ count < limit, ∃ m' n, Turns condition body count m m' ∧ condition m' = .ok true n ∧
        body n = .ok (.returned value) k := by
  induction limit generalizing m with
  | zero =>
    constructor
    · intro h
      cases h
    · rintro ⟨count, hcount, -⟩
      exact absurd hcount (Nat.not_lt_zero count)
  | succ limit ih =>
    rw [repeatWhile_eq_ok]
    constructor
    · rintro (⟨-, hflow⟩ | ⟨n, hcondition, ⟨n', hbody, hturns⟩ | ⟨_, heq, hbody⟩⟩)
      · cases hflow
      · obtain ⟨count, hcount, m', k', hbefore, hlast, hreturned⟩ := ih.1 hturns
        exact ⟨count + 1, Nat.succ_lt_succ hcount, m', k', .more hcondition hbody hbefore, hlast,
          hreturned⟩
      · cases heq
        exact ⟨0, Nat.succ_pos limit, m, n, .none m, hcondition, hbody⟩
    · rintro ⟨count, hcount, m', k', hbefore, hlast, hreturned⟩
      cases hbefore with
      | none _ => exact .inr ⟨k', hlast, .inr ⟨value, rfl, hreturned⟩⟩
      | more hcondition hbody hbefore =>
        have hturns := ih.2 ⟨_, Nat.lt_of_succ_lt_succ hcount, m', k', hbefore, hlast, hreturned⟩
        exact .inr ⟨_, hcondition, .inl ⟨_, hbody, hturns⟩⟩

end

/-! ### The parts of a body -/

/-- What is run when the body of a function is run. -/
inductive Part where
  | statements (stmts : List Stmt)
  | statement (stmt : Stmt)
  | conditional (branch : Conditional)
  | block (body : Block)
  /-- What is left of a loop, which may go through so many turns. -/
  | turns (condition : Expr) (body : Block) (limit : Nat)

/-! ### Before and after -/

namespace Machine

/-- All that `m` has gone through is behind `n`. -/
def Precedes (m n : Machine) : Prop := m.moments <:+ n.moments

/-- After `m` nothing is done but to leave scopes. -/
inductive Closes (m : Machine) : Machine → Prop
  | done : Closes m m
  | leave {n : Machine} (outer : Machine) (h : Closes m n) : Closes m (outer.leaveScope n)

variable {m n k : Machine}

theorem Closes.trans (h : m.Closes n) (h' : n.Closes k) : m.Closes k := by
  induction h' with
  | done => exact h
  | leave outer _ ih => exact ih.leave outer

namespace Precedes

theorem refl (m : Machine) : m.Precedes m := List.suffix_refl _

theorem trans (h : m.Precedes n) (h' : n.Precedes k) : m.Precedes k := List.IsSuffix.trans h h'

theorem stepWith (m : Machine) (calls : List UserFunction → List UserFunction) (f : State → State)
    (events : List Event) : m.Precedes (m.stepWith calls f events) := by
  rw [Precedes, moments_stepWith]
  exact List.suffix_cons _ _

theorem step (m : Machine) (f : State → State) : m.Precedes (m.step f) := stepWith m id f []

theorem primitive {own : Set String} (h : Primitive own m n) : m.Precedes n := by
  cases h with
  | boundGlobal _ => exact (step m _).trans (stepWith ..)
  | raised cause => exact ⟨[], (moments_raise m cause).symm⟩
  | _ => exact stepWith ..

end Precedes

end Machine

theorem guarded_precedes : Guarded (fun _ => True) fun _ => Machine.Precedes where
  refl := .refl _
  trans := .trans
  mono _ h := h
  primitive _ h := ⟨trivial, .primitive h⟩
  enterScope _ := trivial
  leaveScope _ _ h := ⟨trivial, ((Machine.Precedes.step _ _).trans h).trans (.step ..)⟩
  enterCall _ _ := trivial
  leaveCall _ _ h := ⟨trivial, ((Machine.Precedes.stepWith ..).trans h).trans (.stepWith ..)⟩

namespace Lockstep

/-- A run that goes on from what it has gone through. -/
def onward : Lockstep := alone (fun _ => True) fun _ => Machine.Precedes

instance : onward.Exact := inferInstanceAs (alone _ _).Exact

theorem lawful_onward : onward.LawfulTopLevels := guarded_precedes.lawful

end Lockstep

namespace Part

/-- A part is larger than those that are run in it; a loop has fewer and fewer turns left. -/
noncomputable def rank : Part → Nat ×ₗ Nat
  | statements stmts => toLex (sizeOf stmts, 0)
  | statement stmt => toLex (sizeOf stmt, 0)
  | conditional branch => toLex (sizeOf branch, 0)
  | block body => toLex (sizeOf body, 0)
  | turns condition body limit => toLex (sizeOf condition + sizeOf body + 1, limit)

section

variable (ctx : Context) (fuel : Nat) (f : UserFunction)

/-- Runs a part of the body of `f`. -/
def run : Part → Run Flow
  | statements stmts => runStmts ctx (callFunction ctx fuel) fuel f stmts
  | statement stmt => runStmt ctx (callFunction ctx fuel) fuel f stmt
  | conditional branch => runConditional ctx (callFunction ctx fuel) fuel f branch
  | block body => runBlock ctx (callFunction ctx fuel) fuel f body
  | turns condition body limit =>
    repeatWhile (evaluateCondition (callFunction ctx fuel) condition)
      (runBlock ctx (callFunction ctx fuel) fuel f body) limit

/-- A part that runs from a machine runs another part, from another machine. -/
inductive Enters : Part → Machine → Part → Machine → Prop
  | first (stmt : Stmt) (others : List Stmt) (m : Machine) :
    Enters (.statements (stmt :: others)) m (.statement stmt) m
  | rest {stmt : Stmt} {m n : Machine} (others : List Stmt)
      (h : run ctx fuel f (.statement stmt) m = .ok .next n) :
    Enters (.statements (stmt :: others)) m (.statements others) n
  | branch (branch : Conditional) (m : Machine) :
    Enters (.statement (.conditional branch)) m (.conditional branch) m
  | thenBlock {condition : Expr} {m n : Machine} (body : Block) (otherwise : Otherwise)
      (span : Span) (h : evaluateCondition (callFunction ctx fuel) condition m = .ok true n) :
    Enters (.conditional (.mk condition body otherwise span)) m (.block body) n
  | elseBlock {condition : Expr} {m n : Machine} (body other : Block) (span : Span)
      (h : evaluateCondition (callFunction ctx fuel) condition m = .ok false n) :
    Enters (.conditional (.mk condition body (.block other) span)) m (.block other) n
  | elseBranch {condition : Expr} {m n : Machine} (body : Block) (other : Conditional) (span : Span)
      (h : evaluateCondition (callFunction ctx fuel) condition m = .ok false n) :
    Enters (.conditional (.mk condition body (.conditional other) span)) m (.conditional other) n
  | loop (condition : Expr) (body : Block) (span : Span) (m : Machine) :
    Enters (.statement (.loop condition body span)) m (.turns condition body fuel) m
  | turn {condition : Expr} {m n : Machine} (body : Block) (limit : Nat)
      (h : evaluateCondition (callFunction ctx fuel) condition m = .ok true n) :
    Enters (.turns condition body (limit + 1)) m (.block body) n
  | nextTurn {condition : Expr} {body : Block} {m n k : Machine} (limit : Nat)
      (h : evaluateCondition (callFunction ctx fuel) condition m = .ok true n)
      (hbody : run ctx fuel f (.block body) n = .ok .next k) :
    Enters (.turns condition body (limit + 1)) m (.turns condition body limit) k
  | block (stmts : List Stmt) (span : Span) (m : Machine) :
    Enters (.block (.mk stmts span)) m (.statements stmts) m.enterScope

/-- In the run of a part from a machine another part is run, from another machine. -/
inductive Runs : Part → Machine → Part → Machine → Prop
  | here (part : Part) (m : Machine) : Runs part m part m
  | inside {part part' part'' : Part} {m m' m'' : Machine}
      (henters : Enters ctx fuel f part m part' m') (h : Runs part' m' part'' m'') :
    Runs part m part'' m''

end

/-! ### Running a part -/

variable {ctx : Context} {fuel : Nat} {f : UserFunction} {part part' part'' : Part}
  {m m' m'' n n' k : Machine} {value : Value} {flow : Flow}

theorem run_cons_eq_ok {stmt : Stmt} {others : List Stmt} :
    run ctx fuel f (.statements (stmt :: others)) m = .ok flow k ↔
      (∃ n, run ctx fuel f (.statement stmt) m = .ok .next n ∧
        run ctx fuel f (.statements others) n = .ok flow k) ∨
      ∃ value, flow = .returned value ∧
        run ctx fuel f (.statement stmt) m = .ok (.returned value) k := by
  simp only [run, runStmts]
  rw [Run.bind_eq_ok]
  constructor
  · rintro ⟨_ | value, n, hstmt, hrest⟩
    · exact .inl ⟨n, Run.attributed_eq_ok.1 hstmt, hrest⟩
    · obtain ⟨rfl, rfl⟩ := Run.pure_eq_ok.1 hrest
      exact .inr ⟨value, rfl, Run.attributed_eq_ok.1 hstmt⟩
  · rintro (⟨n, hstmt, hrest⟩ | ⟨value, rfl, hstmt⟩)
    · exact ⟨.next, n, Run.attributed_eq_ok.2 hstmt, hrest⟩
    · exact ⟨.returned value, k, Run.attributed_eq_ok.2 hstmt, rfl⟩

theorem run_conditional (branch : Conditional) :
    run ctx fuel f (.statement (.conditional branch)) = run ctx fuel f (.conditional branch) := by
  simp only [run, runStmt]

theorem run_loop (condition : Expr) (body : Block) (span : Span) :
    run ctx fuel f (.statement (.loop condition body span)) =
      run ctx fuel f (.turns condition body fuel) := by
  simp only [run, runStmt]

theorem run_then {condition : Expr} (body : Block) (otherwise : Otherwise) (span : Span)
    (h : evaluateCondition (callFunction ctx fuel) condition m = .ok true n) :
    run ctx fuel f (.conditional (.mk condition body otherwise span)) m =
      run ctx fuel f (.block body) n := by
  simp only [run, runConditional]
  exact Run.bind_of_ok h

theorem run_otherwise {condition : Expr} (body : Block) (otherwise : Otherwise) (span : Span)
    (h : evaluateCondition (callFunction ctx fuel) condition m = .ok false n) :
    run ctx fuel f (.conditional (.mk condition body otherwise span)) m =
      runOtherwise ctx (callFunction ctx fuel) fuel f otherwise n := by
  simp only [run, runConditional]
  exact Run.bind_of_ok h

theorem run_block_eq_ok {stmts : List Stmt} {span : Span} :
    run ctx fuel f (.block (.mk stmts span)) m = .ok flow k ↔
      ∃ n, run ctx fuel f (.statements stmts) m.enterScope = .ok flow n ∧ k = m.leaveScope n := by
  simp only [run, runBlock]
  exact Run.withScope_eq_ok

theorem run_turn_eq_ok {condition : Expr} {body : Block} {limit : Nat}
    (h : evaluateCondition (callFunction ctx fuel) condition m = .ok true n) :
    run ctx fuel f (.turns condition body (limit + 1)) m = .ok flow k ↔
      (∃ n', run ctx fuel f (.block body) n = .ok .next n' ∧
        run ctx fuel f (.turns condition body limit) n' = .ok flow k) ∨
      ∃ value, flow = .returned value ∧
        run ctx fuel f (.block body) n = .ok (.returned value) k := by
  simp only [run, repeatWhile_eq_ok, h]
  simp

theorem Enters.rank_lt (h : Enters ctx fuel f part m part' m') : part'.rank < part.rank := by
  cases h with
  | loop condition body span _ =>
    cases span
    simp only [rank, Prod.Lex.toLex_lt_toLex, Stmt.loop.sizeOf_spec, Span.mk.sizeOf_spec]
    omega
  | nextTurn limit _ _ => simp [rank, Prod.Lex.toLex_lt_toLex]
  | rest others _ =>
    simp only [rank, Prod.Lex.toLex_lt_toLex, List.cons.sizeOf_spec]
    omega
  | _ => simp [rank, Prod.Lex.toLex_lt_toLex] <;> omega

/-- Whatever is run comes later. -/
theorem precedes_run (h : run ctx fuel f part m = .ok flow n) : m.Precedes n := by
  have hcall : onward.Calls (callFunction ctx fuel) (callFunction ctx fuel) :=
    lawful_onward.callFunction rfl rfl fuel
  have hctx : onward.Attributes ctx ctx := .of_debug rfl
  rw [← Run.after_of_ok h]
  cases part with
  | statements stmts =>
    exact (lawful_onward.runStmts_moved hcall hctx stmts m m ⟨rfl, trivial⟩).after.2
  | statement stmt =>
    exact (lawful_onward.runStmt_moved hcall hctx stmt m m ⟨rfl, trivial⟩).after.2
  | conditional branch =>
    exact (lawful_onward.runConditional_moved hcall hctx branch m m ⟨rfl, trivial⟩).after.2
  | block body =>
    exact (lawful_onward.runBlock_moved hcall hctx body m m ⟨rfl, trivial⟩).after.2
  | turns condition body limit =>
    exact (lawful_onward.repeatWhile (lawful_onward.condition_moved hcall condition)
      (lawful_onward.runBlock_moved hcall hctx body) limit m m ⟨rfl, trivial⟩).after.2

theorem precedes_evaluateCondition {condition : Expr} {holds : Bool}
    (h : evaluateCondition (callFunction ctx fuel) condition m = .ok holds n) : m.Precedes n := by
  have hcall : onward.Calls (callFunction ctx fuel) (callFunction ctx fuel) :=
    lawful_onward.callFunction rfl rfl fuel
  rw [← Run.after_of_ok h]
  exact (lawful_onward.evaluateCondition hcall condition m m ⟨rfl, trivial⟩).after.2

/-- A part that is run in another one runs after that has begun. -/
theorem Enters.precedes (h : Enters ctx fuel f part m part' m') : m.Precedes m' := by
  cases h with
  | rest _ h => exact precedes_run h
  | thenBlock _ _ _ h | elseBlock _ _ _ h | elseBranch _ _ _ h | turn _ _ h =>
    exact precedes_evaluateCondition h
  | nextTurn _ h hbody => exact (precedes_evaluateCondition h).trans (precedes_run hbody)
  | block _ _ _ => exact .step ..
  | _ => exact .refl _

/-- A part that returns makes the one return that runs it. -/
theorem Enters.returned (h : Enters ctx fuel f part m part' m')
    (hpart : run ctx fuel f part' m' = .ok (.returned value) n') :
    ∃ n, run ctx fuel f part m = .ok (.returned value) n ∧ n'.Closes n := by
  cases h with
  | first stmt others _ => exact ⟨n', run_cons_eq_ok.2 (.inr ⟨value, rfl, hpart⟩), .done⟩
  | rest others h => exact ⟨n', run_cons_eq_ok.2 (.inl ⟨m', h, hpart⟩), .done⟩
  | branch branch _ => exact ⟨n', by rwa [run_conditional], .done⟩
  | thenBlock body otherwise span h => exact ⟨n', by rwa [run_then body otherwise span h], .done⟩
  | elseBlock body other span h =>
    refine ⟨n', ?_, .done⟩
    rwa [run_otherwise body _ span h, runOtherwise]
  | elseBranch body other span h =>
    refine ⟨n', ?_, .done⟩
    rwa [run_otherwise body _ span h, runOtherwise]
  | loop condition body span _ => exact ⟨n', by rwa [run_loop], .done⟩
  | turn body limit h => exact ⟨n', (run_turn_eq_ok h).2 (.inr ⟨value, rfl, hpart⟩), .done⟩
  | nextTurn limit h hbody => exact ⟨n', (run_turn_eq_ok h).2 (.inl ⟨m', hbody, hpart⟩), .done⟩
  | block stmts span _ => exact ⟨_, run_block_eq_ok.2 ⟨n', hpart, rfl⟩, .leave m .done⟩

/-- What is run in a part that goes on goes on itself, and comes to its end before. -/
theorem Enters.next (h : Enters ctx fuel f part m part' m')
    (hpart : run ctx fuel f part m = .ok .next n) :
    ∃ n', run ctx fuel f part' m' = .ok .next n' ∧ n'.Precedes n := by
  cases h with
  | first stmt others _ =>
    obtain ⟨n', hstmt, hothers⟩ | ⟨_, hflow, -⟩ := run_cons_eq_ok.1 hpart
    · exact ⟨n', hstmt, precedes_run hothers⟩
    · cases hflow
  | rest others h =>
    obtain ⟨n', hstmt, hothers⟩ | ⟨_, hflow, -⟩ := run_cons_eq_ok.1 hpart
    · cases h.symm.trans hstmt
      exact ⟨n, hothers, .refl n⟩
    · cases hflow
  | branch branch _ => exact ⟨n, by rwa [← run_conditional], .refl n⟩
  | thenBlock body otherwise span h => exact ⟨n, by rwa [← run_then body otherwise span h], .refl n⟩
  | elseBlock body other span h =>
    rw [run_otherwise body _ span h, runOtherwise] at hpart
    exact ⟨n, hpart, .refl n⟩
  | elseBranch body other span h =>
    rw [run_otherwise body _ span h, runOtherwise] at hpart
    exact ⟨n, hpart, .refl n⟩
  | loop condition body span _ =>
    rw [run_loop] at hpart
    exact ⟨n, hpart, .refl n⟩
  | turn body limit h =>
    obtain ⟨n', hbody, hturns⟩ | ⟨_, hflow, -⟩ := (run_turn_eq_ok h).1 hpart
    · exact ⟨n', hbody, precedes_run hturns⟩
    · cases hflow
  | nextTurn limit h hbody =>
    obtain ⟨n', hbody', hturns⟩ | ⟨_, hflow, -⟩ := (run_turn_eq_ok h).1 hpart
    · cases hbody.symm.trans hbody'
      exact ⟨n, hturns, .refl n⟩
    · cases hflow
  | block stmts span _ =>
    obtain ⟨n', hstmts, rfl⟩ := run_block_eq_ok.1 hpart
    exact ⟨n', hstmts, .step ..⟩

/-- Of two parts that are run in one, the first goes on before the other begins. -/
theorem Enters.compare (h : Enters ctx fuel f part m part' m')
    (h' : Enters ctx fuel f part m part'' m'') :
    (part'' = part' ∧ m'' = m') ∨ run ctx fuel f part' m' = .ok .next m'' ∨
      run ctx fuel f part'' m'' = .ok .next m' := by
  cases h <;> cases h' <;> simp_all

/-- A part that returns is a `return`, or another part returns that is run in it. -/
theorem returned_cases (h : run ctx fuel f part m = .ok (.returned value) n) :
    (∃ expr span, part = .statement (.returnValue expr span)) ∨
      ∃ part' m' n', Enters ctx fuel f part m part' m' ∧
        run ctx fuel f part' m' = .ok (.returned value) n' ∧ n'.Closes n := by
  match part with
  | .statements [] =>
    simp only [run, runStmts] at h
    cases h
  | .statements (stmt :: others) =>
    obtain ⟨k, hstmt, hothers⟩ | ⟨_, heq, hstmt⟩ := run_cons_eq_ok.1 h
    · exact .inr ⟨_, _, n, .rest others hstmt, hothers, .done⟩
    · cases heq
      exact .inr ⟨_, _, n, .first stmt others m, hstmt, .done⟩
  | .statement (.returnValue expr span) => exact .inl ⟨expr, span, rfl⟩
  | .statement (.conditional branch) =>
    rw [run_conditional] at h
    exact .inr ⟨_, _, n, .branch branch m, h, .done⟩
  | .statement (.loop condition body span) =>
    rw [run_loop] at h
    exact .inr ⟨_, _, n, .loop condition body span m, h, .done⟩
  | .statement (.declaration ..) | .statement (.reassignment ..) | .statement (.expression ..) =>
    simp only [run, runStmt] at h
    exact nomatch ActsFor.next_of_bind h
  | .statement (.importNames ..) | .statement (.function ..) =>
    simp only [run, runStmt] at h
    cases h
  | .conditional (.mk condition body otherwise span) =>
    have hbranch := h
    simp only [run, runConditional] at hbranch
    obtain ⟨_ | _, k, hcondition, -⟩ := Run.bind_eq_ok.1 hbranch
    · rw [run_otherwise body otherwise span hcondition] at h
      match otherwise with
      | .nothing =>
        rw [runOtherwise] at h
        cases h
      | .block other =>
        rw [runOtherwise] at h
        exact .inr ⟨_, _, n, .elseBlock body other span hcondition, h, .done⟩
      | .conditional other =>
        rw [runOtherwise] at h
        exact .inr ⟨_, _, n, .elseBranch body other span hcondition, h, .done⟩
    · rw [run_then body otherwise span hcondition] at h
      exact .inr ⟨_, _, n, .thenBlock body otherwise span hcondition, h, .done⟩
  | .block (.mk stmts span) =>
    obtain ⟨k, hstmts, rfl⟩ := run_block_eq_ok.1 h
    exact .inr ⟨_, _, k, .block stmts span m, hstmts, .leave m .done⟩
  | .turns condition body 0 => cases h
  | .turns condition body (limit + 1) =>
    obtain ⟨-, hflow⟩ | ⟨k, hcondition, ⟨k', hbody, hturns⟩ | ⟨_, heq, hbody⟩⟩ :=
      repeatWhile_eq_ok.1 h
    · cases hflow
    · exact .inr ⟨_, _, n, .nextTurn limit hcondition hbody, hturns, .done⟩
    · cases heq
      exact .inr ⟨_, _, n, .turn body limit hcondition, hbody, .done⟩

/-! ### Whole runs -/

theorem Runs.returned (h : Runs ctx fuel f part m part' m')
    (hpart : run ctx fuel f part' m' = .ok (.returned value) n') :
    ∃ n, run ctx fuel f part m = .ok (.returned value) n ∧ n'.Closes n := by
  induction h with
  | here _ _ => exact ⟨n', hpart, .done⟩
  | inside henters _ ih =>
    obtain ⟨k, hinner, hcloses⟩ := ih hpart
    obtain ⟨n, houter, hcloses'⟩ := henters.returned hinner
    exact ⟨n, houter, hcloses.trans hcloses'⟩

theorem Runs.next (h : Runs ctx fuel f part m part' m')
    (hpart : run ctx fuel f part m = .ok .next n) :
    ∃ n', run ctx fuel f part' m' = .ok .next n' ∧ n'.Precedes n := by
  induction h generalizing n with
  | here _ _ => exact ⟨n, hpart, .refl n⟩
  | inside henters _ ih =>
    obtain ⟨k, hinner, hprecedes⟩ := henters.next hpart
    obtain ⟨n', hpart', hprecedes'⟩ := ih hinner
    exact ⟨n', hpart', hprecedes'.trans hprecedes⟩

theorem Runs.precedes (h : Runs ctx fuel f part m part' m') : m.Precedes m' := by
  induction h with
  | here _ _ => exact .refl _
  | inside henters _ ih => exact henters.precedes.trans ih

/-- A part that returns runs a `return`, after which only scopes are left. -/
theorem runs_return {part : Part} {m n : Machine}
    (h : run ctx fuel f part m = .ok (.returned value) n) :
    ∃ expr span m' n', Runs ctx fuel f part m (.statement (.returnValue expr span)) m' ∧
      run ctx fuel f (.statement (.returnValue expr span)) m' = .ok (.returned value) n' ∧
      n'.Closes n := by
  obtain ⟨expr, span, rfl⟩ | ⟨part', k, k', henters, hinner, hcloses⟩ := returned_cases h
  · exact ⟨expr, span, m, n, .here _ _, h, .done⟩
  · obtain ⟨expr, span, m', n', hruns, hreturn, hcloses'⟩ := runs_return hinner
    exact ⟨expr, span, m', n', .inside henters hruns, hreturn, hcloses'.trans hcloses⟩
termination_by part.rank
decreasing_by exact henters.rank_lt

/-- When a part returns, any other part that has been run has come to its end and gone on, unless
one of the two stands in the other. -/
theorem Runs.compare (h : Runs ctx fuel f part m part' m')
    (hpart : run ctx fuel f part' m' = .ok (.returned value) n')
    (h' : Runs ctx fuel f part m part'' m'') :
    Runs ctx fuel f part'' m'' part' m' ∨ Runs ctx fuel f part' m' part'' m'' ∨
      ∃ n, run ctx fuel f part'' m'' = .ok .next n ∧ n.Precedes m' := by
  induction h with
  | here _ _ => exact .inr (.inl h')
  | inside henters hruns ih =>
    cases h' with
    | here _ _ => exact .inl (.inside henters hruns)
    | inside henters' hruns' =>
      obtain ⟨rfl, rfl⟩ | hbefore | hbefore := henters.compare henters'
      · exact ih hpart hruns'
      -- What goes on before the other part begins cannot have the `return` in it.
      · obtain ⟨_, hreturned, -⟩ := hruns.returned hpart
        cases hbefore.symm.trans hreturned
      · obtain ⟨n, hnext, hprecedes⟩ := hruns'.next hbefore
        exact .inr (.inr ⟨n, hnext, hprecedes.trans hruns.precedes⟩)

/-- Nothing is run in a `return`. -/
theorem Runs.eq_of_return {expr : Option Expr} {span : Span}
    (h : Runs ctx fuel f (.statement (.returnValue expr span)) m part m') :
    part = .statement (.returnValue expr span) ∧ m' = m := by
  cases h with
  | here _ _ => exact ⟨rfl, rfl⟩
  | inside henters _ => cases henters

/-- Statements behind those that return are not run. -/
theorem run_append {stmts : List Stmt} (others : List Stmt)
    (h : run ctx fuel f (.statements stmts) m = .ok (.returned value) n) :
    run ctx fuel f (.statements (stmts ++ others)) m = .ok (.returned value) n := by
  induction stmts generalizing m with
  | nil =>
    simp only [run, runStmts] at h
    cases h
  | cons stmt stmts ih =>
    obtain ⟨k, hstmt, hstmts⟩ | hreturned := run_cons_eq_ok.1 h
    · exact run_cons_eq_ok.2 (.inl ⟨k, hstmt, ih hstmts⟩)
    · exact run_cons_eq_ok.2 (.inr hreturned)

end Part

/-! ### Calls -/

/-- A call of `f` from `m` is not refused, and comes to the body of `f` at `m'`. -/
structure UserFunction.Begins (f : UserFunction) (ctx : Context) (arguments : List Value)
    (m m' : Machine) : Prop where
  checked : f.checkArguments arguments = .ok ()
  depth : m.depth < ctx.maxDepth
  bound : bindParameters f.parameters arguments (m.enterCall f).enterScope = .ok () m'

theorem UserFunction.Begins.callFunction_eq {ctx : Context} {fuel : Nat} {f : UserFunction}
    {arguments : List Value} {m m' n : Machine} {value : Value} (h : f.Begins ctx arguments m m')
    (hbody : Part.run ctx fuel f (.statements f.body.statements) m' = .ok (.returned value) n) :
    callFunction ctx (fuel + 1) f arguments m =
      .ok value ((m.enterCall f).leaveScope n).leaveCall := by
  refine callFunction_eq_ok.2 ⟨h.checked, h.depth, .returned value, ?_, .inl rfl⟩
  refine Run.deeper_eq_ok.2 ⟨_, Run.withScope_eq_ok.2 ⟨n, ?_, rfl⟩, rfl⟩
  exact Run.bind_eq_ok.2 ⟨(), m', h.bound, hbody⟩

/-- Once a `return` has been executed in a call of `f`, nothing more of the call is run.

Statements that return have executed a `return`, wherever it stands in them, and have then only left
the scopes around it. They do the same whatever statements come behind them. A loop returns just
when its body does, after some turns that go on, and with that it ends. A call gives the value of a
`return` that is executed in its body, for then everything else in the body that has been run had
come to its end before, except for what the `return` stands in. -/
theorem return_ends_call (ctx : Context) (fuel : Nat) (f : UserFunction) :
    (∀ stmts m value n, Part.run ctx fuel f (.statements stmts) m = .ok (.returned value) n →
      (∀ others,
        Part.run ctx fuel f (.statements (stmts ++ others)) m = .ok (.returned value) n) ∧
      ∃ expr span m' n',
        Part.Runs ctx fuel f (.statements stmts) m (.statement (.returnValue expr span)) m' ∧
        runReturn (callFunction ctx fuel) f expr m' = .ok (.returned value) n' ∧ n'.Closes n) ∧
    (∀ condition body limit m value n,
      Part.run ctx fuel f (.turns condition body limit) m = .ok (.returned value) n ↔
        ∃ count < limit, ∃ m' k,
          Turns (evaluateCondition (callFunction ctx fuel) condition)
            (Part.run ctx fuel f (.block body)) count m m' ∧
          evaluateCondition (callFunction ctx fuel) condition m' = .ok true k ∧
          Part.run ctx fuel f (.block body) k = .ok (.returned value) n) ∧
    ∀ arguments m m₀, f.Begins ctx arguments m m₀ → ∀ expr span m' value n',
      Part.Runs ctx fuel f (.statements f.body.statements) m₀
        (.statement (.returnValue expr span)) m' →
      runReturn (callFunction ctx fuel) f expr m' = .ok (.returned value) n' →
      (∃ n, n'.Closes n ∧ callFunction ctx (fuel + 1) f arguments m =
        .ok value ((m.enterCall f).leaveScope n).leaveCall) ∧
      ∀ part k, Part.Runs ctx fuel f (.statements f.body.statements) m₀ part k →
        Part.Runs ctx fuel f part k (.statement (.returnValue expr span)) m' ∨
          ∃ n, Part.run ctx fuel f part k = .ok .next n ∧ n.Precedes m' := by
  have hrun (expr : Option Expr) (span : Span) :
      Part.run ctx fuel f (.statement (.returnValue expr span)) =
        runReturn (callFunction ctx fuel) f expr := by
    simp only [Part.run, runStmt]
  refine ⟨fun stmts m value n h => ⟨fun others => Part.run_append others h, ?_⟩,
    fun condition body limit m value n => repeatWhile_returned,
    fun arguments m m₀ hbegins expr span m' value n' hruns hreturn => ?_⟩
  · obtain ⟨expr, span, m', n', hruns, hreturn, hcloses⟩ := Part.runs_return h
    exact ⟨expr, span, m', n', hruns, hrun expr span ▸ hreturn, hcloses⟩
  · rw [← hrun expr span] at hreturn
    obtain ⟨n, hbody, hcloses⟩ := hruns.returned hreturn
    refine ⟨⟨n, hcloses, hbegins.callFunction_eq hbody⟩, fun part k hpart => ?_⟩
    obtain hinside | hinside | hbefore := hruns.compare hreturn hpart
    · exact .inl hinside
    · obtain ⟨rfl, rfl⟩ := hinside.eq_of_return
      exact .inl (.here _ _)
    · exact .inr hbefore

/-- The `return` stands in a conditional in a loop that would go on for ever, before another one. -/
theorem return_ends_call_of_loop :
    let ctx : Context := ⟨"main.vi", false, 200, .standard, .empty⟩
    let always : Expr := .boolean true default
    let returns (s : String) : Stmt := .returnValue (some (.string s default)) default
    let branch : Conditional := .mk always (.mk [returns "first"] default) .nothing default
    let loop : Stmt := .loop always (.mk [.conditional branch] default) default
    let f : UserFunction := ⟨0, "f", [], none, .mk [loop, returns "second"] default, default⟩
    let m := Machine.start (.empty none)
    f.Begins ctx [] m (m.enterCall f).enterScope ∧
      ∃ n, callFunction ctx 2 f [] m = .ok (.string "first") n := by
  intro ctx always returns branch loop f m
  have hbegins : f.Begins ctx [] m (m.enterCall f).enterScope := ⟨rfl, by decide, rfl⟩
  obtain ⟨hstatements, -, hcall⟩ := return_ends_call ctx 1 f
  obtain ⟨n, hloop⟩ : ∃ n, Part.run ctx 1 f (.statements [loop]) (m.enterCall f).enterScope =
      .ok (.returned (.string "first")) n := ⟨_, rfl⟩
  have hbody := (hstatements _ _ _ _ hloop).1 [returns "second"]
  obtain ⟨-, expr, span, m', n', hruns, hreturn, -⟩ := hstatements _ _ _ _ hbody
  obtain ⟨⟨k, -, hk⟩, -⟩ := hcall [] m _ hbegins expr span m' _ n' hruns hreturn
  exact ⟨hbegins, _, hk⟩

end Script
