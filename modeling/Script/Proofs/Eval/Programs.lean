import Script.Proofs.Eval.Modules

/-!
# Programs one after the other

A machine on which any number of programs have been run is at rest: it is back in its root scope,
which is the only live one, and can run the next program. All that it went through was sound.
-/

namespace Script

/-- A machine on which some programs have been run, one after the other. -/
inductive Idle (ctx : Context) : Machine → Prop
  | first (world : World) : Idle ctx (.first ctx world)
  | executed {m : Machine} (fuel : Nat) (source : String) :
    Idle ctx m → Idle ctx (execute fuel ctx source m).2

namespace Machine

/-- The root scope is all there is, no call is in progress, and what is past was sound. -/
structure AtRest (limit : Nat) (m : Machine) : Prop where
  shape : Arena.SameShape .withRoot m.arena
  active : m.active = Arena.root
  depth : m.depth = 0
  calls : m.now.calls = []
  latest : m.moments.head? = some m.now
  moments : ∀ x ∈ m.moments, x.Sound limit
  raised : ∀ cause ∈ m.raised, cause.Excused

variable {limit : Nat} {m m' : Machine}

theorem atRest_start (limit : Nat) (world : World) : (start world).AtRest limit where
  shape := .refl _
  active := rfl
  depth := rfl
  calls := by simp [start, now, History.enter]
  latest := by simp [start, now, moments, History.enter]
  moments := by
    simp only [start, moments, Ghost.value_of, History.enter, List.mem_singleton]
    exact fun x hx => hx ▸ sound_initial limit world _
  raised := by simp [start, Machine.raised, History.enter]

theorem AtRest.sound (h : m.AtRest limit) : m.now.Sound limit :=
  h.moments m.now (List.mem_of_mem_head? h.latest)

theorem AtRest.passes (h : m.AtRest limit) (hpasses : Passes limit m m') : m'.AtRest limit where
  shape := h.shape.trans hpasses.shape
  active := hpasses.active.trans h.active
  depth := hpasses.depth.trans h.depth
  calls := hpasses.calls.trans h.calls
  latest := hpasses.latest h.latest
  moments x hmem := by
    obtain ⟨later, heq, hsound⟩ := hpasses.moments
    rw [heq, List.mem_append] at hmem
    exact hmem.elim (hsound x) (h.moments x)
  raised cause hmem := by
    obtain ⟨later, heq, hexcused⟩ := hpasses.raised
    rw [heq, List.mem_append] at hmem
    exact hmem.elim (hexcused cause) (h.raised cause)

end Machine

theorem Idle.atRest {ctx : Context} {m : Machine} (h : Idle ctx m) : m.AtRest ctx.maxDepth := by
  induction h with
  | first world =>
    unfold Machine.first
    split <;> exact Machine.atRest_start _ _
  | executed fuel source _ ih => exact ih.passes (passes_execute fuel ctx source ih.sound).1

/-- At every moment of a program the scopes are linked, and no operation at a live scope finds a
fault. Nothing fatal is ever raised but the failure of `print`, and only that, with the sink left as
the refused write has left it, ends a program with the exit code of a fatal error. -/
theorem Idle.execute_linked {ctx : Context} {m : Machine} (h : Idle ctx m) (fuel : Nat)
    (source : String) :
    (∀ x ∈ (execute fuel ctx source m).2.moments, x.state.arena.Linked x.state.active ∧
      ∀ id, x.state.arena.isLive id → x.state.arena.Answers id) ∧
    (∀ cause ∈ (execute fuel ctx source m).2.raised, cause.kind = .fatal →
      cause = Native.writeFailed) ∧
    ∀ failure, (execute fuel ctx source m).1 = .failed failure → failure.exitCode = exitFatal →
      ∃ e, failure = .program e ∧ e.cause = Native.writeFailed ∧
        (execute fuel ctx source m).2.world.output.Refused := by
  have hrest := (h.executed fuel source).atRest
  refine ⟨?_, hrest.raised, ?_⟩
  · intro x hmem
    have hlinked := (hrest.moments x hmem).linked
    exact ⟨hlinked, fun _ => hlinked.answers⟩
  · intro failure hfailed hexit
    have hexcused := (passes_execute fuel ctx source h.atRest.sound).2
    unfold Failure.exitCode at hexit
    split at hexit
    · next e =>
      split at hexit
      · next hfatal => exact ⟨e, rfl, hexcused e hfailed hfatal⟩
      · cases hexit
    · cases hexit

theorem Idle.execute_linked_of_print :
    let ctx : Context := ⟨"main.vi", false, 200, .standard, .empty⟩
    let m := Machine.first ctx (.empty (some 0))
    let source := "import print from std.io; fn main(files) \x7b print(files); \x7d"
    Idle ctx m ∧ ∀ x ∈ (execute 4 ctx source m).2.moments,
      x.state.arena.Linked x.state.active :=
  ⟨.first _, fun x hmem => ((Idle.execute_linked (.first _) 4 _).1 x hmem).1⟩

/-! ### From any moment -/

/-- The machine at the end of a run. -/
def Run.after (x : Run α) (m : Machine) : Machine :=
  match x m with
  | .ok _ m' => m'
  | .error _ m' => m'

theorem Run.after_of_ok {x : Run α} {m n : Machine} {a : α} (h : x m = .ok a n) :
    x.after m = n := by
  rw [after, h]

theorem Run.after_of_error {x : Run α} {m n : Machine} {stop : Stop} (h : x m = .error stop n) :
    x.after m = n := by
  rw [after, h]

/-- What can be run from a state. -/
inductive Task where
  | expression (expr : Expr)
  | statement (f : UserFunction) (stmt : Stmt)
  | block (f : UserFunction) (body : Block)
  | call (f : UserFunction) (arguments : List Value)
  | importNames (names : List Identifier) (module : List String)
  | topLevel (stmt : Stmt)
  | topLevels (stmts : List Stmt)
  | program (source : String)

/-- The machine at the end of a task. -/
def Task.after (fuel : Nat) (ctx : Context) (m : Machine) : Task → Machine
  | expression expr => (evaluate (callFunction ctx fuel) expr).after m
  | statement f stmt => (runStmt ctx (callFunction ctx fuel) fuel f stmt).after m
  | block f body => (runBlock ctx (callFunction ctx fuel) fuel f body).after m
  | call f arguments => (callFunction ctx fuel f arguments).after m
  | importNames names module => (runImport (runModule fuel) ctx names module).after m
  | topLevel stmt => (runTopLevel (runModule fuel) (callFunction ctx fuel) ctx stmt).after m
  | topLevels stmts => (runModule fuel ctx stmts).after m
  | program source => (execute fuel ctx source m).2

/-- The machines whose present moment some program has gone through. -/
def Reachable (ctx : Context) (m : Machine) : Prop :=
  ∃ m₀, Idle ctx m₀ ∧ m.now ∈ m₀.moments

theorem Idle.reachable {ctx : Context} {m : Machine} (h : Idle ctx m) : Reachable ctx m :=
  ⟨m, h, List.mem_of_mem_head? h.atRest.latest⟩

theorem Reachable.sound {ctx : Context} {m : Machine} (h : Reachable ctx m) :
    m.now.Sound ctx.maxDepth := by
  obtain ⟨m₀, hidle, hmem⟩ := h
  exact hidle.atRest.moments _ hmem

theorem Keeps.passes_after {limit : Nat} {x : Run α} {m : Machine} (hx : Keeps limit x)
    (hm : m.now.Sound limit) : Machine.Passes limit m (x.after m) := by
  unfold Run.after
  split
  · next hresult => exact (hx m hm).passes_of_ok hresult
  · next hresult => exact (hx m hm).passes_of_error hresult

theorem Task.passes_after (task : Task) (fuel : Nat) (ctx : Context) {m : Machine}
    (hm : m.now.Sound ctx.maxDepth) : Machine.Passes ctx.maxDepth m (task.after fuel ctx m) := by
  have hcall := keeps_callFunction ctx fuel
  have hrun (ctx' : Context) (stmts : List Stmt) (h : ctx'.maxDepth = ctx.maxDepth) :
      Keeps ctx.maxDepth (runModule fuel ctx' stmts) :=
    h ▸ keeps_runModule fuel ctx' stmts
  cases task with
  | expression expr => exact (keeps_evaluate hcall expr).passes_after hm
  | statement f stmt => exact (keeps_runStmt hcall stmt).passes_after hm
  | block f body => exact (keeps_runBlock hcall body).passes_after hm
  | call f arguments => exact (hcall f arguments).passes_after hm
  | importNames names module => exact (keeps_runImport hrun rfl names module).passes_after hm
  | topLevel stmt => exact (keeps_runTopLevel hrun hcall rfl stmt).passes_after hm
  | topLevels stmts => exact (keeps_runModule fuel ctx stmts).passes_after hm
  | program source => exact (passes_execute fuel ctx source hm).1

/-- Whatever is run from a state that a program can come to, in any module, leads back to the scope,
the live scopes, the depth and the files being loaded that it started with. In between the depth
counts the calls in progress, of which there are never too many. Between programs only the root
scope is live. -/
theorem Reachable.task_restores {ctx : Context} {m : Machine} (h : Reachable ctx m) (task : Task)
    (fuel : Nat) (file : String) :
    let m' := task.after fuel { ctx with file } m
    m'.active = m.active ∧
    (∀ id, m'.arena.isLive id = m.arena.isLive id) ∧
    m'.depth = m.depth ∧
    m'.world.loading = m.world.loading ∧
    (∃ later, m'.moments = later ++ m.moments ∧ ∀ x ∈ later,
      x.state.depth = x.calls.length ∧ x.state.depth ≤ ctx.maxDepth) ∧
    (Idle ctx m → ∀ source, let m' := (execute fuel ctx source m).2
      m'.active = Arena.root ∧ m'.arena.liveCount = 1 ∧ m'.depth = 0 ∧ Idle ctx m') := by
  have hpasses : Machine.Passes ctx.maxDepth m (task.after fuel { ctx with file } m) :=
    task.passes_after fuel { ctx with file } h.sound
  refine ⟨hpasses.active, Arena.isLive_congr hpasses.shape.link?, hpasses.depth, hpasses.loading,
    ?_, fun hidle source => ?_⟩
  · obtain ⟨later, heq, hsound⟩ := hpasses.moments
    exact ⟨later, heq, fun x hmem => ⟨(hsound x hmem).depth, (hsound x hmem).depth_le⟩⟩
  · have hidle' := hidle.executed fuel source
    have hrest := hidle'.atRest
    exact ⟨hrest.active, hrest.shape.liveCount_eq.trans (by rfl), hrest.depth, hidle'⟩

theorem Reachable.task_restores_of_recursion :
    let ctx : Context := ⟨"main.vi", false, 2, .standard, .empty⟩
    let source := "fn main(files) \x7b main(files); \x7d"
    let m := (execute 4 ctx source (.first ctx (.empty none))).2
    let m' := (Task.program source).after 4 ctx m
    Reachable ctx m ∧ m'.active = m.active ∧ m'.depth = m.depth ∧ m'.arena.liveCount = 1 := by
  intro ctx source m m'
  have hidle : Idle ctx m := (Idle.first _).executed 4 source
  have h := hidle.reachable.task_restores (.program source) 4 "main.vi"
  exact ⟨hidle.reachable, h.1, h.2.2.1, (h.2.2.2.2.2 hidle source).2.1⟩

end Script
