import Script.Proofs.Eval.Lockstep.Alone

/-!
# How an import from a file goes

An import that is not from the standard library ends in one of five ways. No file is found, or the
file is being loaded already; then nothing is run. Otherwise the file is run on a new machine. It
fails, or it lacks one of the names, or all the names are found in its root scope. Only the last
lets the importer go on, and until then nothing in its own scopes has changed.
-/

namespace Script

namespace Machine

/-- The machine on which an imported file runs. -/
def forFile (m : Machine) (location : Location) : Machine := (m.enterFile location).fresh

/-- The machine `m` after an imported file has been run on the machine `k`. -/
def afterFile (m : Machine) (location : Location) (k : Machine) : Machine :=
  ((m.enterFile location).resume k).leaveFile

end Machine

/-- The context in which the file of a module runs. -/
def Context.inside (ctx : Context) (module : List String) : Context :=
  { ctx with file := Path.ofModule ctx.file module }

/-- Where the file of a module lies. -/
def locateModule (ctx : Context) (module : List String) : Except ReadError Location :=
  ctx.files.canonicalize (ctx.inside module).file

/-- Runs the file of a module. -/
def runModuleFile (run : ModuleRunner) (ctx : Context) (module : List String) : Run Unit :=
  runFile run (ctx.inside module) (ctx.inside module).file

variable {run : ModuleRunner} {ctx : Context} {module : List String} {names : List Identifier}
  {m : Machine}

/-- The ways that the search for names in a file may end. -/
inductive FileSearch (run : ModuleRunner) (ctx : Context) (module : List String)
    (names : List Identifier) (m : Machine) :
    EStateM.Result Stop Machine (List (Identifier × Value)) → Prop
  | notFound {e : ReadError} (hlocate : locateModule ctx module = .error e) :
    FileSearch run ctx module names m
      (.error (.failed (.ofCause (.moduleNotFound (dotted module))))
        (m.raise (.moduleNotFound (dotted module))))
  | circular {location : Location} (hlocate : locateModule ctx module = .ok location)
      (hloading : location ∈ m.world.loading) :
    FileSearch run ctx module names m
      (.error (.failed (.ofCause (.circularImport (dotted module))))
        (m.raise (.circularImport (dotted module))))
  | failed {location : Location} {stop : Stop} {k : Machine}
      (hlocate : locateModule ctx module = .ok location) (hloading : location ∉ m.world.loading)
      (hrun : runModuleFile run ctx module (m.forFile location) = .error stop k) :
    FileSearch run ctx module names m
      (.error (stop.mapError (moduleError (dotted module))) (m.afterFile location k))
  | missing {location : Location} {k : Machine} {cause : Cause}
      (hlocate : locateModule ctx module = .ok location) (hloading : location ∉ m.world.loading)
      (hrun : runModuleFile run ctx module (m.forFile location) = .ok () k)
      (hnames : findNames (dotted module) (k.arena.lookupLocal Arena.root) names = .error cause) :
    FileSearch run ctx module names m
      (.error (.failed (.ofCause cause)) ((m.afterFile location k).raise cause))
  | found {location : Location} {k : Machine} {found : List (Identifier × Value)}
      (hlocate : locateModule ctx module = .ok location) (hloading : location ∉ m.world.loading)
      (hrun : runModuleFile run ctx module (m.forFile location) = .ok () k)
      (hnames : findNames (dotted module) (k.arena.lookupLocal Arena.root) names = .ok found) :
    FileSearch run ctx module names m (.ok found (m.afterFile location k))

/-- The run of a file counts it as being loaded, and happens on a machine of its own. -/
theorem Run.whileLoading_onNewMachine (location : Location) (inner : Run Unit) (m : Machine) :
    whileLoading location (onNewMachine inner) m =
      match inner (m.forFile location) with
      | .ok _ k => .ok k.arena (m.afterFile location k)
      | .error stop k => .error stop (m.afterFile location k) := by
  unfold whileLoading onNewMachine Machine.forFile Machine.enterFile
  cases inner _ <;> rfl

/-- The search ends in one of these ways. -/
theorem fileSearch (run : ModuleRunner) (ctx : Context) (module : List String)
    (names : List Identifier) (m : Machine) :
    FileSearch run ctx module names m (findInFile run ctx module names m) := by
  unfold findInFile
  dsimp only
  rcases hlocate : ctx.files.canonicalize (Path.ofModule ctx.file module) with e | location
  · exact .notFound hlocate
  · have hlocated (f : Location → Run (List (Identifier × Value))) :
        (Run.ofExcept (Except.mapError (fun _ => Cause.moduleNotFound (dotted module))
          (.ok location : Except ReadError Location)) >>= f) m = f location m :=
      rfl
    rw [hlocated, Run.get_bind]
    by_cases hloading : location ∈ m.world.loading
    · rw [if_pos (List.contains_iff_mem.2 hloading)]
      exact .circular hlocate hloading
    · rw [if_neg (mt List.contains_iff_mem.1 hloading)]
      change FileSearch run ctx module names m
        ((Run.mapError (moduleError (dotted module)) (Run.whileLoading location
          (Run.onNewMachine (runModuleFile run ctx module))) >>= fun arena =>
            Run.ofExcept (findNames (dotted module) (arena.lookupLocal Arena.root) names)) m)
      have hload := Run.whileLoading_onNewMachine location (runModuleFile run ctx module) m
      rcases hrun : runModuleFile run ctx module (m.forFile location) with ⟨_, k⟩ | ⟨stop, k⟩
      · rw [hrun] at hload
        rw [Run.bind_of_ok (Run.mapError_of_ok hload)]
        rcases hnames : findNames (dotted module) (k.arena.lookupLocal Arena.root) names with
          cause | found
        · exact .missing hlocate hloading hrun hnames
        · exact .found hlocate hloading hrun hnames
      · rw [hrun] at hload
        rw [Run.bind_of_error (Run.mapError_of_error hload)]
        exact .failed hlocate hloading hrun

/-- Of these ways the search ends in the one that applies. -/
theorem FileSearch.findInFile_eq
    {result : EStateM.Result Stop Machine (List (Identifier × Value))}
    (h : FileSearch run ctx module names m result) :
    findInFile run ctx module names m = result := by
  have hsearch := fileSearch run ctx module names m
  generalize findInFile run ctx module names m = result' at hsearch ⊢
  cases h <;> cases hsearch <;> simp_all

theorem Arena.cause_of_lookupLocal {a : Arena} {id : ScopeId} {name : String} {cause : Cause}
    (h : a.lookupLocal id name = .error cause) : cause = notLive id := by
  unfold lookupLocal scope at h
  cases hget : a.get? id with
  | none =>
    simp only [hget, Bind.bind, Except.bind, Except.error.injEq] at h
    exact h.symm
  | some scope => simp [hget, Bind.bind, Except.bind, Pure.pure, Except.pure] at h

theorem cause_of_findNames {module : String} {find : String → Except Cause (Option Value)}
    {names : List Identifier} {cause : Cause} (h : findNames module find names = .error cause) :
    (∃ name, cause = .importNotFound name module) ∨ ∃ name, find name = .error cause := by
  induction names with
  | nil => cases h
  | cons name names ih =>
    rw [findNames] at h
    rcases hfind : find name.name with other | (_ | value)
    · simp only [hfind, Bind.bind, Except.bind, Except.error.injEq] at h
      exact .inr ⟨name.name, h ▸ hfind⟩
    · simp only [hfind, Bind.bind, Except.bind] at h
      exact .inl ⟨name.name, (Except.error.inj h).symm⟩
    · rcases hrest : findNames module find names with other | rest
      · simp only [hfind, hrest, Bind.bind, Except.bind, Except.error.injEq] at h
        exact ih (h ▸ hrest)
      · simp [hfind, hrest, Bind.bind, Except.bind, Pure.pure, Except.pure] at h

/-- Finds the values of the names that an import asks for. -/
def findImported (run : ModuleRunner) (ctx : Context) (names : List Identifier)
    (module : List String) : Run (List (Identifier × Value)) :=
  if isStandard module then Run.ofExcept (findInLibrary ctx (dotted module) names)
  else findInFile run ctx module names

theorem runImport_eq (run : ModuleRunner) (ctx : Context) (names : List Identifier)
    (module : List String) :
    runImport run ctx names module = findImported run ctx names module >>= bindNames := by
  unfold runImport findImported
  split <;> rfl

theorem runImport_of_error {names : List Identifier} {stop : Stop} {n : Machine}
    (h : findImported run ctx names module m = .error stop n) :
    runImport run ctx names module m = .error stop n := by
  rw [runImport_eq, Run.bind_of_error h]

/-- The search changes the world, and nothing in the importer. -/
theorem toState_findImported (run : ModuleRunner) (ctx : Context) (names : List Identifier)
    (module : List String) (m : Machine) :
    ∃ world, ((findImported run ctx names module).after m).toState = { m.toState with world } := by
  unfold findImported
  split
  · cases findInLibrary ctx (dotted module) names with
    | error cause => exact ⟨m.world, rfl⟩
    | ok found => exact ⟨m.world, rfl⟩
  · have hsearch := fileSearch run ctx module names m
    generalize hresult : findInFile run ctx module names m = result at hsearch
    cases hsearch with
    | notFound _ => exact ⟨m.world, by rw [Run.after_of_error hresult]; rfl⟩
    | circular _ _ => exact ⟨m.world, by rw [Run.after_of_error hresult]; rfl⟩
    | failed _ _ _ => exact ⟨_, by rw [Run.after_of_error hresult]; rfl⟩
    | missing _ _ _ _ => exact ⟨_, by rw [Run.after_of_error hresult]; rfl⟩
    | found _ _ _ _ => exact ⟨_, by rw [Run.after_of_ok hresult]; rfl⟩

/-- What is found in the library are the exports. -/
theorem findImported_of_standard {names : List Identifier} {k : Machine}
    {found : List (Identifier × Value)} (hstandard : isStandard module)
    (h : findImported run ctx names module m = .ok found k) :
    findInLibrary ctx (dotted module) names = .ok found ∧ k = m := by
  rw [findImported, if_pos hstandard] at h
  cases hfind : findInLibrary ctx (dotted module) names with
  | error cause =>
    rw [hfind] at h
    cases h
  | ok other =>
    rw [hfind] at h
    cases h
    exact ⟨rfl, rfl⟩

/-- What is found in a file is in the root scope of the machine that has run it. -/
theorem findImported_of_file {names : List Identifier} {n : Machine}
    {found : List (Identifier × Value)} (hfile : ¬isStandard module)
    (h : findImported run ctx names module m = .ok found n) :
    ∃ location k, locateModule ctx module = .ok location ∧ location ∉ m.world.loading ∧
      runModuleFile run ctx module (m.forFile location) = .ok () k ∧
      findNames (dotted module) (k.arena.lookupLocal Arena.root) names = .ok found ∧
      n = m.afterFile location k := by
  rw [findImported, if_neg hfile] at h
  have hsearch := fileSearch run ctx module names m
  rw [h] at hsearch
  cases hsearch with
  | found hlocate hnew hrun hnames => exact ⟨_, _, hlocate, hnew, hrun, hnames, rfl⟩

theorem names_of_findImported {names : List Identifier} {k : Machine}
    {found : List (Identifier × Value)} (h : findImported run ctx names module m = .ok found k) :
    found.map Prod.fst = names := by
  by_cases hstandard : isStandard module
  · exact (mem_findInLibrary (findImported_of_standard hstandard h).1).1
  · obtain ⟨_, _, -, -, -, hnames, -⟩ := findImported_of_file hstandard h
    exact (mem_findNames hnames).1

/-! ### Binding what was found -/

/-- The arena once names have been bound in a scope to values, as variables and in order. -/
def Arena.bindAll (a : Arena) (id : ScopeId) (found : List (Identifier × Value)) :
    Except Cause Arena :=
  found.foldlM (fun a entry => a.bind id entry.1.name entry.2 false) a

/-- Binding promotes, and there is nothing left to promote in what has been promoted. -/
theorem Arena.bindAll_promote (a : Arena) (id : ScopeId) (found : List (Identifier × Value)) :
    a.bindAll id (found.map (Prod.map (·) Value.promote)) = a.bindAll id found := by
  induction found generalizing a with
  | nil => rfl
  | cons entry found ih =>
    have hbind : a.bind id entry.1.name entry.2.promote false =
        a.bind id entry.1.name entry.2 false := by
      rw [bind, bind, Value.promote_promote]
    rw [bindAll, bindAll, List.map_cons, List.foldlM_cons, List.foldlM_cons]
    change a.bind id entry.1.name entry.2.promote false >>= _ = _
    rw [hbind]
    exact congrArg _ (funext fun b => ih b)

/-- From a sound machine names can be bound in the active scope. Nothing else changes, but for
warnings. -/
theorem bindNames_ok {limit : Nat} {m : Machine} (hm : m.now.Sound limit)
    (found : List (Identifier × Value)) :
    ∃ n, bindNames found m = .ok () n ∧ m.arena.bindAll m.active found = .ok n.arena ∧
      n.toState = { m.toState with
        arena := n.arena, world := { m.world with warnings := n.world.warnings } } := by
  induction found generalizing m with
  | nil => exact ⟨m, rfl, rfl, rfl⟩
  | cons entry found ih =>
    obtain ⟨name, value⟩ := entry
    obtain ⟨ids, hc, hn⟩ := hm.linked.chain hm.linked.isLive_active
    obtain ⟨k, hk, ⟨cause, hcause, -⟩ | ⟨a, hbind, hdeclare⟩⟩ :=
      Run.declare_ends m.active name value false m
    · exact absurd hcause (hc.declare_ne_error hn name value false cause)
    · have hstate : k.toState = { m.toState with
          world := { m.world with warnings := k.world.warnings } } := by
        obtain rfl | ⟨warning, rfl⟩ := hk <;> rfl
      have hcalls : k.now.calls = m.now.calls := by
        obtain rfl | ⟨warning, rfl⟩ := hk <;> simp
      have hactive : k.active = m.active := by rw [hstate]
      have hdepth : k.depth = m.depth := by rw [hstate]
      have hloading : k.world.loading = m.world.loading := by rw [hstate]
      have hrestored : Machine.Restored m (k.step fun s => { s with arena := a }) :=
        { shape := Arena.sameShape_bind hbind
          active := hactive
          depth := hdepth
          loading := hloading
          calls := by rw [Machine.now_step]; exact hcalls }
      obtain ⟨n, hrest, hall, hn⟩ := ih (hrestored.sound hm)
      refine ⟨n, ?_, ?_, ?_⟩
      · rw [bindNames, Run.get_bind, Run.bind_of_ok hdeclare, hrest]
      · rw [Arena.bindAll, List.foldlM_cons, hbind, ← hactive]
        exact hall
      · rw [hn]
        change { k.toState with
          arena := n.arena, world := { k.world with warnings := n.world.warnings } } = _
        rw [hstate]

/-- An import fails when the search does and leaves the machine as the search has left it. Otherwise
it binds what was found. -/
theorem runImport_ends (fuel : Nat) (names : List Identifier) (module : List String)
    (hm : m.now.Sound ctx.maxDepth) :
    (∃ stop n, findImported (runModule fuel) ctx names module m = .error stop n ∧
      runImport (runModule fuel) ctx names module m = .error stop n) ∨
    ∃ found k n, findImported (runModule fuel) ctx names module m = .ok found k ∧
      runImport (runModule fuel) ctx names module m = .ok () n ∧
      m.arena.bindAll m.active found = .ok n.arena ∧
      n.toState = { m.toState with
        arena := n.arena, world := { k.world with warnings := n.world.warnings } } := by
  have hkeeps : Keeps ctx.maxDepth (findImported (runModule fuel) ctx names module) := by
    unfold findImported
    split
    · exact .ofExcept (harmless_findInLibrary _ _ _)
    · exact keeps_findInFile (fun ctx' stmts hctx => hctx ▸ keeps_runModule fuel ctx' stmts) rfl
        module names
  cases hfind : findImported (runModule fuel) ctx names module m with
  | error stop n => exact .inl ⟨stop, n, rfl, runImport_of_error hfind⟩
  | ok found k =>
    obtain ⟨world, hworld⟩ := toState_findImported (runModule fuel) ctx names module m
    have hk := (hkeeps.passes_after hm).sound hm
    rw [Run.after_of_ok hfind] at hworld hk
    obtain ⟨n, hbind, hall, hn⟩ := bindNames_ok hk found
    have hsame : k.toState = { m.toState with world := k.world } := by rw [hworld]
    refine .inr ⟨found, k, n, rfl, by rw [runImport_eq, Run.bind_of_ok hfind, hbind], ?_, ?_⟩
    · have harena : k.arena = m.arena := by rw [hsame]
      have hactive : k.active = m.active := by rw [hsame]
      rwa [harena, hactive] at hall
    · rw [hn, hsame]

end Script
