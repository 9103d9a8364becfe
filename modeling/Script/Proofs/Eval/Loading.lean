import Script.Proofs.Eval.Imports
import Script.Proofs.Files.Places

/-!
# Files being loaded

The files being loaded form a stack: the file of the program outermost, then the file that each of
them is importing at the moment. A file is put on the stack only when it is not on it, and is taken
off however its import ends. So no file is on the stack twice. What is put on it last may be a
directory, which fails only when it is read. So imports may be nested deeper by one than there are
files, if the program itself is in no file.
-/

namespace Script

open Lockstep

/-- The file of the program, if there is one. -/
def Context.outermost (ctx : Context) : List Location :=
  match ctx.files.canonicalize ctx.file with
  | .ok location => [location]
  | .error _ => []

/-- What the stack of files being loaded may be. All but the innermost have been read, up to the
file of the program, whose text is given. -/
structure FileTree.Loads (tree : FileTree) (outermost loading : List Location) : Prop where
  nodup : loading.Nodup
  places : ∀ location ∈ loading, location ∈ tree.places
  onTop : outermost <:+ loading
  read : ∀ location ∈ loading.tail, location ∈ outermost ∨ tree.isFile location

/-- The stack while a module runs. The innermost file has been read, too. -/
structure FileTree.Runs (tree : FileTree) (outermost loading : List Location) : Prop
    extends FileTree.Loads tree outermost loading where
  innermost : ∀ location ∈ loading, location ∈ outermost ∨ tree.isFile location

namespace FileTree

variable {tree : FileTree} {outermost loading : List Location} {location : Location}

theorem Runs.enter (h : tree.Runs outermost loading) (hplace : location ∈ tree.places)
    (hnew : location ∉ loading) : tree.Loads outermost (location :: loading) where
  nodup := List.nodup_cons.2 ⟨hnew, h.nodup⟩
  places := List.forall_mem_cons.2 ⟨hplace, h.places⟩
  onTop := h.onTop.trans (List.suffix_cons ..)
  read := h.innermost

theorem Loads.runs (h : tree.Loads outermost (location :: loading))
    (hfile : tree.isFile location) : tree.Runs outermost (location :: loading) where
  toLoads := h
  innermost := List.forall_mem_cons.2 ⟨.inr hfile, h.read⟩

/-- How deep imports are nested. There can be one more than there are files when a program that is
in no file itself is about to read a directory. -/
theorem Loads.imports (h : tree.Loads outermost loading) :
    ∃ imports, loading = imports ++ outermost ∧ imports.length ≤ tree.files.length + 1 ∧
      ((∃ main, outermost = [main] ∧ tree.isFile main) ∨
          (∀ location ∈ imports.head?, tree.isFile location) →
        imports.length ≤ tree.files.length) := by
  obtain ⟨imports, rfl⟩ := h.onTop
  obtain ⟨hnodup, -, hdisjoint⟩ := List.nodup_append.1 h.nodup
  have hrest : ∀ location ∈ imports.tail, tree.isFile location := by
    intro location hmem
    have hloaded : location ∈ (imports ++ outermost).tail := by
      cases imports with
      | nil => cases hmem
      | cons => exact List.mem_append_left outermost hmem
    refine (h.read location hloaded).resolve_left fun hmain => ?_
    exact hdisjoint location (List.mem_of_mem_tail hmem) location hmain rfl
  refine ⟨imports, rfl, ?_, ?_⟩
  · have htail := length_le_files (hnodup.sublist (List.tail_sublist _)) hrest
    rw [List.length_tail] at htail
    omega
  · rintro (⟨main, rfl, hmain⟩ | hfirst)
    · have hfiles : ∀ location ∈ (imports ++ [main]).tail, tree.isFile location := by
        intro location hmem
        obtain hmem | hfile := h.read location hmem
        · rwa [List.mem_singleton.1 hmem]
        · exact hfile
      have htail := length_le_files (h.nodup.sublist (List.tail_sublist _)) hfiles
      rwa [List.length_tail, List.length_append, List.length_singleton, Nat.add_sub_cancel] at htail
    · refine length_le_files hnodup ?_
      cases imports with
      | nil => exact List.forall_mem_nil _
      | cons first rest => exact List.forall_mem_cons.2 ⟨hfirst first rfl, hrest⟩

end FileTree

namespace Machine

/-- From `m` to `n` the stack has been as it may be. -/
def PassesLoading (tree : FileTree) (outermost : List Location) (m n : Machine) : Prop :=
  ∃ later, n.moments = later ++ m.moments ∧
    ∀ x ∈ later, tree.Loads outermost x.state.world.loading

/-- From `m` to `n` the stack has been as it may be, and it is as before. -/
structure KeepsLoading (tree : FileTree) (outermost : List Location) (m n : Machine) : Prop where
  loading : n.world.loading = m.world.loading
  passes : PassesLoading tree outermost m n

variable {tree : FileTree} {outermost : List Location} {m n k : Machine} {location : Location}

namespace PassesLoading

theorem refl (m : Machine) : PassesLoading tree outermost m m :=
  ⟨[], rfl, nofun⟩

theorem trans (h : PassesLoading tree outermost m n) (h' : PassesLoading tree outermost n k) :
    PassesLoading tree outermost m k := by
  obtain ⟨later, hlater, hloads⟩ := h
  obtain ⟨later', hlater', hloads'⟩ := h'
  refine ⟨later' ++ later, ?_, List.forall_mem_append.2 ⟨hloads', hloads⟩⟩
  rw [hlater', hlater, List.append_assoc]

/-- A machine that has gone on by one moment. -/
theorem cons {x : Moment} (hmoments : n.moments = x :: m.moments)
    (h : tree.Loads outermost x.state.world.loading) : PassesLoading tree outermost m n :=
  ⟨[x], hmoments, List.forall_mem_singleton.2 h⟩

theorem step {calls : List UserFunction → List UserFunction} {f : State → State}
    {events : List Event} (h : tree.Loads outermost (f m.toState).world.loading) :
    PassesLoading tree outermost m (m.stepWith calls f events) :=
  cons (moments_stepWith ..) h

end PassesLoading

namespace KeepsLoading

theorem refl (m : Machine) : KeepsLoading tree outermost m m :=
  ⟨rfl, .refl m⟩

theorem trans (h : KeepsLoading tree outermost m n) (h' : KeepsLoading tree outermost n k) :
    KeepsLoading tree outermost m k :=
  ⟨h'.loading.trans h.loading, h.passes.trans h'.passes⟩

theorem step {calls : List UserFunction → List UserFunction} {f : State → State}
    {events : List Event} (hm : tree.Runs outermost m.world.loading)
    (hf : (f m.toState).world.loading = m.world.loading) :
    KeepsLoading tree outermost m (m.stepWith calls f events) :=
  ⟨hf, .step (hf ▸ hm.toLoads)⟩

theorem raise (cause : Cause) : KeepsLoading tree outermost m (m.raise cause) :=
  ⟨rfl, [], moments_raise m cause, nofun⟩

theorem primitive {own : Set String} (hm : tree.Runs outermost m.world.loading)
    (h : Primitive own m n) : KeepsLoading tree outermost m n := by
  cases h with
  | boundGlobal _ => exact (step hm rfl).trans (step hm rfl)
  | raised cause => exact raise cause
  | _ => exact step hm rfl

/-- The stack is as before once a file has been imported, if its run has kept it. -/
theorem afterFile (hm : tree.Runs outermost m.world.loading) (hplace : location ∈ tree.places)
    (hnew : location ∉ m.world.loading)
    (h : KeepsLoading tree outermost (m.forFile location) k) :
    KeepsLoading tree outermost m (m.afterFile location k) := by
  have hinside := hm.enter hplace hnew
  have hloading : k.world.loading = location :: m.world.loading := h.loading
  have henter : PassesLoading tree outermost m (m.forFile location) := by
    have hentered : PassesLoading tree outermost m (m.enterFile location) := .step hinside
    exact hentered.trans (.step hinside)
  have hresume : PassesLoading tree outermost k ((m.enterFile location).resume k) :=
    .cons (moments_resume ..) (by rw [now_resume]; exact hloading ▸ hinside)
  have hback : (m.afterFile location k).world.loading = m.world.loading :=
    congrArg List.tail hloading
  have hleave : PassesLoading tree outermost ((m.enterFile location).resume k)
      (m.afterFile location k) := .step (hback ▸ hm.toLoads)
  exact ⟨hback, ((henter.trans h.passes).trans hresume).trans hleave⟩

end KeepsLoading

end Machine

theorem guarded_loading (tree : FileTree) (outermost : List Location) :
    Guarded (fun m => tree.Runs outermost m.world.loading)
      fun _ => Machine.KeepsLoading tree outermost where
  refl := .refl _
  trans := .trans
  mono _ h := h
  primitive hm h := by
    have hkeeps := Machine.KeepsLoading.primitive hm h
    exact ⟨by rwa [hkeeps.loading], hkeeps⟩
  enterScope hm := hm
  leaveScope {m n} hm hn h := by
    unfold Machine.enterScope at h
    unfold Machine.leaveScope
    exact ⟨hn, ((Machine.KeepsLoading.step hm rfl).trans h).trans (.step hn rfl)⟩
  enterCall hm _ := hm
  leaveCall {m n f} hm hn h := by
    unfold Machine.enterCall at h
    exact ⟨hn, ((Machine.KeepsLoading.step hm rfl).trans h).trans (.step hn rfl)⟩

/-- A run that keeps the stack of files being loaded. -/
def loads (tree : FileTree) (outermost : List Location) : Lockstep :=
  alone (fun m => tree.Runs outermost m.world.loading)
    fun _ => Machine.KeepsLoading tree outermost

instance (tree : FileTree) (outermost : List Location) : (loads tree outermost).Total :=
  ⟨fun _ h => h⟩

instance (tree : FileTree) (outermost : List Location) : (loads tree outermost).Exact :=
  inferInstanceAs (alone _ _).Exact

section

variable {tree : FileTree} {outermost : List Location} {ctx : Context} {run : ModuleRunner}

theorem lawful_loads (tree : FileTree) (outermost : List Location) :
    (loads tree outermost).LawfulTopLevels :=
  (guarded_loading tree outermost).lawful

/-- The file of a module keeps the stack on which it has been put, whether it can be read or not. -/
theorem keepsLoading_runModuleFile {module : List String} {location : Location} {m : Machine}
    (hlocate : locateModule ctx module = .ok location)
    (hrun : ∀ file stmts, (loads ctx.files outermost).Along .univ Ended
      (run { ctx with file } stmts) (run { ctx with file } stmts))
    (hm : ctx.files.Runs outermost m.world.loading) (hnew : location ∉ m.world.loading) :
    Machine.KeepsLoading ctx.files outermost (m.forFile location)
      ((runModuleFile run ctx module).after (m.forFile location)) := by
  have hinside := hm.enter (FileTree.mem_places_of_canonicalize hlocate) hnew
  unfold runModuleFile runFile
  cases hread : (ctx.inside module).files.read (ctx.inside module).file with
  | error e => exact .raise _
  | ok source =>
    have hruns : ctx.files.Runs outermost (m.forFile location).world.loading :=
      hinside.runs (FileTree.isFile_of_read hread hlocate)
    dsimp only
    unfold runSource
    rcases parseSource source (ctx.inside module).file with (_ | ⟨e, _⟩) | program
    · exact .raise _
    · exact .raise _
    · exact (hrun _ program.statements _ _ ⟨rfl, hruns⟩).after.2

/-- The search for names in a file keeps the stack, however it ends. -/
theorem loads_findInFile (hrun : ∀ file stmts, (loads ctx.files outermost).Along .univ Ended
      (run { ctx with file } stmts) (run { ctx with file } stmts))
    (module : List String) (names : List Identifier) :
    (loads ctx.files outermost).Along ∅ ((loads ctx.files outermost).Found names)
      (findInFile run ctx module names) (findInFile run ctx module names) := by
  rintro _ m ⟨rfl, hm⟩
  have hafter {location : Location} {k : Machine}
      (hlocate : locateModule ctx module = .ok location) (hnew : location ∉ m.world.loading)
      (hk : (runModuleFile run ctx module).after (m.forFile location) = k) :
      Machine.KeepsLoading ctx.files outermost m (m.afterFile location k) :=
    .afterFile hm (FileTree.mem_places_of_canonicalize hlocate) hnew
      (hk ▸ keepsLoading_runModuleFile hlocate hrun hm hnew)
  have hends {k : Machine} (h : Machine.KeepsLoading ctx.files outermost m k) :
      (loads ctx.files outermost).Rel k k := by
    refine ⟨rfl, ?_⟩
    change ctx.files.Runs outermost k.world.loading
    rwa [h.loading]
  have hsearch := fileSearch run ctx module names m
  generalize hresult : findInFile run ctx module names m = result at hsearch
  cases hsearch with
  | notFound _ => exact .of_error _ hresult hresult (hends (.raise _)) (.raise _)
  | circular _ _ => exact .of_error _ hresult hresult (hends (.raise _)) (.raise _)
  | failed hlocate hnew hk =>
    have hkeeps := hafter hlocate hnew (Run.after_of_error hk)
    exact .of_error _ hresult hresult (hends hkeeps) hkeeps
  | @missing _ _ cause hlocate hnew hk _ =>
    have hkeeps := hafter hlocate hnew (Run.after_of_ok hk)
    have hraised := hkeeps.trans (.raise cause)
    exact .of_error _ hresult hresult (hends hraised) hraised
  | found hlocate hnew hk hnames =>
    have hkeeps := hafter hlocate hnew (Run.after_of_ok hk)
    exact .of_ok hresult hresult (hends hkeeps) hkeeps
      ⟨(List.map_id _).symm, (mem_findNames hnames).1⟩

theorem loads_runModule (outermost : List Location) (fuel : Nat) (ctx : Context)
    (stmts : List Stmt) :
    (loads ctx.files outermost).Along .univ Ended (runModule fuel ctx stmts)
      (runModule fuel ctx stmts) := by
  induction fuel generalizing ctx stmts with
  | zero => exact fun m m' hm => (lawful_loads ctx.files outermost).outOfFuel hm
  | succ fuel ih =>
    have hL := lawful_loads ctx.files outermost
    have hctx : (loads ctx.files outermost).Surroundings ctx ctx :=
      (contexts_alone ctx).surroundings
    have hcall : (loads ctx.files outermost).Calls (callFunction ctx fuel)
        (callFunction ctx fuel) := hL.callFunction rfl rfl fuel
    have hfind (module : List String) (names : List Identifier) :
        (loads ctx.files outermost).Along ∅ ((loads ctx.files outermost).Found names)
          (findInFile (runModule fuel) ctx module names)
          (findInFile (runModule fuel) ctx module names) :=
      loads_findInFile (fun file stmts => ih { ctx with file } stmts) module names
    have hstmts := hL.runTopLevels rfl stmts fun stmt _ =>
      hL.runTopLevel hcall stmt fun names module _ _ => hL.runImport hctx (hfind module names)
    exact fun m m' hm => hL.weaken (hstmts m m' hm) (Set.subset_univ _)

end

/-! ### Programs -/

theorem first_loading (ctx : Context) (world : World) :
    (Machine.first ctx world).world.loading = ctx.outermost := by
  unfold Machine.first Context.outermost
  cases ctx.files.canonicalize ctx.file <;> rfl

theorem FileTree.runs_outermost (ctx : Context) : ctx.files.Runs ctx.outermost ctx.outermost := by
  have houtermost : ctx.outermost.Nodup ∧
      ∀ location ∈ ctx.outermost, location ∈ ctx.files.places := by
    unfold Context.outermost
    split
    · next hlocate =>
      refine ⟨List.nodup_singleton _, List.forall_mem_singleton.2 ?_⟩
      exact FileTree.mem_places_of_canonicalize hlocate
    · exact ⟨List.nodup_nil, nofun⟩
  refine ⟨⟨houtermost.1, houtermost.2, List.suffix_rfl, fun location hmem => .inl ?_⟩,
    fun location hmem => .inl hmem⟩
  exact List.mem_of_mem_tail hmem

theorem state_of_mem_first {ctx : Context} {world : World} {x : Moment}
    (h : x ∈ (Machine.first ctx world).moments) : x.state = (Machine.first ctx world).toState := by
  unfold Machine.first at h ⊢
  split at h <;> simp_all [Machine.start, Machine.moments, History.enter]

/-- At every moment of a program the stack is as it may be. -/
theorem Idle.loads {ctx : Context} {m : Machine} (h : Idle ctx m) :
    ctx.files.Runs ctx.outermost m.world.loading ∧
      ∀ x ∈ m.moments, ctx.files.Loads ctx.outermost x.state.world.loading := by
  induction h with
  | first world =>
    have hruns : ctx.files.Runs ctx.outermost (Machine.first ctx world).world.loading :=
      first_loading ctx world ▸ FileTree.runs_outermost ctx
    refine ⟨hruns, fun x hmem => ?_⟩
    rw [state_of_mem_first hmem]
    exact hruns.toLoads
  | @executed m fuel source _ ih =>
    obtain ⟨hruns, hmoments⟩ := ih
    have hL := lawful_loads ctx.files ctx.outermost
    obtain ⟨-, -, hkeeps⟩ := (hL.execute_within (contexts_alone ctx).surroundings
      (loads_runModule ctx.outermost fuel ctx) source ⟨rfl, hruns⟩).resolve_left
        fun h => Total.not_gone _ h.2
    obtain ⟨later, hlater, hloads⟩ := hkeeps.passes
    refine ⟨hkeeps.loading ▸ hruns, ?_⟩
    rw [hlater]
    exact List.forall_mem_append.2 ⟨hloads, hmoments⟩

theorem moduleError_ne_circular {module repeated : String} {e : Error} :
    (moduleError module e).cause ≠ .circularImport repeated := by
  intro hcause
  unfold moduleError at hcause
  split at hcause
  · next hfatal =>
    rw [Error.isFatal, Error.kind, hcause] at hfatal
    cases hfatal
  · cases hcause

theorem findInLibrary_ne_circular {ctx : Context} {module repeated : String}
    {names : List Identifier} {cause : Cause}
    (h : findInLibrary ctx module names = .error cause) : cause ≠ .circularImport repeated := by
  rintro rfl
  unfold findInLibrary at h
  split at h
  · obtain ⟨_, hcause⟩ | ⟨_, hcause⟩ := cause_of_findNames h
    · cases hcause
    · cases hcause
  · cases h

/-- The search in a file is refused as circular only if the file is being loaded. -/
theorem FileSearch.loading_of_circularImport {run : ModuleRunner} {ctx : Context}
    {module : List String} {names : List Identifier} {m n : Machine} {e : Error} {repeated : String}
    (h : FileSearch run ctx module names m (.error (.failed e) n))
    (hcause : e.cause = .circularImport repeated) :
    ∃ location ∈ m.world.loading, locateModule ctx module = .ok location := by
  generalize hresult : EStateM.Result.error (Stop.failed e) n = result at h
  cases h with
  | notFound _ =>
    cases hresult
    cases hcause
  | circular hlocate hloading => exact ⟨_, hloading, hlocate⟩
  | @failed _ stop _ _ _ _ =>
    cases stop with
    | failed _ =>
      cases hresult
      exact absurd hcause moduleError_ne_circular
    | outOfFuel => cases hresult
  | missing _ _ _ hnames =>
    cases hresult
    obtain ⟨_, hmissing⟩ | ⟨name, hlookup⟩ := cause_of_findNames hnames
    · cases hmissing.symm.trans hcause
    · cases (Arena.cause_of_lookupLocal hlookup).symm.trans hcause
  | found _ _ _ _ => cases hresult

/-- An import is refused as circular only if it is. -/
theorem loading_of_circularImport {ctx : Context} {m n : Machine} {fuel : Nat}
    {names : List Identifier} {module : List String} {e : Error} {repeated : String}
    (hm : m.now.Sound ctx.maxDepth)
    (himport : runImport (runModule fuel) ctx names module m = .error (.failed e) n)
    (hcause : e.cause = .circularImport repeated) :
    ¬isStandard module ∧ ∃ location ∈ m.world.loading, locateModule ctx module = .ok location := by
  obtain ⟨stop, k, hfind, herror⟩ | ⟨_, _, k, -, hok, -⟩ := runImport_ends fuel names module hm
  · rw [himport] at herror
    cases herror
    unfold findImported at hfind
    split at hfind
    · cases hlibrary : findInLibrary ctx (dotted module) names with
      | error cause =>
        rw [hlibrary] at hfind
        cases hfind
        exact absurd hcause (findInLibrary_ne_circular hlibrary)
      | ok found =>
        rw [hlibrary] at hfind
        cases hfind
    · next hstandard =>
      have hsearch := fileSearch (runModule fuel) ctx module names m
      rw [hfind] at hsearch
      exact ⟨hstandard, hsearch.loading_of_circularImport hcause⟩
  · rw [himport] at hok
    cases hok

/-- No file is being loaded twice at once, so imports are nested deeper by at most one than there are
files, and no deeper if the program itself is in a file or if it is a file that is imported last. An
attempt to import a file that is being loaded is refused, and nothing of that file runs again.
However an import ends, the files being loaded are those from before, and no import of another file
is refused as circular. -/
theorem Reachable.loading_acyclic {ctx : Context} {m : Machine} (h : Reachable ctx m) :
    let loading := m.world.loading
    loading.Nodup ∧
    (∀ location ∈ loading, location ∈ ctx.files.places) ∧
    (∃ imports, loading = imports ++ ctx.outermost ∧
      imports.length ≤ ctx.files.files.length + 1 ∧
      ((∃ main, ctx.outermost = [main] ∧ ctx.files.isFile main) ∨
          (∀ location ∈ imports.head?, ctx.files.isFile location) →
        imports.length ≤ ctx.files.files.length)) ∧
    ∀ fuel file names module,
      let imported := runImport (runModule fuel) { ctx with file } names module
      let located := locateModule { ctx with file } module
      (imported.after m).world.loading = loading ∧
      (∀ location ∈ loading, ¬isStandard module → located = .ok location →
        imported m = .error (.failed (.ofCause (.circularImport (dotted module))))
          (m.raise (.circularImport (dotted module)))) ∧
      ∀ e n repeated, imported m = .error (.failed e) n → e.cause = .circularImport repeated →
        ¬isStandard module ∧ ∃ location ∈ loading, located = .ok location := by
  intro loading
  obtain ⟨m₀, hidle, hmem⟩ := h
  have hloads : ctx.files.Loads ctx.outermost loading := hidle.loads.2 _ hmem
  have hm := hidle.atRest.moments _ hmem
  refine ⟨hloads.nodup, hloads.places, hloads.imports, fun fuel file names module => ?_⟩
  intro imported located
  refine ⟨?_, fun location hloading hstandard hlocate => ?_, fun e n repeated => ?_⟩
  · exact ((Task.importNames names module).passes_after fuel { ctx with file } hm).loading
  · have hfind : findImported (runModule fuel) { ctx with file } names module m =
        .error (.failed (.ofCause (.circularImport (dotted module))))
          (m.raise (.circularImport (dotted module))) := by
      rw [findImported, if_neg hstandard]
      exact FileSearch.findInFile_eq (.circular hlocate hloading)
    exact runImport_of_error hfind
  · have hm' : m.now.Sound { ctx with file }.maxDepth := hm
    exact loading_of_circularImport hm'

/-- A program whose file is being loaded cannot import itself, also not by way of a link. -/
theorem Reachable.loading_acyclic_of_link :
    let files : FileTree := ⟨[], [(["main.vi"], .file .empty)], [(["other.vi"], ["main.vi"])]⟩
    let ctx : Context := ⟨"main.vi", false, 200, .standard, files⟩
    let m := Machine.first ctx (.empty none)
    Reachable ctx m ∧ m.world.loading = [["main.vi"]] ∧
      runImport (runModule 4) ctx [⟨"x", 1⟩] ["other"] m =
        .error (.failed (.ofCause (.circularImport "other")))
          (m.raise (.circularImport "other")) := by
  intro files ctx m
  have h : Reachable ctx m := (Idle.first _).reachable
  have hloading : m.world.loading = [["main.vi"]] := by decide +kernel
  obtain ⟨-, hcircular, -⟩ := h.loading_acyclic.2.2.2 4 "main.vi" [⟨"x", 1⟩] ["other"]
  refine ⟨h, hloading, hcircular ["main.vi"] ?_ (by decide) (by decide +kernel)⟩
  rw [hloading]
  exact List.mem_singleton_self _

section

variable {ctx : Context} {m n : Machine} {fuel : Nat} {source : String}

theorem Machine.now_enterFile_mem (m : Machine) (location : Location) (cause : Cause) :
    (m.enterFile location).now ∈
      (m.afterFile location ((m.forFile location).raise cause)).moments := by
  have hinside : (m.enterFile location).now ∈ (m.forFile location).moments := by
    rw [forFile, moments_fresh, enterFile, moments_step, now_step]
    exact List.mem_cons_of_mem _ List.mem_cons_self
  rw [afterFile, leaveFile, moments_step, moments_resume, moments_raise]
  exact List.mem_cons_of_mem _ (List.mem_cons_of_mem _ hinside)

/-- A program goes no further than the first statement that fails. -/
theorem execute_of_error_first {stmt : Stmt} {stmts : List Stmt} {span : Span} {stop : Stop}
    (hparse : parseSource source ctx.file = .ok (.mk (stmt :: stmts) span))
    (h : runTopLevel (runModule fuel) (callFunction ctx fuel) ctx stmt m = .error stop n) :
    (execute (fuel + 1) ctx source m).2 = n := by
  have hmodule : runModule (fuel + 1) ctx (stmt :: stmts) m =
      .error (stop.attributed ctx stmt.kind stmt.span.start) n :=
    Run.bind_of_error (Run.attributedTo_of_error h)
  rw [execute_of_parse hparse, runProgram, Block.statements, hmodule]

/-- What is imported first counts as being loaded, also if it cannot be read. -/
theorem now_enterFile_mem_execute {names : List Identifier} {module : List String}
    {stmts : List Stmt} {span span' : Span} {location : Location} {e : ReadError}
    (hparse : parseSource source ctx.file = .ok (.mk (.importNames names module span :: stmts) span'))
    (hstandard : ¬isStandard module) (hlocate : locateModule ctx module = .ok location)
    (hnew : location ∉ m.world.loading)
    (hread : ctx.files.read (ctx.inside module).file = .error e) :
    (m.enterFile location).now ∈ (execute (fuel + 1) ctx source m).2.moments := by
  let cause : Cause := .moduleFailed (ctx.inside module).file e.message
  have hfile : runModuleFile (runModule fuel) ctx module (m.forFile location) =
      .error (.failed (.ofCause cause)) ((m.forFile location).raise cause) := by
    have hread' : (ctx.inside module).files.read (ctx.inside module).file = .error e := hread
    rw [runModuleFile, runFile, hread']
    rfl
  have hsearch : FileSearch (runModule fuel) ctx module names m _ := .failed hlocate hnew hfile
  have himport := runImport_of_error (by
    rw [findImported, if_neg hstandard]
    exact hsearch.findInFile_eq)
  rw [execute_of_error_first hparse himport]
  exact m.now_enterFile_mem location cause

end

/-- A program that is in no file imports a directory, where there are no files at all. -/
theorem Reachable.loading_of_directory :
    let files : FileTree := ⟨[], [(["d.vi"], .directory)], []⟩
    let ctx : Context := ⟨"main.vi", false, 200, .standard, files⟩
    let run := execute 2 ctx "import x from d;" (.first ctx (.empty none))
    ctx.files.files = [] ∧ ctx.outermost = [] ∧ ∃ m : Machine,
      m.now ∈ run.2.moments ∧ Reachable ctx m ∧ m.world.loading = [["d.vi"]] := by
  intro files ctx run
  let m := Machine.first ctx (.empty none)
  let span (start stop : Nat) : Span := ⟨⟨start, 1, "main.vi"⟩, ⟨stop, 1, "main.vi"⟩⟩
  have htokens : tokenize "import x from d;" ctx.file = .ok
      [⟨.wordImport, "import", span 0 6⟩, ⟨.identifier, "x", span 7 8⟩,
        ⟨.wordFrom, "from", span 9 13⟩, ⟨.identifier, "d", span 14 15⟩,
        ⟨.semicolon, ";", span 15 16⟩, .endOfFile ⟨16, 1, "main.vi"⟩] := by
    decide +kernel
  have hparse : parseSource "import x from d;" ctx.file =
      .ok (.mk [.importNames [⟨"x", 1⟩] ["d"] (span 0 16)] (span 0 16)) := by
    rw [parseSource, htokens]
    rfl
  have hnone : m.world.loading = [] := by decide +kernel
  have hmem : (m.enterFile ["d.vi"]).now ∈ run.2.moments :=
    now_enterFile_mem_execute (e := .isDirectory) hparse (by decide) (by decide +kernel)
      (hnone ▸ List.not_mem_nil) (by decide +kernel)
  have hidle : Idle ctx run.2 := .executed 2 _ (.first _)
  exact ⟨by decide +kernel, by decide +kernel, m.enterFile ["d.vi"], hmem, ⟨_, hidle, hmem⟩,
    congrArg (["d.vi"] :: ·) hnone⟩

end Script
