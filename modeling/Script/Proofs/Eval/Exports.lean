import Script.Proofs.Eval.Frame
import Script.Proofs.Eval.Imports
import Script.Proofs.Eval.Returns

/-!
# What a module leaves in its root scope

Whatever is bound has been promoted. A name comes to be bound in the root scope by a statement of
the top level that binds it, or by a `global` declaration that such a statement runs. What an import
does inside of the modules that it imports is done on other machines.
-/

namespace Script

open Lockstep

/-! ### Promoted values -/

namespace Arena

variable {a b : Arena} {id : ScopeId}

/-- All values that are bound have been promoted. -/
def Promoted (a : Arena) : Prop :=
  ∀ name id binding, a.binding? name id = some binding → binding.value.promote = binding.value

theorem Promoted.mono (h : a.Promoted)
    (hb : ∀ name id binding, b.binding? name id = some binding →
      a.binding? name id = some binding ∨ binding.value.promote = binding.value) : b.Promoted :=
  fun name id binding hbinding => (hb name id binding hbinding).elim (h name id binding) fun h => h

/-- A step that binds a name to a promoted value. -/
theorem Promoted.of_bound (h : a.Promoted) {name : String} {target : ScopeId} {value : Value}
    {constant : Bool} (hb : ∀ other id, b.binding? other id =
      if id = target ∧ other = name then some ⟨value.promote, constant⟩ else a.binding? other id) :
    b.Promoted := by
  refine h.mono fun other id binding hbinding => ?_
  rw [hb] at hbinding
  split at hbinding
  · cases hbinding
    exact .inr (Value.promote_promote value)
  · exact .inl hbinding

theorem Promoted.create (h : a.Promoted) (ht : a.Tidy) (parent : Option ScopeId) :
    (a.create parent).2.Promoted :=
  h.mono fun _ _ _ hbinding => .inl (binding?_of_create ht hbinding)

theorem Promoted.release (h : a.Promoted) (id : ScopeId) : (a.release id).Promoted :=
  h.mono fun _ _ _ hbinding => .inl (binding?_of_release hbinding)

theorem promoted_withRoot : withRoot.Promoted := by
  refine Promoted.create (fun name id binding hbinding => ?_) tidy_empty none
  simp [binding?] at hbinding

end Arena

theorem Primitive.promoted {own : Set String} {m n : Machine} (h : Primitive own m n)
    (hm : m.arena.Promoted) : n.arena.Promoted := by
  cases h with
  | bound _ hbind => exact hm.of_bound (Arena.binding?_bind hbind)
  | boundGlobal hbind => exact hm.of_bound (Arena.binding?_bind hbind)
  | reassigned hreassign =>
    obtain ⟨_, _, -, -, hbound⟩ := Arena.binding?_reassign hreassign
    exact hm.of_bound hbound
  | _ => exact hm

theorem guarded_promoted :
    GuardedModules (fun m => m.arena.Tidy ∧ m.arena.Promoted) fun _ _ _ => True where
  refl := trivial
  trans _ _ := trivial
  mono _ _ := trivial
  primitive hm h := ⟨⟨h.tidy hm.1, h.promoted hm.2⟩, trivial⟩
  enterScope hm := ⟨hm.1.create _, hm.2.create hm.1 _⟩
  leaveScope _ hn _ := ⟨⟨hn.1.release _, hn.2.release _⟩, trivial⟩
  enterCall hm _ := hm
  leaveCall _ hn _ := ⟨hn, trivial⟩
  enterFile hm _ := hm
  leaveFile _ hn _ := ⟨hn, trivial⟩
  fresh _ := ⟨Arena.tidy_withRoot, Arena.promoted_withRoot⟩
  resume hm _ _ := ⟨hm, trivial⟩

variable {fuel : Nat} {ctx : Context} {m n : Machine} {name : String}

theorem promoted_runModule {stmts : List Stmt} (hm : m.arena.Tidy ∧ m.arena.Promoted)
    (h : runModule fuel ctx stmts m = .ok () n) : n.arena.Promoted := by
  have hlawful : (alone (fun m => m.arena.Tidy ∧ m.arena.Promoted)
    fun _ _ _ => True).LawfulModules := guarded_promoted.lawful
  have hafter := (hlawful.runModule fuel ctx ctx (contexts_alone ctx).surroundings stmts m m
    ⟨rfl, hm⟩).after.1.2
  rwa [Run.after_of_ok h] at hafter

/-! ### Declared names -/

/-- A top level that runs from a machine declares a name: one of its statements binds it, or else,
without being an import, runs a `global` declaration of it. -/
inductive Declares (fuel : Nat) (ctx : Context) (name : String) : List Stmt → Machine → Prop
  | bound {stmt : Stmt} {stmts : List Stmt} {m : Machine} (h : name ∈ stmt.binds) :
    Declares fuel ctx name (stmt :: stmts) m
  | global {stmt : Stmt} {stmts : List Stmt} {m : Machine} {later : List Event} {binding : Binding}
      (hkind : stmt.kind ≠ .importNames)
      (hevents : ((Task.topLevel stmt).after fuel ctx m).now.events = later ++ m.now.events)
      (hmem : .declaredGlobal name binding ∈ later) : Declares fuel ctx name (stmt :: stmts) m
  | later {stmt : Stmt} {stmts : List Stmt} {m : Machine}
      (h : Declares fuel ctx name stmts ((Task.topLevel stmt).after fuel ctx m)) :
    Declares fuel ctx name (stmt :: stmts) m

theorem exists_of_latestGlobal {events : List Event} {binding : Binding}
    (h : latestGlobal name events = some binding) : .declaredGlobal name binding ∈ events := by
  obtain ⟨event, hmem, hevent⟩ := List.exists_of_findSome?_eq_some h
  cases event with
  | declaredGlobal other binding' =>
    dsimp only at hevent
    split at hevent
    · next heq =>
      cases hevent
      exact heq ▸ hmem
    · cases hevent
  | _ => cases hevent

/-- Inside of its frame the root scope is only given names by `global` declarations. -/
theorem Frame.bound_before {own : Set String} (h : Frame own m n)
    (hroot : m.arena.isLive Arena.root) (hbound : (n.arena.binding? name Arena.root).isSome) :
    (m.arena.binding? name Arena.root).isSome ∨ name ∈ own ∨
      ∃ later binding, n.now.events = later ++ m.now.events ∧
        .declaredGlobal name binding ∈ later := by
  obtain ⟨later, hevents, hkept⟩ := h.kept
  by_cases hown : name ∈ own
  · exact .inr (.inl hown)
  · have hroot := hkept Arena.root hroot name fun h => hown h.2
    rw [Arena.bindingAfter, if_pos rfl] at hroot
    cases hglobal : latestGlobal name later with
    | some binding => exact .inr (.inr ⟨later, binding, hevents, exists_of_latestGlobal hglobal⟩)
    | none =>
      rw [hglobal, Option.none_or] at hroot
      obtain ⟨binding, hafter⟩ := Option.isSome_iff_exists.1 hbound
      rw [hafter] at hroot
      cases hbefore : m.arena.binding? name Arena.root with
      | none =>
        rw [hbefore] at hroot
        cases hroot
      | some _ => exact .inl rfl

theorem Arena.bound_of_bindAll {a b : Arena} {id other : ScopeId}
    {found : List (Identifier × Value)} (h : a.bindAll id found = .ok b)
    (hbound : (b.binding? name other).isSome) :
    (a.binding? name other).isSome ∨ name ∈ Identifier.names (found.map Prod.fst) := by
  induction found generalizing a with
  | nil =>
    cases h
    exact .inl hbound
  | cons entry found ih =>
    rw [bindAll, List.foldlM_cons] at h
    cases hbind : a.bind id entry.1.name entry.2 false with
    | error cause =>
      rw [hbind] at h
      cases h
    | ok next =>
      rw [hbind] at h
      obtain hnext | hnames := ih h
      · rw [binding?_bind hbind] at hnext
        split at hnext
        · next heq => exact .inr (by simp [Identifier.names, heq.2])
        · exact .inl hnext
      · exact .inr (List.mem_cons_of_mem _ hnames)

/-- What one statement adds to the root scope. -/
theorem bound_runTopLevel {stmt : Stmt} (hm : m.now.Sound ctx.maxDepth)
    (h : runTopLevel (runModule fuel) (callFunction ctx fuel) ctx stmt m = .ok () n)
    (hbound : (n.arena.binding? name Arena.root).isSome) :
    (m.arena.binding? name Arena.root).isSome ∨ name ∈ stmt.binds ∨
      stmt.kind ≠ .importNames ∧ ∃ later binding, n.now.events = later ++ m.now.events ∧
        .declaredGlobal name binding ∈ later := by
  by_cases himport : ∃ names module span, stmt = .importNames names module span
  · obtain ⟨names, module, span, rfl⟩ := himport
    obtain ⟨_, _, -, herror⟩ | ⟨found, k, n', hfind, hok, hall, -⟩ :=
      runImport_ends fuel names module hm
    · cases h.symm.trans herror
    · cases h.symm.trans hok
      obtain hbefore | hnames := Arena.bound_of_bindAll hall hbound
      · exact .inl hbefore
      · rw [names_of_findImported hfind] at hnames
        exact .inr (.inl hnames)
  · have hkind : stmt.kind ≠ .importNames := by
      intro hkind
      cases stmt with
      | importNames names module span => exact himport ⟨names, module, span, rfl⟩
      | _ => cases hkind
    have hruns : framed.Along stmt.binds Ended
        (runTopLevel (runModule fuel) (callFunction ctx fuel) ctx stmt)
        (runTopLevel (runModule fuel) (callFunction ctx fuel) ctx stmt) :=
      lawful_framed.runTopLevel (lawful_framed.callFunction rfl rfl fuel) stmt
        fun names module span heq => absurd ⟨names, module, span, heq⟩ himport
    have hframe := (hruns m m ⟨rfl, hm.tidy⟩).after.2
    rw [Run.after_of_ok h] at hframe
    obtain hbefore | hown | hglobal := hframe.bound_before hm.linked.isLive_root hbound
    · exact .inl hbefore
    · exact .inr (.inl hown)
    · exact .inr (.inr ⟨hkind, hglobal⟩)

/-- Every name in the root scope was there before or is declared by the top level. -/
theorem bound_runTopLevels {stmts : List Stmt} (hm : m.now.Sound ctx.maxDepth)
    (h : runTopLevels (runModule fuel) (callFunction ctx fuel) ctx stmts m = .ok () n)
    (hbound : (n.arena.binding? name Arena.root).isSome) :
    (m.arena.binding? name Arena.root).isSome ∨ Declares fuel ctx name stmts m := by
  induction stmts generalizing m with
  | nil =>
    cases h
    exact .inl hbound
  | cons stmt stmts ih =>
    rw [runTopLevels] at h
    obtain ⟨_, k, hstmt, hrest⟩ := Run.bind_eq_ok.1 h
    rw [Run.attributed_eq_ok] at hstmt
    have hafter : (Task.topLevel stmt).after fuel ctx m = k := Run.after_of_ok hstmt
    have hk : k.now.Sound ctx.maxDepth :=
      hafter ▸ ((Task.topLevel stmt).passes_after fuel ctx hm).sound hm
    obtain hbefore | hdeclares := ih hk hrest
    · obtain hold | hbinds | ⟨hkind, later, binding, hevents, hmem⟩ :=
        bound_runTopLevel hm hstmt hbefore
      · exact .inl hold
      · exact .inr (.bound hbinds)
      · exact .inr (.global hkind (by rw [hafter, hevents]) hmem)
    · exact .inr (.later (by rwa [hafter]))

/-! ### What an import from a file finds -/

/-- The file of a module is found, read and parsed, and its statements run from a new root scope to
the machine `k`. -/
structure FileRuns (fuel : Nat) (ctx : Context) (module : List String) (m : Machine)
    (location : Location) (stmts : List Stmt) (k : Machine) : Prop where
  located : locateModule ctx module = .ok location
  new : location ∉ m.world.loading
  parsed : ∃ source program, ctx.files.read (ctx.inside module).file = .ok source ∧
    parseSource source (ctx.inside module).file = .ok program ∧ program.statements = stmts
  ran : runTopLevels (runModule fuel) (callFunction (ctx.inside module) fuel) (ctx.inside module)
    stmts (m.forFile location) = .ok () k

theorem runTopLevels_of_runModuleFile {module : List String} {location : Location} {k : Machine}
    (hlocate : locateModule ctx module = .ok location) (hnew : location ∉ m.world.loading)
    (h : runModuleFile (runModule fuel) ctx module (m.forFile location) = .ok () k) :
    ∃ stmts, FileRuns (fuel - 1) ctx module m location stmts k := by
  unfold runModuleFile runFile runSource at h
  rcases hread : (ctx.inside module).files.read (ctx.inside module).file with e | source
  · simp only [hread] at h
    cases h
  rcases hparse : parseSource source (ctx.inside module).file with (_ | ⟨e, _⟩) | program
  · simp only [hread, hparse] at h
    cases h
  · simp only [hread, hparse] at h
    cases h
  · simp only [hread, hparse] at h
    cases fuel with
    | zero => cases h
    | succ fuel =>
      exact ⟨program.statements, hlocate, hnew, ⟨source, program, hread, hparse, rfl⟩, h⟩

theorem Arena.binding?_of_lookupLocal {a : Arena} {id : ScopeId} {value : Value}
    (h : a.lookupLocal id name = .ok (some value)) :
    ∃ constant, a.binding? name id = some ⟨value, constant⟩ := by
  unfold lookupLocal at h
  cases hscope : a.scope id with
  | error cause => simp [hscope, Bind.bind, Except.bind] at h
  | ok scope =>
    simp only [hscope, Bind.bind, Except.bind, Pure.pure, Except.pure, Except.ok.injEq,
      Option.map_eq_some_iff] at h
    obtain ⟨⟨_, constant⟩, hget, rfl⟩ := h
    exact ⟨constant, binding?_eq_some.2 ⟨scope, scope_eq_ok.1 hscope, hget⟩⟩

/-- What is found in a file are the values, promoted, of names that its own statements declare. -/
theorem declared_of_findImported {names : List Identifier} {module : List String}
    {found : List (Identifier × Value)} (hfile : ¬isStandard module)
    (h : findImported (runModule fuel) ctx names module m = .ok found n) :
    ∃ location stmts k, FileRuns (fuel - 1) ctx module m location stmts k ∧
      ∀ entry ∈ found, entry.2.promote = entry.2 ∧
        (∃ constant, k.arena.binding? entry.1.name Arena.root = some ⟨entry.2, constant⟩) ∧
        Declares (fuel - 1) (ctx.inside module) entry.1.name stmts (m.forFile location) := by
  obtain ⟨location, k, hlocate, hnew, hrun, hnames, -⟩ := findImported_of_file hfile h
  obtain ⟨stmts, hfile⟩ := runTopLevels_of_runModuleFile hlocate hnew hrun
  refine ⟨location, stmts, k, hfile, fun entry hmem => ?_⟩
  obtain ⟨constant, hbinding⟩ := Arena.binding?_of_lookupLocal ((mem_findNames hnames).2 entry hmem)
  refine ⟨?_, ⟨constant, hbinding⟩, ?_⟩
  · have hran : runModule (fuel - 1 + 1) (ctx.inside module) stmts (m.forFile location) =
        .ok () k := hfile.ran
    have hstart : (m.forFile location).arena.Tidy ∧ (m.forFile location).arena.Promoted :=
      ⟨Arena.tidy_withRoot, Arena.promoted_withRoot⟩
    exact promoted_runModule hstart hran _ _ _ hbinding
  · have hsound : (m.forFile location).now.Sound (ctx.inside module).maxDepth := by
      rw [Machine.forFile, Machine.now_fresh]
      exact Machine.sound_initial _ _ _
    refine (bound_runTopLevels hsound hfile.ran (hbinding ▸ rfl)).resolve_left ?_
    change ¬(Arena.withRoot.binding? entry.1.name Arena.root).isSome
    simp [Arena.withRoot, Arena.binding?, Arena.get?, Arena.create, Arena.empty, Arena.root,
      Scope.get?, Scope.empty]

end Script
