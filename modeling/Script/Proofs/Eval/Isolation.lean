import Script.Proofs.Eval.Exports
import Script.Proofs.Eval.Lockstep.Translated
import Script.Proofs.Value.Numbers

/-!
# Imports are isolated

An imported file sees nothing of the importer but the output and the files that are being loaded.
Two importers have made different functions before, so the file is run a third time, in a world that
knows the functions of both, and each of the two runs goes in step with that one. What is left of
them in the third run is what they share.
-/

namespace Script

open Lockstep

/-- What two importers have in common that a file can tell. The functions in the library were made
before either of them ran, and what is inferred for them is part of the library. -/
structure Library.Alike (library : Library) (w w' : World) : Prop where
  output : w'.output = w.output
  loading : w'.loading = w.loading
  known : ∀ id ∈ library.numbers, id < w.inferred.size ∧ id < w'.inferred.size
  inferred : ∀ id ∈ library.numbers, w'.inferred? id = w.inferred? id

/-! ### One world for two runs -/

namespace World

variable (w w' : World)

/-- How many numbers suffice for the functions of either world. -/
def room : Nat := max w.inferred.size w'.inferred.size

/-- A world that knows the functions of two worlds, those of the first on the left and those of the
second on the right. -/
def both : World :=
  { w with inferred := Array.ofFn fun id : Fin (3 * w.room w') =>
      if id < w.room w' then w.inferred? id
      else if (id - w.room w') % 2 = 0 then w.inferred? ((id - w.room w') / 2)
      else w'.inferred? ((id - w.room w') / 2) }

theorem size_le_room (right : Bool) : (bif right then w' else w).inferred.size ≤ w.room w' := by
  cases right with
  | false => exact Nat.le_max_left ..
  | true => exact Nat.le_max_right ..

theorem size_both : (w.both w').inferred.size = 3 * w.room w' := by
  rw [both, Array.size_ofFn]

variable {w w'}

theorem inferred?_both_of_lt {id : Nat} (h : id < w.room w') :
    (w.both w').inferred? id = w.inferred? id := by
  have hlt : id < 3 * w.room w' := by omega
  simp [inferred?, both, h, hlt]

theorem inferred?_both_of_ge {id : Nat} (h : w.room w' ≤ id) (hlt : id < 3 * w.room w') :
    (w.both w').inferred? id =
      (if (id - w.room w') % 2 = 0 then w else w').inferred? ((id - w.room w') / 2) := by
  simp only [inferred?, both, Array.getElem?_ofFn, hlt, dif_pos, if_neg (Nat.not_lt.2 h),
    Option.join_some]
  split <;> rfl

/-- What is inferred for a function that only one of the worlds knows. -/
theorem inferred?_both_old (right : Bool) {id : Nat} (h : id < w.room w') :
    (w.both w').inferred? (w.room w' + 2 * id + right.toNat) =
      (bif right then w' else w).inferred? id := by
  have hright := right.toNat_le
  rw [inferred?_both_of_ge (by omega) (by omega)]
  have hhalf : (w.room w' + 2 * id + right.toNat - w.room w') / 2 = id := by omega
  rw [hhalf]
  cases right with
  | false => rw [if_pos (by simp only [Bool.toNat_false]; omega), cond_false]
  | true => rw [if_neg (by simp only [Bool.toNat_true]; omega), cond_true]

end World

/-! ### Into that world -/

/-- How a run that starts in one of two worlds goes into the world of both. -/
noncomputable def Translation.into (shared : Set Nat) (w w' : World) (right : Bool) :
    Translation where
  value := Value.renumber (apart shared (w.room w') right (bif right then w' else w).inferred.size)
  number := apart shared (w.room w') right (bif right then w' else w).inferred.size
  earlier := ((bif right then w' else w).warnings, w.warnings)

instance (shared : Set Nat) (w w' : World) (right : Bool) :
    (Translation.into shared w w' right).lockstep.Exact where
  not_left _ _ _ h := h
  displacement := rfl
  stops := rfl

theorem Translation.transparent_into (shared : Set Nat) (w w' : World) (right : Bool) :
    Transparent (into shared w w' right).number (into shared w w' right).value :=
  Value.transparent_renumber (apart_injective (World.size_le_room w w' right))

section

variable {library : Library} {w w' : World} (h : library.Alike w w') (right : Bool)

include h

theorem Library.Alike.worlds : (Translation.into library.numbers w w' right).Worlds
    (bif right then w' else w) (w.both w') := by
  have hroom := World.size_le_room w w' right
  have hnone (w : World) {id : Nat} (h : w.inferred.size ≤ id) : w.inferred? id = none := by
    rw [World.inferred?, Array.getElem?_eq_none h]
    rfl
  have hsize := World.size_both w w'
  refine ⟨?_, ⟨#[], Array.append_empty.symm, ?_⟩, ?_, fun id => ?_, fun id hlt => ?_, fun n => ?_⟩
  · cases right with
    | false => rfl
    | true => exact h.output.symm
  · rw [Array.map_empty]
    exact Array.append_empty.symm
  · cases right with
    | false => rfl
    | true => exact h.loading.symm
  · change (w.both w').inferred? (apart ..) = _
    obtain ⟨hlt, hmem, heq⟩ | ⟨hlt, -, heq⟩ | ⟨hge, heq⟩ := apart_cases library.numbers
      (w.room w') right (bif right then w' else w).inferred.size id
    · rw [heq, World.inferred?_both_of_lt (by omega)]
      cases right with
      | false => rfl
      | true => exact (h.inferred id hmem).symm
    · rw [heq, World.inferred?_both_old right (by omega)]
    · rw [heq, hnone _ hge, hnone _ (by omega)]
  · rw [hsize]
    exact apart_lt hroom hlt
  · have hcases := apart_cases library.numbers (w.room w') right
      (bif right then w' else w).inferred.size ((bif right then w' else w).inferred.size + n)
    change apart .. = _
    omega

/-- In the exports nothing gets another number. -/
theorem Library.Alike.contexts {ctx : Context} (hctx : ctx.library = library) :
    (Translation.into library.numbers w w' right).lockstep.Contexts ctx ctx where
  file := rfl
  debug := rfl
  maxDepth := rfl
  files := rfl
  exports module := by
    subst hctx
    cases hmodule : ctx.library.module? module with
    | none => rfl
    | some exports =>
      have hself : ∀ entry ∈ exports, Prod.map id
          (Translation.into ctx.library.numbers w w' right).value entry = entry := by
        intro entry hmem
        refine Prod.ext rfl (Value.renumber_eq_self fun id hid => ?_)
        have hnumber : id ∈ ctx.library.numbers := ⟨module, exports, hmodule, entry, hmem, hid⟩
        obtain ⟨hlt, hlt'⟩ := h.known id hnumber
        obtain ⟨-, -, heq⟩ | ⟨-, hnot, -⟩ | ⟨hge, -⟩ := apart_cases ctx.library.numbers
          (w.room w') right (bif right then w' else w).inferred.size id
        · exact heq
        · exact absurd hnumber hnot
        · cases right with
          | false => exact absurd hlt (Nat.not_lt.2 hge)
          | true => exact absurd hlt' (Nat.not_lt.2 hge)
      exact congrArg some ((List.map_congr_left hself).trans (List.map_id _)).symm

end

/-- The run of a file goes in step with any run of it in a world that differs by the translation. -/
theorem Translation.runModuleFile {T : Translation} [T.lockstep.Exact]
    (hT : Transparent T.number T.value T.displacement) (hsink : T.sink = id) {ctx : Context}
    (hctx : T.lockstep.Contexts ctx ctx) (fuel : Nat) (module : List String) (location : Location)
    {m t : Machine} (h : T.Worlds m.world t.world) :
    T.lockstep.At .univ Ended (Script.runModuleFile (runModule fuel) ctx module)
      (Script.runModuleFile (runModule fuel) ctx module) (m.forFile location)
      (t.forFile location) := by
  have hL := T.lawful hT hsink
  have hloading : T.Worlds (m.forFile location).world (t.forFile location).world :=
    { h with loading := congrArg (location :: ·) h.loading }
  exact hL.runFile (hL.runModule_moved fuel) (hctx.surroundings.withFile _)
    (settlesFiles_of_unmoved Exact.displacement _) _ _ _
    ⟨(Arena.withRoot_map _).symm, rfl, rfl, hloading⟩

/-! ### Two importers -/

/-- The values of one importer for those of the other. -/
def renumbered (w w' : World) : Value → Value :=
  Value.renumber (shift w.inferred.size w'.inferred.size)

/-- Values that become one in the world of both differ by the numbers of new functions. -/
theorem eq_renumbered {shared : Set Nat} {w w' : World} {value value' : Value}
    (h : (Translation.into shared w w' false).value value =
      (Translation.into shared w w' true).value value') : value' = renumbered w w' value :=
  Value.eq_renumber (fun _ _ =>
    eq_shift_of_apart (World.size_le_room w w' false) (World.size_le_room w w' true)) h

/-- The names that one root scope has, the other one has, with values that correspond. -/
theorem lookupLocal_renumbered {shared : Set Nat} {w w' : World} {a a' : Arena}
    (h : a.map (Translation.into shared w w' false).value =
      a'.map (Translation.into shared w w' true).value) (id : ScopeId) (name : String) :
    a'.lookupLocal id name = (a.lookupLocal id name).map (Option.map (renumbered w w')) := by
  have hboth := congrArg (Arena.lookupLocal · id name) h
  rw [Arena.lookupLocal_map, Arena.lookupLocal_map] at hboth
  generalize a.lookupLocal id name = found at hboth ⊢
  generalize a'.lookupLocal id name = found' at hboth ⊢
  rcases found with cause | (_ | value) <;> rcases found' with cause' | (_ | value')
    <;> simp only [Except.map, Option.map_none, Option.map_some, Except.ok.injEq,
      Except.error.injEq, Option.some.injEq, reduceCtorEq] at hboth ⊢
  · exact hboth.symm
  · exact eq_renumbered hboth

/-- A file runs the same for both importers. -/
theorem runModuleFile_alike {ctx : Context} {m m' : Machine}
    (h : ctx.library.Alike m.world m'.world) (fuel : Nat) (module : List String)
    (location : Location) :
    (∃ k k', runModuleFile (runModule fuel) ctx module (m.forFile location) = .ok () k ∧
      runModuleFile (runModule fuel) ctx module (m'.forFile location) = .ok () k' ∧
      k'.world.output = k.world.output ∧
      ∀ name, k'.arena.lookupLocal Arena.root name =
        (k.arena.lookupLocal Arena.root name).map (Option.map (renumbered m.world m'.world))) ∨
    ∃ stop k k', runModuleFile (runModule fuel) ctx module (m.forFile location) = .error stop k ∧
      runModuleFile (runModule fuel) ctx module (m'.forFile location) = .error stop k' ∧
      k'.world.output = k.world.output := by
  let t : Machine := { m with world := m.world.both m'.world }
  have hruns (right : Bool) {v : Machine} (hv : v.world = bif right then m'.world else m.world) :=
    Translation.runModuleFile (Translation.transparent_into _ m.world m'.world right) rfl
      (h.contexts right rfl) fuel module location (m := v) (t := t) (hv ▸ h.worlds right)
  obtain ⟨_, k, _, n, hk, hn, hrel, -⟩ | ⟨stop, k, n, hk, hn, hrel, -⟩ := (hruns false rfl).ends
    <;> obtain ⟨_, k', _, n', hk', hn', hrel', -⟩ | ⟨stop', k', n', hk', hn', hrel', -⟩ :=
      (hruns true rfl).ends
    <;> cases hn.symm.trans hn'
  · refine .inl ⟨k, k', hk, hk', hrel'.world.output.symm.trans hrel.world.output, fun name => ?_⟩
    exact lookupLocal_renumbered (hrel.arena.symm.trans hrel'.arena) Arena.root name
  · exact .inr ⟨stop, k, k', hk, hk', hrel'.world.output.symm.trans hrel.world.output⟩

/-- The search in a file goes the same for both importers. -/
theorem findImported_alike (ctx : Context) {m m' : Machine}
    (h : ctx.library.Alike m.world m'.world) (fuel : Nat) {module : List String}
    (hfile : ¬isStandard module) (names : List Identifier) :
    (∃ found n n', findImported (runModule fuel) ctx names module m = .ok found n ∧
      findImported (runModule fuel) ctx names module m' =
        .ok (found.map (Prod.map id (renumbered m.world m'.world))) n' ∧
      n'.world.output = n.world.output) ∨
    ∃ stop n n', findImported (runModule fuel) ctx names module m = .error stop n ∧
      findImported (runModule fuel) ctx names module m' = .error stop n' ∧
      n'.world.output = n.world.output := by
  rw [findImported, if_neg hfile]
  rcases hlocate : locateModule ctx module with e | location
  · exact .inr ⟨_, _, _, FileSearch.findInFile_eq (.notFound hlocate),
      FileSearch.findInFile_eq (.notFound hlocate), h.output⟩
  by_cases hloading : location ∈ m.world.loading
  · exact .inr ⟨_, _, _, FileSearch.findInFile_eq (.circular hlocate hloading),
      FileSearch.findInFile_eq (.circular hlocate (h.loading ▸ hloading)), h.output⟩
  have hnew : location ∉ m'.world.loading := h.loading ▸ hloading
  obtain ⟨k, k', hk, hk', houtput, hlookup⟩ | ⟨stop, k, k', hk, hk', houtput⟩ :=
    runModuleFile_alike h fuel module location
  · have hnames' := findNames_map hlookup (dotted module) names
    cases hnames : findNames (dotted module) (k.arena.lookupLocal Arena.root) names with
    | error cause =>
      rw [hnames] at hnames'
      exact .inr ⟨_, _, _, FileSearch.findInFile_eq (.missing hlocate hloading hk hnames),
        FileSearch.findInFile_eq (.missing hlocate hnew hk' hnames'), houtput⟩
    | ok found =>
      rw [hnames] at hnames'
      exact .inl ⟨_, _, _, FileSearch.findInFile_eq (.found hlocate hloading hk hnames),
        FileSearch.findInFile_eq (.found hlocate hnew hk' hnames'), houtput⟩
  · exact .inr ⟨_, _, _, FileSearch.findInFile_eq (.failed hlocate hloading hk),
      FileSearch.findInFile_eq (.failed hlocate hnew hk'), houtput⟩

/-! ### What an import does to the importer -/

/-- The import that leads from `m` to `n` has bound the names in the active scope, in order and as
variables, to promoted values, and has done nothing else to the importer. -/
structure Machine.Imports (m n : Machine) (names : List Identifier)
    (found : List (Identifier × Value)) : Prop where
  names : found.map Prod.fst = names
  promoted : ∀ entry ∈ found, entry.2.promote = entry.2
  bound : m.arena.bindAll m.active found = .ok n.arena
  active : n.active = m.active
  depth : n.depth = m.depth

section

variable {ctx : Context} {m n : Machine} {fuel : Nat} {names : List Identifier}
  {module : List String}

/-- An import that fails has left the importer alone. -/
theorem findImported_of_error {stop : Stop} (hm : m.now.Sound ctx.maxDepth)
    (h : runImport (runModule fuel) ctx names module m = .error stop n) :
    findImported (runModule fuel) ctx names module m = .error stop n ∧
      n.arena = m.arena ∧ n.active = m.active ∧ n.depth = m.depth := by
  obtain ⟨_, _, hfind, herror⟩ | ⟨_, _, _, -, hok, -⟩ := runImport_ends fuel names module hm
  · cases h.symm.trans herror
    obtain ⟨world, hworld⟩ := toState_findImported (runModule fuel) ctx names module m
    rw [Run.after_of_error hfind] at hworld
    exact ⟨hfind, by rw [hworld], by rw [hworld], by rw [hworld]⟩
  · cases h.symm.trans hok

/-- An import succeeds if the search does, and binds what was found. -/
theorem imports_of_findImported {found : List (Identifier × Value)} {k : Machine}
    (hm : m.now.Sound ctx.maxDepth)
    (h : findImported (runModule fuel) ctx names module m = .ok found k) :
    ∃ n, runImport (runModule fuel) ctx names module m = .ok () n ∧
      m.Imports n names (found.map (Prod.map id Value.promote)) ∧
      n.world.output = k.world.output := by
  obtain ⟨_, _, hfind, -⟩ | ⟨found', k', n, hfind, hok, hall, hn⟩ :=
    runImport_ends fuel names module hm
  · cases h.symm.trans hfind
  · cases h.symm.trans hfind
    refine ⟨n, hok, ⟨?_, ?_, ?_, by rw [hn], by rw [hn]⟩, by rw [hn]⟩
    · rw [List.map_map]
      exact names_of_findImported h
    · rintro _ hmem
      obtain ⟨entry, -, rfl⟩ := List.mem_map.1 hmem
      exact Value.promote_promote entry.2
    · exact (Arena.bindAll_promote ..).trans hall

/-- An import from a file that succeeds has bound just what was found. -/
theorem imports_of_file {found : List (Identifier × Value)} {k : Machine}
    (hm : m.now.Sound ctx.maxDepth) (hfile : ¬isStandard module)
    (h : findImported (runModule fuel) ctx names module m = .ok found k) :
    ∃ n, runImport (runModule fuel) ctx names module m = .ok () n ∧ m.Imports n names found ∧
      n.world.output = k.world.output := by
  obtain ⟨_, _, _, -, hdeclared⟩ := declared_of_findImported hfile h
  have hself : found.map (Prod.map id Value.promote) = found.map id :=
    List.map_congr_left fun entry hmem => Prod.ext rfl (hdeclared entry hmem).1
  have himports := imports_of_findImported hm h
  rwa [hself, List.map_id] at himports

/-- An import that fails leaves the scopes of the importer as they are. One that succeeds binds the
names in the active scope and does nothing else to them: to the exports of a module of the library,
promoted, or to the values that the file of a module has left in its root scope for names that its
statements declare. And an import from a file fails, or succeeds with the same values but for the
numbers of new functions, and writes the same, for all importers that a file cannot tell from each
other. -/
theorem Reachable.import_isolated {ctx : Context} {m : Machine} (h : Reachable ctx m) (fuel : Nat)
    (file : String) (names : List Identifier) (module : List String) :
    let ctx' := { ctx with file }
    let imported := runImport (runModule fuel) ctx' names module
    (∀ stop n, imported m = .error stop n →
      n.arena = m.arena ∧ n.active = m.active ∧ n.depth = m.depth ∧
      (¬isStandard module → ∀ main m', Reachable { ctx with file := main } m' →
        ctx.library.Alike m.world m'.world →
          ∃ n', imported m' = .error stop n' ∧ n'.world.output = n.world.output)) ∧
    ∀ n, imported m = .ok () n → ∃ found, m.Imports n names found ∧
      (isStandard module → ∃ exports, ctx.library.module? (dotted module) = some exports ∧
        ∀ entry ∈ found, (exports.lookup entry.1.name).map Value.promote = some entry.2) ∧
      (¬isStandard module →
        (∃ location stmts k, FileRuns (fuel - 1) ctx' module m location stmts k ∧
          ∀ entry ∈ found,
            (∃ constant, k.arena.binding? entry.1.name Arena.root = some ⟨entry.2, constant⟩) ∧
            Declares (fuel - 1) (ctx'.inside module) entry.1.name stmts (m.forFile location)) ∧
        ∀ main m', Reachable { ctx with file := main } m' →
          ctx.library.Alike m.world m'.world →
            ∃ n', imported m' = .ok () n' ∧ n'.world.output = n.world.output ∧
              m'.Imports n' names (found.map (Prod.map id (renumbered m.world m'.world)))) := by
  intro ctx' imported
  have hm : m.now.Sound ctx'.maxDepth := h.sound
  have hsame {m' : Machine} (halike : ctx.library.Alike m.world m'.world)
      (hfile : ¬isStandard module) := findImported_alike ctx' halike fuel hfile names
  refine ⟨fun stop n himport => ?_, fun n himport => ?_⟩
  · obtain ⟨hfind, harena, hactive, hdepth⟩ := findImported_of_error hm himport
    refine ⟨harena, hactive, hdepth, fun hfile main m' h' halike => ?_⟩
    obtain ⟨_, _, _, hok, -⟩ | ⟨_, _, n', herror, herror', houtput⟩ := hsame halike hfile
    · cases hfind.symm.trans hok
    · cases hfind.symm.trans herror
      exact ⟨n', runImport_of_error herror', houtput⟩
  · obtain ⟨_, _, -, herror⟩ | ⟨found, k, _, hfind, -⟩ := runImport_ends fuel names module hm
    · cases himport.symm.trans herror
    by_cases hstandard : isStandard module
    · obtain ⟨n', hok, himports, -⟩ := imports_of_findImported hm hfind
      cases himport.symm.trans hok
      refine ⟨_, himports, fun _ => ?_, fun hfile => absurd hstandard hfile⟩
      obtain ⟨-, exports, hmodule, hlookup⟩ :=
        mem_findInLibrary (findImported_of_standard hstandard hfind).1
      refine ⟨exports, hmodule, fun _ hmem => ?_⟩
      obtain ⟨entry, hentry, rfl⟩ := List.mem_map.1 hmem
      exact congrArg (Option.map Value.promote) (hlookup entry hentry)
    · obtain ⟨n', hok, himports, houtput⟩ := imports_of_file hm hstandard hfind
      cases himport.symm.trans hok
      refine ⟨found, himports, fun h => absurd h hstandard, fun hfile => ⟨?_, ?_⟩⟩
      · obtain ⟨location, stmts, k, hruns, hdeclared⟩ := declared_of_findImported hfile hfind
        exact ⟨location, stmts, k, hruns, fun entry hmem => (hdeclared entry hmem).2⟩
      · intro main m' h' halike
        have hm' : m'.now.Sound ctx'.maxDepth := h'.sound
        obtain ⟨_, _, k', hother, hfind', hsink⟩ | ⟨_, _, _, herror, -⟩ := hsame halike hfile
        · cases hfind.symm.trans hother
          obtain ⟨n', hok', himports', houtput'⟩ := imports_of_file hm' hfile hfind'
          exact ⟨n', hok', by rw [houtput', hsink, houtput], himports'⟩
        · cases hfind.symm.trans herror

end

/-- No function of a program is in the standard library. -/
theorem Library.numbers_standard : Library.standard.numbers = ∅ := by
  have hplain : ∀ exports ∈ Library.standard.modules.map Prod.snd, ∀ entry ∈ exports,
      (match entry.2 with | .function _ | .list _ => false | _ => true) = true := by
    decide
  refine Set.eq_empty_of_forall_notMem fun id hid => ?_
  obtain ⟨module, exports, hmodule, ⟨name, value⟩, hmem, hmentions⟩ := hid
  obtain ⟨before, rest, hmodules, -⟩ := List.lookup_eq_some_iff.1 hmodule
  have hexports : exports ∈ Library.standard.modules.map Prod.snd := by
    rw [hmodules]
    exact List.mem_map_of_mem (List.mem_append_right before List.mem_cons_self)
  have hentry := hplain exports hexports (name, value) hmem
  cases hmentions <;> cases hentry

def Run.succeeds (x : Run α) (m : Machine) : Bool :=
  match x m with
  | .ok .. => true
  | .error .. => false

theorem Run.ok_of_succeeds {x : Run α} {m : Machine} (h : x.succeeds m) : ∃ a n, x m = .ok a n := by
  unfold succeeds at h
  split at h
  · next a n hok => exact ⟨a, n, hok⟩
  · cases h

/-- To a program that has made a function of its own the import gives the same as to one that has
just begun. -/
theorem Reachable.import_isolated_of_function :
    let files : FileTree := ⟨[], [(["lib.vi"], .file "fn f() \x7b return 2; \x7d".toUTF8)], []⟩
    let ctx : Context := ⟨"main.vi", false, 200, .standard, files⟩
    let m := Machine.first ctx (.empty none)
    let m' := (execute 4 ctx "fn g() \x7b return 1; \x7d fn main(files) \x7b g(); \x7d" m).2
    let imported := runImport (runModule 4) ctx [⟨"f", 1⟩] ["lib"]
    Reachable ctx m ∧ Reachable ctx m' ∧ ctx.library.Alike m.world m'.world ∧
      ∃ found n n', imported m = .ok () n ∧ m.Imports n [⟨"f", 1⟩] found ∧
        imported m' = .ok () n' ∧
        m'.Imports n' [⟨"f", 1⟩] (found.map (Prod.map id (renumbered m.world m'.world))) := by
  intro files ctx m m' imported
  have hidle : Idle ctx m := .first _
  have h' : Reachable ctx m' := (hidle.executed 4 _).reachable
  have hwritten : m'.world.output.written = m.world.output.written := by decide +kernel
  have hlimit : m'.world.output.limit = m.world.output.limit := by decide +kernel
  have halike : ctx.library.Alike m.world m'.world :=
    { output := show Sink.mk _ _ = Sink.mk _ _ by rw [hwritten, hlimit]
      loading := by decide +kernel
      known := by simp [ctx, Library.numbers_standard]
      inferred := by simp [ctx, Library.numbers_standard] }
  obtain ⟨_, n, hok⟩ := Run.ok_of_succeeds (show imported.succeeds m by decide +kernel)
  obtain ⟨found, himports, -, hfile⟩ :=
    (hidle.reachable.import_isolated 4 "main.vi" [⟨"f", 1⟩] ["lib"]).2 n hok
  obtain ⟨n', hok', -, himports'⟩ := (hfile (by decide)).2 "main.vi" m' h' halike
  exact ⟨hidle.reachable, h', halike, found, n, n', hok, himports, hok', himports'⟩

end Script
