import Script.Proofs.Files.Modules
import Script.Proofs.Parse.Places

/-!
# The modules that a program imports

The segments of an imported module's path are identifiers, and an identifier is written with
letters, digits and underscores alone. So the path can be turned into one of a file without a
change, and every module that a program imports, from however deep inside, lies below the directory
of the file it is imported from.
-/

namespace Script

open Grammar

mutual

/-- The modules that a statement imports, itself or from inside. -/
def Stmt.imports : Stmt → List (List String)
  | .importNames _ path _ => [path]
  | .expression .. | .declaration .. | .reassignment .. | .returnValue .. => []
  | .conditional branch => branch.imports
  | .loop _ body _ | .function _ _ _ body _ => body.imports

def Conditional.imports : Conditional → List (List String)
  | .mk _ body otherwise _ => body.imports ++ otherwise.imports

def Otherwise.imports : Otherwise → List (List String)
  | .nothing => []
  | .block body => body.imports
  | .conditional branch => branch.imports

def Block.imports : Block → List (List String)
  | .mk statements _ => Stmt.allImports statements

def Stmt.allImports : List Stmt → List (List String)
  | [] => []
  | stmt :: stmts => stmt.imports ++ Stmt.allImports stmts

end

variable {source file : String}

theorem Stmt.mem_allImports {stmts : List Stmt} {module : List String} :
    module ∈ Stmt.allImports stmts ↔ ∃ stmt ∈ stmts, module ∈ stmt.imports := by
  induction stmts with
  | nil => simp [allImports]
  | cons stmt stmts ih => simp [allImports, ih]

/-! ### Identifiers -/

theorem isWordPart_ne {c : Char} (h : isWordPart c) : c ≠ '/' ∧ c ≠ '.' := by
  constructor
  · rintro rfl
    exact absurd h (by decide)
  · rintro rfl
    exact absurd h (by decide)

/-- An identifier is a plain name. -/
theorem Lexeme.Written.plain {text : String} {lexeme : List Char}
    (h : (Lexeme.token .identifier text).Written lexeme) : Path.Plain text.toList := by
  generalize hkind : TokenKind.identifier = kind at h
  cases h with
  | @word c cs hstart hparts =>
    have hall : ∀ d ∈ c :: cs, isWordPart d :=
      List.forall_mem_cons.2 ⟨isWordPart_of_isWordStart hstart, hparts⟩
    rw [String.toList_ofList]
    exact ⟨List.cons_ne_nil _ _, fun hmem => (isWordPart_ne (hall _ hmem)).1 rfl,
      fun hmem => (isWordPart_ne (hall _ hmem)).2 rfl⟩
  | number => cases hkind
  | literal => cases hkind
  | mark hmark =>
    have hmarks : ∀ entry ∈ TokenKind.marks, entry.2 ≠ .identifier := by decide
    exact absurd hkind.symm (hmarks _ hmark)

/-- Tokens whose identifiers are plain names. -/
def Token.Spelled (tokens : List Token) : Prop :=
  ∀ token ∈ tokens, token.kind = .identifier → Path.Plain token.text.toList

theorem Token.Spelled.of_subset {tokens more : List Token} (h : Token.Spelled more)
    (hsubset : tokens ⊆ more) : Token.Spelled tokens :=
  fun token hmem => h token (hsubset hmem)

theorem Laid.spelled {before cs : List Char} {tokens : List Token} (h : Laid file before cs tokens) :
    Token.Spelled tokens := by
  intro token hmem hkind
  obtain ⟨_, lexeme, _, -, hcovers⟩ := h.covers hmem (by rw [hkind]; decide)
  have hwritten := hcovers.written
  rw [hkind] at hwritten
  exact hwritten.plain

/-! ### What the grammar derives -/

theorem Grammar.Names.isModule {separator : TokenKind} {names tokens : List Token}
    (h : Names separator names tokens) (hspelled : Token.Spelled tokens) :
    Path.IsModule (names.map (·.text)) := by
  induction h with
  | one hkind =>
    exact ⟨List.cons_ne_nil _ _, List.forall_mem_singleton.2
      (hspelled _ List.mem_cons_self hkind)⟩
  | more hkind _ _ ih =>
    refine ⟨List.cons_ne_nil _ _, List.forall_mem_cons.2 ⟨hspelled _ List.mem_cons_self hkind, ?_⟩⟩
    exact (ih (hspelled.of_subset (by grind))).plain

mutual

theorem Grammar.DerivesStmt.isModule {tokens : List Token} {st : Stmt} (h : DerivesStmt tokens st) :
    Token.Spelled tokens → ∀ module ∈ st.imports, Path.IsModule module := by
  cases h with
  | importNames _ _ _ hpath _ =>
    exact fun hspelled => List.forall_mem_singleton.2
      (hpath.isModule (hspelled.of_subset (by grind)))
  | declaration h | globalDeclaration _ h => cases h; exact fun _ => nofun
  | reassignment | compound | returnNothing | returnValue | expression => exact fun _ => nofun
  | function _ _ _ _ _ _ _ hbody =>
    exact fun hspelled => hbody.isModule (hspelled.of_subset (by grind))
  | conditional h => exact h.isModule
  | loop _ _ hbody => exact fun hspelled => hbody.isModule (hspelled.of_subset (by grind))
termination_by sizeOf st

theorem Grammar.DerivesConditional.isModule {tokens : List Token} {branch : Conditional}
    (h : DerivesConditional tokens branch) :
    Token.Spelled tokens → ∀ module ∈ branch.imports, Path.IsModule module := by
  cases h with
  | plain _ _ hbody =>
    exact fun hspelled => List.forall_mem_append.2
      ⟨hbody.isModule (hspelled.of_subset (by grind)), nofun⟩
  | withBlock _ _ hbody _ helse | withConditional _ _ hbody _ helse =>
    exact fun hspelled => List.forall_mem_append.2
      ⟨hbody.isModule (hspelled.of_subset (by grind)),
        helse.isModule (hspelled.of_subset (by grind))⟩
termination_by sizeOf branch

theorem Grammar.DerivesBlock.isModule {tokens : List Token} {body : Block}
    (h : DerivesBlock tokens body) :
    Token.Spelled tokens → ∀ module ∈ body.imports, Path.IsModule module := by
  cases h with
  | @mk opening closing items _ hall _ =>
    intro hspelled module hmem
    obtain ⟨_, hstmt, hmem⟩ := Stmt.mem_allImports.1 hmem
    obtain ⟨item, hitem, rfl⟩ := List.mem_map.1 hstmt
    refine (hall item hitem).isModule (hspelled.of_subset fun token htoken => ?_) module hmem
    simp only [List.mem_cons, List.mem_append, List.mem_flatMap]
    exact .inr (.inl ⟨item, hitem, htoken⟩)
termination_by sizeOf body
decreasing_by
  have hlt := List.sizeOf_lt_of_mem (List.mem_map_of_mem (f := Prod.snd) hitem)
  simp
  omega

end

/-! ### Programs -/

/-- The modules that a program imports are named with plain names. -/
theorem isModule_of_parseSource {program : Block} {module : List String}
    (h : parseSource source file = .ok program) (hmem : module ∈ program.imports) :
    Path.IsModule module := by
  obtain ⟨body, _, rfl, hlaid, @⟨items, hall⟩⟩ := derives_of_parseSource h
  obtain ⟨_, hstmt, hmem⟩ := Stmt.mem_allImports.1 hmem
  obtain ⟨item, hitem, rfl⟩ := List.mem_map.1 hstmt
  refine (hall item hitem).isModule (hlaid.spelled.of_subset fun token htoken => ?_) module hmem
  exact List.mem_append_left _ (List.mem_flatMap.2 ⟨item, hitem, htoken⟩)

/-- A module that a program imports lies below the directory of the importing file, and those with
different names have different paths there and are found at different places. -/
theorem parseSource_imports {program : Block} {module : List String}
    (h : parseSource source file = .ok program) (hmem : module ∈ program.imports)
    (importer : String) :
    LiesBelow importer module ∧ ∀ source' file' program' other,
      parseSource source' file' = .ok program' → other ∈ program'.imports →
        (Path.ofModule importer module = Path.ofModule importer other ↔
          dotted module = dotted other) ∧
        ∀ (tree : FileTree) location, tree.locate (Path.ofModule importer module) = .ok location →
          tree.locate (Path.ofModule importer other) = .ok location →
            dotted module = dotted other := by
  have hmodule := isModule_of_parseSource h hmem
  refine ⟨hmodule.liesBelow importer, fun source' file' program' other h' hmem' => ?_⟩
  have hother := isModule_of_parseSource h' hmem'
  refine ⟨?_, fun tree location hlocate hlocate' => ?_⟩
  · rw [Path.ofModule_inj hmodule hother, Path.dotted_inj hmodule hother]
  · exact congrArg dotted (FileTree.eq_of_locate_ofModule hmodule hother hlocate hlocate')

theorem parseSource_imports_of_nested : ∃ program,
    parseSource "import min from math;\nfn f() \x7b\n    import max from lib.math;\n\x7d" "main.vi" =
        .ok program ∧
      ["lib", "math"] ∈ program.imports ∧ LiesBelow "src/main.vi" ["lib", "math"] ∧
      Path.ofModule "src/main.vi" ["lib", "math"] ≠ Path.ofModule "src/main.vi" ["math"] := by
  have hread : (parseSource "import min from math;\nfn f() \x7b\n    import max from lib.math;\n\x7d"
      "main.vi").toOption.map Block.imports = some [["math"], ["lib", "math"]] := by
    decide +kernel
  cases hprogram : parseSource
      "import min from math;\nfn f() \x7b\n    import max from lib.math;\n\x7d" "main.vi" with
  | error e => rw [hprogram] at hread; cases hread
  | ok program =>
    rw [hprogram] at hread
    have himports : program.imports = [["math"], ["lib", "math"]] := Option.some.inj hread
    have hmem : ["lib", "math"] ∈ program.imports := by simp [himports]
    have hother : ["math"] ∈ program.imports := by simp [himports]
    obtain ⟨hbelow, happart⟩ := parseSource_imports hprogram hmem "src/main.vi"
    refine ⟨program, rfl, hmem, hbelow, fun heq => ?_⟩
    exact absurd ((happart _ _ program ["math"] hprogram hother).1.1 heq) (by decide)

end Script
