import Script.Proofs.Eval.Lockstep.Translated

/-!
# Thin literals go unseen

A program cannot tell a library from one with thin literals promoted in its exports, at whatever
depth they are. For the run with the one and the run with the other go in step: at every moment
their states differ by a transparent map of the values that are bound.
-/

namespace Script

open Lockstep

def Library.map (φ : Value → Value) (library : Library) : Library :=
  ⟨library.modules.map (Prod.map id (List.map (Prod.map id φ)))⟩

/-- The library with everything in its exports promoted. -/
def Library.promoted (library : Library) : Library :=
  library.map Value.promoteAll

namespace Lockstep

/-- The states are the same but for a map of the values that are bound. -/
def mapped (φ : Value → Value) : Lockstep :=
  Translation.lockstep { value := φ }

variable {φ : Value → Value} {m m' : Machine}

instance : (mapped φ).Total := ⟨fun _ h => h⟩

instance : (mapped φ).Exact where
  not_left _ _ _ h := h
  displacement := rfl
  stops := rfl

theorem mapped_arena (hm : (mapped φ).Rel m m') : m'.arena = m.arena.map φ :=
  hm.arena

theorem mapped_plain (φ : Value → Value) : ({ value := φ } : Translation).Plain :=
  ⟨rfl, rfl, rfl⟩

theorem mapped_world (hm : (mapped φ).Rel m m') : m'.world = m.world :=
  (mapped_plain φ).worlds_iff.1 hm.world

theorem mapped_first (ctx : Context) (world : World) :
    (mapped φ).Rel (.first ctx world) (.first ctx world) := by
  unfold Machine.first
  split <;> exact ⟨(Arena.withRoot_map φ).symm, rfl, rfl, (mapped_plain φ).worlds_iff.2 rfl⟩

/-- The two runs keep in step. -/
theorem lawful_mapped (hφ : Transparent id φ) : (mapped φ).LawfulModules :=
  have : (Translation.lockstep { value := φ }).Exact := inferInstanceAs (mapped φ).Exact
  Translation.lawful hφ rfl

end Lockstep

/-- With thin literals promoted in the library a program ends the same way, with the same error if
it fails, has written and warned the same, and leaves the same names bound in its root scope, to
values that are equal once promoted. -/
theorem execute_promoted (fuel : Nat) (ctx : Context) (source : String) (world : World) :
    let ctx' := { ctx with library := ctx.library.promoted }
    let run := execute fuel ctx source (.first ctx world)
    let run' := execute fuel ctx' source (.first ctx' world)
    run'.1 = run.1 ∧
    run'.2.world.output = run.2.world.output ∧
    run'.2.world.warnings = run.2.world.warnings ∧
    (run'.2.arena.get? Arena.root).map (Scope.map Value.promoteAll) =
      (run.2.arena.get? Arena.root).map (Scope.map Value.promoteAll) := by
  intro ctx' run run'
  have hlawful := lawful_mapped Value.transparent_promoteAll
  have hctx : (mapped Value.promoteAll).Contexts ctx ctx' :=
    ⟨rfl, rfl, rfl, rfl, fun module => lookup_map_snd ctx.library.modules _ module⟩
  have hfirst : (mapped Value.promoteAll).Rel (.first ctx world) (.first ctx' world) :=
    mapped_first ctx world
  obtain ⟨houtcome, hrel, -⟩ := hlawful.execute hctx fuel source hfirst
  refine ⟨houtcome, by rw [mapped_world hrel], by rw [mapped_world hrel], ?_⟩
  rw [mapped_arena hrel, Arena.get?_map, Option.map_map]
  exact Option.map_congr fun scope _ => scope.map_promoteAll

end Script
