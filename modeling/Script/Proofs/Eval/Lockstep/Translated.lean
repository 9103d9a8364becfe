import Script.Proofs.Eval.Lockstep.Modules

/-!
# Runs that differ in values, numbers and places

A transparent map of the values that are bound, which may give the functions other numbers and other
places, goes along with every step of a run. The functions that are yet to be made correspond in the
order in which they are made. Each run may have had warnings of its own before. The sinks may differ,
and the ways in which the runs stop, as far as natives and errors allow it.
-/

namespace Script

/-- The sink has been written to. One without a limit keeps all that it has. -/
structure Sink.Grows (s s' : Sink) : Prop where
  limit : s'.limit = s.limit
  written : s.limit = none → ∃ more, s'.written = s.written ++ more

namespace Sink.Grows

variable {s s' s'' : Sink}

theorem refl (s : Sink) : s.Grows s :=
  ⟨rfl, fun _ => ⟨.empty, ByteArray.append_empty.symm⟩⟩

theorem trans (h : s.Grows s') (h' : s'.Grows s'') : s.Grows s'' := by
  refine ⟨h'.limit.trans h.limit, fun hlimit => ?_⟩
  obtain ⟨more, hmore⟩ := h.written hlimit
  obtain ⟨more', hmore'⟩ := h'.written (h.limit.trans hlimit)
  exact ⟨more ++ more', by rw [hmore', hmore, ByteArray.append_assoc]⟩

theorem write (s : Sink) (text : String) : s.Grows (s.write text).1 := by
  obtain ⟨written, _ | limit⟩ := s
  · exact ⟨rfl, fun _ => ⟨text.toUTF8, rfl⟩⟩
  · refine ⟨?_, nofun⟩
    simp only [Sink.write]
    split <;> rfl

end Sink.Grows

theorem Native.call_grows (f : Native) (arguments : List Value) (sink : Sink) :
    sink.Grows (f.call arguments sink).2 := by
  cases f with
  | print =>
    have hwrite := Sink.Grows.write sink (line arguments)
    simp only [Native.call]
    split <;> simp_all
  | _ => exact .refl sink

/-- In what a second run differs from a first one. -/
structure Translation where
  value : Value → Value
  /-- The number that a function has in the second run. -/
  number : Nat → Nat := id
  displacement : Displacement := .id
  sink : Sink → Sink := id
  Stops : Stop → Stop → Prop := Eq
  Left : Stop → Sink → Sink → Prop := fun _ _ _ => False
  /-- The warnings that the first run had before, and those of the second one. -/
  earlier : Array Warning × Array Warning := (#[], #[])

namespace Translation

variable (T : Translation)

/-- The worlds are the same but for sinks, places, the numbers of functions and earlier warnings. -/
structure Worlds (w w' : World) : Prop where
  output : w'.output = T.sink w.output
  warnings : ∃ warnings, w.warnings = T.earlier.1 ++ warnings ∧
    w'.warnings = T.earlier.2 ++ warnings.map (Warning.move T.displacement)
  loading : w'.loading = w.loading
  inferred : ∀ id, w'.inferred? (T.number id) = w.inferred? id
  old : ∀ id < w.inferred.size, T.number id < w'.inferred.size
  new : ∀ n, T.number (w.inferred.size + n) = w'.inferred.size + n

/-- The states are the same but for a map of the values that are bound, and for their worlds. -/
structure States (s s' : State) : Prop where
  arena : s'.arena = s.arena.map T.value
  active : s'.active = s.active
  depth : s'.depth = s.depth
  world : T.Worlds s.world s'.world

namespace Worlds

variable {T} {w w' : World} (h : T.Worlds w w')

include h

theorem warn (warning : Warning) :
    T.Worlds { w with warnings := w.warnings.push warning }
      { w' with warnings := w'.warnings.push (warning.move T.displacement) } := by
  obtain ⟨warnings, hw, hw'⟩ := h.warnings
  refine { h with warnings := ⟨warnings.push warning, ?_, ?_⟩ }
  · rw [hw, Array.push_append]
  · rw [hw', Array.push_append, Array.map_push]

theorem resultType? (f : UserFunction) :
    w'.resultType? ((f.move T.displacement).renumber T.number) = w.resultType? f := by
  rw [World.resultType?, World.resultType?, ← h.inferred f.id]
  rfl

theorem of_new {id : Nat} (hid : w.inferred.size ≤ id) :
    T.number id = w'.inferred.size + (id - w.inferred.size) := by
  rw [← h.new, Nat.add_sub_cancel' hid]

theorem infer (hT : T.number.Injective) (id : Nat) (t : ValueType) :
    T.Worlds (w.infer id t) (w'.infer (T.number id) t) := by
  refine { h with inferred := fun other => ?_, old := fun other hlt => ?_, new := fun n => ?_ }
  · rw [World.inferred?_infer, World.inferred?_infer, h.inferred]
    by_cases heq : other = id
    · rw [if_pos heq, if_pos (congrArg T.number heq)]
    · rw [if_neg heq, if_neg (hT.ne heq)]
  · rw [World.size_infer] at hlt ⊢
    obtain hlt' | hge := Nat.lt_or_ge other w.inferred.size
    · exact Nat.lt_of_lt_of_le (h.old other hlt') (Nat.le_max_left ..)
    · have hid : w.inferred.size ≤ id := by omega
      rw [h.of_new hge, h.of_new hid]
      omega
  · rw [World.size_infer, World.size_infer]
    obtain hlt | hge := Nat.lt_or_ge id w.inferred.size
    · have hlt' := h.old id hlt
      rw [max_eq_left hlt, max_eq_left hlt', h.new]
    · rw [h.of_new hge, h.of_new (by omega)]
      omega

theorem push : T.Worlds { w with inferred := w.inferred.push none }
    { w' with inferred := w'.inferred.push none } := by
  refine { h with inferred := fun id => ?_, old := fun id hlt => ?_, new := fun n => ?_ }
  · rw [World.inferred?_push, World.inferred?_push, h.inferred]
  · simp only [Array.size_push] at hlt ⊢
    obtain hlt' | hge := Nat.lt_or_ge id w.inferred.size
    · exact Nat.lt_succ_of_lt (h.old id hlt')
    · rw [h.of_new hge]
      omega
  · simp only [Array.size_push, Nat.add_assoc]
    exact h.new (1 + n)

theorem inferred_eq (hnumber : T.number = id) : w'.inferred = w.inferred := by
  have hsize : w.inferred.size = w'.inferred.size := by simpa [hnumber] using h.new 0
  refine Array.ext hsize.symm fun id hlt hlt' => ?_
  simpa [World.inferred?, hnumber, hlt, hlt'] using h.inferred id

omit h in
/-- Where the numbers stay as they are, the worlds differ in sinks and warnings alone. -/
theorem iff_of_number (hnumber : T.number = id) :
    T.Worlds w w' ↔ ∃ warnings, w.warnings = T.earlier.1 ++ warnings ∧ w' = { w with
      output := T.sink w.output
      warnings := T.earlier.2 ++ warnings.map (Warning.move T.displacement) } := by
  constructor
  · intro h
    obtain ⟨warnings, hwarnings, hwarnings'⟩ := h.warnings
    refine ⟨warnings, hwarnings, ?_⟩
    rw [← h.output, ← hwarnings', ← h.loading, ← h.inferred_eq hnumber]
  · rintro ⟨warnings, hwarnings, rfl⟩
    refine ⟨rfl, ⟨warnings, hwarnings, rfl⟩, rfl, ?_, ?_, ?_⟩
    · exact fun id => by rw [hnumber]; rfl
    · exact fun id hlt => by rwa [hnumber]
    · exact fun n => by rw [hnumber]; rfl

end Worlds

/-- Numbers and places stay as they are, and so do the warnings. -/
structure Plain : Prop where
  number : T.number = id
  displacement : T.displacement = .id
  earlier : T.earlier = (#[], #[])

namespace Plain

variable {T} (hT : T.Plain)

include hT

/-- The worlds differ in their sinks alone. -/
theorem worlds_iff {w w' : World} :
    T.Worlds w w' ↔ w' = { w with output := T.sink w.output } := by
  simp [Worlds.iff_of_number hT.number, hT.displacement, hT.earlier, Warning.move_id_eq]

/-- The states differ in their sinks alone if every value stands for itself. -/
theorem states_iff (hvalue : T.value = id) {s s' : State} :
    T.States s s' ↔ s' = { s with world.output := T.sink s.world.output } := by
  constructor
  · intro h
    have harena : s'.arena = s.arena := by rw [h.arena, hvalue, Arena.map_id]
    rw [← harena, ← h.active, ← h.depth, ← hT.worlds_iff.1 h.world]
  · rintro rfl
    exact ⟨by rw [hvalue, Arena.map_id], rfl, rfl, hT.worlds_iff.2 rfl⟩

end Plain

open Lockstep

/-- The states differ by the translation. -/
def lockstep : Lockstep where
  Rel m m' := T.States m.toState m'.toState
  Step _ m n := m.world.output.Grows n.world.output
  value := T.value
  number := T.number
  displacement := T.displacement
  Stops := T.Stops
  Left := T.Left

/-- What a native does with one sink, it does with the other. Or else it fails, where the second run
may leave the first. -/
def SinksAgree : Prop :=
  ∀ (f : Native) (arguments : List Value) (output : Sink),
    f.call arguments (T.sink output) =
        ((f.call arguments output).1, T.sink (f.call arguments output).2) ∨
      ∃ cause, (f.call arguments (T.sink output)).1 = .error cause ∧
        T.Left (.failed (.ofCause cause)) (f.call arguments (T.sink output)).2
          (f.call arguments output).2

/-- What two runs must agree in to keep in step. -/
structure Sound : Prop where
  transparent : Transparent T.number T.value T.displacement
  sinks : T.SinksAgree
  stopping : T.lockstep.Stopping

variable {T} {m m' : Machine} {own : Set String}

instance : T.lockstep.Total := ⟨fun _ h => h⟩

theorem sinksAgree_of_id (h : T.sink = id) : T.SinksAgree := by
  intro f arguments output
  rw [h]
  exact .inl rfl

theorem Sound.of_exact [T.lockstep.Exact] (hT : Transparent T.number T.value T.displacement)
    (hsink : T.sink = id) : T.Sound :=
  ⟨hT, sinksAgree_of_id hsink, .of_exact⟩

theorem steady (h : T.lockstep.Stopping) : T.lockstep.Steady where
  toStopping := h
  refl := .refl _
  trans := .trans
  mono _ hstep := hstep
  raised hm _ := ⟨hm, .refl _⟩

variable (hT : T.Sound)

include hT

theorem updateArena {f f' : Arena → Except Cause Arena} (hm : T.lockstep.Rel m m')
    (hf : f' (m.arena.map T.value) = (f m.arena).map (Arena.map T.value)) :
    T.lockstep.At own Ended (Run.updateArena f) (Run.updateArena f') m m' :=
  (steady hT.stopping).updateArena (g := Arena.map T.value) hm (by rw [hm.arena, hf])
    fun _ _ => ⟨{ hm with arena := rfl }, .refl _⟩

theorem callNative (f : Native) {arguments : List Value}
    (hpromoted : ∀ value ∈ arguments, value.promote = value) :
    T.lockstep.Along ∅ T.lockstep.Valued (Run.callNative f arguments)
      (Run.callNative f (arguments.map T.value)) := by
  intro m m' hm
  have hL := steady hT.stopping
  unfold Run.callNative
  rw [hT.transparent.native_overflows f hpromoted]
  split
  · exact hL.outOfFuel hm
  have hgrows := f.call_grows arguments m.world.output
  apply At.get
  rw [hm.world.output, hT.transparent.native_call f hpromoted]
  generalize hcall : f.call arguments m.world.output = called at hgrows ⊢
  obtain ⟨result, output⟩ := called
  have hworld : T.Worlds { m.world with output } { m'.world with output := T.sink output } :=
    { hm.world with output := rfl }
  have hwritten : T.lockstep.Rel (m.step fun s => { s with world.output := output })
      (m'.step fun s => { s with world.output := T.sink output }) := { hm with world := hworld }
  obtain heq | ⟨cause, hfails, hleft⟩ := hT.sinks f arguments m.world.output
  · rw [heq, hcall]
    exact hL.bind (.update hwritten hgrows) fun _ _ n n' hn _ => hL.ofExcept_value hn rfl
  · rw [hcall] at hleft
    rw [hfails]
    cases result with
    | ok value =>
      have hvalue : T.lockstep.Valued value (T.value value) := rfl
      exact .of_left (.of_ok rfl hwritten hgrows hvalue) rfl hleft
    | error cause => exact .of_left (.of_error rfl hwritten hgrows) rfl hleft

theorem declare (hm : T.lockstep.Rel m m') (scope : ScopeId) (name : Identifier)
    (value : Value) (constant : Bool) :
    T.lockstep.At own Ended (Run.declare scope name value constant)
      (Run.declare scope (name.move T.displacement) (T.value value) constant) m m' := by
  have hL := steady hT.stopping
  have hrest (result : Except Cause (Declared × Arena)) {m m' : Machine}
      (hm : T.lockstep.Rel m m') :
      T.lockstep.At own Ended
        (do
          let declared ← Run.ofExcept result
          Run.update fun s => { s with arena := declared.2 })
        (do
          let declared ← Run.ofExcept
            (result.map fun declared => (declared.1, declared.2.map T.value))
          Run.update fun s => { s with arena := declared.2 }) m m' := by
    refine hL.bind
      (Q := fun declared declared' => declared' = (declared.1, declared.2.map T.value))
      (hL.ofExcept hm fun _ _ => rfl) fun declared declared' n n' hn h => ?_
    subst h
    exact .update { hn with arena := rfl } (.refl _)
  apply At.get
  rw [hm.arena, Arena.declare_map m.arena hT.transparent]
  rcases m.arena.declare scope name value constant with ⟨_ | warning, result⟩
  · exact hrest result hm
  · exact hL.bind (.update { hm with world := hm.world.warn warning } (.refl _))
      fun _ _ _ _ hn _ => hrest result hn

theorem checkResult (f : UserFunction) (value : Value) :
    T.lockstep.Along ∅ Ended (Run.checkResult f value)
      (Run.checkResult (T.lockstep.function f) (T.value value)) := by
  intro m m' hm
  apply At.get
  have htype : m'.resultType? (T.lockstep.function f) = m.resultType? f := hm.world.resultType? f
  rw [htype]
  cases m.resultType? f with
  | none =>
    dsimp only
    rw [hT.transparent.typeOf]
    exact .record { hm with world := hm.world.infer hT.transparent.injective f.id value.typeOf }
      (.refl _)
  | some declared =>
    have hL := steady hT.stopping
    exact hL.bind (hL.ofExcept_same hm (hT.transparent.check declared value))
      fun _ _ n n' hn _ => .record hn (.refl _)

/-- The two runs keep in step. -/
theorem imports : T.lockstep.LawfulImports where
  toSteady := steady hT.stopping
  transparent := hT.transparent
  active hm := hm.active
  depth hm := hm.depth
  lookup hm id name := by rw [hm.arena, Arena.lookup_map _ hT.transparent]; rfl
  callNative f _ hpromoted := callNative hT f hpromoted
  declare {m m'} hm name value constant := by
    rw [hm.active]
    exact declare hT hm m.active name value constant
  declareGlobal name value constant m m' hm :=
    (steady hT.stopping).bind (declare hT hm Arena.root name value constant)
      fun _ _ _ _ hn _ => .record hn (.refl _)
  reassign name value m m' hm := by
    apply At.get
    rw [hm.active]
    exact updateArena hT hm (Arena.reassign_map m.arena hT.transparent m.active name value)
  bindParameter {m m'} hm name value := by
    rw [hm.active]
    exact updateArena hT hm (Arena.bind_map m.arena hT.transparent m.active name value false)
  checkResult := checkResult hT
  enterScope {m m'} hm := by
    have hcreate : m'.arena.create (some m'.active) = ((m.arena.create (some m.active)).1,
        (m.arena.create (some m.active)).2.map T.value) := by
      rw [hm.arena, hm.active, Arena.create_map]
    have hscope := congrArg Prod.fst hcreate
    have harena := congrArg Prod.snd hcreate
    exact { hm with arena := harena, active := hscope }
  leaveScope {m m' n n'} hm hn hstep := by
    have hrelease : n'.arena.release (m'.arena.create (some m'.active)).1 =
        (n.arena.release (m.arena.create (some m.active)).1).map T.value := by
      rw [hn.arena, hm.arena, hm.active, Arena.create_map, Arena.release_map]
    exact ⟨{ hn with arena := hrelease, active := hm.active }, hstep⟩
  enterCall hm _ := { hm with depth := congrArg (· + 1) hm.depth }
  leaveCall _ hn hstep := ⟨{ hn with depth := congrArg (· - 1) hn.depth }, hstep⟩
  loading hm := hm.world.loading
  lookupLocal hm name := by rw [hm.arena, Arena.lookupLocal_map]; rfl
  makeFunction name parameters returns body position m m' hm := by
    have hL := steady hT.stopping
    refine .get (hL.bind (.record { hm with world := hm.world.push } (.refl _))
      fun _ _ _ _ hn _ => hL.pure hn ?_)
    rw [function, UserFunction.renumber, ← Nat.add_zero m'.world.inferred.size, ← hm.world.new]
    rfl
  enterFile hm location := { hm with
    world := { hm.world with loading := congrArg (location :: ·) hm.world.loading } }
  leaveFile _ hn hstep := ⟨{ hn with
    world := { hn.world with loading := congrArg List.tail hn.world.loading } }, hstep⟩
  fresh hm := ⟨(Arena.withRoot_map _).symm, rfl, rfl, hm.world⟩
  resume hm hn hstep := ⟨{ hm with world := hn.world }, hstep⟩

omit hT in
/-- Runs of the very same programs keep in step. -/
theorem lawful [T.lockstep.Exact] (hT : Transparent T.number T.value T.displacement)
    (hsink : T.sink = id) : T.lockstep.LawfulModules :=
  .of_exact (imports (.of_exact hT hsink))

end Translation

end Script
