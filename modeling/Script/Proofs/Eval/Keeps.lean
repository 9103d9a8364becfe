import Script.Proofs.Eval.History

/-!
# Runs that keep a machine sound

The rules by which a run is seen to pass from every sound machine into another: one for each way to
put runs together, and one for each step and each bracket that the evaluator is made of.
-/

namespace Script

open Machine

variable {limit : Nat} {P Q : α → Prop} {m m' : Machine}

/-- From `m` the run passes into the machine it ends with. Its result, if there is one, is as `Q`
says, and it stops with nothing fatal but the failure of `print`. -/
def KeepsAt (limit : Nat) (Q : α → Prop) (x : Run α) (m : Machine) : Prop :=
  match x m with
  | .ok a m' => Passes limit m m' ∧ Q a
  | .error stop m' => Passes limit m m' ∧ stop.Excused m'.world.output

/-- The same from every sound machine, whatever the result. -/
def Keeps (limit : Nat) (x : Run α) : Prop :=
  ∀ m : Machine, m.now.Sound limit → KeepsAt limit (fun _ => True) x m

namespace KeepsAt

theorem passes_of_ok {x : Run α} {a : α} (h : KeepsAt limit Q x m) (hx : x m = .ok a m') :
    Passes limit m m' := by
  unfold KeepsAt at h
  rw [hx] at h
  exact h.1

theorem of_ok {x : Run α} {a : α} (h : KeepsAt limit Q x m) (hx : x m = .ok a m') : Q a := by
  unfold KeepsAt at h
  rw [hx] at h
  exact h.2

theorem passes_of_error {x : Run α} {stop : Stop} (h : KeepsAt limit Q x m)
    (hx : x m = .error stop m') : Passes limit m m' := by
  unfold KeepsAt at h
  rw [hx] at h
  exact h.1

theorem excused {x : Run α} {stop : Stop} (h : KeepsAt limit Q x m) (hx : x m = .error stop m') :
    stop.Excused m'.world.output := by
  unfold KeepsAt at h
  rw [hx] at h
  exact h.2

theorem pure {a : α} (h : Q a) : KeepsAt limit Q (Pure.pure a : Run α) m :=
  ⟨.refl m, h⟩

theorem outOfFuel : KeepsAt limit Q (throw .outOfFuel : Run α) m :=
  ⟨.refl m, trivial⟩

theorem bind_of_ok {P : β → Prop} {x : Run α} {a : α} {f : α → Run β} (hx : x m = .ok a m')
    (hpasses : Passes limit m m') (hf : KeepsAt limit P (f a) m') :
    KeepsAt limit P (x >>= f) m := by
  have hbind : (x >>= f) m = f a m' := by simp only [Bind.bind, EStateM.bind, hx]
  unfold KeepsAt at hf ⊢
  rw [hbind]
  split at hf
  · exact ⟨hpasses.trans hf.1, hf.2⟩
  · exact ⟨hpasses.trans hf.1, hf.2⟩

theorem bind {P : β → Prop} {x : Run α} {f : α → Run β} (hm : m.now.Sound limit)
    (hx : KeepsAt limit Q x m)
    (hf : ∀ a m', m'.now.Sound limit → Q a → KeepsAt limit P (f a) m') :
    KeepsAt limit P (x >>= f) m := by
  cases hresult : x m with
  | ok a m' =>
    have hpasses := hx.passes_of_ok hresult
    exact bind_of_ok hresult hpasses (hf a m' (hpasses.sound hm) (hx.of_ok hresult))
  | error stop m' =>
    have hbind : (x >>= f) m = .error stop m' := by simp only [Bind.bind, EStateM.bind, hresult]
    unfold KeepsAt
    rw [hbind]
    exact ⟨hx.passes_of_error hresult, hx.excused hresult⟩

theorem andThen {x : Run α} {f : α → Run β} (hm : m.now.Sound limit)
    (hx : KeepsAt limit (fun _ => True) x m) (hf : ∀ a, Keeps limit (f a)) :
    KeepsAt limit (fun _ => True) (x >>= f) m :=
  bind hm hx fun a m' hm' _ => hf a m' hm'

theorem get {f : Machine → Run α} (h : KeepsAt limit Q (f m) m) :
    KeepsAt limit Q (MonadState.get >>= f) m :=
  h

/-! ### Failing -/

theorem fail {e : Error} (h : (Stop.failed e).Excused m.world.output) :
    KeepsAt limit Q (Run.fail e : Run α) m := by
  have hcause : e.cause.Excused := fun hfatal => (h (by simp [Error.isFatal, Error.kind, hfatal])).1
  refine ⟨⟨⟨.refl _, rfl, rfl, rfl, ?_⟩, fun hm => ?_, ⟨[], ?_, nofun⟩, ⟨[e.cause], ?_, ?_⟩⟩, h⟩
  · simp [now]
  · simpa [moments, now] using hm
  · simp [moments]
  · simp [Machine.raised]
  · simpa using hcause

theorem raise {cause : Cause} (h : cause.kind ≠ .fatal) :
    KeepsAt limit Q (Run.raise cause : Run α) m :=
  fail fun hfatal => absurd (of_decide_eq_true hfatal) h

theorem ofExcept {result : Except Cause α} (h : Harmless result)
    (hok : ∀ a, result = .ok a → Q a) : KeepsAt limit Q (Run.ofExcept result) m := by
  cases result with
  | ok a => exact pure (hok a rfl)
  | error cause => exact raise (h cause rfl)

theorem mapError {x : Run α} {f : Error → Error} (hx : KeepsAt limit Q x m)
    (hf : ∀ e, (f e).isFatal → (f e).cause = e.cause) : KeepsAt limit Q (Run.mapError f x) m := by
  unfold KeepsAt Run.mapError
  cases hresult : x m with
  | ok a m' => exact ⟨hx.passes_of_ok hresult, hx.of_ok hresult⟩
  | error stop m' =>
    have hexcused := hx.excused hresult
    cases stop with
    | outOfFuel => exact ⟨hx.passes_of_error hresult, trivial⟩
    | failed e =>
      refine ⟨hx.passes_of_error hresult, ?_⟩
      intro hfatal
      have hcause := hf e hfatal
      unfold Error.isFatal Error.kind at hfatal
      rw [hcause] at hfatal ⊢
      exact hexcused hfatal

/-! ### Steps -/

theorem update {f : State → State} (hm : m.now.Sound limit) (hback : Restored m (m.step f)) :
    KeepsAt limit (fun _ => True) (Run.update f) m :=
  ⟨.step hm hback, trivial⟩

theorem record {event : Event} {f : State → State} (hm : m.now.Sound limit)
    (hback : Restored m (m.stepWith id f [event])) :
    KeepsAt limit (fun _ => True) (Run.record event f) m :=
  ⟨.step hm hback, trivial⟩

theorem updateArena {f : Arena → Except Cause Arena} (hm : m.now.Sound limit)
    (hf : Harmless (f m.arena)) (hshape : ∀ a, f m.arena = .ok a → Arena.SameShape m.arena a) :
    KeepsAt limit (fun _ => True) (Run.updateArena f) m := by
  apply get
  cases hresult : f m.arena with
  | error cause => exact raise (hf cause hresult)
  | ok a =>
    apply bind_of_ok rfl (.refl m)
    exact update hm ⟨hshape a hresult, rfl, rfl, rfl, by simp⟩

theorem callNative (hm : m.now.Sound limit) (f : Native) (arguments : List Value) :
    KeepsAt limit (fun _ => True) (Run.callNative f arguments) m := by
  unfold Run.callNative
  split
  · exact outOfFuel
  · apply get
    rcases hcall : f.call arguments m.world.output with ⟨result, output⟩
    refine bind_of_ok rfl (.step hm ⟨.refl _, rfl, rfl, rfl, by simp⟩) ?_
    cases result with
    | ok value => exact pure trivial
    | error cause => exact fail fun hfatal => f.call_error hcall (of_decide_eq_true hfatal)

/-! ### Brackets -/

/-- Runs inside of a bracket are the same but for what is done when it is left. -/
theorem leaving {x : Run α} {leave : Machine → Machine} (hx : KeepsAt limit Q x m')
    (hleave : ∀ m'', Passes limit m' m'' → Passes limit m (leave m''))
    (houtput : ∀ m'', (leave m'').world.output = m''.world.output) :
    KeepsAt limit Q (fun _ => match x m' with
      | .ok a m'' => .ok a (leave m'')
      | .error e m'' => .error e (leave m'')) m := by
  unfold KeepsAt at hx ⊢
  cases hresult : x m' with
  | ok a m'' =>
    rw [hresult] at hx
    exact ⟨hleave m'' hx.1, hx.2⟩
  | error stop m'' =>
    rw [hresult] at hx
    exact ⟨hleave m'' hx.1, houtput m'' ▸ hx.2⟩

theorem withScope {inner : Run α} (hm : m.now.Sound limit)
    (hinner : ∀ m, m.now.Sound limit → KeepsAt limit Q inner m) :
    KeepsAt limit Q (Run.withScope m.active inner) m := by
  have htidy := hm.tidy
  have henter : Moment.Sound limit
      ⟨{ m.toState with
          arena := (m.arena.create (some m.active)).2
          active := (m.arena.create (some m.active)).1 }, m.now.calls, m.now.events⟩ :=
    ⟨htidy.create _, hm.linked.create htidy, hm.depth, hm.depth_le⟩
  refine leaving (hinner _ ?_) (fun m' h => ?_) fun _ => rfl
  · rw [now_step]
    exact henter
  refine .bracket hm (by rw [now_stepWith]; exact henter) h ?_
  exact ⟨⟨Arena.link?_release_create htidy h.shape.link?,
      fun _ => (h.shape.tidy (htidy.create _)).release _⟩,
    rfl, h.depth, h.loading, by simpa using h.calls⟩

theorem deeper {f : UserFunction} {inner : Run α} (hm : m.now.Sound limit) (hd : m.depth < limit)
    (hinner : ∀ m', m'.now.Sound limit → m'.active = m.active → KeepsAt limit Q inner m') :
    KeepsAt limit Q (Run.deeper f inner) m := by
  have hdepth : m.depth = m.now.calls.length := hm.depth
  have henter : Moment.Sound limit
      ⟨{ m.toState with depth := m.depth + 1 }, f :: m.now.calls, m.now.events⟩ :=
    ⟨hm.tidy, hm.linked, by simp [hdepth], hd⟩
  refine leaving (hinner _ (by simpa using henter) rfl) (fun m' h => ?_) fun _ => rfl
  refine .bracket hm (by simpa using henter) h ⟨h.shape, h.active, ?_, h.loading, ?_⟩
  · have hinside : m'.depth = m.depth + 1 := h.depth
    simp [hinside]
  · have hinside : m'.now.calls = f :: m.now.calls := by simpa using h.calls
    simp [hinside]

theorem whileLoading {location : Location} {inner : Run α} (hm : m.now.Sound limit)
    (hinner : ∀ m, m.now.Sound limit → KeepsAt limit Q inner m) :
    KeepsAt limit Q (Run.whileLoading location inner) m := by
  have henter : Moment.Sound limit
      ⟨{ m.toState with world.loading := location :: m.world.loading }, m.now.calls,
        m.now.events⟩ :=
    ⟨hm.tidy, hm.linked, hm.depth, hm.depth_le⟩
  refine leaving (hinner _ (by simpa using henter)) (fun m' h => ?_) fun _ => rfl
  refine .bracket hm (by simpa using henter) h
    ⟨h.shape, h.active, h.depth, ?_, by simpa using h.calls⟩
  have hinside : m'.world.loading = location :: m.world.loading := h.loading
  simp [hinside]

theorem onNewMachine {inner : Run Unit} (hm : m.now.Sound limit)
    (hinner : ∀ m, m.now.Sound limit → KeepsAt limit (fun _ => True) inner m) :
    KeepsAt limit (fun arena => arena.isLive Arena.root) (Run.onNewMachine inner) m := by
  have hfresh : m.fresh.now.Sound limit := by
    rw [now_fresh]
    exact sound_initial limit m.world _
  have hx := hinner m.fresh hfresh
  unfold KeepsAt at hx ⊢
  unfold Run.onNewMachine
  cases hresult : inner m.fresh with
  | ok a m' =>
    rw [hresult] at hx
    refine ⟨.resume hm hfresh hx.1, ?_⟩
    change m'.arena.isLive Arena.root
    rw [Arena.isLive_congr hx.1.shape.link?]
    rfl
  | error stop m' =>
    rw [hresult] at hx
    exact ⟨.resume hm hfresh hx.1, hx.2⟩

end KeepsAt

-- from here on the rules are used, and no run is evaluated to see which one applies
attribute [irreducible] KeepsAt

end Script
