import Script.Proofs.Harmless
import Script.Proofs.Scope.Operations

/-!
# Moments of a run

A moment of a run is sound when its scopes are linked from the active one and its depth counts the
calls in progress, of which there are no more than allowed. A run from a sound moment passes through
sound moments alone, comes back to where it started, and raises nothing fatal but the failure of
`print`. That is what it means that one machine passes into another.
-/

namespace Script

/-- A fatal cause is the failure of `print`. -/
def Cause.Excused (cause : Cause) : Prop :=
  cause.kind = .fatal → cause = Native.writeFailed

/-- A fatal stop is the failure of `print`, after which nothing more was written. -/
def Stop.Excused (output : Sink) : Stop → Prop
  | .failed e => e.isFatal → e.cause = Native.writeFailed ∧ output.Refused
  | .outOfFuel => True

/-- The arena is in order around the active scope, and the depth counts the calls. -/
structure Moment.Sound (limit : Nat) (x : Moment) : Prop where
  tidy : x.state.arena.Tidy
  linked : x.state.arena.Linked x.state.active
  depth : x.state.depth = x.calls.length
  depth_le : x.state.depth ≤ limit

namespace Machine

/-- The present moment. -/
noncomputable def now (m : Machine) : Moment :=
  ⟨m.toState, m.history.value.calls, m.history.value.events⟩

/-- The moments gone through, the latest first. -/
noncomputable def moments (m : Machine) : List Moment := m.history.value.moments

/-- The causes raised, the latest first. -/
noncomputable def raised (m : Machine) : List Cause := m.history.value.raised

section

variable (m : Machine) (calls : List UserFunction → List UserFunction) (f : State → State)
  (events : List Event)

@[simp]
theorem toState_stepWith : (m.stepWith calls f events).toState = f m.toState :=
  rfl

@[simp]
theorem now_stepWith :
    (m.stepWith calls f events).now = ⟨f m.toState, calls m.now.calls, events ++ m.now.events⟩ := by
  simp [now, stepWith, History.enter]

@[simp]
theorem moments_stepWith : (m.stepWith calls f events).moments =
    ⟨f m.toState, calls m.now.calls, events ++ m.now.events⟩ :: m.moments := by
  simp [now, moments, stepWith, History.enter]

@[simp]
theorem raised_stepWith : (m.stepWith calls f events).raised = m.raised := by
  simp [raised, stepWith, History.enter]

@[simp]
theorem toState_step : (m.step f).toState = f m.toState :=
  rfl

@[simp]
theorem now_step : (m.step f).now = ⟨f m.toState, m.now.calls, m.now.events⟩ :=
  now_stepWith m id f []

@[simp]
theorem moments_step :
    (m.step f).moments = ⟨f m.toState, m.now.calls, m.now.events⟩ :: m.moments :=
  moments_stepWith m id f []

@[simp]
theorem raised_step : (m.step f).raised = m.raised :=
  raised_stepWith m id f []

@[simp]
theorem now_fresh : m.fresh.now = ⟨.initial m.world, [], m.now.events⟩ :=
  now_stepWith ..

@[simp]
theorem moments_fresh : m.fresh.moments = ⟨.initial m.world, [], m.now.events⟩ :: m.moments :=
  moments_stepWith ..

@[simp]
theorem raised_fresh : m.fresh.raised = m.raised :=
  raised_stepWith ..

variable (m' : Machine)

@[simp]
theorem now_resume : (m.resume m').now =
    ⟨{ m.toState with world := m'.world }, m.now.calls, m'.now.events⟩ := by
  simp [now, resume, History.enter]

@[simp]
theorem moments_resume : (m.resume m').moments = (m.resume m').now :: m'.moments := by
  simp [now, moments, resume, History.enter]

@[simp]
theorem raised_resume : (m.resume m').raised = m'.raised := by
  simp [raised, resume, History.enter]

end

/-- `m'` is back at the scopes, the depth, the calls and the files being loaded of `m`. -/
structure Restored (m m' : Machine) : Prop where
  shape : Arena.SameShape m.arena m'.arena
  active : m'.active = m.active
  depth : m'.depth = m.depth
  loading : m'.world.loading = m.world.loading
  calls : m'.now.calls = m.now.calls

/-- From `m` a run came back to where it was. It went through sound moments only, and raised nothing
fatal but what `print` may raise. -/
structure Passes (limit : Nat) (m m' : Machine) : Prop extends Restored m m' where
  latest : m.moments.head? = some m.now → m'.moments.head? = some m'.now
  moments : ∃ later, m'.moments = later ++ m.moments ∧ ∀ x ∈ later, x.Sound limit
  raised : ∃ later, m'.raised = later ++ m.raised ∧ ∀ cause ∈ later, cause.Excused

variable {limit : Nat} {m m' m'' : Machine}

namespace Restored

theorem refl (m : Machine) : Restored m m :=
  ⟨.refl _, rfl, rfl, rfl, rfl⟩

theorem trans (h : Restored m m') (h' : Restored m' m'') : Restored m m'' where
  shape := h.shape.trans h'.shape
  active := h'.active.trans h.active
  depth := h'.depth.trans h.depth
  loading := h'.loading.trans h.loading
  calls := h'.calls.trans h.calls

theorem sound (h : Restored m m') (hm : m.now.Sound limit) : m'.now.Sound limit where
  tidy := h.shape.tidy hm.tidy
  linked := by
    have hlinked := hm.linked.congr h.shape.link?
    change m'.arena.Linked m'.active
    rw [h.active]
    exact hlinked
  depth := by
    change m'.depth = m'.now.calls.length
    rw [h.depth, h.calls]
    exact hm.depth
  depth_le := by
    change m'.depth ≤ limit
    rw [h.depth]
    exact hm.depth_le

end Restored

namespace Passes

theorem refl (m : Machine) : Passes limit m m :=
  ⟨.refl m, id, ⟨[], rfl, nofun⟩, ⟨[], rfl, nofun⟩⟩

private theorem append {α : Type} {P : α → Prop} {first second third : List α}
    (h : ∃ later, second = later ++ first ∧ ∀ x ∈ later, P x)
    (h' : ∃ later, third = later ++ second ∧ ∀ x ∈ later, P x) :
    ∃ later, third = later ++ first ∧ ∀ x ∈ later, P x := by
  obtain ⟨later, rfl, hlater⟩ := h
  obtain ⟨later', rfl, hlater'⟩ := h'
  refine ⟨later' ++ later, (List.append_assoc ..).symm, ?_⟩
  intro x hmem
  obtain hmem | hmem := List.mem_append.1 hmem
  · exact hlater' x hmem
  · exact hlater x hmem

theorem trans (h : Passes limit m m') (h' : Passes limit m' m'') : Passes limit m m'' :=
  ⟨h.toRestored.trans h'.toRestored, fun hm => h'.latest (h.latest hm),
    append h.moments h'.moments, append h.raised h'.raised⟩

/-- A run between two steps, the last of which comes back from what the first did. -/
private theorem between {first last : Machine} (hm : m.now.Sound limit)
    (hfirst : first.moments = first.now :: m.moments ∧ first.raised = m.raised)
    (hsound : first.now.Sound limit) (h : Passes limit first m') (hback : Restored m last)
    (hlast : last.moments = last.now :: m'.moments ∧ last.raised = m'.raised) :
    Passes limit m last := by
  refine ⟨hback, fun _ => by simp [hlast.1], append (append ⟨[_], hfirst.1, ?_⟩ h.moments)
    ⟨[_], hlast.1, ?_⟩, ?_⟩
  · simpa using hsound
  · simpa using hback.sound hm
  · rw [hlast.2, ← hfirst.2]
    exact h.raised

theorem bracket {calls calls' : List UserFunction → List UserFunction} {f f' : State → State}
    (hm : m.now.Sound limit) (henter : (m.stepWith calls f).now.Sound limit)
    (h : Passes limit (m.stepWith calls f) m') (hback : Restored m (m'.stepWith calls' f')) :
    Passes limit m (m'.stepWith calls' f') :=
  between hm (by simp) henter h hback (by simp)

theorem resume (hm : m.now.Sound limit) (hfresh : m.fresh.now.Sound limit)
    (h : Passes limit m.fresh m') : Passes limit m (m.resume m') :=
  between hm (by simp) hfresh h ⟨.refl _, rfl, rfl, h.loading, by simp⟩ (by simp)

/-- One step that changes nothing that must be restored. -/
theorem step {f : State → State} {events : List Event} (hm : m.now.Sound limit)
    (hback : Restored m (m.stepWith id f events)) : Passes limit m (m.stepWith id f events) := by
  have hafter := hback.sound hm
  simp only [now_stepWith] at hafter
  exact ⟨hback, fun _ => by simp, ⟨[_], moments_stepWith .., by simpa using hafter⟩,
    ⟨[], raised_stepWith .., nofun⟩⟩

end Passes

/-- The moment in which a module starts is sound. -/
theorem sound_initial (limit : Nat) (world : World) (events : List Event) :
    Moment.Sound limit ⟨.initial world, [], events⟩ :=
  ⟨Arena.tidy_withRoot, Arena.linked_withRoot, rfl, Nat.zero_le _⟩

end Machine

end Script
