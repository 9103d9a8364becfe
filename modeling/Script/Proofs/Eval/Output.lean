import Script.Failure
import Script.Proofs.Eval.Thin

/-!
# A failing sink is never swallowed

A program that writes to a sink with a limit does what it does with one that takes everything, as
long as the limit is not passed. The `print` that passes it fails, and from there on the error is
fatal in all that is around: no statement, no call and no import holds it up, and nothing more is
written. The run without a limit goes on alone meanwhile.
-/

namespace Script

open Lockstep

/-! ### Sinks -/

namespace Sink

/-- The sink with a limit set, unless that has been passed. -/
def cut (n : Nat) (s : Sink) : Sink :=
  if s.limit = none ∧ s.written.size ≤ n then ⟨s.written, some n⟩ else s

variable {n : Nat} {s : Sink}

theorem cut_of_le (hlimit : s.limit = none) (hsize : s.written.size ≤ n) :
    s.cut n = ⟨s.written, some n⟩ :=
  if_pos ⟨hlimit, hsize⟩

theorem cut_of_lt (hsize : n < s.written.size) : s.cut n = s :=
  if_neg fun h => Nat.not_le.2 hsize h.2

theorem cut_of_limit {limit : Nat} (hlimit : s.limit = some limit) : s.cut n = s :=
  if_neg fun h => Option.some_ne_none limit (hlimit.symm.trans h.1)

/-- The sink with a limit has failed where the other has written on: it has the first bytes of what
that one has by now. -/
structure Passed (n : Nat) (limited s : Sink) : Prop where
  limit : s.limit = none
  size : n < s.written.size
  kept : limited = ⟨s.written.extract 0 n, some n⟩

theorem Passed.grows {limited s' : Sink} (h : Passed n limited s) (hgrows : s.Grows s') :
    Passed n limited s' := by
  obtain ⟨more, hmore⟩ := hgrows.written h.limit
  have hsize := h.size
  refine ⟨hgrows.limit.trans h.limit, by rw [hmore, ByteArray.size_append]; omega, ?_⟩
  rw [h.kept, hmore, ByteArray.extract_append]
  simp [Nat.sub_eq_zero_of_le hsize.le]

/-- A text is written to both sinks, or passes the limit of one. -/
theorem write_cut (n : Nat) (s : Sink) (text : String) :
    (s.cut n).write text = ((s.write text).1.cut n, (s.write text).2) ∨
      ((s.cut n).write text).2 = false ∧ Passed n ((s.cut n).write text).1 (s.write text).1 := by
  obtain ⟨written, _ | limit⟩ := s
  · obtain hpassed | hle := Nat.lt_or_ge n written.size
    · refine .inl ?_
      have hgrown : n < (written ++ text.toUTF8).size := by rw [ByteArray.size_append]; omega
      rw [cut_of_lt hpassed]
      simp only [write]
      rw [cut_of_lt hgrown]
    · rw [cut_of_le rfl hle]
      obtain hpasses | hfits := Nat.lt_or_ge n (written ++ text.toUTF8).size
      · refine .inr ?_
        simp only [write, if_neg (Nat.not_le.2 hpasses)]
        exact ⟨trivial, rfl, hpasses, rfl⟩
      · refine .inl ?_
        simp only [write, if_pos hfits]
        rw [cut_of_le rfl hfits]
  · refine .inl ?_
    rw [cut_of_limit rfl, cut_of_limit (Grows.write _ text).limit]

end Sink

theorem Native.call_print (arguments : List Value) (sink : Sink) :
    call print arguments sink =
      (if (sink.write (line arguments)).2 then .ok .void else .error writeFailed,
        (sink.write (line arguments)).1) := by
  rw [call]
  rcases sink.write (line arguments) with ⟨sink, _ | _⟩ <;> rfl

/-! ### The two runs -/

/-- The run with the limit has failed where the one without has written on. -/
structure LimitPassed (n : Nat) (stop : Stop) (limited output : Sink) : Prop where
  fatal : ∃ e, stop = .failed e ∧ e.cause = Native.writeFailed
  passed : Sink.Passed n limited output

theorem isFatal_of_writeFailed {e : Error} (h : e.cause = Native.writeFailed) : e.isFatal := by
  rw [Error.isFatal, Error.kind, h]
  rfl

/-- The second run writes to a sink that keeps the first bytes. -/
def limited (n : Nat) : Translation where
  value := id
  sink := Sink.cut n
  Left := LimitPassed n

theorem limited_plain (n : Nat) : (limited n).Plain := ⟨rfl, rfl, rfl⟩

theorem limited_sinks (n : Nat) : (limited n).SinksAgree := by
  intro f arguments output
  have hsink : (limited n).sink = Sink.cut n := rfl
  cases f with
  | print =>
    rw [hsink, Native.call_print, Native.call_print]
    obtain hsame | ⟨hfails, hpassed⟩ := Sink.write_cut n output (Native.line arguments)
    · rw [hsame]
      exact .inl rfl
    · refine .inr ⟨Native.writeFailed, ?_, ⟨_, rfl, rfl⟩, hpassed⟩
      rw [hfails]
      rfl
  | _ => exact .inl rfl

theorem limited_attributes (n : Nat) (ctx : Context) : (limited n).lockstep.Attributes ctx ctx where
  stops {stop stop'} hstops kind position := by
    change stop = stop' at hstops
    subst hstops
    rfl
  left hleft kind position := by
    obtain ⟨⟨e, rfl, he⟩, hpassed⟩ := hleft
    obtain ⟨e', hattributed, hcause⟩ := Stop.attributed_failed ctx kind position e
    exact ⟨⟨e', hattributed, hcause.trans he⟩, hpassed⟩

theorem limited_sound (n : Nat) : (limited n).Sound where
  transparent := transparent_id
  sinks := limited_sinks n
  stopping :=
    { fails := fun _ _ => rfl
      exhausted := rfl
      left := fun hleft hgrows => ⟨hleft.fatal, hleft.passed.grows hgrows⟩ }

theorem limited_lawful (n : Nat) : (limited n).lockstep.LawfulModules where
  toLawfulImports := Translation.imports (limited_sound n)
  moduleErrors :=
    { stops := fun hstops _ => congrArg _ hstops
      left := fun hleft module => by
        obtain ⟨⟨e, rfl, he⟩, hpassed⟩ := hleft
        exact ⟨⟨e, congrArg _ (if_pos (isFatal_of_writeFailed he)), he⟩, hpassed⟩ }

/-- As long as both runs have the sinks that they had, the limit has not been passed, and the sinks
are all that differs. -/
theorem eq_of_limited {n : Nat} {k k' : Machine} (h : (limited n).lockstep.Rel k k')
    (hlimit : k.world.output.limit = none) (hlimit' : k'.world.output.limit = some n) :
    k.world.output.written.size ≤ n ∧
      k'.toState = { k.toState with world.output := ⟨k.world.output.written, some n⟩ } := by
  have hstate : k'.toState = { k.toState with world.output := k.world.output.cut n } :=
    ((limited_plain n).states_iff rfl).1 h
  obtain hpassed | hle := Nat.lt_or_ge n k.world.output.written.size
  · rw [hstate, Sink.cut_of_lt hpassed, hlimit] at hlimit'
    cases hlimit'
  · exact ⟨hle, by rw [hstate, Sink.cut_of_le hlimit hle]⟩

/-- A run only ever adds to its sink. -/
theorem execute_grows (fuel : Nat) (ctx : Context) (source : String) (m : Machine) :
    m.world.output.Grows (execute fuel ctx source m).2.world.output := by
  have hm : (mapped id).Rel m m := ((mapped_plain id).states_iff rfl).2 rfl
  exact ((lawful_mapped transparent_id).execute (.of_value rfl ctx) fuel source hm).2.2

/-- A program that writes to a sink which takes the first `n` bytes and then fails does what it does
with a sink that takes everything, if it writes no more than that: it ends in the same way, with the
same output, the same warnings and the same bindings. If it writes more, then it ends with the
failure of the `print` that passed the limit, which is fatal wherever it was executed, and its output
are the first `n` bytes of the other. -/
theorem execute_limited (fuel : Nat) (ctx : Context) (source : String) (m : Machine) (n : Nat) :
    let run := execute fuel ctx source { m with world.output := .empty none }
    let limited := execute fuel ctx source { m with world.output := .empty (some n) }
    let written := run.2.world.output.written
    (written.size ≤ n →
      limited.1 = run.1 ∧ limited.2.world.output.written = written ∧
      limited.2.world.warnings = run.2.world.warnings ∧ limited.2.arena = run.2.arena) ∧
    (n < written.size → ∃ e : Error,
      limited.1 = .failed (.program e) ∧ e.cause = Native.writeFailed ∧
      (Failure.program e).exitCode = exitFatal ∧
      limited.2.world.output.written = written.extract 0 n) := by
  intro run limited written
  have hlimit : run.2.world.output.limit = none := (execute_grows ..).limit
  have hlimit' : limited.2.world.output.limit = some n := (execute_grows ..).limit
  have hends : (Script.limited n).lockstep.Ends _ run limited :=
    (limited_lawful n).execute_ends (.of_value rfl (limited_attributes n ctx))
      (settlesFiles_of_unmoved rfl _) fuel (settles_of_unmoved rfl source)
      (((limited_plain n).states_iff rfl).2 rfl)
  obtain ⟨-, hgone⟩ | ⟨houtcome, hrel, -⟩ | ⟨stop, houtcome, ⟨e, rfl, he⟩, hpassed⟩ := hends.same rfl
  · exact hgone.elim
  · obtain ⟨hle, hstate⟩ := eq_of_limited hrel hlimit hlimit'
    refine ⟨fun _ => ⟨houtcome, ?_, ?_, ?_⟩, fun hlt => absurd hle (Nat.not_le.2 hlt)⟩
    · rw [hstate]
    · rw [hstate]
    · rw [hstate]
  · refine ⟨fun hle => absurd hpassed.size (Nat.not_lt.2 hle), fun _ => ⟨e, houtcome, he, ?_, ?_⟩⟩
    · rw [Failure.exitCode, if_pos (isFatal_of_writeFailed he)]
    · rw [hpassed.kept]

end Script
