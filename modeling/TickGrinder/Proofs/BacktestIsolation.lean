import TickGrinder.Proofs.BacktestHandles

/-!
# Backtests are isolated

Seen alone, a started backtest is the handle the listener holds for it, if any, and its engine
(`Backtest`). An event about it acts on that pair only: a command is forwarded on its control
channel while the listener holds the handle, `StopBacktest` then gives the handle up, and its own
steps move its engine (`Backtest.take`). An event about another backtest or a SimBroker leaves the
pair as it is: `start_backtest` registers the uuid it draws, which no engine has, and every other
arm and step reads and writes only the entries of the uuid it names.

So the backtester, seen from one backtest, runs the events about that backtest and nothing else
(`run_view`): whatever the other backtests and SimBrokers do, and however their events interleave
with its own, a backtest's handle and engine after a run are what its own events make of them.
-/

namespace TickGrinder

open Backtester (Event EngineStep)

/-- A started backtest seen alone: the handle the listener holds for it, and its engine. -/
structure Backtest where
  handle : Option BacktestHandle
  engine : Engine
deriving DecidableEq

namespace Backtest

/-- A command the listener forwards: sent on the control channel while it holds the handle, and
answered with an error, changing nothing, once it does not. -/
def forward (x : Backtest) (c : BacktestCommand) : Option Backtest :=
  match x.handle with
  | none => some x
  | some _ => (fun e => { x with engine := e }) <$> x.engine.send c

/-- `StopBacktest`: `Stop` is forwarded, then the handle is given up. -/
def stop (x : Backtest) : Option Backtest :=
  (fun y => { y with handle := none }) <$> x.forward .stop

/-- A step of the backtest's own. -/
def own (x : Backtest) (s : EngineStep) : Option Backtest :=
  (fun e => { x with engine := e }) <$> s.apply x.engine

/-- An event about the backtest, seen from it. A second start under its uuid cannot happen: the
uuid `Uuid::new_v4` draws is one no backtest has had. -/
def take (x : Backtest) : Event → Option Backtest
  | .startBacktest .. => none
  | .pauseBacktest _ => x.forward .pause
  | .resumeBacktest _ => x.forward .resume
  | .stopBacktest _ => x.stop
  | .spawnSimbroker _ => some x
  | .consume _ => x.own .consume
  | .tick _ => x.own .tick
  | .exitSend _ => x.own .exitSend
  | .finish _ => x.own .finish

/-- The backtest after the events about it, in order. -/
def run (x : Backtest) : List Event → Option Backtest
  | [] => some x
  | ev :: evs => (x.take ev).bind fun x => run x evs

end Backtest

namespace Backtester

/-- The backtest an event is about: the one it starts, forwards a command to or steps; spawning a
SimBroker is about none. -/
def Event.backtest : Event → Option Uuid
  | .startBacktest _ _ u | .pauseBacktest u | .resumeBacktest u | .stopBacktest u => some u
  | .consume u | .tick u | .exitSend u | .finish u => some u
  | .spawnSimbroker _ => none

/-- The backtest under `u`, seen alone, once it has been started. -/
def view (b : Backtester) (u : Uuid) : Option Backtest :=
  (b.engines.lookup u).map fun e => ⟨b.runningBacktests.lookup u, e⟩

variable {b b' : Backtester} {u v : Uuid} {x : Backtest}

theorem view_eq_some :
    b.view u = some x ↔
      b.engines.lookup u = some x.engine ∧ b.runningBacktests.lookup u = x.handle := by
  simp only [view, Option.map_eq_some']
  constructor
  · rintro ⟨e, he, rfl⟩
    exact ⟨he, rfl⟩
  · rintro ⟨he, hh⟩
    exact ⟨_, he, by rw [hh]⟩

/-- `send_backtest_cmd` as the backtest under `u` sees it: every handle is kept, and the backtest
takes the command as `forward` does when it is named, and nothing otherwise. -/
theorem sendBacktestCmd_view {c : BacktestCommand} {r : Except Unit Unit}
    (hx : b.view u = some x) (h : b.sendBacktestCmd v c = some (b', r)) :
    b'.runningBacktests = b.runningBacktests ∧
      ∃ x', b'.view u = some x' ∧ if v = u then x.forward c = some x' else x' = x := by
  obtain ⟨he, hh⟩ := view_eq_some.1 hx
  rcases sendBacktestCmd_cases h with
    ⟨hv, -, rfl⟩ | ⟨hv, -, ⟨hl, rfl⟩ | ⟨e, e', hl, hs, rfl⟩⟩
  · refine ⟨rfl, x, hx, ?_⟩
    split_ifs with hvu
    · subst hvu
      rw [AList.lookup_eq_none.2 hv] at hh
      simp [Backtest.forward, ← hh]
    · rfl
  · refine ⟨rfl, x, hx, ?_⟩
    split_ifs with hvu
    · exact absurd (hvu ▸ hl) (by simp [he])
    · rfl
  · refine ⟨rfl, ?_⟩
    by_cases hvu : v = u
    · subst hvu
      obtain rfl : e = x.engine := Option.some.inj (hl.symm.trans he)
      obtain ⟨_, hk⟩ := Option.isSome_iff_exists.1 (AList.lookup_isSome.2 hv)
      refine ⟨{ x with engine := e' }, view_eq_some.2 ⟨AList.lookup_insert _, hh⟩, ?_⟩
      simp [Backtest.forward, ← hh, hk, hs]
    · exact ⟨x, view_eq_some.2 ⟨by rw [AList.lookup_insert_ne (Ne.symm hvu), he], hh⟩,
        by simp [hvu]⟩

/-- A step of a backtest's own as the backtest under `u` sees it. -/
theorem stepEngine_view (s : EngineStep) (hx : b.view u = some x)
    (h : b.stepEngine v s.apply = some b') :
    ∃ x', b'.view u = some x' ∧ if v = u then x.own s = some x' else x' = x := by
  obtain ⟨he, hh⟩ := view_eq_some.1 hx
  obtain ⟨e, e', hl, hs, rfl⟩ := stepEngine_cases h
  by_cases hvu : v = u
  · subst hvu
    obtain rfl : e = x.engine := Option.some.inj (hl.symm.trans he)
    exact ⟨{ x with engine := e' }, view_eq_some.2 ⟨AList.lookup_insert _, hh⟩,
      by simp [Backtest.own, hs]⟩
  · exact ⟨x, view_eq_some.2 ⟨by rw [AList.lookup_insert_ne (Ne.symm hvu), he], hh⟩,
      by simp [hvu]⟩

/-- One event as the backtest under `u` sees it: an event about it acts as `take` says, and any
other event leaves it as it is. -/
theorem step_view {ev : Event} (hx : b.view u = some x) (h : step b ev = some b') :
    ∃ x', b'.view u = some x' ∧
      if ev.backtest = some u then x.take ev = some x' else x' = x := by
  obtain ⟨he, hh⟩ := view_eq_some.1 hx
  cases ev with
  | startBacktest d ts v =>
    simp only [step] at h
    split_ifs at h with hv
    obtain ⟨⟨b₁, r⟩, hs, rfl⟩ := Option.map_eq_some'.1 h
    have hvu : v ≠ u := fun h => hv (h ▸ AList.lookup_isSome.1 (by simp [he]))
    refine ⟨x, ?_, by simp [Event.backtest, hvu]⟩
    rcases startBacktest_cases hs with ⟨-, -, rfl⟩ | ⟨-, b₀, ticks, c, hr, hen, rfl⟩
    · exact hx
    · exact view_eq_some.2
        ⟨by simp only [register, AList.lookup_insert_ne (Ne.symm hvu), hen, he],
          by simp only [register, AList.lookup_insert_ne (Ne.symm hvu), hr, hh]⟩
  | pauseBacktest v | resumeBacktest v =>
    obtain ⟨⟨b₁, r⟩, hs, rfl⟩ := Option.map_eq_some'.1 h
    obtain ⟨⟨b₂, r₂⟩, hs₂, hb⟩ := Option.map_eq_some'.1 hs
    obtain rfl : b₂ = b₁ := by cases r₂ <;> cases hb <;> rfl
    obtain ⟨-, x', hx', hf⟩ := sendBacktestCmd_view hx hs₂
    exact ⟨x', hx', by simpa [Event.backtest, Backtest.take] using hf⟩
  | stopBacktest v =>
    obtain ⟨⟨b₁, r⟩, hs, rfl⟩ := Option.map_eq_some'.1 h
    have hr := (stopBacktest_spec hs).1
    obtain ⟨⟨b₂, r₂⟩, hs₂, hb⟩ := Option.map_eq_some'.1 hs
    have hen : b₁.engines = b₂.engines := by cases r₂ <;> cases hb <;> rfl
    obtain ⟨-, x', hx', hf⟩ := sendBacktestCmd_view hx hs₂
    have he' := hen ▸ (view_eq_some.1 hx').1
    by_cases hvu : v = u
    · subst hvu
      refine ⟨{ x' with handle := none },
        view_eq_some.2 ⟨he', by rw [hr, AList.lookup_erase]⟩, ?_⟩
      simp only [if_true] at hf
      simp [Event.backtest, Backtest.take, Backtest.stop, hf]
    · simp only [hvu, if_false] at hf
      subst hf
      exact ⟨x', view_eq_some.2 ⟨he', by rw [hr, AList.lookup_erase_ne (Ne.symm hvu), hh]⟩,
        by simp [Event.backtest, hvu]⟩
  | spawnSimbroker v =>
    simp only [step] at h
    split_ifs at h
    cases h
    exact ⟨x, hx, by simp [Event.backtest]⟩
  | consume v =>
    obtain ⟨x', hx', hf⟩ := stepEngine_view .consume hx h
    exact ⟨x', hx', by simpa [Event.backtest, Backtest.take] using hf⟩
  | tick v =>
    obtain ⟨x', hx', hf⟩ := stepEngine_view .tick hx h
    exact ⟨x', hx', by simpa [Event.backtest, Backtest.take] using hf⟩
  | exitSend v =>
    obtain ⟨x', hx', hf⟩ := stepEngine_view .exitSend hx h
    exact ⟨x', hx', by simpa [Event.backtest, Backtest.take] using hf⟩
  | finish v =>
    obtain ⟨x', hx', hf⟩ := stepEngine_view .finish hx h
    exact ⟨x', hx', by simpa [Event.backtest, Backtest.take] using hf⟩

/-- The backtest under `u`, along a run of the backtester's events: it runs the events about it,
in order, and no other. -/
theorem run_view {evs : List Event} (hx : b.view u = some x) (h : run b evs = some b') :
    b'.view u = x.run (evs.filter fun ev => ev.backtest = some u) := by
  induction evs generalizing b x with
  | nil => cases h; exact hx
  | cons ev evs ih =>
    obtain ⟨b₁, h₁, h₂⟩ := Option.bind_eq_some.1 h
    obtain ⟨x₁, hx₁, hf⟩ := step_view hx h₁
    rw [ih hx₁ h₂]
    by_cases hu : ev.backtest = some u
    · rw [if_pos hu] at hf
      rw [List.filter_cons_of_pos (by simpa using hu)]
      simp [Backtest.run, hf]
    · rw [if_neg hu] at hf
      rw [List.filter_cons_of_neg (by simpa using hu), hf]

/-- Backtests are isolated: for every state of the backtester, every backtest started in it and
every run of events that follows (the listener's commands and every backtest's own steps, in any
interleaving), the backtest's handle and engine after the run are what the events about it,
taken alone and in order, make of them; so every other run with the same events about it, however
the rest differs or interleaves, leaves it the same handle and engine. -/
theorem backtest_sees_only_its_events (b : Backtester) (u : Uuid) (x : Backtest)
    (hx : b.view u = some x) (evs : List Event) (b' : Backtester) (h : run b evs = some b') :
    b'.view u = x.run (evs.filter fun ev => ev.backtest = some u) ∧
      ∀ evs' b'', run b evs' = some b'' →
        evs'.filter (fun ev => ev.backtest = some u) =
          evs.filter (fun ev => ev.backtest = some u) →
        b''.view u = b'.view u :=
  ⟨run_view hx h, fun _ _ h' hf => by rw [run_view hx h', run_view hx h, hf]⟩

/-- Two backtests started, of two ticks and of one. -/
def twoBacktests : Backtester :=
  ((new (Uuid.ofByte 1)).register ⟨none, none, none, "A", .fast 0, .random, .null⟩
    [⟨1, 1, 1⟩, ⟨1, 1, 2⟩] (.pump 0) (Uuid.ofByte 2)).register
      ⟨none, none, none, "B", .fast 0, .random, .null⟩ [⟨2, 2, 1⟩] (.pump 0) (Uuid.ofByte 3)

/-- Both resumed, each taking its `Resume` and its first tick in the other's midst, then the
second stopped. -/
def interleaved : List Event :=
  [.resumeBacktest (Uuid.ofByte 3), .resumeBacktest (Uuid.ofByte 2), .consume (Uuid.ofByte 2),
    .consume (Uuid.ofByte 3), .tick (Uuid.ofByte 3), .tick (Uuid.ofByte 2),
    .stopBacktest (Uuid.ofByte 3)]

theorem first_backtest_beside_second :
    ∃ x b', twoBacktests.view (Uuid.ofByte 2) = some x ∧
      run twoBacktests interleaved = some b' ∧
      b'.view (Uuid.ofByte 2) =
        x.run (interleaved.filter fun ev => ev.backtest = some (Uuid.ofByte 2)) ∧
      ∀ evs' b'', run twoBacktests evs' = some b'' →
        evs'.filter (fun ev => ev.backtest = some (Uuid.ofByte 2)) =
          interleaved.filter (fun ev => ev.backtest = some (Uuid.ofByte 2)) →
        b''.view (Uuid.ofByte 2) = b'.view (Uuid.ofByte 2) := by
  obtain ⟨x, hx⟩ : ∃ x, twoBacktests.view (Uuid.ofByte 2) = some x := ⟨_, rfl⟩
  obtain ⟨b', h⟩ : ∃ b', run twoBacktests interleaved = some b' := ⟨_, rfl⟩
  exact ⟨x, b', hx, h, backtest_sees_only_its_events _ _ _ hx _ _ h⟩

end Backtester

end TickGrinder
