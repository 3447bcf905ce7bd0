import TickGrinder.Codec
import TickGrinder.Proofs.JsonRoundTrip

/-!
# The message types round-trip through their text

Each field's deserializer reads back what its serializer writes: a string, a `usize` up to
`u64::MAX`, a uuid's hyphenated text, a list of strings, a `HistTickDst`, and, by assumption, the
settings of a simulated broker. A variant's tag is matched by its name, so every `Command` and
every `Response` reads back from its tree, and the wrapped forms with them. With the tree read back
from its text (`parse_toString`), `from_str` inverts `to_string` on all four types.
-/

namespace TickGrinder

open Serde

/-- A decoder step that succeeds leaves the rest of the decoder to run on its result. -/
theorem bind_of_eq_some {α β : Type} {o : Option α} {a : α} (h : o = some a)
    (f : α → Option β) : o.bind f = f a := by
  rw [h]; rfl

/-! ## Fields -/

namespace Serde

theorem deserializeUsize_serializeUsize (n : UInt64) :
    deserializeUsize (serializeUsize n) = some n := by
  have hn : UInt64.ofNat n.toNat = n := by
    apply UInt64.eq_of_toBitVec_eq
    show BitVec.ofNat 64 n.toBitVec.toNat = _
    simp
  have hmin : min n.toNat (UInt64.size - 1) = n.toNat :=
    Nat.min_eq_left (Nat.le_sub_one_of_lt n.toNat_lt_size)
  have ht : truncate ⟨false, n.toNat, [], none⟩ = UInt64.ofNat (min n.toNat (UInt64.size - 1)) :=
    by simp [truncate, Json.digitsValue]
  rw [serializeUsize, deserializeUsize, if_neg (by simp), ht, hmin, hn]

theorem deserializeUuid_serializeUuid (u : Uuid) : deserializeUuid (serializeUuid u) = some u :=
  Uuid.parseStr_hyphenated u

theorem deserializeStrings_arr :
    ∀ args : List String, deserializeStrings (.arr (args.map .str)) = some args
  | [] => rfl
  | a :: args => by
    have h := deserializeStrings_arr args
    simp only [deserializeStrings] at h
    simp only [deserializeStrings, List.map_cons, List.mapM_cons, deserializeString, h]
    rfl

/-- Given a tree the deserializer reads back, `from_str` reads back the text `to_string` writes. -/
theorem fromStr_toString {α : Type} {serialize : α → Option Json} {deserialize : Json → Option α}
    {x : α} {j : Json} (hs : serialize x = some j) (hd : deserialize j = some x) :
    ∃ t, toString serialize x = .ok t ∧ fromStr deserialize t = .ok x :=
  ⟨j.toString, by rw [toString, hs], by rw [fromStr, Json.parse_toString, Option.some_bind, hd]⟩

end Serde

/-! ## The message types -/

theorem HistTickDst.deserialize_serialize (d : HistTickDst) : deserialize d.serialize = some d := by
  cases d <;> rfl

section

variable {σ : Type} {enc : σ → Option Json} {dec : Json → Option σ}

/-- The settings of a simulated broker read back from the tree their serializer writes. -/
def SettingsRoundTrip (enc : σ → Option Json) (dec : Json → Option σ) : Prop :=
  ∀ s, ∃ j, enc s = some j ∧ dec j = some s

theorem Command.deserialize_serialize (hσ : SettingsRoundTrip enc dec) (c : Command σ) :
    ∃ j, c.serialize enc = some j ∧ deserialize dec j = some c := by
  cases c with
  | ready _ u | killInstance u | pauseBacktest u | resumeBacktest u | stopBacktest u =>
    exact ⟨_, rfl, bind_of_eq_some (deserializeUuid_serializeUuid u) _⟩
  | addSMA n =>
    exact ⟨_, rfl, bind_of_eq_some (f := fun x => pure (Command.addSMA x))
      (deserializeUsize_serializeUsize n)⟩
  | removeSMA n =>
    exact ⟨_, rfl, bind_of_eq_some (f := fun x => pure (Command.removeSMA x))
      (deserializeUsize_serializeUsize n)⟩
  | downloadTicks _ _ _ dst | downloadComplete _ _ _ dst => cases dst <;> exact ⟨_, rfl, rfl⟩
  | spawnSimbroker s =>
    obtain ⟨j, hj, hd⟩ := hσ s
    exact ⟨structVariant "SpawnSimbroker" [("settings", j)], by rw [Command.serialize, hj]; rfl,
      bind_of_eq_some hd _⟩
  | _ => exact ⟨_, rfl, rfl⟩

theorem Response.deserialize_serialize (r : Response) : deserialize r.serialize = some r := by
  cases r with
  | pong args => exact bind_of_eq_some (deserializeStrings_arr args) _
  | _ => rfl

theorem WrappedCommand.deserialize_serialize (hσ : SettingsRoundTrip enc dec)
    (w : WrappedCommand σ) : ∃ j, w.serialize enc = some j ∧ deserialize dec j = some w := by
  obtain ⟨j, hj, hd⟩ := w.cmd.deserialize_serialize hσ
  refine ⟨_, by rw [serialize, hj]; rfl, ?_⟩
  exact (bind_of_eq_some (deserializeUuid_serializeUuid w.uuid) _).trans (bind_of_eq_some hd _)

theorem WrappedResponse.deserialize_serialize (v : WrappedResponse) :
    deserialize v.serialize = some v :=
  (bind_of_eq_some (deserializeUuid_serializeUuid v.uuid) _).trans
    (bind_of_eq_some v.res.deserialize_serialize _)

/-- Every `Command`, `Response`, `WrappedCommand` and `WrappedResponse` is written by `to_string`
and read back by `from_str`, whatever its strings, `usize` fields, uuids and nested `HistTickDst`,
given that the settings of a simulated broker read back. -/
theorem fromStr_inverts_toString (hσ : SettingsRoundTrip enc dec) :
    (∀ c : Command σ, ∃ t, c.toString enc = .ok t ∧ Command.fromStr dec t = .ok c) ∧
    (∀ r : Response, ∃ t, r.toString = .ok t ∧ Response.fromStr t = .ok r) ∧
    (∀ w : WrappedCommand σ, ∃ t, w.toString enc = .ok t ∧ WrappedCommand.fromStr dec t = .ok w) ∧
    (∀ v : WrappedResponse, ∃ t, v.toString = .ok t ∧ WrappedResponse.fromStr t = .ok v) := by
  refine ⟨fun c => ?_, fun r => fromStr_toString rfl r.deserialize_serialize, fun w => ?_,
    fun v => fromStr_toString rfl v.deserialize_serialize⟩
  · obtain ⟨j, hj, hd⟩ := c.deserialize_serialize hσ
    exact fromStr_toString hj hd
  · obtain ⟨j, hj, hd⟩ := w.deserialize_serialize hσ
    exact fromStr_toString hj hd

/-- `RemoveSMA{period: 664}` round-trips, with unit settings written as `null`. -/
theorem removeSMA_round_trip :
    SettingsRoundTrip (fun _ : Unit => some Json.null) (fun j => unitContent (some j)) ∧
    ∃ t, (Command.removeSMA 664).toString (fun _ : Unit => some Json.null) = .ok t ∧
      Command.fromStr (fun j => unitContent (some j)) t = .ok (.removeSMA 664) :=
  have hσ : SettingsRoundTrip (fun _ : Unit => some Json.null) (fun j => unitContent (some j)) :=
    fun _ => ⟨.null, rfl, rfl⟩
  ⟨hσ, (fromStr_inverts_toString hσ).1 _⟩

end

end TickGrinder
