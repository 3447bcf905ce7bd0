import TickGrinder.Proofs.CodecRoundTrip

/-!
# What the readers accept

`#[derive(Deserialize)]` without `deny_unknown_fields` reads a struct's fields from an object by
name: each field must occur exactly once, in any position, and the members it does not know are
skipped. So the listeners take a `WrappedCommand` from every object with one `uuid` and one `cmd`
member that read as its fields, whatever else the object holds and in whatever order, and refuse
one where either member is missing or repeated. The fields are read as leniently as serde and
`parse_str` read them: the benchmark's period `5.2342` is 5, and a uuid may come as `urn:uuid:`.
-/

namespace TickGrinder

open Serde

/-- The member `structFields` picks for a field is named by the field. -/
theorem filter_name_eq {name k : String} {kvs : List (String × Json)} {v : Json}
    (h : kvs.filter (fun kv => kv.1 == name) = [(k, v)]) : k = name := by
  have hm : (k, v) ∈ kvs.filter (fun kv => kv.1 == name) := h ▸ List.mem_singleton_self _
  exact beq_iff_eq.1 (List.mem_filter.1 hm).2

namespace WrappedCommand

variable {σ : Type} (dec : Json → Option σ)

theorem deserialize_obj (kvs : List (String × Json)) (w : WrappedCommand σ) :
    deserialize dec (.obj kvs) = some w ↔
      ∃ ju jc, kvs.filter (fun kv => kv.1 == "uuid") = [("uuid", ju)] ∧
        kvs.filter (fun kv => kv.1 == "cmd") = [("cmd", jc)] ∧
        deserializeUuid ju = some w.uuid ∧ Command.deserialize dec jc = some w.cmd := by
  simp only [deserialize, structFields, List.mapM_cons, List.mapM_nil]
  split
  · rename_i k ju hu
    obtain rfl := filter_name_eq hu
    split
    · rename_i k' jc hc
      obtain rfl := filter_name_eq hc
      cases w
      simp [hu, hc, Option.bind_eq_some]
    · rename_i hc
      exact ⟨fun h => by simp at h, fun ⟨_, jc, _, h, _⟩ => (hc _ jc h).elim⟩
  · rename_i hu
    exact ⟨fun h => by simp at h, fun ⟨ju, _, h, _⟩ => (hu _ ju h).elim⟩

example : fromStr (fun _ => (none : Option Unit))
    (Json.obj [("cmd", .str "Ping"), ("sent_by", .null),
      ("uuid", .str (Uuid.ofByte 3).hyphenated)]).toString = .ok ⟨Uuid.ofByte 3, .ping⟩ :=
  rfl

end WrappedCommand

/-- The uuid of the source's `string_to_wrappedcmd` benchmark,
`2f663301-5b73-4fa0-b201-09ab196ec5fd`. -/
def benchUuid : Uuid :=
  ⟨[0x2f, 0x66, 0x33, 0x01, 0x5b, 0x73, 0x4f, 0xa0, 0xb2, 0x01, 0x09, 0xab, 0x19, 0x6e, 0xc5, 0xfd],
    rfl⟩

/-- The text the source's `string_to_wrappedcmd` benchmark reads: a `RemoveSMA` whose period is
written `5.2342`. -/
def benchRaw : String :=
  "\x7b\"uuid\":\"2f663301-5b73-4fa0-b201-09ab196ec5fd\",\"cmd\":\x7b\"RemoveSMA\":\x7b\"period\":5.2342\x7d\x7d\x7d"

/-- The benchmark's text reads as `RemoveSMA` of period 5: serde reads the float and truncates. -/
example : WrappedCommand.fromStr (fun _ => (none : Option Unit)) benchRaw =
    .ok ⟨benchUuid, .removeSMA 5⟩ := rfl

/-- A uuid in the `urn:uuid:` form reads as the hyphenated one. -/
example : WrappedCommand.fromStr (fun _ => (none : Option Unit))
    "\x7b\"uuid\":\"urn:uuid:2f663301-5b73-4fa0-b201-09ab196ec5fd\",\"cmd\":\"Kill\"\x7d" =
      .ok ⟨benchUuid, .kill⟩ := rfl

end TickGrinder
