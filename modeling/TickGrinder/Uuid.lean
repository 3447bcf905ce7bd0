import Mathlib.Data.List.Basic

/-!
# Uuids

A `Uuid` of the `uuid` crate is sixteen bytes. Its canonical text, `hyphenated()`, is the bytes in
lowercase hex, grouped `8-4-4-4-12`; `parse_str` reads that form, alone or after `urn:uuid:`, or
the 32 digits without hyphens, in either case.
-/

namespace TickGrinder

structure Uuid where
  bytes : List (Fin 256)
  length_eq : bytes.length = 16
deriving DecidableEq

namespace Uuid

/-- The uuid whose last byte is `b` and the others 0. -/
def ofByte (b : Fin 256) : Uuid := ⟨List.replicate 15 0 ++ [b], by simp⟩

/-- A lowercase hex digit. -/
def hexDigit (n : Fin 16) : Char :=
  if n.val < 10 then Char.ofNat (48 + n.val) else Char.ofNat (87 + n.val)

/-- The value of a hex digit of either case. -/
def hexValue (c : Char) : Option (Fin 16) :=
  if h : 48 ≤ c.toNat ∧ c.toNat < 58 then some ⟨c.toNat - 48, by omega⟩
  else if h : 97 ≤ c.toNat ∧ c.toNat < 103 then some ⟨c.toNat - 87, by omega⟩
  else if h : 65 ≤ c.toNat ∧ c.toNat < 71 then some ⟨c.toNat - 55, by omega⟩
  else none

def byteHex (b : Fin 256) : List Char :=
  [hexDigit ⟨b.val / 16, by omega⟩, hexDigit ⟨b.val % 16, by omega⟩]

/-- The 32 hex digits of the bytes. -/
def simple (u : Uuid) : List Char := u.bytes.flatMap byteHex

/-- The digits split into groups of the given lengths, with a hyphen after each group. -/
def withHyphens : List ℕ → List Char → List Char
  | [], cs => cs
  | n :: ns, cs => cs.take n ++ '-' :: withHyphens ns (cs.drop n)

/-- `hyphenated().to_string()`: the digits grouped `8-4-4-4-12`. -/
def hyphenated (u : Uuid) : String := ⟨withHyphens [8, 4, 4, 4] u.simple⟩

/-- The digits of a text with a hyphen after each group of the given lengths. -/
def withoutHyphens : List ℕ → List Char → Option (List Char)
  | [], cs => some cs
  | n :: ns, cs =>
    if cs.get? n = some '-' then (withoutHyphens ns (cs.drop (n + 1))).map (cs.take n ++ ·)
    else none

/-- Bytes from pairs of hex digits. -/
def hexBytes : List Char → Option (List (Fin 256))
  | [] => some []
  | [_] => none
  | hi :: lo :: rest => do
    let h ← hexValue hi
    let l ← hexValue lo
    let bs ← hexBytes rest
    pure (⟨16 * h.val + l.val, by omega⟩ :: bs)

/-- The uuid of 32 hex digits. -/
def ofSimple (cs : List Char) : Option Uuid :=
  match hexBytes cs with
  | some bs => if h : bs.length = 16 then some ⟨bs, h⟩ else none
  | none => none

/-- The uuid of 36 characters, hyphens after the groups of 8, 4, 4 and 4 digits. -/
def ofHyphenated (cs : List Char) : Option Uuid := (withoutHyphens [8, 4, 4, 4] cs).bind ofSimple

/-- `Uuid::parse_str`: `urn:uuid:` followed by the 36-character form, 32 hex digits, or the
36-character form; either case. -/
def parseStr (s : String) : Option Uuid :=
  if s.length = 45 ∧ s.toList.take 9 = "urn:uuid:".toList then ofHyphenated (s.toList.drop 9)
  else if s.length = 32 then ofSimple s.toList
  else if s.length = 36 then ofHyphenated s.toList
  else none

/-! ## Reading the hyphenated text back -/

theorem hexValue_hexDigit : ∀ n, hexValue (hexDigit n) = some n := by decide

theorem hexBytes_flatMap_byteHex : ∀ bs : List (Fin 256), hexBytes (bs.flatMap byteHex) = some bs
  | [] => rfl
  | b :: bs => by
    have hb : (⟨16 * (b.val / 16) + b.val % 16, by omega⟩ : Fin 256) = b := Fin.ext (by
      show 16 * (b.val / 16) + b.val % 16 = b.val; omega)
    rw [List.flatMap_cons, byteHex, List.cons_append, List.cons_append, List.nil_append,
      hexBytes.eq_3, hexValue_hexDigit, hexValue_hexDigit, hexBytes_flatMap_byteHex bs]
    exact congrArg (some ∘ (· :: bs)) hb

theorem length_flatMap_byteHex :
    ∀ bs : List (Fin 256), (bs.flatMap byteHex).length = 2 * bs.length
  | [] => rfl
  | b :: bs => by simp [byteHex, length_flatMap_byteHex bs]; omega

theorem length_simple (u : Uuid) : u.simple.length = 32 := by
  rw [simple, length_flatMap_byteHex, u.length_eq]

theorem length_withHyphens :
    ∀ (ns : List ℕ) (cs : List Char), ns.foldr (· + ·) 0 ≤ cs.length →
    (withHyphens ns cs).length = cs.length + ns.length
  | [], _, _ => rfl
  | n :: ns, cs, h => by
    simp only [List.foldr_cons] at h
    simp only [withHyphens, List.length_append, List.length_take, List.length_cons,
      length_withHyphens ns (cs.drop n) (by simp; omega), List.length_drop]
    omega

theorem withoutHyphens_withHyphens :
    ∀ (ns : List ℕ) (cs : List Char), ns.foldr (· + ·) 0 ≤ cs.length →
    withoutHyphens ns (withHyphens ns cs) = some cs
  | [], _, _ => rfl
  | n :: ns, cs, h => by
    simp only [List.foldr_cons] at h
    have htake : (cs.take n).length = n := by simp; omega
    have hget : (cs.take n ++ '-' :: withHyphens ns (cs.drop n)).get? n = some '-' := by
      rw [List.get?_eq_getElem?, List.getElem?_append_right (by omega), htake, Nat.sub_self]
      simp
    have hdrop : (cs.take n ++ '-' :: withHyphens ns (cs.drop n)).drop (n + 1) =
        withHyphens ns (cs.drop n) := by
      simp [List.drop_append_eq_append_drop, htake]
    have htake' : (cs.take n ++ '-' :: withHyphens ns (cs.drop n)).take n = cs.take n := by
      simp [List.take_append_eq_append_take, htake]
    rw [withHyphens, withoutHyphens, if_pos hget, hdrop, htake',
      withoutHyphens_withHyphens ns (cs.drop n) (by simp; omega), Option.map_some',
      List.take_append_drop]

theorem length_hyphenated (u : Uuid) : u.hyphenated.length = 36 := by
  show (withHyphens [8, 4, 4, 4] u.simple).length = 36
  rw [length_withHyphens _ _ (by rw [length_simple]; decide), length_simple]; rfl

theorem ofHyphenated_hyphenated (u : Uuid) : ofHyphenated u.hyphenated.toList = some u := by
  show (withoutHyphens [8, 4, 4, 4] (withHyphens [8, 4, 4, 4] u.simple)).bind ofSimple = some u
  rw [withoutHyphens_withHyphens _ _ (by rw [length_simple]; decide), Option.some_bind, ofSimple,
    simple, hexBytes_flatMap_byteHex]
  exact dif_pos u.length_eq

/-- `parse_str` reads back the hyphenated text. -/
theorem parseStr_hyphenated (u : Uuid) : parseStr u.hyphenated = some u := by
  have hlen := length_hyphenated u
  rw [parseStr, if_neg fun h => absurd h.1 (by omega), if_neg (by omega), if_pos hlen,
    ofHyphenated_hyphenated]

/-- `parse_str` reads the hyphenated text after `urn:uuid:`. -/
theorem parseStr_urn (u : Uuid) : parseStr ("urn:uuid:" ++ u.hyphenated) = some u := by
  have hlen : ("urn:uuid:" ++ u.hyphenated).length = 45 := by
    rw [String.length_append, length_hyphenated]; rfl
  have hcs : ("urn:uuid:" ++ u.hyphenated).toList = "urn:uuid:".toList ++ u.hyphenated.toList :=
    String.data_append _ _
  have hdrop : ("urn:uuid:".toList ++ u.hyphenated.toList).drop 9 = u.hyphenated.toList :=
    List.drop_left' rfl
  rw [parseStr, hcs, if_pos ⟨hlen, List.take_left' rfl⟩, hdrop, ofHyphenated_hyphenated]

/-- Two uuids with one hyphenated text are one. -/
theorem hyphenated_inj {u v : Uuid} (h : u.hyphenated = v.hyphenated) : u = v :=
  Option.some.inj ((parseStr_hyphenated u).symm.trans (h ▸ parseStr_hyphenated v))

end Uuid

end TickGrinder
