import TickGrinder.Json

/-!
# Reading back what `to_string` writes

`parse (toString v) = some v` for every tree. The reader runs on the written text followed by
what may follow a value inside a document (a comma, a closing bracket or brace, or nothing),
with as much fuel as the written text is long. The layers follow the grammar: digits, numbers,
strings, then values, elements and members together.
-/

namespace TickGrinder.Json

/-- What may follow a value inside a written document. -/
def Follows (r : List Char) : Prop := ∀ c t, r = c :: t → c = ',' ∨ c = ']' ∨ c = '\x7d'

theorem follows_nil : Follows [] := fun _ _ h => nomatch h

theorem follows_cons {c : Char} {t : List Char} (h : c = ',' ∨ c = ']' ∨ c = '\x7d') :
    Follows (c :: t) := fun _ _ he => by cases he; exact h

/-- After a written number comes none of the characters that would extend it. -/
theorem Follows.digitOf {r : List Char} (hr : Follows r) :
    ∀ c t, r = c :: t → digitOf c = none := by
  intro c t h
  rcases hr c t h with rfl | rfl | rfl <;> rfl

/-! ## Digits and numbers -/

theorem digitOf_digitChar : ∀ d, digitOf (digitChar d) = some d := by decide
theorem digitChar_ne_zero : ∀ d : Fin 10, d ≠ 0 → digitChar d ≠ '0' := by decide

theorem readNumber_zero (b : Bool) (r : List Char) :
    readNumber b ('0' :: r) =
      if (r.head?.bind digitOf).isSome then none else finishNumber b 0 r := by
  simp [readNumber]

theorem readNumber_digit {b : Bool} {c : Char} {d : Fin 10} (r : List Char) (hc : c ≠ '0')
    (hd : digitOf c = some d) :
    readNumber b (c :: r) =
      finishNumber b (digitsValue (d :: (spanDigits r).1)) (spanDigits r).2 := by
  simp [readNumber, hc, hd]

theorem spanDigits_append {r : List Char} (hr : ∀ c t, r = c :: t → digitOf c = none) :
    ∀ ds : List (Fin 10), spanDigits (ds.map digitChar ++ r) = (ds, r)
  | [] => by
    cases r with
    | nil => rfl
    | cons c t => simp [spanDigits, hr c t rfl]
  | d :: ds => by simp [spanDigits, digitOf_digitChar, spanDigits_append hr ds]

theorem decimalAux_append : ∀ (fuel n : ℕ) (acc : List (Fin 10)),
    decimalAux fuel n acc = decimalAux fuel n [] ++ acc
  | 0, _, _ => rfl
  | fuel + 1, n, acc => by
    simp only [decimalAux]
    split_ifs
    · rfl
    · rw [decimalAux_append fuel, decimalAux_append fuel _ [_], List.append_assoc]; rfl

theorem digitsValue_append_singleton (ds : List (Fin 10)) (d : Fin 10) :
    digitsValue (ds ++ [d]) = 10 * digitsValue ds + d.val := by
  simp [digitsValue, List.foldl_append]

theorem decimalAux_spec : ∀ (fuel n : ℕ), n < fuel →
    digitsValue (decimalAux fuel n []) = n ∧
      ∃ d ds, decimalAux fuel n [] = d :: ds ∧ (d = 0 → n = 0)
  | 0, _, h => absurd h (Nat.not_lt_zero _)
  | fuel + 1, n, h => by
    simp only [decimalAux]
    split_ifs with hn
    · refine ⟨by simp [digitsValue]; omega, _, _, rfl, fun h => ?_⟩
      simp only [Fin.ext_iff, Fin.val_zero] at h
      omega
    · obtain ⟨hv, d, ds, hds, hd⟩ := decimalAux_spec fuel (n / 10) (by omega)
      rw [decimalAux_append, digitsValue_append_singleton, hv, hds]
      exact ⟨by simp; omega, d, _, rfl, fun h => absurd (hd h) hn⟩

theorem digitsValue_decimal (n : ℕ) : digitsValue (decimal n) = n :=
  (decimalAux_spec (n + 1) n (by omega)).1

theorem readNumber_writeNat {b : Bool} {n : ℕ} {r : List Char}
    (hr : ∀ c t, r = c :: t → digitOf c = none) :
    readNumber b (writeNat n ++ r) = finishNumber b n r := by
  rcases Nat.eq_zero_or_pos n with rfl | hpos
  · show readNumber b ('0' :: r) = _
    rw [readNumber_zero]
    cases r with
    | nil => rfl
    | cons c t => simp [hr c t rfl]
  · obtain ⟨d, ds, hds, hd⟩ := (decimalAux_spec (n + 1) n (by omega)).2
    have hd0 : d ≠ 0 := fun h => by have := hd h; omega
    have hv := digitsValue_decimal n
    rw [decimal, hds] at hv
    rw [writeNat, decimal, hds, List.map_cons, List.cons_append,
      readNumber_digit _ (digitChar_ne_zero d hd0) (digitOf_digitChar d), spanDigits_append hr, hv]

theorem writeNat_eq (e : ℕ) :
    ∃ d ds, writeNat e = digitChar d :: ds.map digitChar ∧ digitsValue (d :: ds) = e := by
  obtain ⟨d, ds, hds, -⟩ := (decimalAux_spec (e + 1) e (by omega)).2
  have hv := digitsValue_decimal e
  rw [decimal, hds] at hv
  exact ⟨d, ds, by rw [writeNat, decimal, hds, List.map_cons], hv⟩

theorem readSign_digit (d : Fin 10) (r : List Char) :
    readSign (digitChar d :: r) = (false, digitChar d :: r) := by
  have h1 : digitChar d ≠ '+' := by revert d; decide
  have h2 : digitChar d ≠ '-' := by revert d; decide
  simp [readSign, h1, h2]

theorem readExponent_write {r : List Char} (hr : Follows r) (e : Option (Bool × ℕ)) :
    readExponent (writeExponent e ++ r) = some (e, r) := by
  rcases e with _ | ⟨neg, e⟩
  · cases r with
    | nil => rfl
    | cons c t => rcases hr c t rfl with rfl | rfl | rfl <;> rfl
  obtain ⟨d, ds, hw, hv⟩ := writeNat_eq e
  have hs : spanDigits (digitChar d :: (ds.map digitChar ++ r)) = (d :: ds, r) :=
    spanDigits_append hr.digitOf (d :: ds)
  cases neg <;> simp [writeExponent, readExponent, hw, hs, hv, readSign_digit,
    show ∀ x, readSign ('-' :: x) = (true, x) from fun _ => rfl]

/-- Neither a `.` nor a digit follows the fraction of a written number. -/
theorem writeExponent_head {r : List Char} (hr : Follows r) (e : Option (Bool × ℕ)) :
    ∀ c t, writeExponent e ++ r = c :: t → c ≠ '.' ∧ digitOf c = none := by
  intro c t h
  rcases e with _ | ⟨_, _⟩
  · rcases hr c t h with rfl | rfl | rfl <;> exact ⟨by decide, rfl⟩
  · cases h; exact ⟨by decide, rfl⟩

theorem readFraction_write (frac : List (Fin 10)) {rest : List Char}
    (hrest : ∀ c t, rest = c :: t → c ≠ '.' ∧ digitOf c = none) :
    readFraction (writeFraction frac ++ rest) = some (frac, rest) := by
  rcases frac with _ | ⟨d, ds⟩
  · cases rest with
    | nil => rfl
    | cons c t =>
      have := (hrest c t rfl).1
      simp [writeFraction, readFraction, this]
  · have hs : spanDigits (digitChar d :: (ds.map digitChar ++ rest)) = (d :: ds, rest) :=
      spanDigits_append (fun c t h => (hrest c t h).2) (d :: ds)
    simp [writeFraction, readFraction, hs]

theorem readNumber_write (x : JsonNumber) {r : List Char} (hr : Follows r) :
    readNumber x.neg (writeNat x.int ++ (writeFraction x.frac ++ (writeExponent x.exp ++ r))) =
      some (x, r) := by
  have hfrac := readFraction_write x.frac (writeExponent_head hr x.exp)
  rw [readNumber_writeNat fun c t h => ?_]
  · simp [finishNumber, hfrac, readExponent_write hr]
  · rcases hf : x.frac with _ | ⟨d, ds⟩ <;> rw [hf] at h
    · exact (writeExponent_head hr x.exp c t h).2
    · cases h; rfl

/-! ## Strings -/

theorem hexValue_hexChar : ∀ n : Fin 16, Uuid.hexValue (hexChar n) = some n := by decide

/-- Every short escape `escape_str` writes reads back as its character. -/
theorem readEscapes_shortEscapes : ∀ p ∈ shortEscapes, readEscapes.lookup p.2 = some p.1 := by
  decide

theorem readString_escapeChar (c : Char) (n : ℕ) (t : List Char) :
    readString (n + 1) (escapeChar c ++ t) = consChar c (readString n t) := by
  unfold escapeChar
  rcases h : shortEscapes.lookup c with _ | e
  · have h1 : c ≠ '"' := by rintro rfl; exact absurd h (by decide)
    have h2 : c ≠ '\\' := by rintro rfl; exact absurd h (by decide)
    dsimp only
    split_ifs with h3
    · have hhex :
          hex4 '0' '0' (hexChar (c.toNat / 16)) (hexChar (c.toNat % 16)) = some c.toNat := by
        simp only [hex4, hexValue_hexChar ⟨c.toNat / 16, by omega⟩,
          hexValue_hexChar ⟨c.toNat % 16, by omega⟩, show Uuid.hexValue '0' = some 0 from rfl,
          Option.bind_eq_bind, Option.some_bind, Option.pure_def, Option.some.injEq, Fin.val_zero]
        omega
      have hu : readEscapes.lookup 'u' = none := by decide
      simp only [List.cons_append, List.nil_append]
      simp only [readString, if_neg (show '\\' ≠ '"' by decide),
        if_pos, hu, hhex, if_neg (show ¬ (0xDC00 ≤ c.toNat ∧ c.toNat ≤ 0xDFFF) by omega),
        if_neg (show ¬ (0xD800 ≤ c.toNat ∧ c.toNat ≤ 0xDBFF) by omega), Char.ofNat_toNat]
    · simp only [List.singleton_append]
      simp only [readString, if_neg h1, if_neg h2, if_neg h3]
  · obtain ⟨l₁, l₂, hl, -⟩ := List.lookup_eq_some_iff.1 h
    have he := readEscapes_shortEscapes (c, e) (by rw [hl]; simp)
    simp only [List.cons_append, List.nil_append]
    simp only [readString, if_neg (show '\\' ≠ '"' by decide), if_pos, he]

theorem readString_write (r : List Char) :
    ∀ (s : List Char) (n : ℕ), s.length < n →
      readString n (s.flatMap escapeChar ++ '"' :: r) = some (s, r)
  | [], n + 1, _ => by simp [readString]
  | c :: s, n + 1, h => by
    rw [List.flatMap_cons, List.append_assoc, readString_escapeChar,
      readString_write r s n (by simpa using h)]
    rfl

/-! ## Values -/

theorem digitChar_plain : ∀ d : Fin 10,
    digitChar d ≠ 'n' ∧ digitChar d ≠ 't' ∧ digitChar d ≠ 'f' ∧ digitChar d ≠ '"' ∧
    digitChar d ≠ '[' ∧ digitChar d ≠ '\x7b' ∧ digitChar d ≠ '-' ∧ digitChar d ≠ ']' ∧
    digitChar d ≠ '\x7d' ∧ isWs (digitChar d) = false := by
  decide

/-- Every written value starts with a character that is not whitespace and does not close. -/
theorem write_head (v : Json) :
    ∃ c t, write v = c :: t ∧ isWs c = false ∧ c ≠ ']' ∧ c ≠ '\x7d' := by
  cases v with
  | num x =>
    rcases x with ⟨_ | _, int, frac, exp⟩
    · obtain ⟨d, ds, hw, -⟩ := writeNat_eq int
      obtain ⟨-, -, -, -, -, -, -, h1, h2, h3⟩ := digitChar_plain d
      exact ⟨_, _, by simp [write, writeNumber, hw]; rfl, h3, h1, h2⟩
    · exact ⟨_, _, rfl, by decide, by decide, by decide⟩
  | bool b => cases b <;> exact ⟨_, _, rfl, by decide, by decide, by decide⟩
  | arr xs => cases xs <;> exact ⟨_, _, rfl, by decide, by decide, by decide⟩
  | obj kvs =>
    rcases kvs with _ | ⟨⟨k, v⟩, kvs⟩ <;> exact ⟨_, _, rfl, by decide, by decide, by decide⟩
  | _ => exact ⟨_, _, rfl, by decide, by decide, by decide⟩

theorem skipWs_of_head {c : Char} {t : List Char} (hc : isWs c = false) :
    skipWs (c :: t) = c :: t := by
  simp [skipWs, hc]

theorem readValue_writeNumber (x : JsonNumber) {n : ℕ} {r : List Char} (hr : Follows r) :
    readValue (n + 1) (writeNumber x ++ r) = some (.num x, r) := by
  have hnum := readNumber_write x hr
  rcases x with ⟨_ | _, int, frac, exp⟩
  · obtain ⟨d, ds, hw, -⟩ := writeNat_eq int
    have := digitChar_plain d
    simp only [writeNumber, hw, List.cons_append, if_false, List.nil_append,
      List.append_assoc] at hnum ⊢
    simp [readValue, skipWs, this, hnum]
  · simp only [writeNumber, if_true, List.cons_append, List.nil_append,
      List.append_assoc] at hnum ⊢
    simp [readValue, skipWs, isWs, hnum]

theorem follows_writeElems (xs : List Json) (r : List Char) :
    Follows (write.writeElems xs ++ r) := by
  cases xs <;> exact follows_cons (by simp)

theorem follows_writeMembers (kvs : List (String × Json)) (r : List Char) :
    Follows (write.writeMembers kvs ++ r) := by
  rcases kvs with _ | ⟨⟨k, v⟩, kvs⟩ <;> exact follows_cons (by simp)

theorem length_write_pos (v : Json) : 0 < (write v).length := by
  obtain ⟨c, t, hw, -⟩ := write_head v
  simp [hw]

theorem length_writeElems_pos (xs : List Json) : 0 < (write.writeElems xs).length := by
  cases xs <;> simp [write.writeElems]

theorem length_writeMembers_pos (kvs : List (String × Json)) :
    0 < (write.writeMembers kvs).length := by
  rcases kvs with _ | ⟨⟨k, v⟩, kvs⟩ <;> simp [write.writeMembers]

theorem escapeChar_ne_nil (c : Char) : escapeChar c ≠ [] := by
  unfold escapeChar
  split
  · simp
  · split_ifs <;> simp

theorem length_le_flatMap_escapeChar : ∀ s : List Char, s.length ≤ (s.flatMap escapeChar).length
  | [] => le_rfl
  | c :: s => by
    have := List.length_pos.2 (escapeChar_ne_nil c)
    have := length_le_flatMap_escapeChar s
    simp only [List.flatMap_cons, List.length_append, List.length_cons]
    omega

theorem readString_writeString (s : String) (r : List Char) :
    readString (s.toList.flatMap escapeChar ++ '"' :: r).length
      (s.toList.flatMap escapeChar ++ '"' :: r) = some (s.toList, r) := by
  apply readString_write
  have := length_le_flatMap_escapeChar s.toList
  simp only [List.length_append, List.length_cons]
  omega

theorem writeString_append (s : String) (r : List Char) :
    writeString s ++ r = '"' :: (s.toList.flatMap escapeChar ++ '"' :: r) := by
  simp [writeString]

theorem readKey_write (k : String) (r : List Char) :
    readKey (writeString k ++ ':' :: r) = some (k, r) := by
  rw [writeString_append, readKey, skipWs_of_head (by decide)]
  dsimp only
  rw [if_pos rfl, readString_writeString]
  dsimp only
  rw [skipWs_of_head (by decide)]
  rfl

theorem readValue_quote (n : ℕ) (r : List Char) :
    readValue (n + 1) ('"' :: r) = (readString r.length r).map fun p => (.str ⟨p.1⟩, p.2) := by
  simp [readValue, skipWs, isWs]

theorem readValue_bracket {n : ℕ} {c : Char} {t : List Char} (hws : isWs c = false)
    (hc : c ≠ ']') :
    readValue (n + 1) ('[' :: c :: t) = (readElems n (c :: t)).map fun p => (.arr p.1, p.2) := by
  simp [readValue, skipWs_of_head (show isWs '[' = false by decide), skipWs_of_head hws, hc]

theorem readValue_brace {n : ℕ} {c : Char} {t : List Char} (hws : isWs c = false)
    (hc : c ≠ '\x7d') :
    readValue (n + 1) ('\x7b' :: c :: t) =
      (readMembers n (c :: t)).map fun p => (.obj p.1, p.2) := by
  simp [readValue, skipWs_of_head (show isWs '\x7b' = false by decide), skipWs_of_head hws, hc]

mutual
theorem readValue_write :
    ∀ (v : Json) (n : ℕ) (r : List Char), (write v).length ≤ n → Follows r →
      readValue n (write v ++ r) = some (v, r)
  | v, 0, r, h, _ => absurd h (Nat.not_le.2 (length_write_pos v))
  | .null, n + 1, r, _, _ => by simp [write, readValue, skipWs, isWs, readWord]
  | .bool true, n + 1, r, _, _ => by simp [write, readValue, skipWs, isWs, readWord]
  | .bool false, n + 1, r, _, _ => by simp [write, readValue, skipWs, isWs, readWord]
  | .num x, n + 1, r, _, hr => readValue_writeNumber x hr
  | .str s, n + 1, r, _, _ => by
    rw [write, writeString_append, readValue_quote, readString_writeString]
    rfl
  | .arr [], n + 1, r, _, _ => rfl
  | .arr (x :: xs), n + 1, r, h, hr => by
    have hlen := h
    simp only [write, List.length_cons, List.length_append] at hlen
    have hx := readElems_write x xs n r (by omega) hr
    obtain ⟨c, t, hw, hc, hne, -⟩ := write_head x
    rw [hw, List.cons_append] at hx
    simp only [write, List.cons_append, List.append_assoc]
    rw [hw, List.cons_append, readValue_bracket hc hne, hx]
    rfl
  | .obj [], n + 1, r, _, _ => rfl
  | .obj ((k, v) :: kvs), n + 1, r, h, hr => by
    have hlen := h
    simp only [write, List.length_cons, List.length_append] at hlen
    have hm := readMembers_write k v kvs n r (by omega) hr
    rw [writeString_append] at hm
    simp only [write, List.cons_append, List.append_assoc]
    rw [writeString_append, readValue_brace (show isWs '"' = false by decide) (by decide), hm]
    rfl
theorem readElems_write : ∀ (x : Json) (xs : List Json) (n : ℕ) (r : List Char),
    (write x).length + (write.writeElems xs).length ≤ n → Follows r →
    readElems n (write x ++ (write.writeElems xs ++ r)) = some (x :: xs, r)
  | x, xs, 0, r, h, _ => absurd h (Nat.not_le.2 (Nat.add_pos_left (length_write_pos x) _))
  | x, [], n + 1, r, h, _ => by
    have hx := readValue_write x n (write.writeElems [] ++ r) (by
      have := length_writeElems_pos []; omega) (follows_writeElems [] r)
    rw [readElems, hx]
    simp [write.writeElems, skipWs, isWs]
  | x, y :: ys, n + 1, r, h, hr => by
    have hx := readValue_write x n (write.writeElems (y :: ys) ++ r) (by
      have := length_writeElems_pos (y :: ys); omega) (follows_writeElems _ r)
    have hlen := h
    simp only [write.writeElems, List.length_cons, List.length_append] at hlen
    have := length_write_pos x
    have hy := readElems_write y ys n r (by omega) hr
    rw [readElems, hx]
    simp [write.writeElems, skipWs, isWs, hy]
theorem readMembers_write : ∀ (k : String) (v : Json) (kvs : List (String × Json)) (n : ℕ)
    (r : List Char),
    (writeString k).length + 1 + (write v).length + (write.writeMembers kvs).length ≤ n →
    Follows r →
    readMembers n (writeString k ++ ':' :: (write v ++ (write.writeMembers kvs ++ r))) =
      some ((k, v) :: kvs, r)
  | k, v, kvs, 0, r, h, _ => absurd h (by omega)
  | k, v, [], n + 1, r, h, _ => by
    have hv := readValue_write v n (write.writeMembers [] ++ r) (by
      have := length_writeMembers_pos []; omega) (follows_writeMembers [] r)
    rw [readMembers, readKey_write]
    simp only [hv]
    simp [write.writeMembers, skipWs, isWs]
  | k, v, (k', v') :: kvs, n + 1, r, h, hr => by
    have hv := readValue_write v n (write.writeMembers ((k', v') :: kvs) ++ r) (by
      have := length_writeMembers_pos ((k', v') :: kvs); omega) (follows_writeMembers _ r)
    have hlen := h
    simp only [write.writeMembers, List.length_cons, List.length_append] at hlen
    have hk := readMembers_write k' v' kvs n r (by omega) hr
    rw [readMembers, readKey_write]
    simp only [hv]
    simp only [write.writeMembers, List.cons_append, List.append_assoc] at hk ⊢
    simp [skipWs, isWs, hk]
end

/-- `from_str` reads back every tree `to_string` writes. -/
theorem parse_toString (v : Json) : parse (toString v) = some v := by
  have h := readValue_write v ((toString v).length + 1) []
    (by simp [toString, String.length]) follows_nil
  rw [List.append_nil] at h
  rw [parse, show (toString v).toList = write v from rfl, h]
  rfl

/-! ## Arrays joined by hand

`format!("[{}]", parts.join(", "))` over the texts of trees: whitespace after a comma is skipped
before the next element, so the text reads back as the array of the trees. -/

/-- What follows the first element: each further element after `", "`, then the closing
bracket. -/
def joinedTail : List Json → List Char
  | [] => [']']
  | y :: ys => ',' :: ' ' :: (write y ++ joinedTail ys)

theorem readValue_space (n : ℕ) (cs : List Char) : readValue n (' ' :: cs) = readValue n cs := by
  cases n <;> simp [readValue, skipWs, isWs]

theorem readElems_space (n : ℕ) (cs : List Char) : readElems n (' ' :: cs) = readElems n cs := by
  cases n <;> simp only [readElems, readValue_space]

theorem readElems_joined : ∀ (x : Json) (ys : List Json) (n : ℕ) (r : List Char),
    (write x ++ joinedTail ys).length ≤ n →
      readElems n (write x ++ (joinedTail ys ++ r)) = some (x :: ys, r)
  | x, ys, 0, r, h => absurd h (by have := length_write_pos x; simp only [List.length_append]; omega)
  | x, [], n + 1, r, h => by
    have hx := readValue_write x n (joinedTail [] ++ r)
      (by simp only [joinedTail, List.length_append, List.length_singleton] at h; omega)
      (follows_cons (by simp))
    rw [readElems, hx]
    simp [joinedTail, skipWs, isWs]
  | x, y :: ys, n + 1, r, h => by
    have hlen := h
    simp only [joinedTail, List.length_append, List.length_cons] at hlen
    have := length_write_pos x
    have hx := readValue_write x n (joinedTail (y :: ys) ++ r) (by omega) (follows_cons (by simp))
    have hy := readElems_joined y ys n r (by simp only [List.length_append]; omega)
    rw [readElems, hx]
    simp [joinedTail, skipWs, isWs, readElems_space, hy]

theorem intercalate_go_data (s : String) : ∀ (acc : String) (as : List String),
    (String.intercalate.go acc s as).data = acc.data ++ (as.map fun a => s.data ++ a.data).flatten
  | acc, [] => by simp [String.intercalate.go]
  | acc, a :: as => by simp [String.intercalate.go, intercalate_go_data s (acc ++ s ++ a) as]

theorem joined_data (ys : List Json) :
    (ys.map fun y => ", ".data ++ (toString y).data).flatten ++ [']'] = joinedTail ys := by
  induction ys with
  | nil => rfl
  | cons y ys ih => rw [List.map_cons, List.flatten_cons, List.append_assoc, ih]; rfl

/-- `format!("[{}]", parts.join(", "))` over the texts of trees reads back as their array. -/
theorem parse_joined (xs : List Json) :
    parse ("[" ++ ", ".intercalate (xs.map toString) ++ "]") = some (.arr xs) := by
  cases xs with
  | nil => simp [parse, readValue, skipWs, isWs]
  | cons x ys =>
    have hd : ("[" ++ ", ".intercalate ((x :: ys).map toString) ++ "]").toList =
        '[' :: (write x ++ joinedTail ys) := by
      show ("[" ++ String.intercalate.go (toString x) ", " (ys.map toString) ++ "]").data = _
      rw [String.data_append, String.data_append, intercalate_go_data, List.map_map,
        List.append_assoc, List.append_assoc, Function.comp_def, joined_data]
      rfl
    obtain ⟨c, t, hw, hc, hne, -⟩ := write_head x
    have h := readElems_joined x ys ((write x ++ joinedTail ys).length + 1) [] (Nat.le_succ _)
    rw [List.append_nil, hw, List.cons_append] at h
    rw [parse, hd, show ("[" ++ ", ".intercalate ((x :: ys).map toString) ++ "]").length =
      (write x ++ joinedTail ys).length + 1 from congrArg List.length hd, hw, List.cons_append,
      readValue_bracket hc hne, h]
    rfl

end TickGrinder.Json
