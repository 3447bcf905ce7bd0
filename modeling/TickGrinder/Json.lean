import TickGrinder.Uuid

/-!
# JSON text

The part of `serde_json` the codecs of `commands.rs` use. `to_string` writes compactly: no
whitespace, integers in decimal, strings with `"`, `\` and the control characters escaped.
`from_str` reads one value with whitespace around it and nothing after it. The tree keeps what
the text says: object members in order, duplicates included, and numbers as sign, integer part,
fraction digits and exponent.

The reader takes fuel; every nested call consumes a character first, so the length of the text
plus one is never exhausted.
-/

namespace TickGrinder

/-- A JSON number: `-`, the integer part, the digits after `.` (none when there is no `.`), and
the exponent with its sign. -/
structure JsonNumber where
  neg : Bool
  int : ℕ
  frac : List (Fin 10)
  exp : Option (Bool × ℕ)
deriving DecidableEq

inductive Json
  | null
  | bool (b : Bool)
  | num (x : JsonNumber)
  | str (s : String)
  | arr (xs : List Json)
  | obj (kvs : List (String × Json))

namespace Json

/-! ## Writing -/

def digitChar (d : Fin 10) : Char := Char.ofNat (48 + d.val)

/-- The decimal digits of `n` from the `fuel`-th down, in front of `acc`. -/
def decimalAux : ℕ → ℕ → List (Fin 10) → List (Fin 10)
  | 0, _, acc => acc
  | fuel + 1, n, acc =>
    if n / 10 = 0 then ⟨n % 10, Nat.mod_lt _ (by decide)⟩ :: acc
    else decimalAux fuel (n / 10) (⟨n % 10, Nat.mod_lt _ (by decide)⟩ :: acc)

/-- The decimal digits of `n`, most significant first, as `itoa` writes them. -/
def decimal (n : ℕ) : List (Fin 10) := decimalAux (n + 1) n []

def writeNat (n : ℕ) : List Char := (decimal n).map digitChar

def writeFraction (frac : List (Fin 10)) : List Char :=
  if frac = [] then [] else '.' :: frac.map digitChar

def writeExponent : Option (Bool × ℕ) → List Char
  | none => []
  | some (neg, e) => 'e' :: (if neg then ['-'] else []) ++ writeNat e

def writeNumber (x : JsonNumber) : List Char :=
  (if x.neg then ['-'] else []) ++ writeNat x.int ++ writeFraction x.frac ++ writeExponent x.exp

/-- A lowercase hex digit, as `escape_str` writes it. -/
def hexChar (n : ℕ) : Char := if n < 10 then Char.ofNat (48 + n) else Char.ofNat (87 + n)

/-- The characters `escape_str` writes as a backslash and a letter, with the letter. -/
def shortEscapes : List (Char × Char) :=
  [('"', '"'), ('\\', '\\'), ('\x08', 'b'), ('\x0c', 'f'), ('\n', 'n'), ('\r', 'r'), ('\t', 't')]

/-- `escape_str` on one character: a short escape, `\u00XX` for the other control characters,
or the character itself. -/
def escapeChar (c : Char) : List Char :=
  match shortEscapes.lookup c with
  | some e => ['\\', e]
  | none =>
    if c.toNat < 32 then ['\\', 'u', '0', '0', hexChar (c.toNat / 16), hexChar (c.toNat % 16)]
    else [c]

def writeString (s : String) : List Char := '"' :: s.toList.flatMap escapeChar ++ ['"']

/-- `serde_json::to_string` of a tree. -/
def write : Json → List Char
  | .null => ['n', 'u', 'l', 'l']
  | .bool true => ['t', 'r', 'u', 'e']
  | .bool false => ['f', 'a', 'l', 's', 'e']
  | .num x => writeNumber x
  | .str s => writeString s
  | .arr [] => ['[', ']']
  | .arr (x :: xs) => '[' :: write x ++ writeElems xs
  | .obj [] => ['\x7b', '\x7d']
  | .obj ((k, v) :: kvs) => '\x7b' :: writeString k ++ ':' :: write v ++ writeMembers kvs
where
  /-- The elements after the first, and the closing bracket. -/
  writeElems : List Json → List Char
    | [] => [']']
    | x :: xs => ',' :: write x ++ writeElems xs
  /-- The members after the first, and the closing brace. -/
  writeMembers : List (String × Json) → List Char
    | [] => ['\x7d']
    | (k, v) :: kvs => ',' :: writeString k ++ ':' :: write v ++ writeMembers kvs

def toString (v : Json) : String := ⟨v.write⟩

/-! ## Reading -/

def isWs (c : Char) : Bool := c = ' ' || c = '\n' || c = '\t' || c = '\r'

/-- `parse_whitespace`. -/
def skipWs : List Char → List Char
  | c :: r => if isWs c then skipWs r else c :: r
  | [] => []

def digitOf (c : Char) : Option (Fin 10) :=
  if h : 48 ≤ c.toNat ∧ c.toNat < 58 then some ⟨c.toNat - 48, by omega⟩ else none

/-- The digits at the front of the text, and the rest. -/
def spanDigits : List Char → List (Fin 10) × List Char
  | c :: r =>
    match digitOf c with
    | some d => ((d :: (spanDigits r).1), (spanDigits r).2)
    | none => ([], c :: r)
  | [] => ([], [])

def digitsValue (ds : List (Fin 10)) : ℕ := ds.foldl (fun a d => 10 * a + d.val) 0

/-- The fraction digits after `.`, at least one (`parse_decimal`). -/
def readFraction : List Char → Option (List (Fin 10) × List Char)
  | c :: r =>
    if c = '.' then
      match spanDigits r with
      | ([], _) => none
      | (ds, r) => some (ds, r)
    else some ([], c :: r)
  | [] => some ([], [])

/-- The optional sign of an exponent: whether it is `-`. -/
def readSign : List Char → Bool × List Char
  | c :: r => if c = '+' then (false, r) else if c = '-' then (true, r) else (false, c :: r)
  | [] => (false, [])

/-- The exponent after `e` or `E`, with an optional sign and at least one digit
(`parse_exponent`). -/
def readExponent : List Char → Option (Option (Bool × ℕ) × List Char)
  | c :: r =>
    if c = 'e' ∨ c = 'E' then
      match spanDigits (readSign r).2 with
      | ([], _) => none
      | (ds, r') => some (some ((readSign r).1, digitsValue ds), r')
    else some (none, c :: r)
  | [] => some (none, [])

def finishNumber (neg : Bool) (int : ℕ) (r : List Char) : Option (JsonNumber × List Char) := do
  let (frac, r) ← readFraction r
  let (exp, r) ← readExponent r
  pure (⟨neg, int, frac, exp⟩, r)

/-- `parse_integer` and `parse_number` after the sign: a `0` may not be followed by a digit. -/
def readNumber (neg : Bool) : List Char → Option (JsonNumber × List Char)
  | c :: r =>
    if c = '0' then
      if (r.head?.bind digitOf).isSome then none else finishNumber neg 0 r
    else
      match digitOf c with
      | some d => finishNumber neg (digitsValue (d :: (spanDigits r).1)) (spanDigits r).2
      | none => none
  | [] => none

def hex4 (a b c d : Char) : Option ℕ := do
  let a ← Uuid.hexValue a
  let b ← Uuid.hexValue b
  let c ← Uuid.hexValue c
  let d ← Uuid.hexValue d
  pure (4096 * a.val + 256 * b.val + 16 * c.val + d.val)

def consChar (c : Char) : Option (List Char × List Char) → Option (List Char × List Char)
  | some (s, r) => some (c :: s, r)
  | none => none

/-- The letters `parse_escape` reads after a backslash, with the character each stands for. -/
def readEscapes : List (Char × Char) :=
  [('"', '"'), ('\\', '\\'), ('/', '/'), ('b', '\x08'), ('f', '\x0c'), ('n', '\n'), ('r', '\r'),
    ('t', '\t')]

/-- `parse_str` after the opening quote: the characters up to the closing quote, and the rest.
Control characters must be escaped, and a `\u` escape of a leading surrogate must be followed by
one of a trailing surrogate. Each step consumes a character: the fuel is the text's length. -/
def readString : ℕ → List Char → Option (List Char × List Char)
  | 0, _ => none
  | _ + 1, [] => none
  | fuel + 1, c :: r =>
    if c = '"' then some ([], r)
    else if c = '\\' then
      match r with
      | [] => none
      | e :: r =>
        match readEscapes.lookup e with
        | some x => consChar x (readString fuel r)
        | none =>
          if e = 'u' then
            match r with
            | a :: b :: c :: d :: r =>
              match hex4 a b c d with
              | none => none
              | some n =>
                if 0xDC00 ≤ n ∧ n ≤ 0xDFFF then none
                else if 0xD800 ≤ n ∧ n ≤ 0xDBFF then
                  match r with
                  | x :: y :: e :: f :: g :: h :: r =>
                    if x = '\\' ∧ y = 'u' then
                      match hex4 e f g h with
                      | some m =>
                        if 0xDC00 ≤ m ∧ m ≤ 0xDFFF then
                          consChar (Char.ofNat (0x10000 + (n - 0xD800) * 1024 + (m - 0xDC00)))
                            (readString fuel r)
                        else none
                      | none => none
                    else none
                  | _ => none
                else consChar (Char.ofNat n) (readString fuel r)
            | _ => none
          else none
    else if c.toNat < 32 then none
    else consChar c (readString fuel r)

/-- A member's key and the colon after it. -/
def readKey (cs : List Char) : Option (String × List Char) :=
  match skipWs cs with
  | c :: r =>
    if c = '"' then
      match readString r.length r with
      | some (k, r) =>
        match skipWs r with
        | c :: r => if c = ':' then some (⟨k⟩, r) else none
        | [] => none
      | none => none
    else none
  | [] => none

/-- `parse_ident`: the rest of a literal word. -/
def readWord (w : List Char) (r : List Char) : Option (List Char) :=
  if w.isPrefixOf r then some (r.drop w.length) else none

mutual
/-- One value after optional whitespace, and the rest of the text. -/
def readValue : ℕ → List Char → Option (Json × List Char)
  | 0, _ => none
  | fuel + 1, cs =>
    match skipWs cs with
    | [] => none
    | c :: r =>
      if c = 'n' then (readWord ['u', 'l', 'l'] r).map fun r => (.null, r)
      else if c = 't' then (readWord ['r', 'u', 'e'] r).map fun r => (.bool true, r)
      else if c = 'f' then (readWord ['a', 'l', 's', 'e'] r).map fun r => (.bool false, r)
      else if c = '"' then (readString r.length r).map fun p => (.str ⟨p.1⟩, p.2)
      else if c = '[' then
        match skipWs r with
        | c :: r =>
          if c = ']' then some (.arr [], r)
          else (readElems fuel (c :: r)).map fun p => (.arr p.1, p.2)
        | [] => none
      else if c = '\x7b' then
        match skipWs r with
        | c :: r =>
          if c = '\x7d' then some (.obj [], r)
          else (readMembers fuel (c :: r)).map fun p => (.obj p.1, p.2)
        | [] => none
      else if c = '-' then (readNumber true r).map fun p => (.num p.1, p.2)
      else (readNumber false (c :: r)).map fun p => (.num p.1, p.2)
/-- The elements of an array, each followed by `,` or the closing bracket. -/
def readElems : ℕ → List Char → Option (List Json × List Char)
  | 0, _ => none
  | fuel + 1, cs =>
    match readValue fuel cs with
    | some (x, r) =>
      match skipWs r with
      | c :: r =>
        if c = ',' then (readElems fuel r).map fun p => (x :: p.1, p.2)
        else if c = ']' then some ([x], r)
        else none
      | [] => none
    | none => none
/-- The members of an object, each followed by `,` or the closing brace. -/
def readMembers : ℕ → List Char → Option (List (String × Json) × List Char)
  | 0, _ => none
  | fuel + 1, cs =>
    match readKey cs with
    | some (k, r) =>
      match readValue fuel r with
      | some (v, r) =>
        match skipWs r with
        | c :: r =>
          if c = ',' then (readMembers fuel r).map fun p => ((k, v) :: p.1, p.2)
          else if c = '\x7d' then some ([(k, v)], r)
          else none
        | [] => none
      | none => none
    | none => none
end

/-- `serde_json::from_str` into a tree: one value, then nothing but whitespace. -/
def parse (s : String) : Option Json :=
  match readValue (s.length + 1) s.toList with
  | some (v, r) => if skipWs r = [] then some v else none
  | none => none

end Json

end TickGrinder
