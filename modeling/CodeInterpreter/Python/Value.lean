import Mathlib.Data.Rat.Defs
import Mathlib.Algebra.Field.Rat
import Mathlib.Algebra.Order.Ring.Unbundled.Rat
import Mathlib.Data.List.DropRight
import Mathlib.Tactic.Common

/-!
# Python values and `json.loads`

The worker reads its jobs as JSON. A string is the list of its code points: a JSON escape can put
a lone surrogate into a Python `str`, so the characters of Lean are too few. `Value` is what
`json.loads` returns, and `loads` is the decoder of the standard library: it accepts `NaN` and the
two infinities, reads numbers with a fraction or an exponent as doubles, keeps the last of several
equal keys, and raises a plain `ValueError` on an integer literal of more than
`maxStrDigits` digits and a `RecursionError` on too deep a nesting.

What the built-in `str` prints for a value that is not a string, which integer `int` reads from a
string, how deep the decoder may nest and the Unicode tables behind the string methods are
parameters (`Python`), with what they are known to be on ASCII texts.

## Main definitions

* `Str`, `str`, `byteLength`: strings as code points, and the literals of the source.
* `Python`, `Value`, `PyFloat`, `Value.truthy`, `Python.str`, `Python.int`.
* `Python.upper`, `Python.strip`, `Python.split`: methods of strings.
* `Exc`: the exceptions the modelled code raises or catches.
* `Python.loads`.
-/

namespace CodeInterpreter

/-- A string, as the list of its code points. -/
abbrev Str := List ℕ

instance : LawfulBEq Str := inferInstance

/-- A string literal of the source. -/
def str (s : String) : Str := s.toList.map Char.toNat

/-- The decimal text of a number. -/
def decimal (n : ℕ) : Str := str (toString n)

theorem str_injective : Function.Injective str := fun _ _ h =>
  String.ext (List.map_inj_right (fun _ _ => Char.toNat_inj.mp) |>.mp h)

/-- A surrogate, which has no encoding in UTF-8. -/
def isSurrogate (c : ℕ) : Bool := 0xD800 ≤ c && c ≤ 0xDFFF

/-- The length of a code point in UTF-8. -/
def utf8Size (c : ℕ) : ℕ :=
  if c < 0x80 then 1 else if c < 0x800 then 2 else if c < 0x10000 then 3 else 4

/-- The length of a text in UTF-8. -/
def byteLength (s : Str) : ℕ := (s.map utf8Size).sum

/-- A double: the finite ones as rationals, without the sign of zero. -/
inductive PyFloat
  | nan
  | infinity (negative : Bool)
  | finite (q : ℚ)

/-- A value that `json.loads` returns. The keys of a `dict` are distinct, in insertion order. -/
inductive Value
  | none
  | bool (b : Bool)
  | int (n : ℤ)
  | float (x : PyFloat)
  | str (s : Str)
  | list (xs : List Value)
  | dict (kvs : List (Str × Value))

/-- The exceptions of both services. `sandbox` stands for a `SandboxError` with the given code
that is none of the four subclasses listed before it, `redisResponse` for an error reply of Redis,
and `other` for any other exception, of the Redis client, of the operating system or of the
JavaScript server. -/
inductive Exc
  | keyError
  | typeError
  | valueError
  | jsonDecodeError
  | attributeError
  | overflowError
  | recursionError
  | unknownLanguage (language : Str)
  | imageNotFound (image : Str)
  | imageIntegrity (image expected actual : Str)
  | dockerUnavailable (detail : Str)
  | sandbox (code : Str)
  | redisResponse
  | other
  deriving DecidableEq

/-- The upper-case form of an ASCII character. -/
def asciiUpper (c : ℕ) : ℕ := if 97 ≤ c ∧ c ≤ 122 then c - 32 else c

/-- An ASCII letter or digit. -/
def isAsciiAlnum (c : ℕ) : Bool :=
  (48 ≤ c && c ≤ 57) || (65 ≤ c && c ≤ 90) || (97 ≤ c && c ≤ 122)

theorem lt_of_isAsciiAlnum {c : ℕ} (h : isAsciiAlnum c = true) : c < 128 := by
  simp only [isAsciiAlnum, Bool.or_eq_true, Bool.and_eq_true, decide_eq_true_eq] at h
  omega

/-- The lower-case form of an ASCII character. -/
def asciiLower (c : ℕ) : ℕ := if 65 ≤ c ∧ c ≤ 90 then c + 32 else c

/-- The ASCII characters that count as white space. -/
def isAsciiSpace (c : ℕ) : Bool := c == 32 || (9 ≤ c && c ≤ 13) || (28 ≤ c && c ≤ 31)

/-- An ASCII digit. -/
def isDigit (c : ℕ) : Bool := 48 ≤ c && c ≤ 57

/-- The number written by a list of ASCII digits. -/
def digitsValue (ds : Str) : ℕ := ds.foldl (fun n d => 10 * n + (d - 48)) 0

/-- Longest integer literal, in digits, that `int` converts. -/
def maxStrDigits : ℕ := 4300

/-- What the model leaves open about the interpreter: mostly what its methods do with characters
that are not ASCII. The upper-case form of a code point may be longer than one. -/
structure Python where
  repr : Value → Str
  intOfStr : Str → Option ℤ
  intOfStr_digits : ∀ s, s ≠ [] → s.all isDigit = true → s.length ≤ maxStrDigits →
    intOfStr s = some (digitsValue s : ℤ)
  recursionLimit : ℕ
  isalnum : ℕ → Bool
  isalnum_ascii : ∀ c < 128, isalnum c = isAsciiAlnum c
  isspace : ℕ → Bool
  isspace_ascii : ∀ c < 128, isspace c = isAsciiSpace c
  lower : Str → Str
  lower_ascii : ∀ s, (∀ c ∈ s, c < 128) → lower s = s.map asciiLower
  upperPoint : ℕ → Str
  upperPoint_ascii : ∀ c < 128, upperPoint c = [asciiUpper c]

/-- The truth value of a Python object. -/
def Value.truthy : Value → Bool
  | .none => false
  | .bool b => b
  | .int n => n != 0
  | .float (.finite q) => q != 0
  | .float _ => true
  | .str s => !s.isEmpty
  | .list xs => !xs.isEmpty
  | .dict kvs => !kvs.isEmpty

/-- `a or b`. -/
def Value.orElse (a b : Value) : Value := if a.truthy then a else b

/-- The value of a key of a `dict`. -/
def lookup (key : Str) (kvs : List (Str × Value)) : Option Value :=
  (kvs.find? fun kv => kv.1 == key).map Prod.snd

/-- `kvs[key] = v`. -/
def insertKey (kvs : List (Str × Value)) (kv : Str × Value) : List (Str × Value) :=
  if kvs.any fun x => x.1 == kv.1 then kvs.map fun x => if x.1 == kv.1 then kv else x
  else kvs ++ [kv]

namespace Value

/-- `v.get(key)`: only a `dict` has the method. -/
def get (v : Value) (key : Str) : Except Exc (Option Value) :=
  match v with
  | .dict kvs => .ok (lookup key kvs)
  | _ => .error .attributeError

/-- `v[key]` with a string key. -/
def getItem (v : Value) (key : Str) : Except Exc Value :=
  match v with
  | .dict kvs => (lookup key kvs).elim (.error .keyError) .ok
  | _ => .error .typeError

end Value

namespace Python

variable (py : Python)

/-- The built-in `str`. -/
def str : Value → Str
  | .str s => s
  | v => py.repr v

/-- `s.strip()`. -/
def strip (s : Str) : Str := (s.dropWhile py.isspace).rdropWhile py.isspace

/-- `s.split()`: the words between runs of white space. -/
def split (s : Str) : List Str := (s.splitOnP py.isspace).filter fun w => !w.isEmpty

/-- `s.upper()`. -/
def upper (s : Str) : Str := s.flatMap py.upperPoint

theorem upper_ascii {s : Str} (hs : ∀ c ∈ s, c < 128) : py.upper s = s.map asciiUpper := by
  induction s with
  | nil => rfl
  | cons c s ih =>
    have hc := py.upperPoint_ascii c (hs c List.mem_cons_self)
    have ih := ih fun d hd => hs d (List.mem_cons_of_mem _ hd)
    simpa [upper, hc] using ih

/-- The built-in `int`. -/
def int : Value → Except Exc ℤ
  | .int n => .ok n
  | .bool b => .ok (if b then 1 else 0)
  | .float (.finite q) => .ok (Int.tdiv q.num q.den)
  | .float (.infinity _) => .error .overflowError
  | .float .nan => .error .valueError
  | .str s => (py.intOfStr s).elim (.error .valueError) .ok
  | _ => .error .typeError

end Python

/-! ### Numbers -/

/-- The exponent `e` with `2 ^ e ≤ q < 2 ^ (e + 1)`, for `0 < q`. -/
def binaryExponent (q : ℚ) : ℤ :=
  let e : ℤ := Nat.log2 q.num.natAbs - Nat.log2 q.den
  if (2 : ℚ) ^ e ≤ q then e else e - 1

/-- The integer nearest to `0 ≤ q`, the even one of two. -/
def roundHalfEven (q : ℚ) : ℤ :=
  let n := q.floor
  let d := q - n
  if d < 1 / 2 then n else if 1 / 2 < d then n + 1 else if n % 2 = 0 then n else n + 1

/-- The double nearest to `q`. -/
def PyFloat.ofRat (q : ℚ) : PyFloat :=
  if q = 0 then .finite 0
  else
    let a := if q < 0 then -q else q
    let ulp : ℚ := (2 : ℚ) ^ max (binaryExponent a - 52) (-1074)
    let v := roundHalfEven (a / ulp) * ulp
    if (2 : ℚ) ^ (1024 : ℤ) ≤ v then .infinity (decide (q < 0))
    else .finite (if q < 0 then -v else v)

/-! ### The decoder -/

/-- A scanner: the value read and the rest of the text. -/
abbrev Scan (α : Type) := Except Exc (α × Str)

/-- Skip blanks, tabs and line ends. -/
def skipWs (s : Str) : Str := s.dropWhile fun c => c == 32 || c == 9 || c == 10 || c == 13

/-- The value of a hexadecimal digit. -/
def hexDigit (c : ℕ) : Option ℕ :=
  if isDigit c then some (c - 48)
  else if 97 ≤ c && c ≤ 102 then some (c - 87)
  else if 65 ≤ c && c ≤ 70 then some (c - 55)
  else none

/-- The four hexadecimal digits of a Unicode escape. -/
def hex4 (a b c d : ℕ) : Option ℕ := do
  return (((← hexDigit a) * 16 + (← hexDigit b)) * 16 + (← hexDigit c)) * 16 + (← hexDigit d)

/-- The one-letter escapes. -/
def escape : ℕ → Option ℕ
  | 34 => some 34
  | 92 => some 92
  | 47 => some 47
  | 98 => some 8
  | 102 => some 12
  | 110 => some 10
  | 114 => some 13
  | 116 => some 9
  | _ => none

/-- Put a code point in front of a scanned string. -/
def consChar (c : ℕ) : Scan Str → Scan Str
  | .ok (s, rest) => .ok (c :: s, rest)
  | .error e => .error e

/-- Put a pending high surrogate, if there is one, in front of a scanned string. -/
def flush (high : Option ℕ) (x : Scan Str) : Scan Str := high.elim x fun u => consChar u x

/-- The rest of a string literal after its opening quote; `high` is a high surrogate escape that
was just read. Followed by a low one it is one code point with it, else it stays alone. Control
characters are refused. -/
def scanString (high : Option ℕ) : Str → Scan Str
  | [] => .error .jsonDecodeError
  | 34 :: rest => flush high (.ok ([], rest))
  | 92 :: 117 :: a :: b :: c :: d :: rest =>
    match hex4 a b c d, high with
    | none, _ => .error .jsonDecodeError
    | some v, some u =>
      if 0xDC00 ≤ v ∧ v ≤ 0xDFFF then
        consChar (0x10000 + ((u - 0xD800) * 1024 + (v - 0xDC00))) (scanString none rest)
      else if 0xD800 ≤ v ∧ v ≤ 0xDBFF then consChar u (scanString (some v) rest)
      else consChar u (consChar v (scanString none rest))
    | some v, none =>
      if 0xD800 ≤ v ∧ v ≤ 0xDBFF then scanString (some v) rest
      else consChar v (scanString none rest)
  | 92 :: 117 :: _ => .error .jsonDecodeError
  | 92 :: e :: rest =>
    (escape e).elim (.error .jsonDecodeError) fun c =>
      flush high (consChar c (scanString none rest))
  | 92 :: [] => .error .jsonDecodeError
  | c :: rest =>
    if c < 32 then .error .jsonDecodeError else flush high (consChar c (scanString none rest))

/-- An optional fraction: its digits and the rest. -/
def scanFraction : Str → Option Str × Str
  | 46 :: rest =>
    let ds := rest.takeWhile isDigit
    if ds.isEmpty then (none, 46 :: rest) else (some ds, rest.dropWhile isDigit)
  | s => (none, s)

/-- An optional exponent and the rest. -/
def scanExponent (s : Str) : Option ℤ × Str :=
  let number (sign : ℤ) (rest : Str) : Option ℤ × Str :=
    let ds := rest.takeWhile isDigit
    if ds.isEmpty then (none, s) else (some (sign * digitsValue ds), rest.dropWhile isDigit)
  match s with
  | c :: 43 :: rest => if c = 101 ∨ c = 69 then number 1 rest else (none, s)
  | c :: 45 :: rest => if c = 101 ∨ c = 69 then number (-1) rest else (none, s)
  | c :: rest => if c = 101 ∨ c = 69 then number 1 rest else (none, s)
  | [] => (none, s)

/-- The number with the given integer digits, whose text goes on with `s`. -/
def scanTail (sign : ℤ) (ds : Str) (s : Str) : Scan Value :=
  let (fraction, s) := scanFraction s
  let (exponent, s) := scanExponent s
  if fraction.isNone && exponent.isNone then
    if maxStrDigits < ds.length then .error .valueError
    else .ok (.int (sign * digitsValue ds), s)
  else
    let frac := fraction.getD []
    let q : ℚ := sign * digitsValue (ds ++ frac) * (10 : ℚ) ^ (exponent.getD 0 - frac.length)
    .ok (.float (.ofRat q), s)

/-- A number literal, or a literal that no other rule reads. -/
def scanNumber (sign : ℤ) : Str → Option (Scan Value)
  | 48 :: rest => some (scanTail sign [48] rest)
  | c :: rest =>
    if isDigit c then
      some (scanTail sign (c :: rest.takeWhile isDigit) (rest.dropWhile isDigit))
    else none
  | [] => none

/-- A constant of the language, when the text starts with it. -/
def scanConstant (s : Str) : Option (Value × Str) :=
  let table : List (Str × Value) :=
    [(str "null", .none), (str "true", .bool true), (str "false", .bool false),
      (str "NaN", .float .nan), (str "Infinity", .float (.infinity false)),
      (str "-Infinity", .float (.infinity true))]
  (table.find? fun kv => kv.1.isPrefixOf s).map fun kv => (kv.2, s.drop kv.1.length)

/-- The elements of an array from its first one on. Each round consumes a character, so a bound
of the length of the text is never reached. -/
def scanElements (scan : Str → Scan Value) : ℕ → List Value → Str → Scan Value
  | 0, _, _ => .error .jsonDecodeError
  | n + 1, acc, s =>
    match scan s with
    | .error e => .error e
    | .ok (v, rest) =>
      match skipWs rest with
      | 93 :: rest => .ok (.list (acc ++ [v]), rest)
      | 44 :: rest => scanElements scan n (acc ++ [v]) (skipWs rest)
      | _ => .error .jsonDecodeError

/-- The members of an object from the opening quote of its first key on. -/
def scanMembers (scan : Str → Scan Value) : ℕ → List (Str × Value) → Str → Scan Value
  | 0, _, _ => .error .jsonDecodeError
  | n + 1, acc, s =>
    match s with
    | 34 :: s =>
      match scanString none s with
      | .error e => .error e
      | .ok (key, rest) =>
        match skipWs rest with
        | 58 :: rest =>
          match scan (skipWs rest) with
          | .error e => .error e
          | .ok (v, rest) =>
            match skipWs rest with
            | 125 :: rest => .ok (.dict (insertKey acc (key, v)), rest)
            | 44 :: rest => scanMembers scan n (insertKey acc (key, v)) (skipWs rest)
            | _ => .error .jsonDecodeError
        | _ => .error .jsonDecodeError
    | _ => .error .jsonDecodeError

/-- One value. The first argument is how many more nested values the interpreter's recursion
limit admits. -/
def scanOnce : ℕ → Str → Scan Value
  | 0, _ => .error .recursionError
  | depth + 1, s =>
    match s with
    | [] => .error .jsonDecodeError
    | 34 :: rest => (scanString none rest).map fun x => (.str x.1, x.2)
    | 123 :: rest =>
      match skipWs rest with
      | 125 :: rest => .ok (.dict [], rest)
      | rest => scanMembers (scanOnce depth) rest.length [] rest
    | 91 :: rest =>
      match skipWs rest with
      | 93 :: rest => .ok (.list [], rest)
      | rest => scanElements (scanOnce depth) rest.length [] rest
    | c :: rest =>
      match scanConstant (c :: rest) with
      | some x => .ok x
      | none =>
        let number := if c = 45 then scanNumber (-1) rest else scanNumber 1 (c :: rest)
        number.getD (.error .jsonDecodeError)

/-- `json.loads` of the standard library. -/
def Python.loads (py : Python) (s : Str) : Except Exc Value :=
  if s.head? = some 0xFEFF then .error .jsonDecodeError
  else
    match scanOnce py.recursionLimit (skipWs s) with
    | .error e => .error e
    | .ok (v, rest) => if (skipWs rest).isEmpty then .ok v else .error .jsonDecodeError

/-- The interpreter of the sample runs. On their values it is not asked for a `repr`, and the
strings that it converts are ASCII. -/
def samplePython : Python where
  repr _ := []
  intOfStr s :=
    if s ≠ [] ∧ s.all isDigit = true ∧ s.length ≤ maxStrDigits then some (digitsValue s) else none
  intOfStr_digits _ hne hdigits hlen := if_pos ⟨hne, hdigits, hlen⟩
  recursionLimit := 1000
  isalnum := isAsciiAlnum
  isalnum_ascii _ _ := rfl
  isspace := isAsciiSpace
  isspace_ascii _ _ := rfl
  lower s := s.map asciiLower
  lower_ascii _ _ := rfl
  upperPoint c := [asciiUpper c]
  upperPoint_ascii _ _ := rfl

end CodeInterpreter
