import CodeInterpreter.Js.Value
import CodeInterpreter.Python.Text
import Mathlib.Data.List.Chain

/-!
# JSON from JavaScript to Python

`JSON.stringify` of the API server and `json.loads` of the worker. A string is quoted by its code
points: control characters and lone surrogates become escapes, so the text has a UTF-8 encoding
whatever the string is, and Python reads the same code points back, lone surrogates included.

How JavaScript prints a finite number is left open (`Engine`), except for its grammar and for the
natural numbers up to `2 ^ 53`, which it prints exactly.

## Main definitions

* `NumberText`, `Engine`: the texts of numbers.
* `quote`, `Json.stringify`: the text of a value.
* `Json.toValue`: what Python reads.

## Main results

* `loads_stringify`: `json.loads` reads back what `JSON.stringify` wrote.
* `loads_sent`: the same for the text that was sent as UTF-8.
-/

namespace CodeInterpreter

/-! ### Numbers -/

/-- The text of a finite number: its sign, integer part, fraction and exponent. JavaScript writes an
integer part of at most 21 digits. -/
structure NumberText where
  negative : Bool
  integer : ℕ
  integer_lt : integer < 10 ^ 21
  fraction : List (Fin 10)
  exponent : Option ℤ

namespace NumberText

/-- The digits of the fraction. -/
def fractionDigits (x : NumberText) : Str := x.fraction.map fun d => d.val + 48

/-- The exponent with its sign. -/
def exponentText (x : NumberText) : Str :=
  x.exponent.elim [] fun e => 101 :: (if e < 0 then 45 else 43) :: decimal e.natAbs

/-- The fraction and the exponent. -/
def tail (x : NumberText) : Str :=
  (if x.fraction = [] then [] else 46 :: x.fractionDigits) ++ x.exponentText

/-- The characters. -/
def text (x : NumberText) : Str :=
  (if x.negative then [45] else []) ++ (decimal x.integer ++ x.tail)

/-- The number that Python reads. -/
def value (x : NumberText) : Value :=
  let sign : ℤ := if x.negative then -1 else 1
  if x.fraction = [] ∧ x.exponent = none then .int (sign * x.integer)
  else
    .float (.ofRat (sign * digitsValue (decimal x.integer ++ x.fractionDigits) *
      (10 : ℚ) ^ (x.exponent.getD 0 - x.fraction.length)))

theorem value_cases (x : NumberText) : (∃ n, x.value = .int n) ∨ ∃ y, x.value = .float y := by
  by_cases h : x.fraction = [] ∧ x.exponent = none
  · exact .inl ⟨_, if_pos h⟩
  · exact .inr ⟨_, if_neg h⟩

end NumberText

/-- `Number::toString` of the JavaScript engine, on finite numbers. -/
structure Engine where
  print : ℚ → NumberText
  print_natCast : ∀ n : ℕ, n ≤ 2 ^ 53 → (print n).negative = false ∧ (print n).integer = n ∧
    (print n).fraction = [] ∧ (print n).exponent = none

/-! ### Strings -/

/-- The lower-case hexadecimal digit of a number below 16. -/
def hexPoint (d : ℕ) : ℕ := if d < 10 then 48 + d else 87 + d

/-- The escape of a code unit by its number. -/
def unicodeEscape (c : ℕ) : Str :=
  [92, 117, hexPoint (c / 4096), hexPoint (c / 256 % 16), hexPoint (c / 16 % 16), hexPoint (c % 16)]

/-- One code point inside a string literal. -/
def quotePoint (c : ℕ) : Str :=
  if c = 8 then [92, 98]
  else if c = 9 then [92, 116]
  else if c = 10 then [92, 110]
  else if c = 12 then [92, 102]
  else if c = 13 then [92, 114]
  else if c = 34 then [92, 34]
  else if c = 92 then [92, 92]
  else if c < 32 ∨ isSurrogate c then unicodeEscape c
  else [c]

/-- `QuoteJSONString`. -/
def quote (s : JsStr) : Str := 34 :: ((codePoints s).flatMap quotePoint ++ [34])

/-! ### Values -/

variable (engine : Engine)

mutual

/-- `JSON.stringify` of a JSON value. -/
def Json.stringify : Json → Str
  | .null => str "null"
  | .bool b => if b then str "true" else str "false"
  | .num (.finite q) => (engine.print q).text
  | .num _ => str "null"
  | .str s => quote s
  | .arr [] => [91, 93]
  | .arr (x :: xs) => 91 :: (x.stringify ++ moreElements xs)
  | .obj [] => [123, 125]
  | .obj ((key, x) :: kvs) => 123 :: (quote key ++ 58 :: (x.stringify ++ moreMembers kvs))

/-- The further elements of an array, up to its end. -/
def moreElements : List Json → Str
  | [] => [93]
  | x :: xs => 44 :: (x.stringify ++ moreElements xs)

/-- The further members of an object, up to its end. -/
def moreMembers : List (JsStr × Json) → Str
  | [] => [125]
  | (key, x) :: kvs => 44 :: (quote key ++ 58 :: (x.stringify ++ moreMembers kvs))

end

mutual

/-- What Python reads of a value. -/
def Json.toValue : Json → Value
  | .null => .none
  | .bool b => .bool b
  | .num (.finite q) => (engine.print q).value
  | .num _ => .none
  | .str s => .str (codePoints s)
  | .arr xs => .list (elementValues xs)
  | .obj kvs => .dict (memberValues kvs)

/-- What Python reads of the elements of an array. -/
def elementValues : List Json → List Value
  | [] => []
  | x :: xs => x.toValue :: elementValues xs

/-- What Python reads of the members of an object. -/
def memberValues : List (JsStr × Json) → List (Str × Value)
  | [] => []
  | (key, x) :: kvs => (codePoints key, x.toValue) :: memberValues kvs

end

mutual

/-- How deep a value is nested. -/
def Json.depth : Json → ℕ
  | .arr xs => elementsDepth xs + 1
  | .obj kvs => membersDepth kvs + 1
  | _ => 1

/-- How deep the elements of an array are nested. -/
def elementsDepth : List Json → ℕ
  | [] => 0
  | x :: xs => max x.depth (elementsDepth xs)

/-- How deep the members of an object are nested. -/
def membersDepth : List (JsStr × Json) → ℕ
  | [] => 0
  | (_, x) :: kvs => max x.depth (membersDepth kvs)

end

mutual

/-- The keys of every object in the value are distinct. -/
def Json.KeysDistinct : Json → Prop
  | .arr xs => ElementsDistinct xs
  | .obj kvs => (kvs.map Prod.fst).Nodup ∧ MembersDistinct kvs
  | _ => True

/-- The same for the elements of an array. -/
def ElementsDistinct : List Json → Prop
  | [] => True
  | x :: xs => x.KeysDistinct ∧ ElementsDistinct xs

/-- The same for the members of an object. -/
def MembersDistinct : List (JsStr × Json) → Prop
  | [] => True
  | (_, x) :: kvs => x.KeysDistinct ∧ MembersDistinct kvs

end

/-! ### Reading numbers -/

theorem length_decimal_le {n : ℕ} (hn : n < 10 ^ 21) : (decimal n).length ≤ maxStrDigits := by
  rw [decimal_eq, List.length_map]
  exact ((Nat.length_toDigits_le_iff (by decide) (by decide)).mpr hn).trans (by decide)

/-- Only zero is printed with a leading zero. -/
theorem decimal_head {n : ℕ} (hn : n ≠ 0) : (decimal n).head? ≠ some 48 := by
  induction n using Nat.strong_induction_on with
  | _ n ih =>
    rw [decimal_eq, Nat.toDigits_eq_if (by decide)]
    split
    · next hlt =>
      have hdigit := Nat.toNat_digitChar_of_lt_ten hlt
      simp only [List.map_cons, List.map_nil, List.head?_cons, ne_eq, Option.some.injEq]
      omega
    · next hge =>
      have hne : n / 10 ≠ 0 := by omega
      have hrest := ih (n / 10) (by omega) hne
      rw [decimal_eq] at hrest
      rw [List.map_append, List.head?_append_of_ne_nil _ (by simp)]
      exact hrest

/-- What may follow a value in a text: nothing, or the next element or the end of what holds it. -/
def Delimited (rest : Str) : Prop := ∀ c ∈ rest.head?, c = 44 ∨ c = 93 ∨ c = 125

theorem Delimited.not_digit {rest : Str} (h : Delimited rest) :
    ∀ c ∈ rest.head?, isDigit c = false := by
  intro c hc
  rcases h c hc with rfl | rfl | rfl <;> rfl

/-- A run of digits ends where there is no digit. -/
theorem span_digits {ds rest : Str} (hds : ∀ c ∈ ds, isDigit c = true)
    (hrest : ∀ c ∈ rest.head?, isDigit c = false) :
    (ds ++ rest).takeWhile isDigit = ds ∧ (ds ++ rest).dropWhile isDigit = rest := by
  rw [List.takeWhile_append_of_pos hds, List.dropWhile_append_of_pos hds]
  cases rest with
  | nil => simp
  | cons c rest =>
    have hc := hrest c rfl
    simp [hc]

theorem scanExponent_of_ne {s : Str} (hs : ∀ c ∈ s.head?, c ≠ 101 ∧ c ≠ 69) :
    scanExponent s = (none, s) := by
  have hno (c : ℕ) (hc : s.head? = some c) : ¬ (c = 101 ∨ c = 69) := by
    have := hs c hc
    omega
  unfold scanExponent
  split
  · rw [if_neg (hno _ rfl)]
  · rw [if_neg (hno _ rfl)]
  · rw [if_neg (hno _ rfl)]
  · rfl

section

variable {rest : Str} (h : Delimited rest)
include h

theorem scanExponent_text (x : NumberText) :
    scanExponent (x.exponentText ++ rest) = (x.exponent, rest) := by
  cases hx : x.exponent with
  | none =>
    rw [NumberText.exponentText, hx]
    refine scanExponent_of_ne fun c hc => ?_
    rcases h c hc with rfl | rfl | rfl <;> decide
  | some e =>
    rw [NumberText.exponentText, hx]
    have hdigits : ∀ c ∈ decimal e.natAbs, isDigit c = true := fun c => isDigit_of_mem_decimal
    obtain ⟨htake, hdrop⟩ := span_digits hdigits h.not_digit
    have hne : (decimal e.natAbs).isEmpty = false := by simpa using decimal_ne_nil e.natAbs
    by_cases he : e < 0
    · have hvalue : -1 * (e.natAbs : ℤ) = e := by omega
      simp only [Option.elim_some, if_pos he, List.cons_append, scanExponent, htake, hdrop, hne,
        digitsValue_decimal, true_or, if_true, Bool.false_eq_true, if_false, hvalue]
    · have hvalue : 1 * (e.natAbs : ℤ) = e := by omega
      simp only [Option.elim_some, if_neg he, List.cons_append, scanExponent, htake, hdrop, hne,
        digitsValue_decimal, true_or, if_true, Bool.false_eq_true, if_false, hvalue]

theorem exponentText_not_digit (x : NumberText) :
    ∀ c ∈ (x.exponentText ++ rest).head?, isDigit c = false ∧ c ≠ 46 := by
  intro c hc
  unfold NumberText.exponentText at hc
  cases hx : x.exponent with
  | none =>
    rw [hx] at hc
    rcases h c hc with rfl | rfl | rfl <;> decide
  | some e =>
    rw [hx] at hc
    simp only [Option.elim_some, List.cons_append, List.head?_cons, Option.mem_def,
      Option.some.injEq] at hc
    subst hc
    decide

theorem scanFraction_text (x : NumberText) :
    scanFraction (x.tail ++ rest) =
      (if x.fraction = [] then none else some x.fractionDigits, x.exponentText ++ rest) := by
  have hexponent := exponentText_not_digit h x
  by_cases hx : x.fraction = []
  · simp only [NumberText.tail, if_pos hx, List.nil_append]
    unfold scanFraction
    split
    · next hs =>
      have := (hexponent 46 (by rw [hs]; rfl)).2
      exact absurd rfl this
    · rfl
  · have hdigits : ∀ c ∈ x.fractionDigits, isDigit c = true := by
      intro c hc
      obtain ⟨d, _, rfl⟩ := List.mem_map.mp hc
      have := d.isLt
      simp only [isDigit, Bool.and_eq_true, decide_eq_true_eq]
      omega
    obtain ⟨htake, hdrop⟩ := span_digits hdigits fun c hc => (hexponent c hc).1
    have hne : x.fractionDigits.isEmpty = false := by
      simpa [NumberText.fractionDigits] using hx
    simp only [NumberText.tail, if_neg hx, List.cons_append, List.append_assoc, scanFraction,
      htake, hdrop, hne, Bool.false_eq_true, if_false]

theorem scanTail_text (x : NumberText) :
    scanTail (if x.negative then -1 else 1) (decimal x.integer) (x.tail ++ rest) =
      .ok (x.value, rest) := by
  have hlength : ¬ maxStrDigits < (decimal x.integer).length :=
    Nat.not_lt.mpr (length_decimal_le x.integer_lt)
  simp only [scanTail, scanFraction_text h, scanExponent_text h, NumberText.value,
    digitsValue_decimal, if_neg hlength]
  by_cases hx : x.fraction = []
  · cases he : x.exponent <;> simp [hx, NumberText.fractionDigits]
  · simp [hx, NumberText.fractionDigits]

theorem tail_not_digit (x : NumberText) : ∀ c ∈ (x.tail ++ rest).head?, isDigit c = false := by
  intro c hc
  by_cases hx : x.fraction = []
  · simp only [NumberText.tail, if_pos hx, List.nil_append] at hc
    exact (exponentText_not_digit h x c hc).1
  · simp only [NumberText.tail, if_neg hx, List.cons_append, List.head?_cons, Option.mem_def,
      Option.some.injEq] at hc
    subst hc
    rfl

theorem scanNumber_text (x : NumberText) :
    scanNumber (if x.negative then -1 else 1) (decimal x.integer ++ (x.tail ++ rest)) =
      some (.ok (x.value, rest)) := by
  have htail := scanTail_text h x
  by_cases hx : x.integer = 0
  · rw [hx] at htail ⊢
    exact congrArg some htail
  · obtain ⟨c, ds, hds⟩ := List.exists_cons_of_ne_nil (decimal_ne_nil x.integer)
    have hdigits : ∀ d ∈ c :: ds, isDigit d = true := fun d hd =>
      isDigit_of_mem_decimal (hds ▸ hd)
    have hhead : c ≠ 48 := by
      have := decimal_head hx
      rw [hds] at this
      simpa using this
    obtain ⟨htake, hdrop⟩ := span_digits (fun d hd => hdigits d (List.mem_cons_of_mem _ hd))
      (tail_not_digit h x)
    rw [hds] at htail
    rw [hds, List.cons_append]
    unfold scanNumber
    split
    · next heq => exact absurd (List.cons.inj heq).1 hhead
    · next heq =>
      obtain ⟨rfl, rfl⟩ := List.cons.inj heq
      rw [if_pos (hdigits _ List.mem_cons_self), htake, hdrop, htail]
    · next heq => cases heq

end

/-- A text that starts with a digit is no constant. -/
theorem scanConstant_digit {c : ℕ} (hc : isDigit c = true) (s : Str) :
    scanConstant (c :: s) = none ∧ scanConstant (45 :: c :: s) = none := by
  have hbounds : 48 ≤ c ∧ c ≤ 57 := by simpa [isDigit] using hc
  have h110 : (110 == c) = false := by simp; omega
  have h116 : (116 == c) = false := by simp; omega
  have h102 : (102 == c) = false := by simp; omega
  have h78 : (78 == c) = false := by simp; omega
  have h73 : (73 == c) = false := by simp; omega
  have h45 : (45 == c) = false := by simp; omega
  constructor
  · simp [scanConstant, str, List.isPrefixOf, h110, h116, h102, h78, h73, h45]
  · simp [scanConstant, str, List.isPrefixOf, h73]

/-- A text that starts neither a string nor an array nor an object, and is no constant. -/
theorem scanOnce_of_not_constant {c : ℕ} {s : Str} (hstring : c ≠ 34) (hobject : c ≠ 123)
    (harray : c ≠ 91) (hconstant : scanConstant (c :: s) = none) (depth : ℕ) :
    scanOnce (depth + 1) (c :: s) =
      (if c = 45 then scanNumber (-1) s else scanNumber 1 (c :: s)).getD
        (.error .jsonDecodeError) := by
  unfold scanOnce
  split
  · next heq => cases heq
  · next heq => exact absurd (List.cons.inj heq).1 hstring
  · next heq => exact absurd (List.cons.inj heq).1 hobject
  · next heq => exact absurd (List.cons.inj heq).1 harray
  · next heq =>
    obtain ⟨rfl, rfl⟩ := List.cons.inj heq
    rw [hconstant]

theorem scanOnce_number (x : NumberText) (depth : ℕ) {rest : Str} (h : Delimited rest) :
    scanOnce (depth + 1) (x.text ++ rest) = .ok (x.value, rest) := by
  obtain ⟨c, ds, hds⟩ := List.exists_cons_of_ne_nil (decimal_ne_nil x.integer)
  have hc : isDigit c = true := isDigit_of_mem_decimal (hds ▸ List.mem_cons_self)
  have hbounds : 48 ≤ c ∧ c ≤ 57 := by simpa [isDigit] using hc
  have hnumber := scanNumber_text h x
  rw [hds, List.cons_append] at hnumber
  obtain ⟨hplain, hminus⟩ := scanConstant_digit hc (ds ++ (x.tail ++ rest))
  by_cases hx : x.negative
  · have htext : x.text ++ rest = 45 :: c :: (ds ++ (x.tail ++ rest)) := by
      simp [NumberText.text, hx, hds]
    rw [if_pos hx] at hnumber
    rw [htext, scanOnce_of_not_constant (by decide) (by decide) (by decide) hminus, if_pos rfl,
      hnumber, Option.getD_some]
  · have htext : x.text ++ rest = c :: (ds ++ (x.tail ++ rest)) := by
      simp [NumberText.text, hx, hds]
    have hne : c ≠ 34 ∧ c ≠ 123 ∧ c ≠ 91 ∧ c ≠ 45 := by omega
    rw [if_neg hx] at hnumber
    rw [htext, scanOnce_of_not_constant hne.1 hne.2.1 hne.2.2.1 hplain, if_neg hne.2.2.2, hnumber,
      Option.getD_some]

/-! ### Reading strings -/

/-- No high surrogate stands before a low one: they would be one code point. -/
def NoPair (s : Str) : Prop := s.IsChain fun c d => ¬ (isHigh c = true ∧ isLow d = true)

theorem codePoints_noPair (s : JsStr) : NoPair (codePoints s) := by
  induction s using codePoints.induct with
  | case1 => exact .nil
  | case2 u => exact .singleton _
  | case3 u v rest h ih =>
    rw [codePoints, if_pos h]
    refine List.isChain_cons.mpr ⟨fun d _ => ?_, ih⟩
    have := le_pairPoint u.toNat v.toNat
    simp only [isHigh, Bool.and_eq_true, decide_eq_true_eq]
    omega
  | case4 u v rest h ih =>
    rw [codePoints, if_neg h]
    refine List.isChain_cons.mpr ⟨fun d hd => ?_, ih⟩
    -- the next code point is the next unit, or that of a pair
    cases rest with
    | nil =>
      obtain rfl : v.toNat = d := by simpa [codePoints] using hd
      simpa using h
    | cons w rest =>
      rw [codePoints] at hd
      split at hd
      · obtain rfl : pairPoint v.toNat w.toNat = d := by simpa using hd
        have := le_pairPoint v.toNat w.toNat
        simp only [isLow, Bool.and_eq_true, decide_eq_true_eq]
        omega
      · obtain rfl : v.toNat = d := by simpa using hd
        simpa using h

theorem hex4_unicodeEscape {c : ℕ} (hc : c < 65536) :
    hex4 (hexPoint (c / 4096)) (hexPoint (c / 256 % 16)) (hexPoint (c / 16 % 16))
      (hexPoint (c % 16)) = some c := by
  have hdigit : ∀ d < 16, hexDigit (hexPoint d) = some d := by decide
  rw [hex4, hdigit _ (by omega), hdigit _ (by omega), hdigit _ (by omega), hdigit _ (by omega)]
  simp only [Option.bind_eq_bind, Option.bind_some, Option.pure_def, Option.some.injEq]
  omega

/-- A character that stands for itself. -/
theorem scanString_plain {c : ℕ} (hcontrol : ¬ c < 32) (hquote : c ≠ 34) (hescape : c ≠ 92)
    (high : Option ℕ) (s : Str) :
    scanString high (c :: s) = flush high (consChar c (scanString none s)) := by
  rw [scanString.eq_def]
  split
  · next heq => cases heq
  · next heq => exact absurd (List.cons.inj heq).1 hquote
  · next heq => exact absurd (List.cons.inj heq).1 hescape
  · next heq => exact absurd (List.cons.inj heq).1 hescape
  · next heq => exact absurd (List.cons.inj heq).1 hescape
  · next heq => exact absurd (List.cons.inj heq).1 hescape
  · next heq =>
    obtain ⟨rfl, rfl⟩ := List.cons.inj heq
    rw [if_neg hcontrol]

/-- What a string goes on with after a code point: a high surrogate is kept back. -/
def scanPoint (c : ℕ) (s : Str) : Scan Str :=
  if isHigh c then scanString (some c) s else consChar c (scanString none s)

/-- A code point by its number. -/
theorem scanString_unicodeEscape {c : ℕ} (hc : c < 65536) {high : Option ℕ}
    (hhigh : high.isSome → isLow c = false) (s : Str) :
    scanString high (unicodeEscape c ++ s) = flush high (scanPoint c s) := by
  have hhex := hex4_unicodeEscape hc
  cases high with
  | none => simp [unicodeEscape, scanString, hhex, flush, scanPoint, isHigh]
  | some u =>
    have hlow : ¬ (0xDC00 ≤ c ∧ c ≤ 0xDFFF) := by simpa [isLow] using hhigh rfl
    by_cases h : isHigh c
    · have h' : 0xD800 ≤ c ∧ c ≤ 0xDBFF := by simpa [isHigh] using h
      simp [unicodeEscape, scanString, hhex, flush, scanPoint, h, h', hlow]
    · have h' : ¬ (0xD800 ≤ c ∧ c ≤ 0xDBFF) := by simpa [isHigh] using h
      simp [unicodeEscape, scanString, hhex, flush, scanPoint, h, h', hlow]

/-- A quoted code point; a low surrogate must not follow a high one. -/
theorem scanString_quotePoint (c : ℕ) {high : Option ℕ} (hhigh : high.isSome → isLow c = false)
    (s : Str) : scanString high (quotePoint c ++ s) = flush high (scanPoint c s) := by
  unfold quotePoint
  split_ifs with h8 h9 h10 h12 h13 h34 h92 hescape
  · subst h8; rfl
  · subst h9; rfl
  · subst h10; rfl
  · subst h12; rfl
  · subst h13; rfl
  · subst h34; rfl
  · subst h92; rfl
  · refine scanString_unicodeEscape ?_ hhigh s
    simp only [isSurrogate, Bool.and_eq_true, decide_eq_true_eq] at hescape
    omega
  · rw [not_or] at hescape
    have hhighless : isHigh c = false := by
      have := hescape.2
      simp only [isSurrogate, isHigh, Bool.and_eq_true, decide_eq_true_eq,
        Bool.and_eq_false_iff, decide_eq_false_iff_not] at this ⊢
      omega
    rw [List.singleton_append, scanString_plain hescape.1 h34 h92, scanPoint, hhighless]
    rfl

/-- Quoted code points are read back. -/
theorem scanString_flatMap {s : Str} (hs : NoPair s) (high : Option ℕ)
    (hhigh : high.isSome → ∀ c ∈ s.head?, isLow c = false) (rest : Str) :
    scanString high (s.flatMap quotePoint ++ 34 :: rest) = flush high (.ok (s, rest)) := by
  induction s generalizing high with
  | nil => rfl
  | cons c s ih =>
    obtain ⟨hnext, hs⟩ := List.isChain_cons.mp hs
    rw [List.flatMap_cons, List.append_assoc, scanString_quotePoint c fun h => hhigh h c rfl,
      scanPoint]
    by_cases hc : isHigh c
    · rw [if_pos hc, ih hs _ fun _ d hd => by simpa [hc] using hnext d hd]
      rfl
    · rw [if_neg hc, ih hs none (by simp)]
      rfl

theorem scanString_quote (s : JsStr) (rest : Str) :
    scanString none ((codePoints s).flatMap quotePoint ++ 34 :: rest) =
      .ok (codePoints s, rest) :=
  scanString_flatMap (codePoints_noPair s) none (by simp) rest

/-! ### Reading values -/

theorem skipWs_cons {c : ℕ} (hc : 32 < c) (s : Str) : skipWs (c :: s) = c :: s := by
  have hne : c ≠ 32 ∧ c ≠ 9 ∧ c ≠ 10 ∧ c ≠ 13 := by omega
  simp [skipWs, hne]

/-- A key that is not there yet is put at the end. -/
theorem insertKey_of_notMem {kvs : List (Str × Value)} {kv : Str × Value}
    (hkv : kv.1 ∉ kvs.map Prod.fst) : insertKey kvs kv = kvs ++ [kv] := by
  refine if_neg ?_
  simp only [List.any_eq_true, beq_iff_eq, not_exists, not_and]
  exact fun x hx heq => hkv (heq ▸ List.mem_map_of_mem hx)

theorem Json.one_le_depth (v : Json) : 1 ≤ v.depth := by
  cases v <;> simp [depth]

theorem elementsDepth_le_iff {xs : List Json} {n : ℕ} :
    elementsDepth xs ≤ n ↔ ∀ x ∈ xs, x.depth ≤ n := by
  induction xs with
  | nil => simp [elementsDepth]
  | cons x xs ih => rw [elementsDepth, max_le_iff, ih, List.forall_mem_cons]

theorem membersDepth_le_iff {kvs : List (JsStr × Json)} {n : ℕ} :
    membersDepth kvs ≤ n ↔ ∀ kv ∈ kvs, kv.2.depth ≤ n := by
  induction kvs with
  | nil => simp [membersDepth]
  | cons kv kvs ih => rw [membersDepth, max_le_iff, ih, List.forall_mem_cons]

theorem elementsDistinct_iff {xs : List Json} :
    ElementsDistinct xs ↔ ∀ x ∈ xs, x.KeysDistinct := by
  induction xs with
  | nil => simp [ElementsDistinct]
  | cons x xs ih => rw [ElementsDistinct, ih, List.forall_mem_cons]

theorem membersDistinct_iff {kvs : List (JsStr × Json)} :
    MembersDistinct kvs ↔ ∀ kv ∈ kvs, kv.2.KeysDistinct := by
  induction kvs with
  | nil => simp [MembersDistinct]
  | cons kv kvs ih => rw [MembersDistinct, ih, List.forall_mem_cons]

/-- How the text of a value starts: not with a blank and not with the end of an array or object. -/
theorem stringify_head (v : Json) :
    ∃ c s, v.stringify engine = c :: s ∧ 32 < c ∧ c < 128 ∧ c ≠ 93 ∧ c ≠ 125 := by
  cases v with
  | null => exact ⟨_, _, rfl, by decide⟩
  | bool b => cases b <;> exact ⟨_, _, rfl, by decide⟩
  | num x =>
    cases x with
    | finite q =>
      obtain ⟨c, ds, hds⟩ := List.exists_cons_of_ne_nil (decimal_ne_nil (engine.print q).integer)
      have hc : isDigit c = true := isDigit_of_mem_decimal (hds ▸ List.mem_cons_self)
      have hbounds : 48 ≤ c ∧ c ≤ 57 := by simpa [isDigit] using hc
      rw [Json.stringify, NumberText.text, hds]
      split
      · exact ⟨_, _, rfl, by decide⟩
      · exact ⟨_, _, rfl, by omega⟩
    | nan => exact ⟨_, _, rfl, by decide⟩
    | infinity negative => exact ⟨_, _, rfl, by decide⟩
  | str s => exact ⟨_, _, rfl, by decide⟩
  | arr xs => cases xs <;> exact ⟨_, _, by rw [Json.stringify], by decide⟩
  | obj kvs => cases kvs <;> exact ⟨_, _, by rw [Json.stringify], by decide⟩

theorem skipWs_stringify (v : Json) (rest : Str) :
    skipWs (v.stringify engine ++ rest) = v.stringify engine ++ rest := by
  obtain ⟨c, s, hs, hc, -⟩ := stringify_head engine v
  rw [hs, List.cons_append, skipWs_cons hc]

theorem delimited_moreElements (xs : List Json) (rest : Str) :
    Delimited (moreElements engine xs ++ rest) := by
  cases xs <;> simp [Delimited, moreElements]

theorem length_lt_moreElements (xs : List Json) : xs.length < (moreElements engine xs).length := by
  induction xs with
  | nil => simp [moreElements]
  | cons x xs ih =>
    simp only [moreElements, List.length_cons, List.length_append]
    omega

theorem length_lt_moreMembers (kvs : List (JsStr × Json)) :
    kvs.length < (moreMembers engine kvs).length := by
  induction kvs with
  | nil => simp [moreMembers]
  | cons kv kvs ih =>
    simp only [moreMembers, List.length_cons, List.length_append]
    omega

/-- A scanner that reads a value back from its text. -/
def Reads (scan : Str → Scan Value) (v : Json) : Prop :=
  ∀ rest, Delimited rest → scan (v.stringify engine ++ rest) = .ok (v.toValue engine, rest)

/-- The elements of an array are read back one after the other. -/
theorem scanElements_stringify {scan : Str → Scan Value} {x : Json} {xs : List Json}
    (hscan : ∀ y ∈ x :: xs, Reads engine scan y) {fuel : ℕ} (hfuel : xs.length < fuel)
    (acc : List Value) (rest : Str) :
    scanElements scan fuel acc (x.stringify engine ++ (moreElements engine xs ++ rest)) =
      .ok (.list (acc ++ elementValues engine (x :: xs)), rest) := by
  induction xs generalizing x fuel acc with
  | nil =>
    obtain ⟨n, rfl⟩ : ∃ n, fuel = n + 1 := ⟨fuel - 1, by omega⟩
    rw [scanElements, hscan x List.mem_cons_self _ (delimited_moreElements engine [] rest)]
    rfl
  | cons y xs ih =>
    obtain ⟨n, rfl⟩ : ∃ n, fuel = n + 1 := ⟨fuel - 1, by omega⟩
    have hrest := ih (fun z hz => hscan z (List.mem_cons_of_mem _ hz))
      (Nat.lt_of_succ_lt_succ hfuel) (acc ++ [x.toValue engine])
    rw [scanElements, hscan x List.mem_cons_self _ (delimited_moreElements engine _ rest)]
    simp only [moreElements, List.cons_append, List.append_assoc, skipWs_cons (c := 44) (by decide),
      skipWs_stringify, hrest, elementValues, List.nil_append]

/-- A member of an object. -/
def memberText (key : JsStr) (x : Json) : Str := quote key ++ 58 :: x.stringify engine

theorem memberText_append (key : JsStr) (x : Json) (rest : Str) :
    memberText engine key x ++ rest =
      34 :: ((codePoints key).flatMap quotePoint ++ 34 :: 58 :: (x.stringify engine ++ rest)) := by
  simp [memberText, quote]

section

variable {scan : Str → Scan Value} (key : JsStr) {x : Json} (hx : Reads engine scan x) (n : ℕ)
  (acc : List (Str × Value)) (rest : Str)
include hx

/-- The last member of an object. -/
theorem scanMembers_last :
    scanMembers scan (n + 1) acc (memberText engine key x ++ 125 :: rest) =
      .ok (.dict (insertKey acc (codePoints key, x.toValue engine)), rest) := by
  have hread := hx (125 :: rest) (by simp [Delimited])
  rw [memberText_append, scanMembers]
  simp only [scanString_quote, skipWs_cons (c := 58) (by decide), skipWs_stringify, hread,
    skipWs_cons (c := 125) (by decide)]

/-- A member with another one behind it. -/
theorem scanMembers_more :
    scanMembers scan (n + 1) acc (memberText engine key x ++ 44 :: rest) =
      scanMembers scan n (insertKey acc (codePoints key, x.toValue engine)) (skipWs rest) := by
  have hread := hx (44 :: rest) (by simp [Delimited])
  rw [memberText_append, scanMembers]
  simp only [scanString_quote, skipWs_cons (c := 58) (by decide), skipWs_stringify, hread,
    skipWs_cons (c := 44) (by decide)]

end

/-- The members of an object are read back, when no key comes twice. -/
theorem scanMembers_stringify {scan : Str → Scan Value} {key : JsStr} {x : Json}
    {kvs : List (JsStr × Json)} (hscan : ∀ kv ∈ (key, x) :: kvs, Reads engine scan kv.2) {fuel : ℕ}
    (hfuel : kvs.length < fuel) (acc : List (Str × Value))
    (hkeys : (acc.map Prod.fst ++ ((key, x) :: kvs).map fun kv => codePoints kv.1).Nodup)
    (rest : Str) :
    scanMembers scan fuel acc (memberText engine key x ++ (moreMembers engine kvs ++ rest)) =
      .ok (.dict (acc ++ memberValues engine ((key, x) :: kvs)), rest) := by
  induction kvs generalizing key x fuel acc with
  | nil =>
    obtain ⟨n, rfl⟩ : ∃ n, fuel = n + 1 := ⟨fuel - 1, by omega⟩
    have hnew : codePoints key ∉ acc.map Prod.fst := fun h =>
      List.disjoint_of_nodup_append hkeys h List.mem_cons_self
    have hlast := scanMembers_last engine key (hscan _ List.mem_cons_self) n acc rest
    rw [insertKey_of_notMem hnew] at hlast
    exact hlast
  | cons kv kvs ih =>
    obtain ⟨n, rfl⟩ : ∃ n, fuel = n + 1 := ⟨fuel - 1, by omega⟩
    obtain ⟨key', y⟩ := kv
    have hnew : codePoints key ∉ acc.map Prod.fst := fun h =>
      List.disjoint_of_nodup_append hkeys h List.mem_cons_self
    have hrest := ih (fun z hz => hscan z (List.mem_cons_of_mem _ hz))
      (Nat.lt_of_succ_lt_succ hfuel) (acc ++ [(codePoints key, x.toValue engine)])
      (by simpa using hkeys)
    have hmore : moreMembers engine ((key', y) :: kvs) ++ rest =
        44 :: (memberText engine key' y ++ (moreMembers engine kvs ++ rest)) := by
      simp [moreMembers, memberText]
    have hquote : skipWs (memberText engine key' y ++ (moreMembers engine kvs ++ rest)) =
        memberText engine key' y ++ (moreMembers engine kvs ++ rest) := skipWs_cons (by decide) _
    rw [hmore, scanMembers_more engine key (hscan _ List.mem_cons_self), insertKey_of_notMem hnew]
    simp only [hquote, hrest, memberValues, List.append_assoc, List.singleton_append]

theorem scanOnce_array {c : ℕ} (hblank : 32 < c) (hend : c ≠ 93) (depth : ℕ) (s : Str) :
    scanOnce (depth + 1) (91 :: c :: s) =
      scanElements (scanOnce depth) (s.length + 1) [] (c :: s) := by
  simp only [scanOnce, skipWs_cons hblank]
  split
  · next heq => exact absurd (List.cons.inj heq).1 hend
  · rfl

theorem scanOnce_object (depth : ℕ) (s : Str) :
    scanOnce (depth + 1) (123 :: 34 :: s) =
      scanMembers (scanOnce depth) (s.length + 1) [] (34 :: s) := rfl

/-- A value is read back from its text. -/
theorem scanOnce_stringify {depth : ℕ} {v : Json} (hdepth : v.depth ≤ depth)
    (hkeys : v.KeysDistinct) : Reads engine (scanOnce depth) v := by
  induction depth generalizing v with
  | zero => exact absurd (hdepth.trans_lt v.one_le_depth) (lt_irrefl _)
  | succ depth ih =>
    intro rest hrest
    cases v with
    | null => rfl
    | bool b => cases b <;> rfl
    | num x =>
      cases x with
      | finite q => exact scanOnce_number _ _ hrest
      | nan => rfl
      | infinity negative => rfl
    | str s =>
      rw [Json.stringify, quote, List.cons_append, List.append_assoc, List.singleton_append,
        scanOnce, scanString_quote]
      rfl
    | arr xs =>
      cases xs with
      | nil => rfl
      | cons x xs =>
        have hscan : ∀ y ∈ x :: xs, Reads engine (scanOnce depth) y := fun y hy =>
          ih (elementsDepth_le_iff.mp (Nat.le_of_succ_le_succ hdepth) y hy)
            (elementsDistinct_iff.mp hkeys y hy)
        obtain ⟨c, s, hs, hblank, -, hend, -⟩ := stringify_head engine x
        have hfuel : xs.length < (s ++ (moreElements engine xs ++ rest)).length + 1 := by
          have := length_lt_moreElements engine xs
          simp only [List.length_append]
          omega
        have hread := scanElements_stringify engine hscan hfuel [] rest
        rw [hs, List.cons_append] at hread
        rw [Json.stringify, List.cons_append, List.append_assoc, hs, List.cons_append,
          scanOnce_array hblank hend, hread, Json.toValue, List.nil_append]
    | obj kvs =>
      cases kvs with
      | nil => rfl
      | cons kv kvs =>
        obtain ⟨key, x⟩ := kv
        have hscan : ∀ kv ∈ (key, x) :: kvs, Reads engine (scanOnce depth) kv.2 := fun kv hkv =>
          ih (membersDepth_le_iff.mp (Nat.le_of_succ_le_succ hdepth) kv hkv)
            (membersDistinct_iff.mp hkeys.2 kv hkv)
        have hnodup : (((key, x) :: kvs).map fun kv => codePoints kv.1).Nodup := by
          have := hkeys.1.map codePoints_injective
          rwa [List.map_map] at this
        have htext : (Json.obj ((key, x) :: kvs)).stringify engine ++ rest =
            123 :: (memberText engine key x ++ (moreMembers engine kvs ++ rest)) := by
          simp [Json.stringify, memberText]
        have hquote : memberText engine key x ++ (moreMembers engine kvs ++ rest) =
            34 :: (memberText engine key x ++ (moreMembers engine kvs ++ rest)).tail := rfl
        have hfuel : kvs.length <
            (memberText engine key x ++ (moreMembers engine kvs ++ rest)).tail.length + 1 := by
          have := length_lt_moreMembers engine kvs
          simp only [memberText, quote, List.length_tail, List.length_append, List.length_cons]
          omega
        rw [htext, hquote, scanOnce_object, ← hquote,
          scanMembers_stringify engine hscan hfuel [] hnodup, Json.toValue, List.nil_append]

/-- `json.loads` reads back what `JSON.stringify` wrote. -/
theorem loads_stringify {py : Python} {v : Json} (hdepth : v.depth ≤ py.recursionLimit)
    (hkeys : v.KeysDistinct) : py.loads (v.stringify engine) = .ok (v.toValue engine) := by
  have hread := scanOnce_stringify engine hdepth hkeys [] (by simp [Delimited])
  have hskip := skipWs_stringify engine v []
  rw [List.append_nil] at hread hskip
  obtain ⟨c, s, hs, -, hascii, -⟩ := stringify_head engine v
  have hmark : (v.stringify engine).head? ≠ some 0xFEFF := by
    rw [hs]
    simp only [List.head?_cons, ne_eq, Option.some.injEq]
    omega
  rw [Python.loads, if_neg hmark, hskip, hread]
  rfl

/-! ### The text on its way -/

theorem isScalar_of_mem_decimal {n c : ℕ} (hc : c ∈ decimal n) : IsScalar c := by
  have hdigit : 48 ≤ c ∧ c ≤ 57 := by simpa [isDigit] using isDigit_of_mem_decimal hc
  exact isScalar_of_lt (by omega)

theorem NumberText.isScalar_text (x : NumberText) : ∀ c ∈ x.text, IsScalar c := by
  have hsign : ∀ c ∈ (if x.negative then [45] else []), IsScalar c := by
    split
    · simpa using isScalar_of_lt (c := 45) (by decide)
    · simp
  have hfraction : ∀ c ∈ x.fractionDigits, IsScalar c := by
    intro c hc
    obtain ⟨d, -, rfl⟩ := List.mem_map.mp hc
    exact isScalar_of_lt (by have := d.isLt; omega)
  have hpoint : ∀ c ∈ (if x.fraction = [] then [] else 46 :: x.fractionDigits), IsScalar c := by
    split
    · simp
    · exact List.forall_mem_cons.mpr ⟨isScalar_of_lt (by decide), hfraction⟩
  have hexponent : ∀ c ∈ x.exponentText, IsScalar c := by
    unfold exponentText
    cases x.exponent with
    | none => simp
    | some e =>
      refine List.forall_mem_cons.mpr ⟨isScalar_of_lt (by decide), List.forall_mem_cons.mpr
        ⟨isScalar_of_lt (by split <;> decide), fun c => isScalar_of_mem_decimal⟩⟩
  simp only [text, tail, List.forall_mem_append]
  exact ⟨hsign, fun c => isScalar_of_mem_decimal, hpoint, hexponent⟩

theorem isScalar_quotePoint {c : ℕ} (hc : c < 0x110000) : ∀ d ∈ quotePoint c, IsScalar d := by
  have hescape : ∀ e < 128, ∀ d ∈ [92, e], IsScalar d := by
    intro e he
    simpa using ⟨isScalar_of_lt (c := 92) (by decide), isScalar_of_lt (c := e) (by omega)⟩
  have hhex (d : ℕ) (hd : d < 16) : IsScalar (hexPoint d) := by
    refine isScalar_of_lt ?_
    unfold hexPoint
    split <;> omega
  unfold quotePoint
  split_ifs with h8 h9 h10 h12 h13 h34 h92 hnumber
  · exact hescape 98 (by decide)
  · exact hescape 116 (by decide)
  · exact hescape 110 (by decide)
  · exact hescape 102 (by decide)
  · exact hescape 114 (by decide)
  · exact hescape 34 (by decide)
  · exact hescape 92 (by decide)
  · have hlt : c < 65536 := by
      simp only [isSurrogate, Bool.and_eq_true, decide_eq_true_eq] at hnumber
      omega
    simp only [unicodeEscape, List.forall_mem_cons]
    exact ⟨isScalar_of_lt (by decide), isScalar_of_lt (by decide), hhex _ (by omega),
      hhex _ (by omega), hhex _ (by omega), hhex _ (by omega), by simp⟩
  · rw [not_or] at hnumber
    simpa using ⟨hc, by simpa using hnumber.2⟩

theorem isScalar_quote (s : JsStr) : ∀ c ∈ quote s, IsScalar c := by
  have hmark : IsScalar 34 := isScalar_of_lt (by decide)
  have hpoints : ∀ c ∈ (codePoints s).flatMap quotePoint, IsScalar c := by
    intro c hc
    obtain ⟨d, hd, hc⟩ := List.mem_flatMap.mp hc
    exact isScalar_quotePoint (lt_of_mem_codePoints hd) c hc
  simp only [quote, List.forall_mem_cons, List.forall_mem_append]
  exact ⟨hmark, hpoints, hmark, by simp⟩

theorem isScalar_ascii {s : Str} (hs : ∀ c ∈ s, c < 128) : ∀ c ∈ s, IsScalar c := fun c hc =>
  isScalar_of_lt ((hs c hc).trans (by decide))

mutual

/-- The text of a value has a UTF-8 encoding, whatever its strings are. -/
theorem isScalar_stringify : ∀ v : Json, ∀ c ∈ v.stringify engine, IsScalar c
  | .null => isScalar_ascii (s := str "null") (by decide)
  | .bool true => isScalar_ascii (s := str "true") (by decide)
  | .bool false => isScalar_ascii (s := str "false") (by decide)
  | .num (.finite q) => (engine.print q).isScalar_text
  | .num .nan => isScalar_ascii (s := str "null") (by decide)
  | .num (.infinity _) => isScalar_ascii (s := str "null") (by decide)
  | .str s => isScalar_quote s
  | .arr [] => isScalar_ascii (s := [91, 93]) (by decide)
  | .arr (x :: xs) => by
    simp only [Json.stringify, List.forall_mem_cons, List.forall_mem_append]
    exact ⟨isScalar_of_lt (by decide), isScalar_stringify x, isScalar_moreElements xs⟩
  | .obj [] => isScalar_ascii (s := [123, 125]) (by decide)
  | .obj ((key, x) :: kvs) => by
    simp only [Json.stringify, List.forall_mem_cons, List.forall_mem_append]
    exact ⟨isScalar_of_lt (by decide), isScalar_quote key, isScalar_of_lt (by decide),
      isScalar_stringify x, isScalar_moreMembers kvs⟩

theorem isScalar_moreElements : ∀ xs : List Json, ∀ c ∈ moreElements engine xs, IsScalar c
  | [] => isScalar_ascii (s := [93]) (by decide)
  | x :: xs => by
    simp only [moreElements, List.forall_mem_cons, List.forall_mem_append]
    exact ⟨isScalar_of_lt (by decide), isScalar_stringify x, isScalar_moreElements xs⟩

theorem isScalar_moreMembers :
    ∀ kvs : List (JsStr × Json), ∀ c ∈ moreMembers engine kvs, IsScalar c
  | [] => isScalar_ascii (s := [125]) (by decide)
  | (key, x) :: kvs => by
    simp only [moreMembers, List.forall_mem_cons, List.forall_mem_append]
    exact ⟨isScalar_of_lt (by decide), isScalar_quote key, isScalar_of_lt (by decide),
      isScalar_stringify x, isScalar_moreMembers kvs⟩

end

/-- What `JSON.stringify` wrote arrives as it is, and `json.loads` reads it back. -/
theorem loads_sent {py : Python} {v : Json} (hdepth : v.depth ≤ py.recursionLimit)
    (hkeys : v.KeysDistinct) :
    py.loads (sent (codeUnits (v.stringify engine))) = .ok (v.toValue engine) := by
  rw [sent_codeUnits (isScalar_stringify engine v), loads_stringify engine hdepth hkeys]

end CodeInterpreter
