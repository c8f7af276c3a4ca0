import CodeInterpreter.Python.Value
import Mathlib.Data.List.Basic
import Mathlib.Data.UInt

/-!
# JavaScript strings and JSON values

A JavaScript string is a list of UTF-16 code units, in which a surrogate may stand alone. Its code
points are what Python reads from the same text; what leaves the process as UTF-8 (a Redis key, an
argument of a command) has the replacement character in the place of a lone surrogate.

`Json` is what `JSON.parse` returns. The string that a template literal makes of such a value is
`Json.toText`. The conversion raises a `TypeError` for an object with an own property `toString`,
which no JSON value can call, and a `RangeError` when arrays nest deeper than the stack allows or
the text is longer than a string can be; these limits are those of the `Printer`.

## Main definitions

* `JsStr`, `js`, `codePoints`, `codeUnits`, `sent`, `WellFormed`.
* `Json`, `Json.truthy`, `Property`, `Json.property`.
* `Printer`, `Json.toText`, `Property.toText`.

## Main results

* `codeUnits_codePoints`: a string is determined by its code points.
* `sent_injective`: without lone surrogates it is also determined by its UTF-8 text.
-/

namespace CodeInterpreter

/-- A JavaScript string, as the list of its code units. -/
abbrev JsStr := List UInt16

instance : LawfulBEq JsStr := inferInstance

/-- A string literal of the source. -/
def js (s : String) : JsStr := s.toList.map fun c => UInt16.ofNat c.toNat

/-! ### Code points -/

/-- A high surrogate. -/
def isHigh (c : ℕ) : Bool := 0xD800 ≤ c && c ≤ 0xDBFF

/-- A low surrogate. -/
def isLow (c : ℕ) : Bool := 0xDC00 ≤ c && c ≤ 0xDFFF

/-- The code point of a surrogate pair. -/
def pairPoint (high low : ℕ) : ℕ := 0x10000 + ((high - 0xD800) * 1024 + (low - 0xDC00))

/-- The code points of a string; a surrogate outside a pair stands for itself. -/
def codePoints : JsStr → Str
  | [] => []
  | [u] => [u.toNat]
  | u :: v :: rest =>
    if isHigh u.toNat && isLow v.toNat then pairPoint u.toNat v.toNat :: codePoints rest
    else u.toNat :: codePoints (v :: rest)

/-- The code units of a code point. -/
def pointUnits (c : ℕ) : JsStr :=
  if c < 0x10000 then [UInt16.ofNat c]
  else [UInt16.ofNat (0xD800 + (c - 0x10000) / 1024), UInt16.ofNat (0xDC00 + (c - 0x10000) % 1024)]

/-- The code units of a text. -/
def codeUnits (s : Str) : JsStr := s.flatMap pointUnits

/-- A string without lone surrogates. -/
def WellFormed (s : JsStr) : Prop := ∀ c ∈ codePoints s, isSurrogate c = false

instance (s : JsStr) : Decidable (WellFormed s) := inferInstanceAs (Decidable (∀ c ∈ _, _))

/-- The text that leaves the process: lone surrogates have no UTF-8 encoding. -/
def sent (s : JsStr) : Str := (codePoints s).map fun c => if isSurrogate c then 0xFFFD else c

theorem pointUnits_toNat (u : UInt16) : pointUnits u.toNat = [u] := by
  simp [pointUnits, u.toNat_lt]

theorem le_pairPoint (high low : ℕ) : ¬ pairPoint high low < 0x10000 := by
  unfold pairPoint
  omega

theorem pointUnits_pairPoint {u v : UInt16} (hu : isHigh u.toNat) (hv : isLow v.toNat) :
    pointUnits (pairPoint u.toNat v.toNat) = [u, v] := by
  simp only [isHigh, isLow, Bool.and_eq_true, decide_eq_true_eq] at hu hv
  have hhigh : 0xD800 + (pairPoint u.toNat v.toNat - 0x10000) / 1024 = u.toNat := by
    unfold pairPoint
    omega
  have hlow : 0xDC00 + (pairPoint u.toNat v.toNat - 0x10000) % 1024 = v.toNat := by
    unfold pairPoint
    omega
  rw [pointUnits, if_neg (le_pairPoint _ _), hhigh, hlow, UInt16.ofNat_toNat, UInt16.ofNat_toNat]

/-- A string is determined by its code points. -/
theorem codeUnits_codePoints (s : JsStr) : codeUnits (codePoints s) = s := by
  induction s using codePoints.induct with
  | case1 => rfl
  | case2 u => simp [codePoints, codeUnits, pointUnits_toNat]
  | case3 u v rest h ih =>
    rw [codePoints, if_pos h]
    rw [Bool.and_eq_true] at h
    simpa [codeUnits, pointUnits_pairPoint h.1 h.2] using ih
  | case4 u v rest h ih =>
    rw [codePoints, if_neg h]
    simpa [codeUnits, pointUnits_toNat] using ih

theorem codePoints_injective : Function.Injective codePoints :=
  Function.LeftInverse.injective codeUnits_codePoints

theorem sent_of_wellFormed {s : JsStr} (hs : WellFormed s) : sent s = codePoints s := by
  unfold sent
  rw [List.map_congr_left fun c hc => if_neg (by simp [hs c hc])]
  exact List.map_id _

/-- Strings without lone surrogates are told apart by their UTF-8 texts. -/
theorem sent_injective {s t : JsStr} (hs : WellFormed s) (ht : WellFormed t)
    (h : sent s = sent t) : s = t := by
  rw [sent_of_wellFormed hs, sent_of_wellFormed ht] at h
  exact codePoints_injective h

/-- The code points of a text below the surrogates are its code units. -/
theorem codePoints_of_lt {s : JsStr} (hs : ∀ u ∈ s, u.toNat < 0xD800) :
    codePoints s = s.map UInt16.toNat := by
  induction s using codePoints.induct with
  | case1 => rfl
  | case2 u => rfl
  | case3 u v rest h ih =>
    have hu := hs u (by simp)
    simp only [isHigh, Bool.and_eq_true, decide_eq_true_eq] at h
    omega
  | case4 u v rest h ih =>
    rw [codePoints, if_neg h, ih fun w hw => hs w (List.mem_cons_of_mem _ hw)]
    rfl

theorem wellFormed_of_lt {s : JsStr} (hs : ∀ u ∈ s, u.toNat < 0xD800) : WellFormed s := by
  intro c hc
  rw [codePoints_of_lt hs] at hc
  obtain ⟨u, hu, rfl⟩ := List.mem_map.mp hc
  have := hs u hu
  simp only [isSurrogate, Bool.and_eq_false_iff, decide_eq_false_iff_not]
  omega

/-- A code point that UTF-8 encodes. -/
def IsScalar (c : ℕ) : Prop := c < 0x110000 ∧ isSurrogate c = false

theorem isScalar_of_lt {c : ℕ} (hc : c < 0xD800) : IsScalar c := by
  refine ⟨by omega, ?_⟩
  simp only [isSurrogate, Bool.and_eq_false_iff, decide_eq_false_iff_not]
  omega

theorem lt_of_mem_codePoints {s : JsStr} {c : ℕ} (hc : c ∈ codePoints s) : c < 0x110000 := by
  induction s using codePoints.induct with
  | case1 => cases hc
  | case2 u =>
    have := u.toNat_lt
    rw [codePoints, List.mem_singleton] at hc
    omega
  | case3 u v rest h ih =>
    rw [codePoints, if_pos h, List.mem_cons] at hc
    rcases hc with hc | hc
    · simp only [isHigh, isLow, Bool.and_eq_true, decide_eq_true_eq] at h
      unfold pairPoint at hc
      omega
    · exact ih hc
  | case4 u v rest h ih =>
    rw [codePoints, if_neg h, List.mem_cons] at hc
    rcases hc with rfl | hc
    · have := u.toNat_lt
      omega
    · exact ih hc

theorem codePoints_cons {u : UInt16} (hu : isHigh u.toNat = false) (s : JsStr) :
    codePoints (u :: s) = u.toNat :: codePoints s := by
  cases s with
  | nil => rfl
  | cons v s => rw [codePoints, hu, Bool.false_and, if_neg Bool.false_ne_true]

/-- A text that UTF-8 encodes is determined by its code units. -/
theorem codePoints_codeUnits {s : Str} (hs : ∀ c ∈ s, IsScalar c) :
    codePoints (codeUnits s) = s := by
  induction s with
  | nil => rfl
  | cons c s ih =>
    obtain ⟨hlt, hsurrogate⟩ := hs c List.mem_cons_self
    have ih := ih fun d hd => hs d (List.mem_cons_of_mem _ hd)
    have hunits : codeUnits (c :: s) = pointUnits c ++ codeUnits s := List.flatMap_cons
    simp only [isSurrogate, Bool.and_eq_false_iff, decide_eq_false_iff_not] at hsurrogate
    by_cases hc : c < 0x10000
    · have hnat : (UInt16.ofNat c).toNat = c := by
        rw [UInt16.toNat_ofNat']
        exact Nat.mod_eq_of_lt hc
      have hhigh : isHigh (UInt16.ofNat c).toNat = false := by
        rw [hnat]
        simp only [isHigh, Bool.and_eq_false_iff, decide_eq_false_iff_not]
        omega
      rw [hunits, pointUnits, if_pos hc, List.singleton_append, codePoints_cons hhigh, hnat, ih]
    · have hhigh : (UInt16.ofNat (0xD800 + (c - 0x10000) / 1024)).toNat =
          0xD800 + (c - 0x10000) / 1024 := by
        rw [UInt16.toNat_ofNat']
        exact Nat.mod_eq_of_lt (by omega)
      have hlow : (UInt16.ofNat (0xDC00 + (c - 0x10000) % 1024)).toNat =
          0xDC00 + (c - 0x10000) % 1024 := by
        rw [UInt16.toNat_ofNat']
        exact Nat.mod_eq_of_lt (by omega)
      have hpair : (isHigh (0xD800 + (c - 0x10000) / 1024) &&
          isLow (0xDC00 + (c - 0x10000) % 1024)) = true := by
        simp only [isHigh, isLow, Bool.and_eq_true, decide_eq_true_eq]
        omega
      have hpoint : pairPoint (0xD800 + (c - 0x10000) / 1024) (0xDC00 + (c - 0x10000) % 1024) = c := by
        unfold pairPoint
        omega
      rw [hunits, pointUnits, if_neg hc, List.cons_append, List.singleton_append, codePoints, hhigh,
        hlow, if_pos hpair, hpoint, ih]

/-- A text that UTF-8 encodes arrives as it was sent. -/
theorem sent_codeUnits {s : Str} (hs : ∀ c ∈ s, IsScalar c) : sent (codeUnits s) = s := by
  have hpoints := codePoints_codeUnits hs
  have hwell : WellFormed (codeUnits s) := by
    intro c hc
    rw [hpoints] at hc
    exact (hs c hc).2
  rw [sent_of_wellFormed hwell, hpoints]

/-! ### JSON values -/

/-- A value that `JSON.parse` returns. The keys of an object are distinct. -/
inductive Json
  | null
  | bool (b : Bool)
  | num (x : PyFloat)
  | str (s : JsStr)
  | arr (xs : List Json)
  | obj (kvs : List (JsStr × Json))

/-- The truth value of a JSON value. -/
def Json.truthy : Json → Bool
  | .null => false
  | .bool b => b
  | .num .nan => false
  | .num (.finite q) => q != 0
  | .num _ => true
  | .str s => !s.isEmpty
  | .arr _ => true
  | .obj _ => true

/-- The own property of an object. -/
def ownProperty (kvs : List (JsStr × Json)) (key : JsStr) : Option Json :=
  (kvs.find? fun kv => kv.1 == key).map Prod.snd

/-- How the platform prints values: the texts of the numbers, how deep the stack lets the conversion
of nested arrays go, and the length of the longest string. -/
structure Printer where
  numberText : PyFloat → JsStr
  stackDepth : ℕ
  maxLength : ℕ

/-- A string that is put together; none when it would be too long. -/
def Printer.fit (printer : Printer) (s : JsStr) : Option JsStr :=
  if s.length ≤ printer.maxLength then some s else none

mutual

/-- The string of a value in a template literal, with the given depth left on the stack; none when
the conversion raises. -/
def Json.textWithin (printer : Printer) : Json → ℕ → Option JsStr
  | .null, _ => some (js "null")
  | .bool b, _ => some (if b then js "true" else js "false")
  | .num x, _ => some (printer.numberText x)
  | .str s, _ => some s
  | .arr _, 0 => none
  | .arr xs, depth + 1 => do
    let texts ← elementTexts printer xs depth
    printer.fit ([UInt16.ofNat 44].intercalate texts)
  | .obj kvs, _ =>
    if (ownProperty kvs (js "toString")).isSome then none else some (js "[object Object]")

/-- The texts of the elements of an array, in which `null` prints as nothing. -/
def elementTexts (printer : Printer) : List Json → ℕ → Option (List JsStr)
  | [], _ => some []
  | .null :: xs, depth => (elementTexts printer xs depth).map fun texts => [] :: texts
  | x :: xs, depth => do
    let text ← x.textWithin printer depth
    let texts ← elementTexts printer xs depth
    return text :: texts

end

/-- The string of a value in a template literal; none when the conversion raises. -/
def Json.toText (printer : Printer) (v : Json) : Option JsStr :=
  v.textWithin printer printer.stackDepth

/-- What a property can be: a JSON value, or the method `String.prototype.sub`. -/
inductive Property
  | json (v : Json)
  | subMethod

/-- The property of a value other than `null`, for the names `alg`, `exp`, `sub` and `tier`. Of
these, only a string inherits one. -/
def Json.property (v : Json) (name : JsStr) : Option Property :=
  match v with
  | .obj kvs => (ownProperty kvs name).map .json
  | .str _ => if name = js "sub" then some .subMethod else none
  | _ => none

/-- The truth value of a property. -/
def Property.truthy : Property → Bool
  | .json v => v.truthy
  | .subMethod => true

/-- The string of a property in a template literal. -/
def Property.toText (printer : Printer) : Property → Option JsStr
  | .json v => v.toText printer
  | .subMethod => some (js "function sub() \x7b [native code] \x7d")

end CodeInterpreter
