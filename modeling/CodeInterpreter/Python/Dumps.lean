import CodeInterpreter.Js.Object
import CodeInterpreter.Js.Zod

/-!
# `json.dumps`

The worker writes JSON by `json.dumps` with its defaults: a blank after each comma and colon, and
ASCII only, so a code point outside of ASCII becomes the escape of its number, beyond sixteen bits
the escapes of a surrogate pair. An integer of more than `maxStrDigits` digits is refused, and so is
too deep a nesting.

`json.loads` reads such a text back, and so does `JSON.parse`, up to what the numbers of JavaScript
can hold. The only strings that do not come back are those in which a high surrogate stands before
a low one; no such string was ever read from JSON.

How Python prints a finite double is left open (`FloatRepr`), except that the text reads back.

## Main definitions

* `asciiPoint`, `asciiString`, `FloatRepr`, `encode`, `Python.dumps`.
* `Readable`, `Value.Regular`: the strings and values that are read back.

## Main results

* `loads_dumps`, `parse_dumps`: the text of a value is read back.
-/

namespace CodeInterpreter

/-! ### The encoder -/

/-- The escape of a code point by its number, beyond sixteen bits as a surrogate pair. -/
def escapePoint (c : ℕ) : Str :=
  if c < 0x10000 then unicodeEscape c
  else
    unicodeEscape (0xD800 + (c - 0x10000) / 1024) ++ unicodeEscape (0xDC00 + (c - 0x10000) % 1024)

/-- One code point inside a string literal. -/
def asciiPoint (c : ℕ) : Str :=
  if c = 34 then [92, 34]
  else if c = 92 then [92, 92]
  else if c = 10 then [92, 110]
  else if c = 13 then [92, 114]
  else if c = 9 then [92, 116]
  else if c = 12 then [92, 102]
  else if c = 8 then [92, 98]
  else if 32 ≤ c ∧ c ≤ 126 then [c]
  else escapePoint c

/-- `encode_basestring_ascii`. -/
def asciiString (s : Str) : Str := 34 :: (s.flatMap asciiPoint ++ [34])

/-- `float.__repr__` on finite doubles: an ASCII text that starts with a digit or a sign and reads
back. -/
structure FloatRepr where
  text : ℚ → Str
  head : ∀ q, ∃ c s, text q = c :: s ∧ (isDigit c = true ∨ c = 45)
  ascii : ∀ q, ∀ c ∈ text q, c < 128
  reads : ∀ q, IsDouble q → ∀ depth rest, Delimited rest →
    scanOnce (depth + 1) (text q ++ rest) = .ok (.float (.finite q), rest)

/-- The text of a double. -/
def FloatRepr.print (repr : FloatRepr) : PyFloat → Str
  | .nan => str "NaN"
  | .infinity negative => if negative then str "-Infinity" else str "Infinity"
  | .finite q => repr.text q

/-- `int.__repr__`. -/
def intText (n : ℤ) : Str := (if n < 0 then [45] else []) ++ decimal n.natAbs

/-- The text of a member of a `dict`. -/
def memberOf (key t : Str) : Str := asciiString key ++ (str ": " ++ t)

/-- The texts of the elements of a list, or of the members of a `dict`. -/
def joined (ts : List Str) : Str := (str ", ").intercalate ts

/-- One value. The first argument is how many more nested values the interpreter's recursion
limit admits. -/
def encode (repr : FloatRepr) : ℕ → Value → Except Exc Str
  | 0, _ => .error .recursionError
  | _ + 1, .none => .ok (str "null")
  | _ + 1, .bool b => .ok (if b then str "true" else str "false")
  | _ + 1, .int n =>
    if maxStrDigits < (decimal n.natAbs).length then .error .valueError else .ok (intText n)
  | _ + 1, .float x => .ok (repr.print x)
  | _ + 1, .str s => .ok (asciiString s)
  | depth + 1, .list xs => do
    let ts ← xs.mapM (encode repr depth)
    return 91 :: (joined ts ++ [93])
  | depth + 1, .dict kvs => do
    let ts ← kvs.mapM fun kv => (encode repr depth kv.2).map (memberOf kv.1)
    return 123 :: (joined ts ++ [125])

/-- `json.dumps` of the standard library. -/
def Python.dumps (py : Python) (repr : FloatRepr) (v : Value) : Except Exc Str :=
  encode repr py.recursionLimit v

/-! ### Reading strings -/

/-- A string that is read back: no high surrogate stands before a low one. -/
structure Readable (s : Str) : Prop where
  noPair : NoPair s
  bounded : ∀ c ∈ s, c < 0x110000

theorem readable_codePoints (s : JsStr) : Readable (codePoints s) :=
  ⟨codePoints_noPair s, fun _ => lt_of_mem_codePoints⟩

/-- A text that UTF-8 encodes is read back. -/
theorem readable_of_isScalar {s : Str} (hs : ∀ c ∈ s, IsScalar c) : Readable s := by
  have h := readable_codePoints (codeUnits s)
  rwa [codePoints_codeUnits hs] at h

/-- A surrogate pair is read as one code point. -/
theorem scanString_pair {c : ℕ} (hle : 0x10000 ≤ c) (hlt : c < 0x110000) {high : Option ℕ}
    (s : Str) :
    scanString high (unicodeEscape (0xD800 + (c - 0x10000) / 1024) ++
      (unicodeEscape (0xDC00 + (c - 0x10000) % 1024) ++ s)) =
      flush high (consChar c (scanString none s)) := by
  generalize hu : 0xD800 + (c - 0x10000) / 1024 = u
  generalize hv : 0xDC00 + (c - 0x10000) % 1024 = v
  have hhigh : isHigh u = true := by
    simp only [isHigh, Bool.and_eq_true, decide_eq_true_eq]
    omega
  have hlow : isLow u = false := by
    simp only [isLow, Bool.and_eq_false_iff, decide_eq_false_iff_not]
    omega
  have hv' : 0xDC00 ≤ v ∧ v ≤ 0xDFFF := by omega
  have hpoint : 0x10000 + ((u - 0xD800) * 1024 + (v - 0xDC00)) = c := by omega
  have hhex := hex4_unicodeEscape (c := v) (by omega)
  rw [scanString_unicodeEscape (by omega) fun _ => hlow, scanPoint, if_pos hhigh]
  simp [unicodeEscape, scanString, hhex, hv', hpoint]

/-- An escaped code point; a low surrogate must not follow a high one. -/
theorem scanString_asciiPoint {c : ℕ} (hc : c < 0x110000) {high : Option ℕ}
    (hhigh : high.isSome → isLow c = false) (s : Str) :
    scanString high (asciiPoint c ++ s) = flush high (scanPoint c s) := by
  unfold asciiPoint
  split_ifs with h34 h92 h10 h13 h9 h12 h8 hplain
  · subst h34; rfl
  · subst h92; rfl
  · subst h10; rfl
  · subst h13; rfl
  · subst h9; rfl
  · subst h12; rfl
  · subst h8; rfl
  · have hhighless : isHigh c = false := by
      simp only [isHigh, Bool.and_eq_false_iff, decide_eq_false_iff_not]
      omega
    rw [List.singleton_append, scanString_plain (by omega) h34 h92, scanPoint, hhighless]
    rfl
  · unfold escapePoint
    split_ifs with hsmall
    · exact scanString_unicodeEscape hsmall hhigh s
    · have hhighless : isHigh c = false := by
        simp only [isHigh, Bool.and_eq_false_iff, decide_eq_false_iff_not]
        omega
      rw [List.append_assoc, scanString_pair (by omega) hc, scanPoint, hhighless]
      rfl

/-- Escaped code points are read back. -/
theorem scanString_ascii {s : Str} (hs : Readable s) (high : Option ℕ)
    (hhigh : high.isSome → ∀ c ∈ s.head?, isLow c = false) (rest : Str) :
    scanString high (s.flatMap asciiPoint ++ 34 :: rest) = flush high (.ok (s, rest)) := by
  induction s generalizing high with
  | nil => rfl
  | cons c s ih =>
    obtain ⟨hnext, htail⟩ := List.isChain_cons.mp hs.noPair
    obtain ⟨hc, hbounded⟩ := List.forall_mem_cons.mp hs.bounded
    have ih := ih ⟨htail, hbounded⟩
    rw [List.flatMap_cons, List.append_assoc, scanString_asciiPoint hc fun h => hhigh h c rfl,
      scanPoint]
    by_cases hsurrogate : isHigh c
    · rw [if_pos hsurrogate, ih _ fun _ d hd => by simpa [hsurrogate] using hnext d hd]
      rfl
    · rw [if_neg hsurrogate, ih none (by simp)]
      rfl

theorem scanString_asciiString {s : Str} (hs : Readable s) (rest : Str) :
    scanString none (s.flatMap asciiPoint ++ 34 :: rest) = .ok (s, rest) :=
  scanString_ascii hs none (by simp) rest

/-! ### Reading integers -/

section

variable {rest : Str} (h : Delimited rest)
include h

theorem scanFraction_of_delimited : scanFraction rest = (none, rest) := by
  unfold scanFraction
  split
  · have := h 46 rfl
    omega
  · rfl

theorem scanExponent_of_delimited : scanExponent rest = (none, rest) := by
  refine scanExponent_of_ne fun c hc => ?_
  rcases h c hc with rfl | rfl | rfl <;> decide

theorem scanTail_decimal (sign : ℤ) {k : ℕ} (hk : (decimal k).length ≤ maxStrDigits) :
    scanTail sign (decimal k) rest = .ok (.int (sign * k), rest) := by
  simp only [scanTail, scanFraction_of_delimited h, scanExponent_of_delimited h,
    Option.isNone_none, Bool.and_self, if_true, if_neg (Nat.not_lt.mpr hk), digitsValue_decimal]

theorem scanNumber_decimal (sign : ℤ) {k : ℕ} (hk : (decimal k).length ≤ maxStrDigits) :
    scanNumber sign (decimal k ++ rest) = some (.ok (.int (sign * k), rest)) := by
  have htail := scanTail_decimal h sign hk
  by_cases hzero : k = 0
  · rw [hzero] at htail ⊢
    exact congrArg some htail
  · obtain ⟨c, ds, hds⟩ := List.exists_cons_of_ne_nil (decimal_ne_nil k)
    have hdigits : ∀ d ∈ c :: ds, isDigit d = true := fun d hd =>
      isDigit_of_mem_decimal (hds ▸ hd)
    have hhead : c ≠ 48 := by
      have := decimal_head hzero
      rw [hds] at this
      simpa using this
    obtain ⟨htake, hdrop⟩ := span_digits (fun d hd => hdigits d (List.mem_cons_of_mem _ hd))
      h.not_digit
    rw [hds] at htail
    rw [hds, List.cons_append]
    unfold scanNumber
    split
    · next heq => exact absurd (List.cons.inj heq).1 hhead
    · next heq =>
      obtain ⟨rfl, rfl⟩ := List.cons.inj heq
      rw [if_pos (hdigits _ List.mem_cons_self), htake, hdrop, htail]
    · next heq => cases heq

theorem scanOnce_int (n : ℤ) (hn : (decimal n.natAbs).length ≤ maxStrDigits) (depth : ℕ) :
    scanOnce (depth + 1) (intText n ++ rest) = .ok (.int n, rest) := by
  obtain ⟨c, ds, hds⟩ := List.exists_cons_of_ne_nil (decimal_ne_nil n.natAbs)
  have hc : isDigit c = true := isDigit_of_mem_decimal (hds ▸ List.mem_cons_self)
  have hbounds : 48 ≤ c ∧ c ≤ 57 := by simpa [isDigit] using hc
  obtain ⟨hplain, hminus⟩ := scanConstant_digit hc (ds ++ rest)
  by_cases hneg : n < 0
  · have htext : intText n ++ rest = 45 :: c :: (ds ++ rest) := by simp [intText, hneg, hds]
    have hvalue : -1 * (n.natAbs : ℤ) = n := by omega
    have hnumber := scanNumber_decimal h (-1) hn
    rw [hds, List.cons_append, hvalue] at hnumber
    rw [htext, scanOnce_of_not_constant (by decide) (by decide) (by decide) hminus, if_pos rfl,
      hnumber, Option.getD_some]
  · have htext : intText n ++ rest = c :: (ds ++ rest) := by simp [intText, hneg, hds]
    have hvalue : 1 * (n.natAbs : ℤ) = n := by omega
    have hnumber := scanNumber_decimal h 1 hn
    have hne : c ≠ 34 ∧ c ≠ 123 ∧ c ≠ 91 ∧ c ≠ 45 := by omega
    rw [hds, List.cons_append, hvalue] at hnumber
    rw [htext, scanOnce_of_not_constant hne.1 hne.2.1 hne.2.2.1 hplain, if_neg hne.2.2.2, hnumber,
      Option.getD_some]

end

/-! ### Reading values -/

mutual

/-- A value that is read back from its text: its strings are readable, the keys of a `dict` are
distinct, and its finite floats are doubles. -/
def Value.Regular : Value → Prop
  | .float (.finite q) => IsDouble q
  | .str s => Readable s
  | .list xs => ElementsRegular xs
  | .dict kvs => (kvs.map Prod.fst).Nodup ∧ MembersRegular kvs
  | _ => True

/-- The same for the elements of a list. -/
def ElementsRegular : List Value → Prop
  | [] => True
  | x :: xs => x.Regular ∧ ElementsRegular xs

/-- The same for the members of a `dict`. -/
def MembersRegular : List (Str × Value) → Prop
  | [] => True
  | (key, x) :: kvs => (Readable key ∧ x.Regular) ∧ MembersRegular kvs

end

theorem elementsRegular_iff {xs : List Value} : ElementsRegular xs ↔ ∀ x ∈ xs, x.Regular := by
  induction xs with
  | nil => simp [ElementsRegular]
  | cons x xs ih => rw [ElementsRegular, ih, List.forall_mem_cons]

theorem membersRegular_iff {kvs : List (Str × Value)} :
    MembersRegular kvs ↔ ∀ kv ∈ kvs, Readable kv.1 ∧ kv.2.Regular := by
  induction kvs with
  | nil => simp [MembersRegular]
  | cons kv kvs ih => rw [MembersRegular, ih, List.forall_mem_cons]

theorem mapM_eq_ok {α β : Type} {f : α → Except Exc β} {xs : List α} {ys : List β} :
    xs.mapM f = .ok ys ↔ List.Forall₂ (fun x y => f x = .ok y) xs ys := by
  induction xs generalizing ys with
  | nil =>
    rw [List.mapM_nil, List.forall₂_nil_left_iff]
    exact ⟨fun h => (Except.ok.inj h).symm, fun h => h ▸ rfl⟩
  | cons x xs ih =>
    rw [List.mapM_cons]
    cases hx : f x with
    | error e =>
      constructor
      · intro h
        cases h
      · rintro (- | ⟨hy, -⟩)
        rw [hx] at hy
        cases hy
    | ok y =>
      cases hxs : xs.mapM f with
      | error e =>
        constructor
        · intro h
          cases h
        · rintro (- | ⟨-, hys⟩)
          rw [ih.mpr hys] at hxs
          cases hxs
      | ok ys' =>
        constructor
        · intro h
          obtain rfl : y :: ys' = ys := Except.ok.inj h
          exact .cons hx (ih.mp hxs)
        · intro h
          cases h with
          | cons hy hys =>
            obtain rfl := Except.ok.inj (hx.symm.trans hy)
            obtain rfl := Except.ok.inj (hxs.symm.trans (ih.mpr hys))
            rfl

theorem exists_of_forall₂ {α β : Type} {R : α → β → Prop} {xs : List α} {ys : List β}
    (h : List.Forall₂ R xs ys) {y : β} (hy : y ∈ ys) : ∃ x ∈ xs, R x y := by
  induction h with
  | nil => cases hy
  | @cons x y' xs ys hx _ ih =>
    rcases List.mem_cons.mp hy with rfl | hy
    · exact ⟨x, List.mem_cons_self, hx⟩
    · obtain ⟨x', hx', hR⟩ := ih hy
      exact ⟨x', List.mem_cons_of_mem _ hx', hR⟩

/-- A list that is related part by part is so by any relation its parts have. -/
theorem forall₂_of_mem {α β : Type} {R S : α → β → Prop} {xs : List α} {ys : List β}
    (h : List.Forall₂ R xs ys) (hRS : ∀ x ∈ xs, ∀ y ∈ ys, R x y → S x y) :
    List.Forall₂ S xs ys :=
  List.forall₂_iff_zip.mpr ⟨h.length_eq, fun hmem =>
    hRS _ (List.of_mem_zip hmem).1 _ (List.of_mem_zip hmem).2 ((List.forall₂_iff_zip.mp h).2 hmem)⟩

theorem joined_cons (t t' : Str) (ts : List Str) :
    joined (t :: t' :: ts) = t ++ 44 :: 32 :: joined (t' :: ts) := by
  rw [joined, List.intercalate_cons_cons, List.append_assoc]
  rfl

theorem length_le_joined {t : Str} {ts : List Str} (ht : t ∈ ts) :
    t.length ≤ (joined ts).length := by
  induction ts with
  | nil => cases ht
  | cons t' ts ih =>
    cases ts with
    | nil =>
      obtain rfl := List.mem_singleton.mp ht
      rw [joined, List.intercalate_singleton]
    | cons t'' ts =>
      rw [joined_cons, List.length_append, List.length_cons, List.length_cons]
      rcases List.mem_cons.mp ht with rfl | ht
      · omega
      · have := ih ht
        omega

theorem length_le_joined_cons (t : Str) (ts : List Str) :
    ts.length ≤ (joined (t :: ts)).length := by
  induction ts generalizing t with
  | nil => exact Nat.zero_le _
  | cons t' ts ih =>
    have := ih t'
    rw [joined_cons, List.length_append, List.length_cons, List.length_cons, List.length_cons]
    omega

/-- A text that a scanner reads as a value, whatever comes behind it in a larger text. -/
structure ReadsBack (scan : Str → Scan Value) (t : Str) (v : Value) : Prop where
  starts : ∃ c s, t = c :: s ∧ 32 < c ∧ c < 128 ∧ c ≠ 93
  reads : ∀ rest, Delimited rest → scan (t ++ rest) = .ok (v, rest)

theorem ReadsBack.skipWs {scan : Str → Scan Value} {t : Str} {v : Value} (h : ReadsBack scan t v)
    (rest : Str) : skipWs (t ++ rest) = t ++ rest := by
  obtain ⟨c, s, rfl, hc, -⟩ := h.starts
  exact skipWs_cons hc _

theorem skipWs_blank (s : Str) : skipWs (32 :: s) = skipWs s := rfl

theorem joined_head {t : Str} {c : ℕ} {s : Str} (ht : t = c :: s) (ts : List Str) :
    ∃ s', joined (t :: ts) = c :: s' := by
  cases ts with
  | nil => exact ⟨s, by rw [joined, List.intercalate_singleton, ht]⟩
  | cons t' ts => exact ⟨_, by rw [joined_cons, ht, List.cons_append]⟩

/-- The elements of a list are read back one after the other. -/
theorem scanElements_joined {scan : Str → Scan Value} {v : Value} {t : Str} {vs : List Value}
    {ts : List Str} (hv : ReadsBack scan t v)
    (hvs : List.Forall₂ (fun v t => ReadsBack scan t v) vs ts)
    {fuel : ℕ} (hfuel : ts.length < fuel) (acc : List Value) (rest : Str) :
    scanElements scan fuel acc (joined (t :: ts) ++ 93 :: rest) =
      .ok (.list (acc ++ v :: vs), rest) := by
  induction hvs generalizing v t fuel acc with
  | nil =>
    obtain ⟨n, rfl⟩ : ∃ n, fuel = n + 1 := ⟨fuel - 1, by omega⟩
    rw [joined, List.intercalate_singleton, scanElements, hv.reads _ (by simp [Delimited])]
    simp only [skipWs_cons (c := 93) (by decide)]
  | @cons v' t' vs ts hv' _ ih =>
    obtain ⟨n, rfl⟩ : ∃ n, fuel = n + 1 := ⟨fuel - 1, by omega⟩
    obtain ⟨c, s, ht', hc, -⟩ := hv'.starts
    obtain ⟨s', hs'⟩ := joined_head ht' ts
    have hrest := ih hv' (Nat.lt_of_succ_lt_succ hfuel) (acc ++ [v])
    rw [joined_cons, List.append_assoc, scanElements, hv.reads _ (by simp [Delimited])]
    simp only [List.cons_append, skipWs_cons (c := 44) (by decide), skipWs_blank]
    rw [hs'] at hrest ⊢
    rw [List.cons_append, skipWs_cons hc, ← List.cons_append, hrest, List.append_assoc,
      List.singleton_append]

/-- A member is read back up to what comes behind its value. -/
theorem scanMembers_member {scan : Str → Scan Value} {key : Str} {t : Str} {v : Value}
    (hkey : Readable key) (hv : ReadsBack scan t v) (n : ℕ) (acc : List (Str × Value)) {c : ℕ}
    (hc : c = 125 ∨ c = 44) (rest : Str) :
    scanMembers scan (n + 1) acc (memberOf key t ++ c :: rest) =
      if c = 125 then .ok (.dict (insertKey acc (key, v)), rest)
      else scanMembers scan n (insertKey acc (key, v)) (skipWs rest) := by
  have htext : memberOf key t ++ c :: rest =
      34 :: (key.flatMap asciiPoint ++ 34 :: 58 :: 32 :: (t ++ c :: rest)) := by
    simp [memberOf, asciiString, str]
  have hread := hv.reads (c :: rest) (by rcases hc with rfl | rfl <;> simp [Delimited])
  rw [htext, scanMembers]
  simp only [scanString_asciiString hkey, skipWs_cons (c := 58) (by decide), skipWs_blank,
    hv.skipWs, hread]
  rcases hc with rfl | rfl
  · simp only [skipWs_cons (c := 125) (by decide), if_true]
  · simp only [skipWs_cons (c := 44) (by decide), Nat.reduceEqDiff, if_false]

/-- The members of a `dict` are read back, when no key comes twice. -/
theorem scanMembers_joined {scan : Str → Scan Value} {kv : Str × Value} {t : Str}
    {kvs : List (Str × Value)} {ts : List Str}
    (hkv : Readable kv.1 ∧ ∃ t', t = memberOf kv.1 t' ∧ ReadsBack scan t' kv.2)
    (hkvs : List.Forall₂ (fun kv t => Readable kv.1 ∧
      ∃ t', t = memberOf kv.1 t' ∧ ReadsBack scan t' kv.2) kvs ts)
    {fuel : ℕ} (hfuel : ts.length < fuel) (acc : List (Str × Value))
    (hkeys : (acc.map Prod.fst ++ (kv :: kvs).map Prod.fst).Nodup) (rest : Str) :
    scanMembers scan fuel acc (joined (t :: ts) ++ 125 :: rest) =
      .ok (.dict (acc ++ kv :: kvs), rest) := by
  induction hkvs generalizing kv t fuel acc with
  | nil =>
    obtain ⟨n, rfl⟩ : ∃ n, fuel = n + 1 := ⟨fuel - 1, by omega⟩
    obtain ⟨hkey, t', rfl, hv⟩ := hkv
    have hnew : kv.1 ∉ acc.map Prod.fst := fun h =>
      List.disjoint_of_nodup_append hkeys h List.mem_cons_self
    rw [joined, List.intercalate_singleton, scanMembers_member hkey hv n acc (.inl rfl), if_pos rfl,
      insertKey_of_notMem hnew]
  | @cons kv' t'' kvs ts hkv' _ ih =>
    obtain ⟨n, rfl⟩ : ∃ n, fuel = n + 1 := ⟨fuel - 1, by omega⟩
    obtain ⟨hkey, t', rfl, hv⟩ := hkv
    have hnew : kv.1 ∉ acc.map Prod.fst := fun h =>
      List.disjoint_of_nodup_append hkeys h List.mem_cons_self
    have hrest := ih hkv' (Nat.lt_of_succ_lt_succ hfuel) (acc ++ [kv]) (by simpa using hkeys)
    obtain ⟨-, u, rfl, -⟩ := hkv'
    obtain ⟨s', hs'⟩ := joined_head (t := memberOf kv'.1 u) (c := 34) rfl ts
    rw [joined_cons, List.append_assoc, List.cons_append,
      scanMembers_member hkey hv n acc (.inr rfl), if_neg (by decide), insertKey_of_notMem hnew,
      List.cons_append, skipWs_blank]
    rw [hs'] at hrest ⊢
    rw [List.cons_append, skipWs_cons (by decide), ← List.cons_append, hrest, List.append_assoc,
      List.singleton_append]

theorem encode_list {repr : FloatRepr} {depth : ℕ} {xs : List Value} {t : Str} :
    encode repr (depth + 1) (.list xs) = .ok t ↔
      ∃ ts, List.Forall₂ (fun x t => encode repr depth x = .ok t) xs ts ∧
        t = 91 :: (joined ts ++ [93]) := by
  simp only [← mapM_eq_ok]
  rw [encode]
  cases xs.mapM (encode repr depth) with
  | error e => exact ⟨fun h => (by cases h), fun ⟨_, h, _⟩ => (by cases h)⟩
  | ok ts =>
    refine ⟨fun h => ⟨ts, rfl, (Except.ok.inj h).symm⟩, ?_⟩
    rintro ⟨ts', h, rfl⟩
    rw [Except.ok.inj h]
    rfl

theorem encode_dict {repr : FloatRepr} {depth : ℕ} {kvs : List (Str × Value)} {t : Str} :
    encode repr (depth + 1) (.dict kvs) = .ok t ↔
      ∃ ts, List.Forall₂ (fun kv t => ∃ t', encode repr depth kv.2 = .ok t' ∧
        t = memberOf kv.1 t') kvs ts ∧ t = 123 :: (joined ts ++ [125]) := by
  have hmember (kv : Str × Value) (t : Str) :
      (encode repr depth kv.2).map (memberOf kv.1) = .ok t ↔
        ∃ t', encode repr depth kv.2 = .ok t' ∧ t = memberOf kv.1 t' := by
    cases encode repr depth kv.2 with
    | error e => exact ⟨fun h => (by cases h), fun ⟨_, h, _⟩ => (by cases h)⟩
    | ok t' =>
      refine ⟨fun h => ⟨t', rfl, (Except.ok.inj h).symm⟩, ?_⟩
      rintro ⟨t'', h, rfl⟩
      rw [Except.ok.inj h]
      rfl
  simp only [← hmember, ← mapM_eq_ok]
  rw [encode]
  cases kvs.mapM fun kv => (encode repr depth kv.2).map (memberOf kv.1) with
  | error e => exact ⟨fun h => (by cases h), fun ⟨_, h, _⟩ => (by cases h)⟩
  | ok ts =>
    refine ⟨fun h => ⟨ts, rfl, (Except.ok.inj h).symm⟩, ?_⟩
    rintro ⟨ts', h, rfl⟩
    rw [Except.ok.inj h]
    rfl

theorem intText_head (n : ℤ) :
    ∃ c s, intText n = c :: s ∧ 32 < c ∧ c < 128 ∧ c ≠ 93 := by
  obtain ⟨c, ds, hds⟩ := List.exists_cons_of_ne_nil (decimal_ne_nil n.natAbs)
  have hc : isDigit c = true := isDigit_of_mem_decimal (hds ▸ List.mem_cons_self)
  have hbounds : 48 ≤ c ∧ c ≤ 57 := by simpa [isDigit] using hc
  rw [intText, hds]
  split
  · exact ⟨_, _, rfl, by decide⟩
  · exact ⟨_, _, rfl, by omega⟩

theorem FloatRepr.print_head (repr : FloatRepr) (x : PyFloat) :
    ∃ c s, repr.print x = c :: s ∧ 32 < c ∧ c < 128 ∧ c ≠ 93 := by
  cases x with
  | nan => exact ⟨_, _, rfl, by decide⟩
  | infinity negative => cases negative <;> exact ⟨_, _, rfl, by decide⟩
  | finite q =>
    obtain ⟨c, s, hs, hc⟩ := repr.head q
    refine ⟨c, s, hs, ?_⟩
    simp only [isDigit, Bool.and_eq_true, decide_eq_true_eq] at hc
    omega

/-- The depth and the lengths left for the parts of a list or of a `dict`. -/
theorem within_part {depth n left right : ℕ} {t : Str} {ts : List Str} (ht : t ∈ ts)
    (hlimit : depth + 1 ≤ n + 1 ∨ (left :: (joined ts ++ [right])).length ≤ n + 1) :
    depth ≤ n ∨ t.length ≤ n := by
  have := length_le_joined ht
  simp only [List.length_cons, List.length_append, List.length_nil] at hlimit
  omega

/-- The fuel of `JSONArray` and of `JSONObject`, the length of the rest, is enough for the parts. -/
theorem parts_lt_fuel {t s : Str} {c : ℕ} {ts : List Str} (hs : joined (t :: ts) = c :: s)
    (right : ℕ) (rest : Str) : ts.length < (s ++ right :: rest).length + 1 := by
  have := length_le_joined_cons t ts
  rw [hs] at this
  simp only [List.length_cons, List.length_append] at this ⊢
  omega

/-- A list whose elements are read back. -/
theorem readsBack_list {n : ℕ} {xs : List Value} {ts : List Str}
    (h : List.Forall₂ (fun x t => ReadsBack (scanOnce n) t x) xs ts) :
    ReadsBack (scanOnce (n + 1)) (91 :: (joined ts ++ [93])) (.list xs) := by
  refine ⟨⟨_, _, rfl, by decide⟩, fun rest _ => ?_⟩
  rw [List.cons_append, List.append_assoc, List.singleton_append]
  cases h with
  | nil => rfl
  | cons hx hxs =>
    obtain ⟨c, s, hs, hblank, -, hend⟩ := hx.starts
    obtain ⟨s', hs'⟩ := joined_head hs _
    have hscan := scanElements_joined hx hxs (parts_lt_fuel hs' 93 rest) [] rest
    rw [hs', List.cons_append] at hscan ⊢
    rw [scanOnce_array hblank hend, hscan, List.nil_append]

/-- A `dict` whose members are read back, when no key comes twice. -/
theorem readsBack_dict {n : ℕ} {kvs : List (Str × Value)} {ts : List Str}
    (hkeys : (kvs.map Prod.fst).Nodup)
    (h : List.Forall₂ (fun kv t => Readable kv.1 ∧
      ∃ t', t = memberOf kv.1 t' ∧ ReadsBack (scanOnce n) t' kv.2) kvs ts) :
    ReadsBack (scanOnce (n + 1)) (123 :: (joined ts ++ [125])) (.dict kvs) := by
  refine ⟨⟨_, _, rfl, by decide⟩, fun rest _ => ?_⟩
  rw [List.cons_append, List.append_assoc, List.singleton_append]
  cases h with
  | nil => rfl
  | @cons kv t kvs ts hkv hkvs =>
    obtain ⟨-, u, rfl, -⟩ := id hkv
    obtain ⟨s', hs'⟩ := joined_head (t := memberOf kv.1 u) (c := 34) rfl ts
    have hscan := scanMembers_joined hkv hkvs (parts_lt_fuel hs' 125 rest) [] (by simpa using hkeys)
      rest
    rw [hs', List.cons_append] at hscan ⊢
    rw [scanOnce_object, hscan, List.nil_append]

/-- The text of a value is read back at the depth at which it was written, and at any depth that is
not below its length. -/
theorem readsBack_encode {repr : FloatRepr} {depth : ℕ} {v : Value} {t : Str}
    (h : encode repr depth v = .ok t) (hv : v.Regular) {limit : ℕ}
    (hlimit : depth ≤ limit ∨ t.length ≤ limit) : ReadsBack (scanOnce limit) t v := by
  induction depth generalizing v t limit with
  | zero => cases h
  | succ depth ih =>
    have hpos (hstart : t ≠ []) : ∃ n, limit = n + 1 := by
      have := List.length_pos_iff.mpr hstart
      exact ⟨limit - 1, by omega⟩
    cases v with
    | none =>
      obtain rfl := Except.ok.inj h
      obtain ⟨n, rfl⟩ := hpos (by decide)
      exact ⟨⟨_, _, rfl, by decide⟩, fun rest _ => rfl⟩
    | bool b =>
      obtain rfl := Except.ok.inj h
      cases b
      · obtain ⟨n, rfl⟩ := hpos (by decide)
        exact ⟨⟨_, _, rfl, by decide⟩, fun rest _ => rfl⟩
      · obtain ⟨n, rfl⟩ := hpos (by decide)
        exact ⟨⟨_, _, rfl, by decide⟩, fun rest _ => rfl⟩
    | int k =>
      rw [encode] at h
      split at h
      · cases h
      · next hk =>
        obtain rfl := Except.ok.inj h
        have hhead := intText_head k
        obtain ⟨n, rfl⟩ := hpos (by obtain ⟨c, s, hs, -⟩ := hhead; simp [hs])
        exact ⟨hhead, fun rest hrest => scanOnce_int hrest k (Nat.not_lt.mp hk) n⟩
    | float x =>
      obtain rfl := Except.ok.inj h
      have hhead := repr.print_head x
      obtain ⟨n, rfl⟩ := hpos (by obtain ⟨c, s, hs, -⟩ := hhead; simp [hs])
      refine ⟨hhead, fun rest hrest => ?_⟩
      cases x with
      | nan => rfl
      | infinity negative => cases negative <;> rfl
      | finite q => exact repr.reads q hv n rest hrest
    | str s =>
      obtain rfl := Except.ok.inj h
      obtain ⟨n, rfl⟩ := hpos (List.cons_ne_nil _ _)
      refine ⟨⟨_, _, rfl, by decide⟩, fun rest _ => ?_⟩
      rw [asciiString, List.cons_append, List.append_assoc, List.singleton_append, scanOnce,
        scanString_asciiString hv]
      rfl
    | list xs =>
      obtain ⟨ts, hts, rfl⟩ := encode_list.mp h
      obtain ⟨n, rfl⟩ := hpos (List.cons_ne_nil _ _)
      have hxs := elementsRegular_iff.mp hv
      exact readsBack_list (forall₂_of_mem hts fun x hx t ht hxt =>
        ih hxt (hxs x hx) (within_part ht hlimit))
    | dict kvs =>
      obtain ⟨ts, hts, rfl⟩ := encode_dict.mp h
      obtain ⟨n, rfl⟩ := hpos (List.cons_ne_nil _ _)
      refine readsBack_dict hv.1 (forall₂_of_mem hts fun kv hkv t ht hkvt => ?_)
      obtain ⟨u, hu, rfl⟩ := hkvt
      obtain ⟨hkey, hval⟩ := membersRegular_iff.mp hv.2 kv hkv
      have hle := within_part ht hlimit
      refine ⟨hkey, u, rfl, ih hu hval ?_⟩
      simp only [memberOf, List.length_append] at hle
      omega

theorem ReadsBack.loads {py : Python} {t : Str} {v : Value}
    (h : ReadsBack (scanOnce py.recursionLimit) t v) : py.loads t = .ok v := by
  have hread := h.reads [] (by simp [Delimited])
  have hskip := h.skipWs []
  rw [List.append_nil] at hread hskip
  obtain ⟨c, s, hs, -, hascii, -⟩ := h.starts
  have hmark : t.head? ≠ some 0xFEFF := by
    rw [hs]
    simp only [List.head?_cons, ne_eq, Option.some.injEq]
    omega
  rw [Python.loads, if_neg hmark, hskip, hread]
  rfl

/-- `json.loads` reads back what `json.dumps` wrote. -/
theorem loads_dumps {py : Python} {repr : FloatRepr} {v : Value} {t : Str}
    (h : py.dumps repr v = .ok t) (hv : v.Regular) : py.loads t = .ok v :=
  (readsBack_encode h hv (.inl le_rfl)).loads

/-! ### Reading in JavaScript -/

theorem ascii_unicodeEscape (c : ℕ) (hc : c < 65536) : ∀ d ∈ unicodeEscape c, d < 128 := by
  have hhex (d : ℕ) (hd : d < 16) : hexPoint d < 128 := by
    unfold hexPoint
    split <;> omega
  simp only [unicodeEscape, List.forall_mem_cons]
  exact ⟨by decide, by decide, hhex _ (by omega), hhex _ (by omega), hhex _ (by omega),
    hhex _ (by omega), by simp⟩

theorem ascii_asciiPoint {c : ℕ} (hc : c < 0x110000) : ∀ d ∈ asciiPoint c, d < 128 := by
  unfold asciiPoint
  split_ifs with h34 h92 h10 h13 h9 h12 h8 hplain
  all_goals try decide
  · simpa using by omega
  · unfold escapePoint
    split_ifs with hsmall
    · exact ascii_unicodeEscape c hsmall
    · exact List.forall_mem_append.mpr
        ⟨ascii_unicodeEscape _ (by omega), ascii_unicodeEscape _ (by omega)⟩

theorem ascii_asciiString {s : Str} (hs : ∀ c ∈ s, c < 0x110000) :
    ∀ d ∈ asciiString s, d < 128 := by
  simp only [asciiString, List.forall_mem_cons, List.forall_mem_append]
  refine ⟨by decide, fun d hd => ?_, by decide, by simp⟩
  obtain ⟨c, hc, hd⟩ := List.mem_flatMap.mp hd
  exact ascii_asciiPoint (hs c hc) d hd

theorem ascii_joined {ts : List Str} (h : ∀ t ∈ ts, ∀ d ∈ t, d < 128) :
    ∀ d ∈ joined ts, d < 128 := by
  induction ts with
  | nil => simp [joined]
  | cons t ts ih =>
    obtain ⟨ht, hts⟩ := List.forall_mem_cons.mp h
    cases ts with
    | nil =>
      rw [joined, List.intercalate_singleton]
      exact ht
    | cons t' ts =>
      simp only [joined_cons, List.forall_mem_append, List.forall_mem_cons]
      exact ⟨ht, by decide, by decide, ih hts⟩

/-- The text of a value is ASCII. -/
theorem ascii_encode {repr : FloatRepr} {depth : ℕ} {v : Value} {t : Str}
    (h : encode repr depth v = .ok t) (hv : v.Regular) : ∀ d ∈ t, d < 128 := by
  induction depth generalizing v t with
  | zero => cases h
  | succ depth ih =>
    cases v with
    | none =>
      obtain rfl := Except.ok.inj h
      decide
    | bool b =>
      obtain rfl := Except.ok.inj h
      cases b <;> decide
    | int k =>
      rw [encode] at h
      split at h
      · cases h
      · obtain rfl := Except.ok.inj h
        have hdigits : ∀ d ∈ decimal k.natAbs, d < 128 := fun d hd => by
          have := isDigit_of_mem_decimal hd
          simp only [isDigit, Bool.and_eq_true, decide_eq_true_eq] at this
          omega
        refine List.forall_mem_append.mpr ⟨?_, hdigits⟩
        split <;> decide
    | float x =>
      obtain rfl := Except.ok.inj h
      cases x with
      | nan => exact show ∀ d ∈ str "NaN", d < 128 by decide
      | infinity negative =>
        cases negative
        · exact show ∀ d ∈ str "Infinity", d < 128 by decide
        · exact show ∀ d ∈ str "-Infinity", d < 128 by decide
      | finite q => exact repr.ascii q
    | str s =>
      obtain rfl := Except.ok.inj h
      exact ascii_asciiString hv.bounded
    | list xs =>
      obtain ⟨ts, hts, rfl⟩ := encode_list.mp h
      have helements : ∀ t ∈ ts, ∀ d ∈ t, d < 128 := by
        intro t ht
        obtain ⟨x, hx, hxt⟩ := exists_of_forall₂ hts ht
        exact ih hxt (elementsRegular_iff.mp hv x hx)
      simp only [List.forall_mem_cons, List.forall_mem_append]
      exact ⟨by decide, ascii_joined helements, by decide, by simp⟩
    | dict kvs =>
      obtain ⟨ts, hts, rfl⟩ := encode_dict.mp h
      have hmembers : ∀ t ∈ ts, ∀ d ∈ t, d < 128 := by
        intro t ht
        obtain ⟨kv, hkv, u, hu, rfl⟩ := exists_of_forall₂ hts ht
        obtain ⟨hkey, hval⟩ := membersRegular_iff.mp hv.2 kv hkv
        simp only [memberOf, List.forall_mem_append]
        exact ⟨ascii_asciiString hkey.bounded, by decide, ih hu hval⟩
      simp only [List.forall_mem_cons, List.forall_mem_append]
      exact ⟨by decide, ascii_joined hmembers, by decide, by simp⟩

/-- `JSON.parse` reads what `json.dumps` wrote, up to the precision of its numbers. -/
theorem parse_dumps {py : Python} {repr : FloatRepr} {v : Value} {t : Str}
    (h : py.dumps repr v = .ok t) (hv : v.Regular) : parse (codeUnits t) = some v.toJson := by
  have hscalar : ∀ c ∈ t, IsScalar c := isScalar_ascii (ascii_encode h hv)
  have hread :
      Python.loads { samplePython with recursionLimit := (codeUnits t).length } t = .ok v :=
    (readsBack_encode h hv (.inr (length_le_codeUnits t))).loads
  rw [parse, codePoints_codeUnits hscalar, hread]
  rfl

/-! ### Writing what was read -/

theorem exists_forall₂ {α β : Type} {R : α → β → Prop} {xs : List α} (h : ∀ x ∈ xs, ∃ y, R x y) :
    ∃ ys, List.Forall₂ R xs ys := by
  induction xs with
  | nil => exact ⟨[], .nil⟩
  | cons x xs ih =>
    obtain ⟨⟨y, hy⟩, hxs⟩ := List.forall_mem_cons.mp h
    obtain ⟨ys, hys⟩ := ih hxs
    exact ⟨y :: ys, .cons hy hys⟩

theorem encode_list_ok {repr : FloatRepr} {depth : ℕ} {xs : List Value}
    (h : ∀ x ∈ xs, ∃ t, encode repr depth x = .ok t) :
    ∃ t, encode repr (depth + 1) (.list xs) = .ok t := by
  obtain ⟨ts, hts⟩ := exists_forall₂ h
  exact ⟨_, encode_list.mpr ⟨ts, hts, rfl⟩⟩

theorem encode_dict_ok {repr : FloatRepr} {depth : ℕ} {kvs : List (Str × Value)}
    (h : ∀ kv ∈ kvs, ∃ t, encode repr depth kv.2 = .ok t) :
    ∃ t, encode repr (depth + 1) (.dict kvs) = .ok t := by
  obtain ⟨ts, hts⟩ := exists_forall₂
    (R := fun kv t => ∃ t', encode repr depth kv.2 = .ok t' ∧ t = memberOf kv.1 t')
    fun kv hkv => (h kv hkv).imp' (memberOf kv.1) fun t ht => ⟨t, ht, rfl⟩
  exact ⟨_, encode_dict.mpr ⟨ts, hts, rfl⟩⟩

theorem encode_dict_members {repr : FloatRepr} {depth : ℕ} {kvs : List (Str × Value)}
    (h : ∃ t, encode repr (depth + 1) (.dict kvs) = .ok t) :
    ∀ kv ∈ kvs, ∃ t, encode repr depth kv.2 = .ok t := by
  obtain ⟨t, ht⟩ := h
  obtain ⟨ts, hts, -⟩ := encode_dict.mp ht
  have hback : ∀ (kvs : List (Str × Value)) ts, List.Forall₂ (fun kv t =>
      ∃ t', encode repr depth kv.2 = .ok t' ∧ t = memberOf kv.1 t') kvs ts →
      ∀ kv ∈ kvs, ∃ t, encode repr depth kv.2 = .ok t := by
    intro kvs ts h
    induction h with
    | nil => simp
    | cons hkv _ ih => exact List.forall_mem_cons.mpr ⟨hkv.imp fun _ h => h.1, ih⟩
  exact hback kvs ts hts

theorem elementValues_eq_map (engine : Engine) (xs : List Json) :
    elementValues engine xs = xs.map fun x => x.toValue engine := by
  induction xs with
  | nil => rfl
  | cons x xs ih => rw [elementValues, ih, List.map_cons]

theorem memberValues_eq_map (engine : Engine) (kvs : List (JsStr × Json)) :
    memberValues engine kvs = kvs.map fun kv => (codePoints kv.1, kv.2.toValue engine) := by
  induction kvs with
  | nil => rfl
  | cons kv kvs ih => rw [memberValues, ih, List.map_cons]

theorem elementsProper_iff {xs : List Json} : ElementsProper xs ↔ ∀ x ∈ xs, x.Proper := by
  induction xs with
  | nil => simp [ElementsProper]
  | cons x xs ih => rw [ElementsProper, ih, List.forall_mem_cons]

section

variable {engine : Engine}

theorem NumberText.short_value (x : NumberText) {n : ℤ} (h : x.value = .int n) :
    (decimal n.natAbs).length ≤ maxStrDigits := by
  have hn : n.natAbs = x.integer := by
    by_cases hx : x.fraction = [] ∧ x.exponent = none
    · simp only [NumberText.value, if_pos hx, Value.int.injEq] at h
      split at h <;> omega
    · simp only [NumberText.value, if_neg hx, reduceCtorEq] at h
  rw [hn]
  exact length_decimal_le x.integer_lt

/-- A value that came from JavaScript is written again without an error. -/
theorem encode_toValue_ok (repr : FloatRepr) {depth : ℕ} {v : Json} (h : v.depth ≤ depth) :
    ∃ t, encode repr depth (v.toValue engine) = .ok t := by
  induction depth generalizing v with
  | zero => exact absurd (h.trans_lt v.one_le_depth) (lt_irrefl _)
  | succ depth ih =>
    cases v with
    | null => exact ⟨_, rfl⟩
    | bool b => exact ⟨_, rfl⟩
    | num x =>
      cases x with
      | nan => exact ⟨_, rfl⟩
      | infinity negative => exact ⟨_, rfl⟩
      | finite q =>
        rw [Json.toValue]
        rcases (engine.print q).value_cases with ⟨n, hn⟩ | ⟨y, hy⟩
        · have hshort := (engine.print q).short_value hn
          rw [hn]
          exact ⟨_, if_neg (Nat.not_lt.mpr hshort)⟩
        · rw [hy]
          exact ⟨_, rfl⟩
    | str s => exact ⟨_, rfl⟩
    | arr xs =>
      rw [Json.toValue, elementValues_eq_map]
      refine encode_list_ok fun x hx => ?_
      obtain ⟨y, hy, rfl⟩ := List.mem_map.mp hx
      exact ih (elementsDepth_le_iff.mp (Nat.le_of_succ_le_succ h) y hy)
    | obj kvs =>
      rw [Json.toValue, memberValues_eq_map]
      refine encode_dict_ok fun kv hkv => ?_
      obtain ⟨y, hy, rfl⟩ := List.mem_map.mp hkv
      exact ih (membersDepth_le_iff.mp (Nat.le_of_succ_le_succ h) y hy)

/-- A value that came from JavaScript is read back. -/
theorem regular_toValue (hengine : engine.Exact) {v : Json} (hv : v.Proper) :
    (v.toValue engine).Regular := by
  generalize hn : v.depth = n
  induction n using Nat.strong_induction_on generalizing v with
  | _ n ih =>
    subst hn
    cases v with
    | null => trivial
    | bool b => trivial
    | num x =>
      cases x with
      | nan => exact hv.elim
      | infinity negative => exact hv.elim
      | finite q =>
        have hread := hengine q hv
        rw [Json.toValue]
        rcases (engine.print q).value_cases with ⟨n, hn⟩ | ⟨y, hy⟩
        · rw [hn]
          trivial
        · rw [hy, Value.toJson, Json.num.injEq] at hread
          rw [hy, hread]
          exact hv
    | str s => exact readable_codePoints s
    | arr xs =>
      rw [Json.toValue, elementValues_eq_map]
      refine elementsRegular_iff.mpr fun x hx => ?_
      obtain ⟨y, hy, rfl⟩ := List.mem_map.mp hx
      have hdepth := elementsDepth_le_iff.mp (le_refl (elementsDepth xs)) y hy
      exact ih y.depth (Nat.lt_succ_of_le hdepth) (elementsProper_iff.mp hv y hy) rfl
    | obj kvs =>
      rw [Json.toValue, memberValues_eq_map]
      refine ⟨?_, membersRegular_iff.mpr fun kv hkv => ?_⟩
      · have := hv.1.nodup.map codePoints_injective
        simpa [Function.comp_def] using this
      · obtain ⟨y, hy, rfl⟩ := List.mem_map.mp hkv
        have hdepth := membersDepth_le_iff.mp (le_refl (membersDepth kvs)) y hy
        exact ⟨readable_codePoints y.1,
          ih y.2.depth (Nat.lt_succ_of_le hdepth) (membersProper_iff.mp hv.2 y hy) rfl⟩

end

/-! ### Floats whose texts read back -/

theorem NumberText.text_head (x : NumberText) :
    ∃ c s, x.text = c :: s ∧ (isDigit c = true ∨ c = 45) := by
  obtain ⟨c, ds, hds⟩ := List.exists_cons_of_ne_nil (decimal_ne_nil x.integer)
  have hc : isDigit c = true := isDigit_of_mem_decimal (hds ▸ List.mem_cons_self)
  rw [NumberText.text, hds]
  cases x.negative
  · exact ⟨c, _, rfl, .inl hc⟩
  · exact ⟨45, _, rfl, .inr rfl⟩

theorem NumberText.ascii_text (x : NumberText) : ∀ c ∈ x.text, c < 128 := by
  have hdecimal : ∀ n, ∀ c ∈ decimal n, c < 128 := fun n c hc => by
    have := isDigit_of_mem_decimal hc
    simp only [isDigit, Bool.and_eq_true, decide_eq_true_eq] at this
    omega
  have hsign : ∀ c ∈ (if x.negative then [45] else []), c < 128 := by
    cases x.negative <;> simp
  have hfraction : ∀ c ∈ x.fractionDigits, c < 128 := by
    intro c hc
    obtain ⟨d, -, rfl⟩ := List.mem_map.mp hc
    have := d.isLt
    omega
  have hpoint : ∀ c ∈ (if x.fraction = [] then [] else 46 :: x.fractionDigits), c < 128 := by
    split
    · simp
    · exact List.forall_mem_cons.mpr ⟨by decide, hfraction⟩
  have hexponent : ∀ c ∈ x.exponentText, c < 128 := by
    unfold exponentText
    cases x.exponent with
    | none => simp
    | some e =>
      exact List.forall_mem_cons.mpr ⟨by decide, List.forall_mem_cons.mpr
        ⟨by split <;> decide, hdecimal _⟩⟩
  simp only [text, tail, List.forall_mem_append]
  exact ⟨hsign, hdecimal _, hpoint, hexponent⟩

theorem zero_lt_base : 0 < 10 := by decide

/-- The digit `0`. -/
def zeroDigit : Fin 10 := ⟨0, zero_lt_base⟩

/-- The number that is read from a whole number with a zero after the point. -/
theorem value_point_zero {n : ℕ} (hn : n < 10 ^ 21) :
    NumberText.value ⟨false, n, hn, [zeroDigit], none⟩ = .float (.ofRat n) := by
  have hdigits : digitsValue (decimal n ++ [48]) = 10 * n := by
    have hvalue := digitsValue_decimal n
    rw [digitsValue] at hvalue ⊢
    rw [List.foldl_append, hvalue]
    rfl
  have hnumber : ((1 : ℤ) : ℚ) * ((10 * n : ℕ) : ℚ) * 10 ^ ((0 : ℤ) - 1) = n := by
    push_cast
    rw [zpow_neg_one]
    ring
  simp only [NumberText.value, reduceCtorEq, false_and, if_false, NumberText.fractionDigits,
    List.map_cons, List.map_nil, Option.getD_none, List.length_cons, List.length_nil]
  rw [show decimal n ++ [zeroDigit.val + 48] = decimal n ++ [48] from rfl, hdigits]
  exact congrArg (fun q => Value.float (.ofRat q)) (by exact_mod_cast hnumber)

/-- An interpreter that prints whole numbers below `10 ^ 21` with a zero after the point, and other
doubles with all of their digits. -/
def exactText (q : ℚ) : NumberText :=
  if h : q.num.natAbs < 10 ^ 21 ∧ q = (q.num.natAbs : ℚ) then
    ⟨false, q.num.natAbs, h.1, [zeroDigit], none⟩
  else exactEngine.print q

theorem value_exactText {q : ℚ} (hq : IsDouble q) :
    (exactText q).value = .float (.finite q) := by
  have hread := exactEngine_exact q hq
  by_cases h : q.num.natAbs < 10 ^ 21 ∧ q = (q.num.natAbs : ℚ)
  · rw [exactText, dif_pos h, value_point_zero, ← h.2, ofRat_of_isDouble hq]
  · rw [exactText, dif_neg h]
    rcases (exactEngine.print q).value_cases with ⟨n, hn⟩ | ⟨y, hy⟩
    · have hprint : (exactEngine.print q).exponent ≠ none := by
        rw [show exactEngine.print q = _ from dif_neg fun hq => h hq.symm]
        exact Option.some_ne_none _
      rw [NumberText.value, if_neg fun h => hprint h.2] at hn
      cases hn
    · rw [hy, Value.toJson, Json.num.injEq] at hread
      rw [hy, hread]

/-- The texts of such an interpreter. -/
def exactRepr : FloatRepr where
  text q := (exactText q).text
  head q := (exactText q).text_head
  ascii q := (exactText q).ascii_text
  reads q hq depth rest hrest := by rw [scanOnce_number _ depth hrest, value_exactText hq]

end CodeInterpreter
