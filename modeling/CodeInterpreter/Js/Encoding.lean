import CodeInterpreter.Js.Value
import CodeInterpreter.Executor.Output

/-!
# UTF-8 and base64url

The bytes of a text and the text of bytes, as `Buffer.from(text)` and `toString('base64url')` write
them. The decoders read back what was written: the one of UTF-8 is that of the captured output, and
the one of base64url leaves out the characters that are not in its alphabet.

## Main definitions

* `utf8Encode`, `base64url`, `unbase64url`.

## Main results

* `decodeUtf8_utf8Encode`: the text of the bytes of a text.
* `unbase64url_base64url`: the bytes of the text of bytes.
* `base64url_ne_dot`: no character of such a text is a dot.
-/

namespace CodeInterpreter

open Executor

/-! ### UTF-8 -/

/-- The bytes of a code point. -/
def utf8Bytes (c : ℕ) : List UInt8 :=
  if c < 0x80 then [UInt8.ofNat c]
  else if c < 0x800 then [UInt8.ofNat (0xC0 + c / 64), UInt8.ofNat (0x80 + c % 64)]
  else if c < 0x10000 then
    [UInt8.ofNat (0xE0 + c / 4096), UInt8.ofNat (0x80 + c / 64 % 64), UInt8.ofNat (0x80 + c % 64)]
  else
    [UInt8.ofNat (0xF0 + c / 262144), UInt8.ofNat (0x80 + c / 4096 % 64),
      UInt8.ofNat (0x80 + c / 64 % 64), UInt8.ofNat (0x80 + c % 64)]

/-- The bytes of a text. -/
def utf8Encode (s : Str) : List UInt8 := s.flatMap utf8Bytes

theorem toNat_byte {n : ℕ} (hn : n < 256) : (UInt8.ofNat n).toNat = n := by
  rw [UInt8.toNat_ofNat']
  exact Nat.mod_eq_of_lt hn

/-- A last byte ends its character. -/
theorem step_last {value d c : ℕ} (hd : d < 64) (hc : value * 64 + d = c) :
    Decoder.step (.pending 0 0x80 0xBF value) (0x80 + d) = ([c], .idle) := by
  rw [Decoder.step, if_pos ⟨by omega, by omega⟩, Nat.add_sub_cancel_left, hc]

/-- A byte in the middle of a character. -/
theorem step_middle {more low high value d c : ℕ} (hlow : low ≤ 0x80 + d) (hhigh : 0x80 + d ≤ high)
    (hc : value * 64 + d = c) :
    Decoder.step (.pending (more + 1) low high value) (0x80 + d) =
      ([], .pending more 0x80 0xBF c) := by
  rw [Decoder.step, if_pos ⟨hlow, hhigh⟩, Nat.add_sub_cancel_left, hc]

/-- The first of two bytes. -/
theorem lead_two {c : ℕ} (hlow : 0x80 ≤ c) (hhigh : c < 0x800) :
    Decoder.lead (0xC0 + c / 64) = ([], .pending 0 0x80 0xBF (c / 64)) := by
  rw [Decoder.lead, if_neg (by omega), if_pos (by omega), Nat.add_sub_cancel_left]

/-- The first of three bytes: what may follow it excludes overlong forms and surrogates. -/
theorem lead_three {c : ℕ} (hc : IsScalar c) (hlow : 0x800 ≤ c) (hhigh : c < 0x10000) :
    ∃ low high, Decoder.lead (0xE0 + c / 4096) = ([], .pending 1 low high (c / 4096)) ∧
      low ≤ 0x80 + c / 64 % 64 ∧ 0x80 + c / 64 % 64 ≤ high := by
  have hscalar := hc.2
  simp only [isSurrogate, Bool.and_eq_false_iff, decide_eq_false_iff_not] at hscalar
  rw [Decoder.lead, if_neg (by omega), if_neg (by omega)]
  by_cases hfirst : c / 4096 = 0
  · exact ⟨0xA0, 0xBF, by rw [hfirst, if_pos rfl], by omega, by omega⟩
  rw [if_neg (by omega)]
  by_cases hsurrogate : c / 4096 = 13
  · exact ⟨0x80, 0x9F, by rw [hsurrogate, if_pos rfl], by omega, by omega⟩
  rw [if_neg (by omega), if_pos (by omega)]
  exact ⟨0x80, 0xBF, by rw [Nat.add_sub_cancel_left], by omega, by omega⟩

/-- The first of four bytes. -/
theorem lead_four {c : ℕ} (hlow : 0x10000 ≤ c) (hhigh : c < 0x110000) :
    ∃ low high, Decoder.lead (0xF0 + c / 262144) = ([], .pending 2 low high (c / 262144)) ∧
      low ≤ 0x80 + c / 4096 % 64 ∧ 0x80 + c / 4096 % 64 ≤ high := by
  rw [Decoder.lead, if_neg (by omega), if_neg (by omega), if_neg (by omega), if_neg (by omega),
    if_neg (by omega)]
  by_cases hfirst : c / 262144 = 0
  · exact ⟨0x90, 0xBF, by rw [hfirst, if_pos rfl], by omega, by omega⟩
  rw [if_neg (by omega)]
  by_cases hlast : c / 262144 = 4
  · exact ⟨0x80, 0x8F, by rw [hlast, if_neg (by omega), if_pos rfl], by omega, by omega⟩
  rw [if_pos (by omega)]
  exact ⟨0x80, 0xBF, by rw [Nat.add_sub_cancel_left], by omega, by omega⟩

/-- The decoder reads one character from its bytes. -/
theorem feed_utf8Bytes {c : ℕ} (hc : IsScalar c) :
    Decoder.idle.feed (utf8Bytes c) = ([c], .idle) := by
  have hlt := hc.1
  have hlast : Decoder.step (.pending 0 0x80 0xBF (c / 64)) (0x80 + c % 64) = ([c], .idle) :=
    step_last (by omega) (by omega)
  unfold utf8Bytes
  split_ifs with h1 h2 h3
  · have hlead : Decoder.lead c = ([c], .idle) := by rw [Decoder.lead, if_pos h1]
    simp only [Decoder.feed, toNat_byte (show c < 256 by omega), Decoder.step, hlead,
      List.append_nil]
  · have hlead := lead_two (not_lt.mp h1) h2
    simp only [Decoder.feed, toNat_byte (show 0xC0 + c / 64 < 256 by omega),
      toNat_byte (show 0x80 + c % 64 < 256 by omega)]
    rw [Decoder.step, hlead, hlast]
    rfl
  · obtain ⟨low, high, hlead, hlow, hhigh⟩ := lead_three hc (not_lt.mp h2) h3
    have hmiddle : Decoder.step (.pending 1 low high (c / 4096)) (0x80 + c / 64 % 64) =
        ([], .pending 0 0x80 0xBF (c / 64)) := step_middle hlow hhigh (by omega)
    simp only [Decoder.feed, toNat_byte (show 0xE0 + c / 4096 < 256 by omega),
      toNat_byte (show 0x80 + c / 64 % 64 < 256 by omega),
      toNat_byte (show 0x80 + c % 64 < 256 by omega)]
    rw [Decoder.step, hlead, hmiddle, hlast]
    rfl
  · obtain ⟨low, high, hlead, hlow, hhigh⟩ := lead_four (not_lt.mp h3) hlt
    have hsecond : Decoder.step (.pending 2 low high (c / 262144)) (0x80 + c / 4096 % 64) =
        ([], .pending 1 0x80 0xBF (c / 4096)) := step_middle hlow hhigh (by omega)
    have hthird : Decoder.step (.pending 1 0x80 0xBF (c / 4096)) (0x80 + c / 64 % 64) =
        ([], .pending 0 0x80 0xBF (c / 64)) := step_middle (by omega) (by omega) (by omega)
    simp only [Decoder.feed, toNat_byte (show 0xF0 + c / 262144 < 256 by omega),
      toNat_byte (show 0x80 + c / 4096 % 64 < 256 by omega),
      toNat_byte (show 0x80 + c / 64 % 64 < 256 by omega),
      toNat_byte (show 0x80 + c % 64 < 256 by omega)]
    rw [Decoder.step, hlead, hsecond, hthird, hlast]
    rfl

theorem feed_utf8Encode {s : Str} (hs : ∀ c ∈ s, IsScalar c) :
    Decoder.idle.feed (utf8Encode s) = (s, .idle) := by
  induction s with
  | nil => rfl
  | cons c s ih =>
    have hc := feed_utf8Bytes (hs c List.mem_cons_self)
    have ih := ih fun d hd => hs d (List.mem_cons_of_mem _ hd)
    rw [utf8Encode] at ih ⊢
    rw [List.flatMap_cons, Decoder.feed_append, hc, ih]
    rfl

/-- The bytes of a text are decoded to the text. -/
theorem decodeUtf8_utf8Encode {s : Str} (hs : ∀ c ∈ s, IsScalar c) :
    decodeUtf8 (utf8Encode s) = s := by
  rw [decodeUtf8, Decoder.decode, if_pos rfl, feed_utf8Encode hs]
  exact List.append_nil s

/-! ### Base64url -/

/-- The character of six bits. -/
def sextetChar (n : ℕ) : UInt16 :=
  if n < 26 then UInt16.ofNat (65 + n)
  else if n < 52 then UInt16.ofNat (71 + n)
  else if n < 62 then UInt16.ofNat (n - 4)
  else if n = 62 then 45
  else 95

/-- The six bits of a character of the alphabet. -/
def charSextet (u : UInt16) : Option ℕ :=
  let c := u.toNat
  if 65 ≤ c ∧ c ≤ 90 then some (c - 65)
  else if 97 ≤ c ∧ c ≤ 122 then some (c - 71)
  else if 48 ≤ c ∧ c ≤ 57 then some (c + 4)
  else if c = 45 then some 62
  else if c = 95 then some 63
  else none

/-- Three bytes as four groups of six bits; the last group of fewer is filled with zeros. -/
def sextets : List UInt8 → List ℕ
  | a :: b :: c :: rest =>
    [a.toNat / 4, a.toNat % 4 * 16 + b.toNat / 16, b.toNat % 16 * 4 + c.toNat / 64, c.toNat % 64] ++
      sextets rest
  | [a, b] => [a.toNat / 4, a.toNat % 4 * 16 + b.toNat / 16, b.toNat % 16 * 4]
  | [a] => [a.toNat / 4, a.toNat % 4 * 16]
  | [] => []

/-- The bytes of groups of six bits. -/
def octets : List ℕ → List UInt8
  | a :: b :: c :: d :: rest =>
    [UInt8.ofNat (a * 4 + b / 16), UInt8.ofNat (b % 16 * 16 + c / 4), UInt8.ofNat (c % 4 * 64 + d)] ++
      octets rest
  | [a, b, c] => [UInt8.ofNat (a * 4 + b / 16), UInt8.ofNat (b % 16 * 16 + c / 4)]
  | [a, b] => [UInt8.ofNat (a * 4 + b / 16)]
  | _ => []

/-- `Buffer.toString('base64url')`, which writes no padding. -/
def base64url (bytes : List UInt8) : JsStr := (sextets bytes).map sextetChar

/-- The bytes of a base64url text. -/
def unbase64url (s : JsStr) : List UInt8 := octets (s.filterMap charSextet)

theorem charSextet_sextetChar : ∀ n < 64, charSextet (sextetChar n) = some n := by decide

theorem sextetChar_ne_dot : ∀ n < 64, sextetChar n ≠ 46 := by decide

theorem lt_of_mem_sextets {bytes : List UInt8} {n : ℕ} (hn : n ∈ sextets bytes) : n < 64 := by
  induction bytes using sextets.induct with
  | case1 a b c rest ih =>
    have ha := a.toNat_lt
    have hb := b.toNat_lt
    have hc := c.toNat_lt
    simp only [sextets, List.mem_append, List.mem_cons, List.not_mem_nil, or_false] at hn
    rcases hn with (rfl | rfl | rfl | rfl) | hn
    · omega
    · omega
    · omega
    · omega
    · exact ih hn
  | case2 a b =>
    have ha := a.toNat_lt
    have hb := b.toNat_lt
    simp only [sextets, List.mem_cons, List.not_mem_nil, or_false] at hn
    omega
  | case3 a =>
    have ha := a.toNat_lt
    simp only [sextets, List.mem_cons, List.not_mem_nil, or_false] at hn
    omega
  | case4 => cases hn

theorem ofNat_eq {n : ℕ} {a : UInt8} (h : n = a.toNat) : UInt8.ofNat n = a := by
  rw [h, UInt8.ofNat_toNat]

theorem octets_sextets (bytes : List UInt8) : octets (sextets bytes) = bytes := by
  induction bytes using sextets.induct with
  | case1 a b c rest ih =>
    have ha := a.toNat_lt
    have hb := b.toNat_lt
    have hc := c.toNat_lt
    simp only [sextets, List.cons_append, List.nil_append, octets, ih, List.cons.injEq, and_true]
    exact ⟨ofNat_eq (by omega), ofNat_eq (by omega), ofNat_eq (by omega)⟩
  | case2 a b =>
    have ha := a.toNat_lt
    have hb := b.toNat_lt
    simp only [sextets, octets, List.cons.injEq, and_true]
    exact ⟨ofNat_eq (by omega), ofNat_eq (by omega)⟩
  | case3 a =>
    have ha := a.toNat_lt
    simp only [sextets, octets, List.cons.injEq, and_true]
    exact ofNat_eq (by omega)
  | case4 => rfl

/-- A base64url text is decoded to its bytes. -/
theorem unbase64url_base64url (bytes : List UInt8) : unbase64url (base64url bytes) = bytes := by
  have hvalues : (base64url bytes).filterMap charSextet = sextets bytes := by
    rw [base64url, List.filterMap_map]
    calc (sextets bytes).filterMap (charSextet ∘ sextetChar)
        = (sextets bytes).filterMap some :=
          List.filterMap_congr fun n hn => charSextet_sextetChar n (lt_of_mem_sextets hn)
      _ = sextets bytes := List.filterMap_some
  rw [unbase64url, hvalues, octets_sextets]

theorem base64url_ne_dot {bytes : List UInt8} {u : UInt16} (hu : u ∈ base64url bytes) : u ≠ 46 := by
  obtain ⟨n, hn, rfl⟩ := List.mem_map.mp hu
  exact sextetChar_ne_dot n (lt_of_mem_sextets hn)

end CodeInterpreter
