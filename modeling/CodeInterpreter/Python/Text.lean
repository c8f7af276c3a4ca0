import CodeInterpreter.Python.Value

/-!
# Texts of ASCII words

What the string methods of Python do with a text that consists of ASCII words with single blanks
between them: `split` returns the words, `strip` changes nothing, `lower` works word by word. The
decimal text of a number is such a word, and `int` reads the number back from it.

## Main definitions

* `IsWord`, `joinWords`.
* `removeSuffix`: the method `removesuffix`.

## Main results

* `Python.split_joinWords`, `Python.strip_joinWords`, `Python.lower_joinWords`.
* `Python.intOfStr_decimal`.
-/

namespace CodeInterpreter

/-- A word: ASCII characters that are no white space. -/
structure IsWord (w : Str) : Prop where
  ne_nil : w ≠ []
  ascii : ∀ c ∈ w, c < 128
  no_space : ∀ c ∈ w, isAsciiSpace c = false

theorem isWord_iff {w : Str} :
    IsWord w ↔ w ≠ [] ∧ ∀ c ∈ w, c < 128 ∧ isAsciiSpace c = false := by
  constructor
  · exact fun h => ⟨h.ne_nil, fun c hc => ⟨h.ascii c hc, h.no_space c hc⟩⟩
  · exact fun h => ⟨h.1, fun c hc => (h.2 c hc).1, fun c hc => (h.2 c hc).2⟩

instance (w : Str) : Decidable (IsWord w) := decidable_of_iff' _ isWord_iff

/-- Words with a blank between them. -/
def joinWords : List Str → Str
  | [] => []
  | [w] => w
  | w :: w' :: ws => w ++ 32 :: joinWords (w' :: ws)

/-- `s.removesuffix(suffix)`. -/
def removeSuffix (s suffix : Str) : Str :=
  if suffix.isSuffixOf s then s.take (s.length - suffix.length) else s

theorem removeSuffix_append (s suffix : Str) : removeSuffix (s ++ suffix) suffix = s := by
  have hsuffix : suffix.isSuffixOf (s ++ suffix) = true :=
    List.isSuffixOf_iff_suffix.mpr (List.suffix_append s suffix)
  rw [removeSuffix, if_pos hsuffix, List.length_append, Nat.add_sub_cancel, List.take_left]

/-! ### Joined words -/

theorem joinWords_append {ws ws' : List Str} (h : ws ≠ []) (h' : ws' ≠ []) :
    joinWords (ws ++ ws') = joinWords ws ++ 32 :: joinWords ws' := by
  obtain ⟨v, vs, rfl⟩ := List.exists_cons_of_ne_nil h'
  induction ws with
  | nil => exact absurd rfl h
  | cons w ws ih =>
    cases ws with
    | nil => rfl
    | cons w' ws =>
      have ih := ih (List.cons_ne_nil w' ws)
      rw [List.cons_append] at ih
      simp only [List.cons_append, joinWords, ih, List.append_assoc]

theorem mem_joinWords {ws : List Str} {c : ℕ} (hc : c ∈ joinWords ws) :
    c = 32 ∨ ∃ w ∈ ws, c ∈ w := by
  induction ws with
  | nil => cases hc
  | cons w ws ih =>
    cases ws with
    | nil => exact .inr ⟨w, List.mem_cons_self, hc⟩
    | cons w' ws =>
      rcases List.mem_append.mp hc with hc | hc
      · exact .inr ⟨w, List.mem_cons_self, hc⟩
      rcases List.mem_cons.mp hc with rfl | hc
      · exact .inl rfl
      · rcases ih hc with hc | ⟨v, hv, hc⟩
        · exact .inl hc
        · exact .inr ⟨v, List.mem_cons_of_mem w hv, hc⟩

theorem map_joinWords {f : ℕ → ℕ} (hf : f 32 = 32) (ws : List Str) :
    (joinWords ws).map f = joinWords (ws.map (List.map f)) := by
  induction ws with
  | nil => rfl
  | cons w ws ih =>
    cases ws with
    | nil => rfl
    | cons w' ws =>
      rw [joinWords, List.map_append, List.map_cons, hf, ih]
      rfl

theorem IsWord.lower {w : Str} (hw : IsWord w) : IsWord (w.map asciiLower) := by
  have hlower : ∀ c, c < 128 ∧ isAsciiSpace c = false →
      asciiLower c < 128 ∧ isAsciiSpace (asciiLower c) = false := by
    intro c hc
    unfold asciiLower
    split_ifs with hupper
    · simp only [isAsciiSpace, Bool.or_eq_false_iff, Bool.and_eq_false_iff, beq_eq_false_iff_ne,
        decide_eq_false_iff_not]
      omega
    · exact hc
  refine isWord_iff.mpr ⟨fun h => hw.ne_nil (List.map_eq_nil_iff.mp h), fun c hc => ?_⟩
  obtain ⟨c', hc', rfl⟩ := List.mem_map.mp hc
  exact hlower c' ⟨hw.ascii c' hc', hw.no_space c' hc'⟩

theorem isWord_lower {ws : List Str} (h : ∀ w ∈ ws, IsWord w) :
    ∀ w ∈ ws.map (List.map asciiLower), IsWord w := by
  intro w hw
  obtain ⟨v, hv, rfl⟩ := List.mem_map.mp hw
  exact (h v hv).lower

namespace Python

variable {py : Python} {ws : List Str} {w : Str}

theorem isspace_blank : py.isspace 32 = true := py.isspace_ascii 32 (by decide)

theorem isspace_of_isWord {c : ℕ} (hw : IsWord w) (hc : c ∈ w) : py.isspace c = false := by
  rw [py.isspace_ascii c (hw.ascii c hc)]
  exact hw.no_space c hc

theorem split_word (hw : IsWord w) : py.split w = [w] := by
  rw [split, List.splitOnP_eq_singleton fun c hc => isspace_of_isWord hw hc]
  simp [hw.ne_nil]

theorem split_append (s s' : Str) : py.split (s ++ 32 :: s') = py.split s ++ py.split s' := by
  rw [split, List.splitOnP_append_cons s s' isspace_blank, List.filter_append]
  rfl

theorem split_joinWords (h : ∀ w ∈ ws, IsWord w) : py.split (joinWords ws) = ws := by
  induction ws with
  | nil => rfl
  | cons w ws ih =>
    have ih := ih fun v hv => h v (List.mem_cons_of_mem w hv)
    have hw : py.split w = [w] := split_word (h w List.mem_cons_self)
    cases ws with
    | nil => exact hw
    | cons w' ws =>
      rw [joinWords, split_append, hw, ih]
      rfl

/-- A text that starts and ends with a word is not changed by `strip`. -/
theorem strip_eq_self {s : Str} (hhead : ∀ c ∈ s.head?, py.isspace c = false)
    (hlast : ∀ c ∈ s.getLast?, py.isspace c = false) : py.strip s = s := by
  have hdrop : s.dropWhile py.isspace = s := by
    cases s with
    | nil => rfl
    | cons c s => rw [List.dropWhile_cons, if_neg (by simp [hhead c rfl])]
  rw [strip, hdrop, List.rdropWhile_eq_self_iff]
  intro hne
  rw [hlast _ (List.getLast?_eq_some_getLast hne)]
  decide

theorem strip_joinWords (h : ∀ w ∈ ws, IsWord w) : py.strip (joinWords ws) = joinWords ws := by
  refine strip_eq_self (fun c hc => ?_) fun c hc => ?_
  · cases ws with
    | nil => cases hc
    | cons w ws =>
      have hw := h w List.mem_cons_self
      refine isspace_of_isWord hw ?_
      cases ws with
      | nil => exact List.mem_of_mem_head? hc
      | cons w' ws =>
        rw [joinWords, List.head?_append_of_ne_nil _ hw.ne_nil] at hc
        exact List.mem_of_mem_head? hc
  · rcases List.eq_nil_or_concat ws with rfl | ⟨front, w, rfl⟩
    · cases hc
    · have hw := h w (by simp)
      refine isspace_of_isWord hw ?_
      by_cases hfront : front = []
      · subst hfront
        exact List.mem_of_getLast? hc
      · rw [List.concat_eq_append, joinWords_append hfront (List.cons_ne_nil w [])] at hc
        have hlast : (joinWords front ++ 32 :: w).getLast? = w.getLast? := by
          rw [List.append_cons, List.getLast?_append_of_ne_nil _ hw.ne_nil]
        exact List.mem_of_getLast? (hlast.symm.trans hc)

theorem lower_joinWords (h : ∀ w ∈ ws, IsWord w) :
    py.lower (joinWords ws) = joinWords (ws.map (List.map asciiLower)) := by
  rw [py.lower_ascii, map_joinWords (by decide)]
  intro c hc
  rcases mem_joinWords hc with rfl | ⟨w, hw, hc⟩
  · decide
  · exact (h w hw).ascii c hc

end Python

/-! ### Decimal numbers -/

theorem decimal_eq (n : ℕ) : decimal n = (Nat.toDigits 10 n).map Char.toNat := by
  rw [decimal, str, Nat.toString_eq_repr, Nat.toList_repr]

theorem isDigit_of_mem_decimal {n c : ℕ} (hc : c ∈ decimal n) : isDigit c = true := by
  rw [decimal_eq] at hc
  obtain ⟨ch, hch, rfl⟩ := List.mem_map.mp hc
  have hdigit := Nat.isDigit_of_mem_toDigits (by decide) (by decide) hch
  simpa [isDigit, Char.isDigit, UInt32.le_iff_toNat_le] using hdigit

theorem decimal_ne_nil (n : ℕ) : decimal n ≠ [] := by
  rw [decimal_eq]
  exact fun h => Nat.toDigits_ne_nil (List.map_eq_nil_iff.mp h)

theorem isWord_decimal (n : ℕ) : IsWord (decimal n) := by
  have hbounds : ∀ c ∈ decimal n, 48 ≤ c ∧ c ≤ 57 := fun c hc => by
    simpa [isDigit] using isDigit_of_mem_decimal hc
  refine ⟨decimal_ne_nil n, fun c hc => ?_, fun c hc => ?_⟩
  · have := hbounds c hc
    omega
  · obtain ⟨hlow, hhigh⟩ := hbounds c hc
    simp only [isAsciiSpace, Bool.or_eq_false_iff, Bool.and_eq_false_iff, beq_eq_false_iff_ne,
      decide_eq_false_iff_not]
    omega

theorem lower_decimal (n : ℕ) : (decimal n).map asciiLower = decimal n := by
  refine (List.map_congr_left fun c hc => ?_).trans (List.map_id _)
  have hdigit : 48 ≤ c ∧ c ≤ 57 := by simpa [isDigit] using isDigit_of_mem_decimal hc
  exact if_neg (by omega)

theorem digitsValue_decimal (n : ℕ) : digitsValue (decimal n) = n := by
  rw [decimal_eq, digitsValue, List.foldl_map]
  exact Nat.ofDigitChars_ten_toDigits

/-- `int` reads a number back from its decimal text, up to the length that it accepts. -/
theorem Python.intOfStr_decimal (py : Python) {n : ℕ} (hn : n < 10 ^ maxStrDigits) :
    py.intOfStr (decimal n) = some (n : ℤ) := by
  have hlen : (decimal n).length ≤ maxStrDigits := by
    rw [decimal_eq, List.length_map]
    exact (Nat.length_toDigits_le_iff (by decide) (by decide)).mpr hn
  rw [py.intOfStr_digits _ (decimal_ne_nil n)
    (List.all_eq_true.mpr fun c hc => isDigit_of_mem_decimal hc) hlen, digitsValue_decimal]

end CodeInterpreter
