import CodeInterpreter.Python.Text

/-!
# The reaper's age test

The reaper (`worker/sandbox/cleanup.py`) decides from the texts that `docker ps` prints whether a
container is an orphan. It reads the age of a running container from its status and that of a
created one from the time since its creation; a text whose age it cannot read is left alone.

`humanDuration` is how Docker prints a duration. Its longest units are months and years, which the
table of the reaper does not have.

## Main definitions

* `parseRelativeAge`, `parseUpAge`, `shouldReap`: the functions of the source.
* `humanDuration`, `Note`: the texts that Docker prints.
* `humanAge`: the age that the reaper reads from such a text.

## Main results

* `parseRelativeAge_human`: what `_parse_relative_age` reads from a text of Docker.
* `shouldReap_exact_iff`: the age test is exact below two months and never beyond.
* `months_kept`: a container that has been up for two months is kept.
-/

namespace CodeInterpreter.Executor

/-! ### The functions of the source -/

/-- `ORPHAN_AGE_SECONDS`. -/
def orphanAgeSeconds : ℤ := 300

/-- `_UNIT_SECONDS`. -/
def unitSeconds : List (Str × ℤ) :=
  [(str "second", 1), (str "minute", 60), (str "hour", 3600), (str "day", 86400),
    (str "week", 604800)]

variable (py : Python)

/-- `_safe_int`. -/
def safeInt (value : Str) : Option ℤ := py.intOfStr value

/-- The text that `_parse_relative_age` looks at. -/
def relativeText (text : Str) : Str :=
  py.strip (removeSuffix (py.lower (py.strip text)) (str " ago"))

/-- The quantity that the first word of the text stands for. -/
def quantityOf (qtyWord : Str) : Option ℤ :=
  if qtyWord = str "a" ∨ qtyWord = str "an" then some 1 else safeInt py qtyWord

/-- The age that `_parse_relative_age` reads from the words of the text. -/
def ageOfParts : List Str → Option ℤ
  | [] => none
  | qtyWord :: parts => do
    let quantity ← quantityOf py qtyWord
    let unit ← unitSeconds.find? fun u => parts.any fun p => u.1.isPrefixOf p
    return quantity * unit.2

/-- `_parse_relative_age`. -/
def parseRelativeAge (text : Str) : Option ℤ :=
  let text := relativeText py text
  if (str "less than").isPrefixOf text then some 0
  else
    ageOfParts py (py.split
      (if (str "about ").isPrefixOf text then text.drop (str "about ").length else text))

/-- `_parse_up_age`. -/
def parseUpAge (status : Str) : Option ℤ := parseRelativeAge py (status.drop (str "Up ").length)

/-- `should_reap`. -/
def shouldReap (status runningFor : Str) : Bool :=
  let stripped := py.strip status
  if (str "Created").isPrefixOf stripped then
    (if runningFor = [] then none else parseRelativeAge py runningFor).any (orphanAgeSeconds ≤ ·)
  else if [str "Exited", str "Dead", str "Removal"].any (List.isPrefixOf · stripped) then true
  else if (str "Up").isPrefixOf stripped then (parseUpAge py stripped).any (orphanAgeSeconds ≤ ·)
  else false

/-! ### The texts of Docker -/

/-- The text of a duration in seconds, as Docker's `HumanDuration` prints it. The hours are rounded
to the nearest number, all else is truncated. -/
def humanDuration (d : ℕ) : Str :=
  let minutes := d / 60
  let hours := (d + 1800) / 3600
  if d < 1 then str "Less than a second"
  else if d = 1 then str "1 second"
  else if d < 60 then decimal d ++ str " seconds"
  else if minutes = 1 then str "About a minute"
  else if minutes < 60 then decimal minutes ++ str " minutes"
  else if hours = 1 then str "About an hour"
  else if hours < 48 then decimal hours ++ str " hours"
  else if hours < 24 * 7 * 2 then decimal (hours / 24) ++ str " days"
  else if hours < 24 * 30 * 2 then decimal (hours / 24 / 7) ++ str " weeks"
  else if hours < 24 * 365 * 2 then decimal (hours / 24 / 30) ++ str " months"
  else decimal (d / 3600 / 24 / 365) ++ str " years"

/-- What Docker adds to the status of a running container that is paused or has a health check. -/
inductive Note
  | paused
  | starting
  | healthy
  | unhealthy
  deriving DecidableEq

/-- The words of a note. -/
def Note.words : Note → List Str
  | .paused => [str "(Paused)"]
  | .starting => [str "(health:", str "starting)"]
  | .healthy => [str "(healthy)"]
  | .unhealthy => [str "(unhealthy)"]

/-- The text of an optional note. -/
def noteText : Option Note → Str
  | none => []
  | some note => 32 :: joinWords note.words

/-- The age that the reaper reads from the text of a duration: none from months and years. -/
def humanAge (d : ℕ) : Option ℤ :=
  let minutes := d / 60
  let hours := (d + 1800) / 3600
  if d < 60 then some d
  else if minutes < 60 then some (minutes * 60)
  else if hours < 48 then some (hours * 3600)
  else if hours < 24 * 7 * 2 then some ((hours / 24 : ℕ) * 86400)
  else if hours < 24 * 30 * 2 then some ((hours / 24 / 7 : ℕ) * 604800)
  else none

/-! ### Reading the texts -/

/-- The end of the text of a time in the past. -/
def agoText (ago : Bool) : Str := if ago then str " ago" else []

variable {py} {ws : List Str}

/-- The text that is looked at: the words in lower case, without a last word `ago`. -/
theorem relativeText_joinWords (hne : ws ≠ []) (h : ∀ w ∈ ws, IsWord w)
    (hlast : (ws.map (List.map asciiLower)).getLast? ≠ some (str "ago")) (ago : Bool) :
    relativeText py (joinWords ws ++ agoText ago) = joinWords (ws.map (List.map asciiLower)) := by
  have hlower := isWord_lower h
  cases ago with
  | false =>
    have hno : ¬ (str " ago").isSuffixOf (joinWords (ws.map (List.map asciiLower))) = true := by
      intro hsuffix
      obtain ⟨front, hfront⟩ := List.isSuffixOf_iff_suffix.mp hsuffix
      have hsplit := congrArg py.split hfront
      have hago : py.split (front ++ 32 :: str "ago") = py.split front ++ [str "ago"] := by
        have hword : IsWord (str "ago") := by decide
        rw [Python.split_append, Python.split_word hword]
      rw [Python.split_joinWords hlower] at hsplit
      exact hlast (by rw [← hsplit, show str " ago" = 32 :: str "ago" from rfl, hago,
        List.getLast?_concat])
    rw [agoText, if_neg (by decide), List.append_nil, relativeText, Python.strip_joinWords h,
      Python.lower_joinWords h, removeSuffix, if_neg hno, Python.strip_joinWords hlower]
  | true =>
    have hago : ∀ vs : List Str, vs ≠ [] →
        joinWords vs ++ str " ago" = joinWords (vs ++ [str "ago"]) :=
      fun vs hvs => (joinWords_append hvs (List.cons_ne_nil _ [])).symm
    have hwords : ∀ w ∈ ws ++ [str "ago"], IsWord w := by
      intro w hw
      rcases List.mem_append.mp hw with hw | hw
      · exact h w hw
      · rw [List.mem_singleton.mp hw]
        decide
    rw [agoText, if_pos rfl, hago ws hne, relativeText, Python.strip_joinWords hwords,
      Python.lower_joinWords hwords, List.map_append,
      show [str "ago"].map (List.map asciiLower) = [str "ago"] from rfl,
      ← hago _ (by simpa using hne), removeSuffix_append, Python.strip_joinWords hlower]

/-- The words that follow a quantity, with the seconds that the reaper takes for them. -/
def countedUnits : List (Str × ℤ) :=
  [(str "second", 1), (str "seconds", 1), (str "minute", 60), (str "minutes", 60),
    (str "hour", 3600), (str "hours", 3600), (str "days", 86400), (str "weeks", 604800)]

/-- The forms of a duration, with the age that the reaper reads from them. -/
inductive Rendering : List Str → Option ℤ → Prop
  | less : Rendering [str "Less", str "than", str "a", str "second"] (some 0)
  | minute : Rendering [str "About", str "a", str "minute"] (some 60)
  | hour : Rendering [str "About", str "an", str "hour"] (some 3600)
  | count (n : ℕ) (hn : n < 1000) (u : Str × ℤ) (hu : u ∈ countedUnits) :
      Rendering [decimal n, u.1] (some (n * u.2))
  | unread (n : ℕ) (w : Str) (hw : w = str "months" ∨ w = str "years") :
      Rendering [decimal n, w] none

/-- The words of an optional note. -/
def noteWords (note : Option Note) : List Str := note.elim [] Note.words

theorem joinWords_noteText (hne : ws ≠ []) (note : Option Note) :
    joinWords ws ++ noteText note = joinWords (ws ++ noteWords note) := by
  cases note with
  | none => rw [noteText, noteWords, Option.elim_none, List.append_nil, List.append_nil]
  | some note =>
    refine (joinWords_append hne ?_).symm
    cases note <;> exact List.cons_ne_nil _ _

theorem isWord_noteWords (note : Option Note) : ∀ w ∈ noteWords note, IsWord w := by
  cases note with
  | none => exact fun w hw => absurd hw List.not_mem_nil
  | some note => cases note <;> decide

/-- A number is neither of the words `a` and `an`. -/
theorem decimal_ne_article (n : ℕ) : ¬ (decimal n = str "a" ∨ decimal n = str "an") := by
  have hno : ∀ w, w = str "a" ∨ w = str "an" → ∃ c ∈ w, isDigit c = false := by
    rintro w (rfl | rfl) <;> decide
  intro h
  obtain ⟨c, hc, hdigit⟩ := hno _ h
  rw [isDigit_of_mem_decimal hc] at hdigit
  cases hdigit

/-- A text that starts with a number starts with no other word. -/
theorem not_isPrefixOf_decimal (n : ℕ) (rest : Str) {s : Str}
    (hs : s.head?.any (fun c => !isDigit c) = true) :
    ¬ s.isPrefixOf (decimal n ++ rest) = true := by
  obtain ⟨c, hc, hdigit⟩ := (Option.any_eq_true _ _).mp hs
  obtain ⟨s', rfl⟩ := List.head?_eq_some_iff.mp hc
  obtain ⟨d, ds, hd⟩ := List.exists_cons_of_ne_nil (decimal_ne_nil n)
  rw [hd, List.cons_append, List.isPrefixOf_cons_cons, Bool.and_eq_true, beq_iff_eq]
  rintro ⟨rfl, -⟩
  rw [isDigit_of_mem_decimal (hd ▸ List.mem_cons_self)] at hdigit
  cases hdigit

/-- No note ends with the word `ago`. -/
theorem last_ne_ago (h : (ws.map (List.map asciiLower)).getLast? ≠ some (str "ago"))
    (note : Option Note) :
    ((ws ++ noteWords note).map (List.map asciiLower)).getLast? ≠ some (str "ago") := by
  cases note with
  | none => rwa [noteWords, Option.elim_none, List.append_nil]
  | some note =>
    rw [List.map_append, List.getLast?_append_of_ne_nil]
    · cases note <;> decide
    · cases note <;> decide

/-- The text that is looked at, for words with a note. -/
theorem relativeText_note (ws : List Str) (hne : ws ≠ []) (h : ∀ w ∈ ws, IsWord w)
    (hlast : (ws.map (List.map asciiLower)).getLast? ≠ some (str "ago")) (note : Option Note)
    (ago : Bool) :
    relativeText py (joinWords (ws ++ noteWords note) ++ agoText ago) =
      joinWords ((ws ++ noteWords note).map (List.map asciiLower)) :=
  relativeText_joinWords (List.append_ne_nil_of_left_ne_nil hne _)
    (List.forall_mem_append.mpr ⟨h, isWord_noteWords note⟩) (last_ne_ago hlast note) ago

section Forms

variable {w : Str} (hw : IsWord w) (hago : w.map asciiLower ≠ str "ago")
include hw hago

/-- What is read from a number and a unit. -/
theorem parse_decimal (n : ℕ) (note : Option Note) (ago : Bool) :
    parseRelativeAge py (joinWords ([decimal n, w] ++ noteWords note) ++ agoText ago) =
      ageOfParts py (decimal n :: (w :: noteWords note).map (List.map asciiLower)) := by
  have hwords : ∀ v ∈ [decimal n, w], IsWord v := by simp [isWord_decimal, hw]
  have htext : relativeText py (joinWords ([decimal n, w] ++ noteWords note) ++ agoText ago) = _ :=
    relativeText_note [decimal n, w] (by simp) hwords (by simpa using hago) note ago
  have hlower : ([decimal n, w] ++ noteWords note).map (List.map asciiLower) =
      decimal n :: (w :: noteWords note).map (List.map asciiLower) := by simp [lower_decimal]
  have hjoin : joinWords (decimal n :: (w :: noteWords note).map (List.map asciiLower)) =
      decimal n ++ 32 :: joinWords ((w :: noteWords note).map (List.map asciiLower)) := rfl
  have hsplit : py.split (joinWords (decimal n :: (w :: noteWords note).map (List.map asciiLower)))
      = decimal n :: (w :: noteWords note).map (List.map asciiLower) := by
    rw [← hlower]
    exact Python.split_joinWords (isWord_lower (List.forall_mem_append.mpr
      ⟨hwords, isWord_noteWords note⟩))
  rw [parseRelativeAge, htext, hlower, hjoin, if_neg (not_isPrefixOf_decimal n _ (by decide)),
    if_neg (not_isPrefixOf_decimal n _ (by decide)), ← hjoin, hsplit]

/-- What is read from `About` with an article and a unit. -/
theorem parse_about {v : Str} (hv : IsWord v) (note : Option Note) (ago : Bool) :
    parseRelativeAge py (joinWords ([str "About", v, w] ++ noteWords note) ++ agoText ago) =
      ageOfParts py ((v :: w :: noteWords note).map (List.map asciiLower)) := by
  have hwords : ∀ x ∈ [v, w], IsWord x := by simp [hv, hw]
  have htext : relativeText py (joinWords ([str "About", v, w] ++ noteWords note) ++ agoText ago) =
      _ := relativeText_note [str "About", v, w] (by simp)
    (List.forall_mem_cons.mpr ⟨by decide, hwords⟩) (by simpa using hago) note ago
  have hjoin : joinWords (([str "About", v, w] ++ noteWords note).map (List.map asciiLower)) =
      str "about " ++ joinWords ((v :: w :: noteWords note).map (List.map asciiLower)) := rfl
  have habout : ∀ s, (str "about ").isPrefixOf (str "about " ++ s) = true := fun s =>
    List.isPrefixOf_iff_prefix.mpr (List.prefix_append _ s)
  have hless : ∀ s, ¬ (str "less than").isPrefixOf (str "about " ++ s) = true := fun s =>
    Bool.false_ne_true
  have hsplit : py.split (joinWords ((v :: w :: noteWords note).map (List.map asciiLower)))
      = (v :: w :: noteWords note).map (List.map asciiLower) :=
    Python.split_joinWords (isWord_lower (List.forall_mem_append.mpr
      ⟨hwords, isWord_noteWords note⟩))
  rw [parseRelativeAge, htext, hjoin, if_neg (hless _), if_pos (habout _), List.drop_left, hsplit]

end Forms

/-- Whatever the note, the unit of the table that is found first is that of the word after the
quantity. -/
theorem find_unit {u : Str × ℤ} (hu : u ∈ countedUnits) (note : Option Note) :
    (unitSeconds.find? fun v => ((u.1 :: noteWords note).map (List.map asciiLower)).any fun p =>
      v.1.isPrefixOf p).map Prod.snd = some u.2 := by
  revert u
  cases note with
  | none => decide +kernel
  | some note => cases note <;> decide +kernel

/-- Months and years are not in the table. -/
theorem find_unit_none {w : Str} (hw : w ∈ [str "months", str "years"]) (note : Option Note) :
    (unitSeconds.find? fun v => ((w :: noteWords note).map (List.map asciiLower)).any fun p =>
      v.1.isPrefixOf p).isNone = true := by
  revert w
  cases note with
  | none => decide +kernel
  | some note => cases note <;> decide +kernel

/-- The age from the quantity and the unit. -/
theorem ageOfParts_eq {q : Str} {parts : List Str} {n s : ℤ}
    (hq : quantityOf py q = some n)
    (hu : (unitSeconds.find? fun u => parts.any fun p => u.1.isPrefixOf p).map Prod.snd = some s) :
    ageOfParts py (q :: parts) = some (n * s) := by
  obtain ⟨u, hfind, rfl⟩ := Option.map_eq_some_iff.mp hu
  simp only [ageOfParts, hq, hfind, Option.bind_eq_bind, Option.bind_some, Option.pure_def]

theorem ageOfParts_none {q : Str} {parts : List Str}
    (hu : (unitSeconds.find? fun u => parts.any fun p => u.1.isPrefixOf p).isNone = true) :
    ageOfParts py (q :: parts) = none := by
  simp only [ageOfParts, Option.isNone_iff_eq_none.mp hu, Option.bind_eq_bind, Option.bind_none,
    Option.bind_fun_none]

theorem quantityOf_decimal {n : ℕ} (hn : n < 1000) : quantityOf py (decimal n) = some (n : ℤ) := by
  have hlt : n < 10 ^ maxStrDigits :=
    hn.trans_le (Nat.pow_le_pow_right (n := 10) (by decide) (show 3 ≤ maxStrDigits by decide))
  rw [quantityOf, if_neg (decimal_ne_article n), safeInt, py.intOfStr_decimal hlt]

/-- **What `_parse_relative_age` reads from a text of Docker.** -/
theorem parseRelativeAge_rendering {age : Option ℤ} (h : Rendering ws age) (note : Option Note)
    (ago : Bool) :
    parseRelativeAge py (joinWords (ws ++ noteWords note) ++ agoText ago) = age := by
  have hunits : ∀ u ∈ countedUnits, IsWord u.1 ∧ u.1.map asciiLower ≠ str "ago" := by decide
  have hlong : ∀ w ∈ [str "months", str "years"], IsWord w ∧ w.map asciiLower ≠ str "ago" := by
    decide
  cases h with
  | less =>
    rw [parseRelativeAge, relativeText_note _ (by simp) (by decide) (by decide) note ago]
    exact if_pos (by cases note <;> rfl)
  | minute =>
    rw [parse_about (by decide) (by decide) (by decide) note ago]
    exact ageOfParts_eq (n := 1) rfl (find_unit (u := (str "minute", 60)) (by decide) note)
  | hour =>
    rw [parse_about (by decide) (by decide) (by decide) note ago]
    exact ageOfParts_eq (n := 1) rfl (find_unit (u := (str "hour", 3600)) (by decide) note)
  | count n hn u hu =>
    rw [parse_decimal (hunits u hu).1 (hunits u hu).2 n note ago]
    exact ageOfParts_eq (quantityOf_decimal hn) (find_unit hu note)
  | unread n w hw =>
    have hmem : w ∈ [str "months", str "years"] := by simpa using hw
    rw [parse_decimal (hlong w hmem).1 (hlong w hmem).2 n note ago]
    exact ageOfParts_none (find_unit_none hmem note)

/-- Every text of a duration has one of the forms. -/
theorem human_rendering (d : ℕ) :
    ∃ ws, ws ≠ [] ∧ humanDuration d = joinWords ws ∧ Rendering ws (humanAge d) := by
  have hcount : ∀ (n : ℕ) (w : Str) (s : ℤ), n < 1000 → (w, s) ∈ countedUnits →
      ∃ ws, ws ≠ [] ∧ decimal n ++ 32 :: w = joinWords ws ∧ Rendering ws (some (n * s)) :=
    fun n w s hn hu => ⟨[decimal n, w], by simp, rfl, .count n hn (w, s) hu⟩
  have hunread : ∀ (n : ℕ) (w : Str), w = str "months" ∨ w = str "years" →
      ∃ ws, ws ≠ [] ∧ decimal n ++ 32 :: w = joinWords ws ∧ Rendering ws none :=
    fun n w hw => ⟨[decimal n, w], by simp, rfl, .unread n w hw⟩
  unfold humanDuration humanAge
  by_cases hless : d < 1
  · obtain rfl : d = 0 := by omega
    exact ⟨_, by simp, rfl, .less⟩
  by_cases hone : d = 1
  · subst hone
    exact hcount 1 (str "second") 1 (by decide) (by decide)
  by_cases hsec : d < 60
  · simp only [if_neg hless, if_neg hone, if_pos hsec]
    have hform := hcount d (str "seconds") 1 (by omega) (by decide)
    rwa [mul_one] at hform
  by_cases hmin : d / 60 = 1
  · simp only [if_neg hless, if_neg hone, if_neg hsec, hmin]
    exact ⟨_, by simp, rfl, .minute⟩
  by_cases hmins : d / 60 < 60
  · simp only [if_neg hless, if_neg hone, if_neg hsec, if_neg hmin, if_pos hmins]
    exact hcount (d / 60) (str "minutes") 60 (by omega) (by decide)
  by_cases hhour : (d + 1800) / 3600 = 1
  · simp only [if_neg hless, if_neg hone, if_neg hsec, if_neg hmin, if_neg hmins, hhour]
    exact ⟨_, by simp, rfl, .hour⟩
  by_cases hhours : (d + 1800) / 3600 < 48
  · simp only [if_neg hless, if_neg hone, if_neg hsec, if_neg hmin, if_neg hmins, if_neg hhour,
      if_pos hhours]
    exact hcount _ (str "hours") 3600 (by omega) (by decide)
  by_cases hdays : (d + 1800) / 3600 < 24 * 7 * 2
  · simp only [if_neg hless, if_neg hone, if_neg hsec, if_neg hmin, if_neg hmins, if_neg hhour,
      if_neg hhours, if_pos hdays]
    exact hcount _ (str "days") 86400 (by omega) (by decide)
  by_cases hweeks : (d + 1800) / 3600 < 24 * 30 * 2
  · simp only [if_neg hless, if_neg hone, if_neg hsec, if_neg hmin, if_neg hmins, if_neg hhour,
      if_neg hhours, if_neg hdays, if_pos hweeks]
    exact hcount _ (str "weeks") 604800 (by omega) (by decide)
  simp only [if_neg hless, if_neg hone, if_neg hsec, if_neg hmin, if_neg hmins, if_neg hhour,
    if_neg hhours, if_neg hdays, if_neg hweeks]
  split_ifs
  · exact hunread _ (str "months") (.inl rfl)
  · exact hunread _ (str "years") (.inr rfl)

/-- **What `_parse_relative_age` reads from a duration.** -/
theorem parseRelativeAge_human (d : ℕ) (note : Option Note) (ago : Bool) :
    parseRelativeAge py (humanDuration d ++ noteText note ++ agoText ago) = humanAge d := by
  obtain ⟨ws, hne, htext, hform⟩ := human_rendering d
  rw [htext, joinWords_noteText hne]
  exact parseRelativeAge_rendering hform note ago

/-- The age is at least the threshold exactly if the duration is, up to two months. -/
theorem humanAge_iff (d : ℕ) :
    ((humanAge d).any (orphanAgeSeconds ≤ ·) = true ↔ orphanAgeSeconds ≤ d) ↔
      (d + 1800) / 3600 < 24 * 30 * 2 := by
  have hthreshold : orphanAgeSeconds = 300 := rfl
  have hsome : ∀ a : ℤ, (some a).any (orphanAgeSeconds ≤ ·) = true ↔ 300 ≤ a := fun a =>
    decide_eq_true_iff
  dsimp only [humanAge]
  split_ifs with hsec hmin hhours hdays hweeks
  · rw [hsome, hthreshold]
    omega
  · rw [hsome, hthreshold]
    omega
  · rw [hsome, hthreshold]
    omega
  · rw [hsome, hthreshold]
    omega
  · rw [hsome, hthreshold]
    omega
  · have hold : orphanAgeSeconds ≤ (d : ℤ) := by omega
    simp [hold, hweeks]

/-! ### The age test -/

theorem Rendering.isWord {age : Option ℤ} (h : Rendering ws age) : ∀ w ∈ ws, IsWord w := by
  have hunits : ∀ u ∈ countedUnits, IsWord u.1 := by decide
  cases h with
  | less => decide
  | minute => decide
  | hour => decide
  | count n hn u hu => simp [isWord_decimal, hunits u hu]
  | unread n w hw =>
    have hword : IsWord w := by rcases hw with rfl | rfl <;> decide
    simp [isWord_decimal, hword]

/-- The status of a running container has no white space to strip. -/
theorem strip_up (d : ℕ) (note : Option Note) :
    py.strip (str "Up " ++ (humanDuration d ++ noteText note)) =
      str "Up " ++ (humanDuration d ++ noteText note) := by
  obtain ⟨ws, hne, htext, hform⟩ := human_rendering d
  have hwords : ∀ w ∈ str "Up" :: (ws ++ noteWords note), IsWord w :=
    List.forall_mem_cons.mpr ⟨by decide,
      List.forall_mem_append.mpr ⟨hform.isWord, isWord_noteWords note⟩⟩
  have hjoin : str "Up " ++ (humanDuration d ++ noteText note) =
      joinWords (str "Up" :: (ws ++ noteWords note)) := by
    rw [htext, joinWords_noteText hne]
    obtain ⟨v, vs, rfl⟩ := List.exists_cons_of_ne_nil hne
    rfl
  rw [hjoin]
  exact Python.strip_joinWords hwords

/-- The verdict on a running container. -/
theorem shouldReap_up (d : ℕ) (note : Option Note) (runningFor : Str) :
    shouldReap py (str "Up " ++ (humanDuration d ++ noteText note)) runningFor =
      (humanAge d).any (orphanAgeSeconds ≤ ·) := by
  have hage : parseRelativeAge py (humanDuration d ++ noteText note ++ agoText false) = _ :=
    parseRelativeAge_human d note false
  rw [agoText, if_neg (by decide), List.append_nil] at hage
  have hother : ∀ s, ¬ (str "Created").isPrefixOf (str "Up " ++ s) = true ∧
      ¬ [str "Exited", str "Dead", str "Removal"].any (List.isPrefixOf · (str "Up " ++ s)) = true ∧
      (str "Up").isPrefixOf (str "Up " ++ s) = true := fun s =>
    ⟨Bool.false_ne_true, Bool.false_ne_true, rfl⟩
  obtain ⟨hcreated, hexited, hup⟩ := hother (humanDuration d ++ noteText note)
  rw [shouldReap, strip_up, if_neg hcreated, if_neg hexited, if_pos hup, parseUpAge,
    List.drop_left, hage]

/-- The verdict on a created container. -/
theorem shouldReap_created (d : ℕ) (note : Option Note) :
    shouldReap py (str "Created") (humanDuration d ++ noteText note ++ str " ago") =
      (humanAge d).any (orphanAgeSeconds ≤ ·) := by
  have hage : parseRelativeAge py (humanDuration d ++ noteText note ++ agoText true) = _ :=
    parseRelativeAge_human d note true
  rw [agoText, if_pos rfl] at hage
  have hword : ∀ w ∈ [str "Created"], IsWord w := by decide
  have hstrip : py.strip (str "Created") = str "Created" := Python.strip_joinWords hword
  have hne : humanDuration d ++ noteText note ++ str " ago" ≠ [] := by simp [str]
  rw [shouldReap, hstrip, if_pos (by decide), if_neg hne, hage]

/-- **The age test is exact** for the durations that Docker does not print in months or years, and
for no others. -/
theorem shouldReap_exact_iff (d : ℕ) (note : Option Note) (runningFor : Str) :
    ((shouldReap py (str "Up " ++ (humanDuration d ++ noteText note)) runningFor = true ↔
        orphanAgeSeconds ≤ d) ∧
      (shouldReap py (str "Created") (humanDuration d ++ noteText note ++ str " ago") = true ↔
        orphanAgeSeconds ≤ d)) ↔ (d + 1800) / 3600 < 24 * 30 * 2 := by
  rw [shouldReap_up, shouldReap_created, and_self, humanAge_iff]

/-- A container that has been up for sixty days is kept. -/
theorem months_kept :
    humanDuration 5184000 = str "2 months" ∧
      shouldReap samplePython (str "Up 2 months") [] = false ∧
      shouldReap samplePython (str "Created") (str "2 months ago") = false ∧
      orphanAgeSeconds ≤ 5184000 := by
  decide +kernel

end CodeInterpreter.Executor
