import CodeInterpreter.Executor.Output

/-!
# Output and the reads of the pipe

The pipe of a program gives its output in pieces of any size, and the capture is filled piece by
piece: its cap may cut a piece inside a character, and the pieces after that may be small enough to
fit again. What is captured of a stream does not depend on this when the other stream is silent: it
is the longest prefix of the decoded output that the cap admits.

## Main definitions

* `LongestPrefix`: the longest prefix of a text within a number of bytes.
* `onlyStream`: the reads when one stream is silent.
* `Fitted`: the capture against the text it was given.

## Main results

* `fitBytes_append`: the cut of a text that comes in two pieces.
* `fitted_reachable`: the invariant of the capture of one stream.
* `pumps_can_end`: both pumps can be brought to their ends.
* `captured_longest`: the captured text and the flag, from the output alone.
-/

namespace CodeInterpreter.Executor

open Async

/-! ### Cutting a text -/

/-- The longest prefix of a text within a number of bytes. -/
structure LongestPrefix (room : ℕ) (text kept : Str) : Prop where
  isPrefix : kept <+: text
  fits : byteLength kept ≤ room
  longest : ∀ p : Str, p <+: text → byteLength p ≤ room → p <+: kept

theorem byteLength_cons (c : ℕ) (s : Str) : byteLength (c :: s) = utf8Size c + byteLength s := by
  simp [byteLength]

theorem utf8Size_pos (c : ℕ) : 0 < utf8Size c := by
  unfold utf8Size
  split_ifs <;> decide

theorem byteLength_pos {s : Str} (h : s ≠ []) : 0 < byteLength s := by
  cases s with
  | nil => exact absurd rfl h
  | cons c s =>
    have := utf8Size_pos c
    rw [byteLength_cons]
    omega

theorem fitBytes_of_le {room : ℕ} {s : Str} (h : byteLength s ≤ room) : fitBytes room s = s := by
  induction s generalizing room with
  | nil => rfl
  | cons c s ih =>
    rw [byteLength_cons] at h
    rw [fitBytes, if_pos (by omega), ih (by omega)]

theorem fitBytes_zero (s : Str) : fitBytes 0 s = [] := by
  cases s with
  | nil => rfl
  | cons c s =>
    have := utf8Size_pos c
    rw [fitBytes, if_neg (by omega)]

/-- A text that comes in two pieces: the second one has the room that the first one leaves. -/
theorem fitBytes_append {room : ℕ} {s : Str} (h : byteLength s ≤ room) (text : Str) :
    fitBytes room (s ++ text) = s ++ fitBytes (room - byteLength s) text := by
  induction s generalizing room with
  | nil => rfl
  | cons c s ih =>
    rw [byteLength_cons] at h
    rw [List.cons_append, fitBytes, if_pos (by omega), ih (by omega), byteLength_cons,
      List.cons_append, Nat.sub_add_eq]

/-- Once the room is used up, what follows does not matter. -/
theorem fitBytes_append_of_le {room : ℕ} {s : Str} (h : room ≤ byteLength s) (text : Str) :
    fitBytes room (s ++ text) = fitBytes room s := by
  induction s generalizing room with
  | nil =>
    obtain rfl : room = 0 := Nat.le_zero.mp h
    rw [fitBytes_zero, fitBytes_zero]
  | cons c s ih =>
    rw [byteLength_cons] at h
    simp only [List.cons_append, fitBytes]
    split
    · rw [ih (by omega)]
    · rfl

theorem fitBytes_longest (room : ℕ) (text : Str) :
    LongestPrefix room text (fitBytes room text) where
  isPrefix := fitBytes_isPrefix room text
  fits := byteLength_fitBytes_le room text
  longest := by
    rintro p ⟨rest, rfl⟩ hp
    rw [fitBytes_append hp]
    exact List.prefix_append p _

theorem fitBytes_eq_iff {room : ℕ} {text : Str} :
    fitBytes room text = text ↔ byteLength text ≤ room := by
  refine ⟨fun h => ?_, fitBytes_of_le⟩
  have := byteLength_fitBytes_le room text
  rwa [h] at this

/-! ### The capture of one stream -/

/-- The capture of the stream `kind` against the text it was given, when nothing was appended to the
other one. -/
structure Fitted (maxBytes : ℕ) (kind : OutputKind) (d : PumpData) : Prop where
  cap : d.capture.maxBytes = maxBytes
  used : d.capture.used = min maxBytes (byteLength (d.fed kind))
  text : d.capture.text kind = fitBytes maxBytes (d.fed kind)
  truncated : d.capture.truncated = true ↔ maxBytes < byteLength (d.fed kind)

section

variable {maxBytes : ℕ} {kind : OutputKind} {d d' : PumpData}

theorem Fitted.init (maxBytes : ℕ) (kind : OutputKind) :
    Fitted maxBytes kind { capture := { maxBytes := maxBytes } } where
  cap := rfl
  used := (Nat.min_zero maxBytes).symm
  text := by cases kind <;> rfl
  truncated := by simp [byteLength]

theorem OutputCapture.push_fields (capture : OutputCapture) (kind : OutputKind) (kept : Str) :
    (capture.push kind kept).maxBytes = capture.maxBytes ∧
    (capture.push kind kept).text kind = capture.text kind ++ kept ∧
    (capture.push kind kept).truncated = capture.truncated := by
  cases kind <;> exact ⟨rfl, rfl, rfl⟩

section

variable {text : Str} (h : Fitted maxBytes kind d) (hfed : d'.fed kind = d.fed kind ++ text)
include h hfed

/-- The capture is full, and the text is dropped. -/
theorem Fitted.drop (htext : text ≠ []) (hfull : d.capture.maxBytes ≤ d.capture.used)
    (hcapture : d'.capture = { d.capture with truncated := true }) : Fitted maxBytes kind d' := by
  have hpos := byteLength_pos htext
  have hle : maxBytes ≤ byteLength (d.fed kind) := by
    have hused := h.used
    rw [h.cap] at hfull
    omega
  refine ⟨?_, ?_, ?_, ?_⟩
  · rw [hcapture]
    exact h.cap
  · rw [hcapture, hfed, byteLength_append]
    refine h.used.trans ?_
    omega
  · rw [hcapture, hfed, fitBytes_append_of_le hle, ← h.text]
    cases kind <;> rfl
  · rw [hcapture, hfed, byteLength_append]
    exact iff_of_true rfl (by omega)

/-- The text does not fit, and is cut. -/
theorem Fitted.cut (hroom : d.capture.used < d.capture.maxBytes)
    (hcut : d.capture.maxBytes - d.capture.used < byteLength text)
    (hcapture : d'.capture =
      { d.capture.push kind (fitBytes (d.capture.maxBytes - d.capture.used) text) with
        used := d.capture.maxBytes, truncated := true }) : Fitted maxBytes kind d' := by
  have hused := h.used
  have hcap := h.cap
  have hall : byteLength (d.fed kind) ≤ maxBytes := by omega
  have hleft : d.capture.maxBytes - d.capture.used = maxBytes - byteLength (d.fed kind) := by omega
  have hkept := h.text
  rw [fitBytes_of_le hall] at hkept
  refine ⟨?_, ?_, ?_, ?_⟩
  · rw [hcapture]
    exact (d.capture.push_fields kind _).1.trans hcap
  · rw [hcapture, hfed, byteLength_append]
    dsimp only
    omega
  · rw [hcapture, hfed, fitBytes_append hall, ← hleft, ← hkept,
      ← (d.capture.push_fields kind _).2.1]
    cases kind <;> rfl
  · rw [hcapture, hfed, byteLength_append]
    exact iff_of_true rfl (by omega)

/-- The text fits. -/
theorem Fitted.keep (hroom : d.capture.used < d.capture.maxBytes)
    (hfits : byteLength text ≤ d.capture.maxBytes - d.capture.used)
    (hcapture : d'.capture =
      { d.capture.push kind text with used := d.capture.used + byteLength text }) :
    Fitted maxBytes kind d' := by
  have hused := h.used
  have hcap := h.cap
  have hall : byteLength (d.fed kind) ≤ maxBytes := by omega
  have hwhole : byteLength (d.fed kind ++ text) ≤ maxBytes := by
    rw [byteLength_append]
    omega
  have hkept := h.text
  rw [fitBytes_of_le hall] at hkept
  refine ⟨?_, ?_, ?_, ?_⟩
  · rw [hcapture]
    exact (d.capture.push_fields kind _).1.trans hcap
  · rw [hcapture, hfed, byteLength_append]
    dsimp only
    omega
  · rw [hcapture, hfed, fitBytes_of_le hwhole, ← hkept, ← (d.capture.push_fields kind _).2.1]
    cases kind <;> rfl
  · rw [hcapture, hfed]
    refine iff_of_false (fun ht => ?_) (Nat.not_lt.mpr hwhole)
    have := h.truncated.mp ((d.capture.push_fields kind text).2.2 ▸ ht)
    omega

end

/-- The capture after a text that is not empty. -/
theorem Fitted.append (h : Fitted maxBytes kind d) {text : Str} (htext : text ≠ []) :
    Fitted maxBytes kind (d.append kind text) := by
  have hfed : (d.append kind text).fed kind = d.fed kind ++ text := Function.update_self _ _ _
  by_cases hfull : d.capture.maxBytes ≤ d.capture.used
  · refine h.drop hfed htext hfull ?_
    simp only [PumpData.append, OutputCapture.append, if_pos hfull]
  · by_cases hcut : d.capture.maxBytes - d.capture.used < byteLength text
    · refine h.cut hfed (Nat.not_le.mp hfull) hcut ?_
      simp only [PumpData.append, OutputCapture.append, if_neg hfull, if_pos hcut]
    · refine h.keep hfed (Nat.not_le.mp hfull) (Nat.not_lt.mp hcut) ?_
      simp only [PumpData.append, OutputCapture.append, if_neg hfull, if_neg hcut]

end

/-! ### The pumps when one stream is silent -/

/-- The reads of the two streams when only one of them carries output. -/
def onlyStream (kind : OutputKind) (chunks : List (List UInt8)) : OutputKind → List (List UInt8) :=
  Function.update (fun _ => []) kind chunks

/-- A pump appends only texts that are not empty, and only to the stream `kind`. -/
def AppendsTo (kind : OutputKind) : PumpCmd → Prop
  | .append k text => k = kind ∧ text ≠ []
  | _ => True

section

variable {maxBytes : ℕ} {callback : Bool} {kind : OutputKind}

theorem emit_issues (text : Str) : (emit callback kind text).Issues (AppendsTo kind) := by
  by_cases htext : text.isEmpty
  · rw [emit, if_pos htext]
    exact Program.issues_pure _
  · rw [emit, if_neg htext]
    refine Program.issues_bind (Program.issues_perform ⟨rfl, ?_⟩) fun kept => ?_
    · exact fun h => htext (List.isEmpty_iff.mpr h)
    · exact Program.issues_ite (Program.issues_perform trivial) (Program.issues_pure _)

theorem pump_issues (dec : Decoder) (chunks : List (List UInt8)) :
    (pump callback kind dec chunks).Issues (AppendsTo kind) := by
  induction chunks generalizing dec with
  | nil =>
    refine Program.issues_bind (Program.issues_perform trivial) fun _ => ?_
    exact Program.issues_bind (emit_issues _) fun _ => Program.issues_pure _
  | cons chunk rest ih =>
    refine Program.issues_bind (Program.issues_perform trivial) fun _ => ?_
    exact Program.issues_bind (emit_issues _) fun _ =>
      Program.issues_ite (Program.issues_pure _) (ih _)

/-- The pump of a silent stream appends nothing. -/
theorem pump_silent_issues (k : OutputKind) :
    (pump callback k .idle []).Issues (AppendsTo kind) :=
  Program.issues_bind (Program.issues_perform trivial) fun _ => Program.issues_pure _

/-- **The capture of one stream** in every reachable state. -/
theorem fitted_reachable {chunks : List (List UInt8)}
    {s : LoopState PumpData PumpCmd PumpReply Exc}
    (h : (pumps maxBytes callback (onlyStream kind chunks)).Reachable s) :
    Fitted maxBytes kind s.data := by
  refine (Loop.Run.data (P := AppendsTo kind) h (.init maxBytes kind) ?_ ?_ ?_).1
  · intro d k d' p hd hevent
    simp only [pumps] at hevent
    split at hevent
    · cases hevent
    · obtain ⟨rfl, rfl⟩ := Prod.mk.inj (Option.some.inj hevent)
      refine ⟨⟨hd.cap, hd.used, hd.text, hd.truncated⟩, ?_⟩
      by_cases hk : k = kind
      · subst hk
        exact pump_issues .idle _
      · rw [onlyStream, Function.update_of_ne hk]
        exact pump_silent_issues k
  · intro d c hc hd
    cases c with
    | read k => exact hd
    | append k text =>
      obtain ⟨rfl, htext⟩ := hc
      exact hd.append htext
    | onOutput k text => exact ⟨hd.cap, hd.used, hd.text, hd.truncated⟩
  · intro d c r d' _ hd hcomplete
    exact Option.some.inj hcomplete ▸ hd

/-! ### The ends of the pumps -/

/-- Every read and every call of the callback gets through. -/
def succeed : (c : PumpCmd) → Except Exc (PumpReply c)
  | .read _ => .ok ()
  | .append _ _ => .ok []
  | .onOutput _ _ => .ok ()

section

variable {chunks : OutputKind → List (List UInt8)} {s : LoopState PumpData PumpCmd PumpReply Exc}
  {i : ℕ}

/-- The answers that a pump still needs to end. -/
def PumpPos.answers : PumpPos → ℕ
  | .reading _ _ rest => 2 * rest.length + 2
  | .sending _ _ (some (_, rest)) => 2 * rest.length + 3
  | .sending _ _ none => 1
  | _ => 0

/-- The pump has not been stopped by an exception. -/
def PumpPos.sound : PumpPos → Bool
  | .failed _ _ => false
  | _ => true

theorem PumpPos.ofNext_sound (kind : OutputKind) (next : Option (Decoder × List (List UInt8))) :
    (PumpPos.ofNext kind next).sound = true := by
  cases next <;> rfl

theorem afterChunk_length {dec dec' : Decoder} {rest rest' : List (List UInt8)}
    (h : afterChunk dec rest = some (dec', rest')) : rest'.length < rest.length := by
  cases rest with
  | nil => cases h
  | cons chunk rest =>
    simp only [afterChunk] at h
    split at h
    · cases h
    · obtain ⟨-, rfl⟩ := Prod.mk.inj (Option.some.inj h)
      exact Nat.lt_succ_self _

/-- A pump that has not ended gets closer to its end with every answer. -/
theorem PumpPos.succeeds (maxBytes : ℕ) (callback : Bool) (chunks : OutputKind → List (List UInt8))
    {x : PumpPos} (hx : x.sound = true) :
    x.prog callback = pure () ∨ ∃ c k, x.prog callback = .call c k ∧ ∀ d : PumpData,
      ∃ (d' : PumpData) (x' : PumpPos),
        (pumps maxBytes callback chunks).advance d (k (succeed c)) = (d', x'.prog callback) ∧
        d'.started = d.started ∧ x'.answers < x.answers ∧ x'.sound = true := by
  cases x with
  | reading kind dec rest =>
    refine .inr ⟨.read kind, _, pump_eq kind dec rest, fun d => ?_⟩
    obtain ⟨x', hadvance, hx'⟩ := @advance_emit maxBytes callback chunks d kind
      (nextChunkText dec rest) (afterChunk dec rest)
    refine ⟨_, x', hadvance, PumpData.feed_started, ?_⟩
    cases hnext : afterChunk dec rest with
    | none =>
      rw [hnext] at hx'
      rcases hx' with rfl | ⟨kept, rfl⟩
      · exact ⟨Nat.succ_pos _, rfl⟩
      · exact ⟨Nat.succ_lt_succ (Nat.succ_pos _), rfl⟩
    | some next =>
      obtain ⟨dec', rest'⟩ := next
      have hlength := afterChunk_length hnext
      rw [hnext] at hx'
      rcases hx' with rfl | ⟨kept, rfl⟩
      · refine ⟨?_, rfl⟩
        simp only [ofNext, answers]
        omega
      · refine ⟨?_, rfl⟩
        simp only [answers]
        omega
  | sending kind text next =>
    refine .inr ⟨.onOutput kind text, _, rfl, fun d => ?_⟩
    refine ⟨_, _, advance_afterText d kind next, rfl, ?_, PumpPos.ofNext_sound kind next⟩
    cases next with
    | none => exact Nat.succ_pos _
    | some next => exact Nat.lt_succ_self _
  | done kind => exact .inl rfl
  | failed kind e => cases hx

/-- A task that has not been stopped by an exception can be brought to its end, without a start of
another one. -/
theorem task_can_end (h : (pumps maxBytes callback chunks).Reachable s) {x : PumpPos}
    (hx : x.sound = true) (hi : s.tasks[i]? = some (x.prog callback)) :
    ∃ s', (pumps maxBytes callback chunks).Reachable s' ∧ s'.tasks = s.tasks.set i (pure ()) ∧
      s'.data.started = s.data.started := by
  induction hn : x.answers using Nat.strong_induction_on generalizing s x with
  | _ n ih =>
    rcases PumpPos.succeeds maxBytes callback chunks hx with hdone | ⟨c, k, hcall, hstep⟩
    · refine ⟨s, h, ?_, rfl⟩
      obtain ⟨hlt, hget⟩ := List.getElem?_eq_some_iff.mp hi
      rw [← hdone, ← hget, List.set_getElem_self]
    · obtain ⟨d', x', hadvance, hstarted, hless, hx'⟩ := hstep s.data
      obtain ⟨hlt, -⟩ := List.getElem?_eq_some_iff.mp hi
      have hreach : (pumps maxBytes callback chunks).Reachable
          ⟨d', s.tasks.set i (x'.prog callback)⟩ :=
        .step h trivial (Loop.step_resume succeed (hi.trans (congrArg _ hcall)) rfl hadvance)
      obtain ⟨s', hreach', htasks, hstarted'⟩ := ih x'.answers (hn ▸ hless) hreach hx'
        (List.getElem?_set_self hlt) rfl
      refine ⟨s', hreach', ?_, hstarted'.trans hstarted⟩
      rw [htasks, List.set_set]

/-- Both pumps have been started and have returned. -/
def PumpsEnded (s : LoopState PumpData PumpCmd PumpReply Exc) : Prop :=
  (∀ kind, s.data.started kind = true) ∧ ∀ p ∈ s.tasks, p = pure ()

/-- The start of a pump. -/
theorem reachable_event (h : (pumps maxBytes callback chunks).Reachable s) (kind : OutputKind)
    (hkind : s.data.started kind = false) :
    (pumps maxBytes callback chunks).Reachable
      ⟨{ s.data with started := Function.update s.data.started kind true },
        s.tasks ++ [pump callback kind .idle (chunks kind)]⟩ := by
  have hevent : (pumps maxBytes callback chunks).event s.data kind =
      some ({ s.data with started := Function.update s.data.started kind true },
        pump callback kind .idle (chunks kind)) := by
    simp only [pumps, hkind]
    rfl
  exact .step h trivial
    (Loop.step_event hevent (advance_afterText _ kind (some (.idle, chunks kind))))

/-- Both pumps can be brought to their ends. -/
theorem pumps_can_end (maxBytes : ℕ) (callback : Bool) (chunks : OutputKind → List (List UInt8)) :
    ∃ s, (pumps maxBytes callback chunks).Reachable s ∧ PumpsEnded s := by
  have hreach := reachable_event
    (reachable_event (.start (L := pumps maxBytes callback chunks)) .stdout rfl) .stderr rfl
  obtain ⟨s₁, hreach₁, htasks₁, hstarted₁⟩ := task_can_end (i := 0)
    (x := .reading .stdout .idle (chunks .stdout)) hreach rfl rfl
  obtain ⟨s₂, hreach₂, htasks₂, hstarted₂⟩ := task_can_end (i := 1)
    (x := .reading .stderr .idle (chunks .stderr)) hreach₁ rfl (by rw [htasks₁]; rfl)
  rw [htasks₁] at htasks₂
  refine ⟨s₂, hreach₂, fun kind => ?_, fun p hp => ?_⟩
  · rw [hstarted₂, hstarted₁]
    cases kind <;> rfl
  · rw [htasks₂] at hp
    simpa [Loop.start] using hp

/-! ### The captured text -/

theorem received_of_nonempty {chunks : List (List UInt8)} (h : ∀ chunk ∈ chunks, chunk ≠ []) :
    received chunks = chunks.flatten := by
  induction chunks with
  | nil => rfl
  | cons chunk rest ih =>
    have hchunk : chunk.isEmpty = false := by
      simpa using h chunk List.mem_cons_self
    rw [received, hchunk, List.flatten_cons, ih fun c hc => h c (List.mem_cons_of_mem chunk hc)]
    rfl

end

/-- **The capture does not depend on the reads.** However the bytes `data` of a stream are cut into
reads that are not empty, and however its pump and that of the silent stream take turns, both pumps
can end, and then the capture holds the longest prefix of the decoded bytes within the cap; the flag
says whether something is missing. -/
theorem captured_longest (maxBytes : ℕ) (callback : Bool) (kind : OutputKind) (data : List UInt8)
    (chunks : List (List UInt8)) (hchunks : ∀ chunk ∈ chunks, chunk ≠ [])
    (hdata : chunks.flatten = data) :
    (∃ s, (pumps maxBytes callback (onlyStream kind chunks)).Reachable s ∧ PumpsEnded s) ∧
    ∀ s, (pumps maxBytes callback (onlyStream kind chunks)).Reachable s → PumpsEnded s →
      LongestPrefix maxBytes (decodeUtf8 data) (s.data.capture.text kind) ∧
      (s.data.capture.truncated = true ↔ s.data.capture.text kind ≠ decodeUtf8 data) := by
  refine ⟨pumps_can_end maxBytes callback _, fun s h hended => ?_⟩
  have hfed := fed_of_ended h hended.1 hended.2 kind
  rw [onlyStream, Function.update_self, received_of_nonempty hchunks, hdata] at hfed
  have hfit := fitted_reachable h
  rw [hfit.text, hfit.truncated, hfed, ne_eq, fitBytes_eq_iff, Nat.not_le]
  exact ⟨fitBytes_longest maxBytes _, Iff.rfl⟩

end

/-- A character of three bytes in two reads, a byte that is replaced, and a letter, under a cap of
four bytes: the replacement has three bytes and does not fit, and the letter does not follow. -/
theorem captured_longest_sample :
    ∃ s, (pumps 4 true (onlyStream .stdout [[0xE2, 0x82], [0xAC, 0xFF], [97]])).Reachable s ∧
      PumpsEnded s ∧ LongestPrefix 4 [0x20AC, 0xFFFD, 97] (s.data.capture.text .stdout) ∧
      (s.data.capture.truncated = true ↔ s.data.capture.text .stdout ≠ [0x20AC, 0xFFFD, 97]) := by
  have hdecode : decodeUtf8 [0xE2, 0x82, 0xAC, 0xFF, 97] = [0x20AC, 0xFFFD, 97] := by
    decide +kernel
  obtain ⟨⟨s, hreach, hended⟩, hall⟩ := captured_longest 4 true .stdout [0xE2, 0x82, 0xAC, 0xFF, 97]
    [[0xE2, 0x82], [0xAC, 0xFF], [97]] (by decide) rfl
  exact ⟨s, hreach, hended, hdecode ▸ hall s hreach hended⟩

end CodeInterpreter.Executor
