import CodeInterpreter.Async.Loop
import CodeInterpreter.Executor.Sandbox
import Mathlib.Data.List.Infix
import Mathlib.Data.List.Nodup

/-!
# Output of the sandbox

The two `_pump` loops of an execution (`worker/sandbox/executor.py`) as tasks of one event loop. Each
reads its stream to the end, decodes the chunks with the incremental UTF-8 decoder of the standard
library, appends the text to the shared capture and passes the part that was kept to `on_output`.
The loops are suspended while they read and while the callback runs; both may raise.

The decoder replaces every maximal part of an ill-formed sequence by U+FFFD. What it makes of the
chunks of a stream is what it makes of their concatenation, so the text of a stream does not depend
on how the stream was cut.

## Main definitions

* `Decoder`, `Decoder.decode`: the incremental decoder; `decodeUtf8`: all bytes at once.
* `pump`, `pumps`: the loops, and the event loop they run in.

## Main results

* `Decoder.remaining_cons`: decoding chunk by chunk.
* `decodeUtf8_scalar`: decoded texts can be encoded again.
* `captured_reachable`: the invariant of the capture.
* `live_scalar`: so can the texts that are passed to `on_output`.
* `output_captured`: cap, prefix, truncation flag and live view under every interleaving.
-/

namespace CodeInterpreter.Executor

open Async

/-! ### Decoding -/

/-- The state of the decoder: between two characters, or inside one of which `more` bytes follow
the next one, which has to lie between `low` and `high`. -/
inductive Decoder
  | idle
  | pending (more low high value : ℕ)
  deriving DecidableEq

/-- U+FFFD. -/
def replacement : ℕ := 0xFFFD

namespace Decoder

/-- The first byte of a character. -/
def lead (b : ℕ) : Str × Decoder :=
  if b < 0x80 then ([b], .idle)
  else if 0xC2 ≤ b ∧ b ≤ 0xDF then ([], .pending 0 0x80 0xBF (b - 0xC0))
  else if b = 0xE0 then ([], .pending 1 0xA0 0xBF 0)
  else if b = 0xED then ([], .pending 1 0x80 0x9F 13)
  else if 0xE1 ≤ b ∧ b ≤ 0xEF then ([], .pending 1 0x80 0xBF (b - 0xE0))
  else if b = 0xF0 then ([], .pending 2 0x90 0xBF 0)
  else if 0xF1 ≤ b ∧ b ≤ 0xF3 then ([], .pending 2 0x80 0xBF (b - 0xF0))
  else if b = 0xF4 then ([], .pending 2 0x80 0x8F 4)
  else ([replacement], .idle)

/-- One byte. One that cannot continue the character starts a new one. -/
def step : Decoder → ℕ → Str × Decoder
  | .idle, b => lead b
  | .pending more low high value, b =>
    if low ≤ b ∧ b ≤ high then
      match more with
      | 0 => ([value * 64 + (b - 0x80)], .idle)
      | more + 1 => ([], .pending more 0x80 0xBF (value * 64 + (b - 0x80)))
    else (replacement :: (lead b).1, (lead b).2)

/-- The bytes of a chunk. -/
def feed : Decoder → List UInt8 → Str × Decoder
  | d, [] => ([], d)
  | d, b :: bytes => ((d.step b.toNat).1 ++ ((d.step b.toNat).2.feed bytes).1,
      ((d.step b.toNat).2.feed bytes).2)

/-- What the end of the input makes of a character that is not complete. -/
def flush : Decoder → Str
  | .idle => []
  | .pending _ _ _ _ => [replacement]

/-- `decoder.decode(chunk, final)`. -/
def decode (d : Decoder) (chunk : List UInt8) (final : Bool) : Str × Decoder :=
  if final then ((d.feed chunk).1 ++ (d.feed chunk).2.flush, .idle) else d.feed chunk

end Decoder

/-- `data.decode("utf-8", "replace")`. -/
def decodeUtf8 (data : List UInt8) : Str := (Decoder.idle.decode data true).1

/-- The bytes that are read from a stream with the given chunks: an empty one is its end. -/
def received : List (List UInt8) → List UInt8
  | [] => []
  | chunk :: rest => if chunk.isEmpty then [] else chunk ++ received rest

namespace Decoder

theorem feed_append (d : Decoder) (a b : List UInt8) :
    d.feed (a ++ b) = ((d.feed a).1 ++ ((d.feed a).2.feed b).1, ((d.feed a).2.feed b).2) := by
  induction a generalizing d with
  | nil => rfl
  | cons x a ih => simp [feed, ih, List.append_assoc]

/-- The text that is still to be decoded from a stream. -/
def remaining (d : Decoder) (chunks : List (List UInt8)) : Str :=
  (d.decode (received chunks) true).1

/-- Decoding chunk by chunk. -/
theorem remaining_cons (d : Decoder) {chunk : List UInt8} (hchunk : chunk.isEmpty = false)
    (rest : List (List UInt8)) :
    d.remaining (chunk :: rest) =
      (d.decode chunk false).1 ++ (d.decode chunk false).2.remaining rest := by
  simp [remaining, decode, received, hchunk, feed_append, List.append_assoc]

/-! ### Decoded texts can be encoded again -/

/-- The completions of a pending character are below the surrogates, or above them and in the range
of Unicode. -/
def Sound : Decoder → Prop
  | .idle => True
  | .pending more low high value =>
    0x80 ≤ low ∧ ((value * 64 + (high - 0x80) + 1) * 64 ^ more ≤ 0xD800 ∨
      0xE000 ≤ (value * 64 + (low - 0x80)) * 64 ^ more ∧
        (value * 64 + (high - 0x80) + 1) * 64 ^ more ≤ 0x110000)

theorem lead_sound (b : ℕ) :
    (lead b).2.Sound ∧ ∀ c ∈ (lead b).1, c < 0x110000 ∧ isSurrogate c = false := by
  unfold lead
  split_ifs <;> simp [Sound, isSurrogate, replacement] <;> omega

theorem step_sound {d : Decoder} (hd : d.Sound) (b : ℕ) :
    (d.step b).2.Sound ∧ ∀ c ∈ (d.step b).1, c < 0x110000 ∧ isSurrogate c = false := by
  cases d with
  | idle => exact lead_sound b
  | pending more low high value =>
    obtain ⟨hlow, hd⟩ := hd
    by_cases hb : low ≤ b ∧ b ≤ high
    · have hv : value * 64 + (low - 0x80) ≤ value * 64 + (b - 0x80) ∧
          value * 64 + (b - 0x80) + 1 ≤ value * 64 + (high - 0x80) + 1 := by omega
      cases more with
      | zero =>
        simp only [pow_zero, Nat.mul_one] at hd
        simp only [step, if_pos hb, List.mem_singleton, forall_eq, isSurrogate, Sound, true_and,
          Bool.and_eq_false_iff, decide_eq_false_iff_not]
        omega
      | succ more =>
        simp only [step, if_pos hb, Sound, List.not_mem_nil, IsEmpty.forall_iff, implies_true,
          and_true]
        -- the completions of the longer sequence are among those of the shorter one
        have hfactor : ∀ v : ℕ, v * 64 ^ (more + 1) = v * 64 * 64 ^ more := fun v => by
          rw [Nat.pow_succ', Nat.mul_assoc]
        have hhigh := Nat.mul_le_mul_right (64 ^ (more + 1)) hv.2
        have hlow' := Nat.mul_le_mul_right (64 ^ (more + 1)) hv.1
        rw [hfactor (value * 64 + (b - 0x80) + 1)] at hhigh
        rw [hfactor (value * 64 + (b - 0x80))] at hlow'
        have htop : (value * 64 + (b - 0x80)) * 64 + (0xBF - 0x80) + 1 =
            (value * 64 + (b - 0x80) + 1) * 64 := by omega
        simp only [htop, Nat.sub_self, Nat.add_zero]
        exact ⟨le_refl _, hd.imp (le_trans hhigh) fun h =>
          ⟨le_trans h.1 hlow', le_trans hhigh h.2⟩⟩
    · have hlead := lead_sound b
      simp only [step, if_neg hb, List.mem_cons, forall_eq_or_imp]
      exact ⟨hlead.1, ⟨by decide, by decide⟩, hlead.2⟩

theorem feed_scalar {d : Decoder} (hd : d.Sound) (bytes : List UInt8) :
    ∀ c ∈ (d.feed bytes).1, c < 0x110000 ∧ isSurrogate c = false := by
  induction bytes generalizing d with
  | nil => simp [feed]
  | cons b bytes ih =>
    have hstep := step_sound hd b.toNat
    intro c hc
    rcases List.mem_append.mp hc with hc | hc
    · exact hstep.2 c hc
    · exact ih hstep.1 c hc

theorem flush_scalar (d : Decoder) :
    ∀ c ∈ d.flush, c < 0x110000 ∧ isSurrogate c = false := by
  cases d with
  | idle => exact fun c hc => absurd hc List.not_mem_nil
  | pending => exact List.forall_mem_singleton.mpr ⟨by decide, by decide⟩

end Decoder

/-- Decoded texts have code points of Unicode and no surrogates, so they can be encoded again. -/
theorem decodeUtf8_scalar (data : List UInt8) :
    ∀ c ∈ decodeUtf8 data, c < 0x110000 ∧ isSurrogate c = false := by
  intro c hc
  have hidle : Decoder.idle.Sound := trivial
  rcases List.mem_append.mp hc with hc | hc
  · exact Decoder.feed_scalar hidle data c hc
  · exact Decoder.flush_scalar _ c hc

/-! ### The capture -/

theorem byteLength_append (s t : Str) : byteLength (s ++ t) = byteLength s + byteLength t := by
  simp [byteLength]

theorem fitBytes_isPrefix (room : ℕ) (text : Str) : fitBytes room text <+: text := by
  induction text generalizing room with
  | nil => exact List.prefix_refl _
  | cons c text ih =>
    unfold fitBytes
    split
    · exact List.cons_prefix_cons.mpr ⟨rfl, ih _⟩
    · exact List.nil_prefix

theorem byteLength_fitBytes_le (room : ℕ) (text : Str) : byteLength (fitBytes room text) ≤ room := by
  induction text generalizing room with
  | nil => exact Nat.zero_le _
  | cons c text ih =>
    unfold fitBytes
    split
    · next hc =>
      have htail := ih (room - utf8Size c)
      simp only [byteLength, List.map_cons, List.sum_cons] at htail ⊢
      omega
    · exact Nat.zero_le _

/-- One of the two streams. -/
def OutputCapture.text (capture : OutputCapture) : OutputKind → Str
  | .stdout => capture.stdout
  | .stderr => capture.stderr

/-- The UTF-8 length of both streams. -/
def OutputCapture.size (capture : OutputCapture) : ℕ :=
  byteLength capture.stdout + byteLength capture.stderr

theorem OutputCapture.text_push (capture : OutputCapture) (kind : OutputKind) (text : Str) :
    (capture.push kind text).text =
      Function.update capture.text kind (capture.text kind ++ text) := by
  funext k
  cases kind <;> cases k <;> rfl

theorem OutputCapture.size_push (capture : OutputCapture) (kind : OutputKind) (text : Str) :
    (capture.push kind text).size = capture.size + byteLength text := by
  cases kind <;> simp only [push, size, byteLength_append] <;> omega

/-- The capture against the texts that it was given: it holds a prefix of each within the cap, and
it says so when it does not hold all of them. From then on it is full. -/
structure Captured (capture : OutputCapture) (fed : OutputKind → Str) : Prop where
  size_le : capture.size ≤ capture.used
  used_le : capture.used ≤ capture.maxBytes
  isPrefix : ∀ kind, capture.text kind <+: fed kind
  whole : capture.truncated = false → ∀ kind, capture.text kind = fed kind
  full : capture.truncated = true →
    capture.used = capture.maxBytes ∧ ∃ kind, capture.text kind ≠ fed kind

theorem Captured.init (maxBytes : ℕ) : Captured { maxBytes := maxBytes } fun _ => [] where
  size_le := le_refl 0
  used_le := Nat.zero_le _
  isPrefix kind := by cases kind <;> exact List.nil_prefix
  whole _ kind := by cases kind <;> rfl
  full h := by cases h

section

variable {capture : OutputCapture} {fed : OutputKind → Str}

theorem prefix_update (h : ∀ kind, capture.text kind <+: fed kind) (kind : OutputKind)
    (text : Str) (k : OutputKind) :
    capture.text k <+: Function.update fed kind (fed kind ++ text) k := by
  by_cases hk : k = kind
  · subst hk
    rw [Function.update_self]
    exact (h k).trans (List.prefix_append _ _)
  · rw [Function.update_of_ne hk]
    exact h k

/-- Nothing fits any more. -/
theorem Captured.drop (h : Captured capture fed) (hfull : capture.maxBytes ≤ capture.used)
    (kind : OutputKind) {text : Str} (htext : text ≠ []) :
    Captured { capture with truncated := true }
      (Function.update fed kind (fed kind ++ text)) where
  size_le := h.size_le
  used_le := h.used_le
  isPrefix := prefix_update h.isPrefix kind text
  whole h := by cases h
  full _ := by
    refine ⟨le_antisymm h.used_le hfull, kind, fun heq => htext ?_⟩
    have hlen := (h.isPrefix kind).length_le
    rw [Function.update_self] at heq
    have heq' : capture.text kind = fed kind ++ text := Eq.trans (by cases kind <;> rfl) heq
    rw [heq', List.length_append] at hlen
    exact List.length_eq_zero_iff.mp (by omega)

/-- A part of the text goes into a capture that was not truncated so far. -/
theorem Captured.keep (h : Captured capture fed) (hnot : capture.truncated = false)
    (kind : OutputKind) {text kept : Str} (hkept : kept <+: text) {used : ℕ}
    (hused : capture.used + byteLength kept ≤ used) (hmax : used ≤ capture.maxBytes)
    {truncated : Bool} (hwhole : truncated = false → kept = text)
    (hfull : truncated = true → used = capture.maxBytes ∧ kept ≠ text) :
    Captured { capture.push kind kept with used := used, truncated := truncated }
      (Function.update fed kind (fed kind ++ text)) := by
  have htext : ({ capture.push kind kept with used := used, truncated := truncated }).text =
      Function.update capture.text kind (capture.text kind ++ kept) := capture.text_push kind kept
  have hsize : ({ capture.push kind kept with used := used, truncated := truncated }).size =
      capture.size + byteLength kept := capture.size_push kind kept
  have hmaxBytes : (capture.push kind kept).maxBytes = capture.maxBytes := by cases kind <;> rfl
  have heq := h.whole hnot
  refine ⟨?_, ?_, fun k => ?_, fun ht k => ?_, fun ht => ?_⟩
  · rw [hsize]
    have := h.size_le
    dsimp only
    omega
  · dsimp only
    omega
  · rw [htext]
    by_cases hk : k = kind
    · subst hk
      rw [Function.update_self, Function.update_self, heq k]
      exact (List.prefix_append_right_inj _).mpr hkept
    · rw [Function.update_of_ne hk, Function.update_of_ne hk]
      exact h.isPrefix k
  · rw [htext, hwhole ht, heq kind]
    by_cases hk : k = kind
    · subst hk
      simp
    · rw [Function.update_of_ne hk, Function.update_of_ne hk, heq k]
  · obtain ⟨hu, hne⟩ := hfull ht
    refine ⟨hu.trans hmaxBytes.symm, kind, ?_⟩
    rw [htext, Function.update_self, Function.update_self, heq kind]
    exact fun h => hne (List.append_cancel_left h)

/-- `append` of a text that is not empty. -/
theorem Captured.append (h : Captured capture fed) (kind : OutputKind) {text : Str}
    (htext : text ≠ []) :
    Captured (capture.append kind text).1 (Function.update fed kind (fed kind ++ text)) := by
  unfold OutputCapture.append
  split
  · next hfull => exact h.drop hfull kind htext
  · next hroom =>
    have hnot : capture.truncated = false := by
      by_contra ht
      have := (h.full (by simpa using ht)).1
      omega
    have hused := h.used_le
    split
    · next hcut =>
      have hfit := byteLength_fitBytes_le (capture.maxBytes - capture.used) text
      refine h.keep hnot kind (fitBytes_isPrefix _ text) (by omega) (le_refl _) (fun h => by cases h)
        fun _ => ⟨rfl, fun heq => ?_⟩
      rw [heq] at hfit
      omega
    · next hcut =>
      have hwhole : capture.truncated = false → text = text := fun _ => rfl
      have hkeep := h.keep hnot kind (List.prefix_refl text) (le_refl _) (by omega) hwhole
        fun ht => by simp [hnot] at ht
      have hpush : (capture.push kind text).truncated = capture.truncated := by cases kind <;> rfl
      rw [← hpush] at hkeep
      exact hkeep

end

/-! ### The loops -/

/-- The commands of a pump. -/
inductive PumpCmd
  | read (kind : OutputKind)
  | append (kind : OutputKind) (text : Str)
  | onOutput (kind : OutputKind) (text : Str)

/-- The type of the reply to a command: `append` returns the part that was kept. -/
def PumpReply : PumpCmd → Type
  | .append _ _ => Str
  | _ => Unit

/-- A program of the pumps. -/
abbrev PumpProg := Async.Program PumpCmd PumpReply Exc

/-- Issue one command. -/
abbrev ask (c : PumpCmd) : PumpProg (PumpReply c) := Async.perform c

/-- Capture a text and forward what was kept; the flag says whether a callback was given. -/
def emit (callback : Bool) (kind : OutputKind) (text : Str) : PumpProg Unit := do
  if text.isEmpty then pure ()
  else
    let kept : Str ← ask (.append kind text)
    if callback && !kept.isEmpty then ask (.onOutput kind kept) else pure ()

/-- `SandboxExecutor._pump` from the state `d` of its decoder on, when the next reads return the
given chunks and then nothing. -/
def pump (callback : Bool) (kind : OutputKind) : Decoder → List (List UInt8) → PumpProg Unit
  | d, [] => do
    ask (.read kind)
    emit callback kind (d.decode [] true).1
    pure ()
  | d, chunk :: rest => do
    ask (.read kind)
    emit callback kind (d.decode chunk chunk.isEmpty).1
    if chunk.isEmpty then pure ()
    else pump callback kind (d.decode chunk chunk.isEmpty).2 rest

/-- What the pumps act on: the capture, the calls of the callback, which pumps have been started,
and the texts decoded so far, which are a ghost. -/
structure PumpData where
  capture : OutputCapture
  live : List (OutputKind × Str) := []
  started : OutputKind → Bool := fun _ => false
  fed : OutputKind → Str := fun _ => []

namespace PumpData

/-- Append a text to the capture. -/
def append (d : PumpData) (kind : OutputKind) (text : Str) : PumpData :=
  { d with
    capture := (d.capture.append kind text).1
    fed := Function.update d.fed kind (d.fed kind ++ text) }

/-- Call `on_output`. -/
def call (d : PumpData) (kind : OutputKind) (text : Str) : PumpData :=
  { d with live := d.live ++ [(kind, text)] }

/-- The texts that were passed to `on_output` for a stream. -/
def liveText (d : PumpData) (kind : OutputKind) : Str :=
  (d.live.filter fun x => x.1 == kind).flatMap Prod.snd

end PumpData

/-- The event loop of the pumps. Each is started once. -/
def pumps (maxBytes : ℕ) (callback : Bool) (chunks : OutputKind → List (List UInt8)) :
    Loop PumpData PumpCmd PumpReply Exc OutputKind where
  init := { capture := { maxBytes := maxBytes } }
  issue d
    | .read _ => (d, none)
    | .append kind text => (d.append kind text, some (d.capture.append kind text).2)
    | .onOutput kind text => (d.call kind text, none)
  complete d _ _ := some d
  event d kind :=
    if d.started kind then none
    else some ({ d with started := Function.update d.started kind true },
      pump callback kind .idle (chunks kind))

/-! ### Positions -/

/-- Where a pump can be: before a read, in the callback with the reads that follow it, if any, at
its end, or stopped by an exception. -/
inductive PumpPos
  | reading (kind : OutputKind) (d : Decoder) (rest : List (List UInt8))
  | sending (kind : OutputKind) (text : Str) (next : Option (Decoder × List (List UInt8)))
  | done (kind : OutputKind)
  | failed (kind : OutputKind) (e : Exc)

namespace PumpPos

/-- The stream of a position. -/
def kind : PumpPos → OutputKind
  | .reading kind _ _ => kind
  | .sending kind _ _ => kind
  | .done kind => kind
  | .failed kind _ => kind

/-- The position after a text has been dealt with. -/
def ofNext (kind : OutputKind) : Option (Decoder × List (List UInt8)) → PumpPos
  | none => .done kind
  | some (d, rest) => .reading kind d rest

/-- What is left of a pump after a text has been dealt with. -/
def afterText (callback : Bool) (kind : OutputKind) :
    Option (Decoder × List (List UInt8)) → PumpProg Unit
  | none => pure ()
  | some (d, rest) => pump callback kind d rest

/-- The program that is left at a position. -/
def prog (callback : Bool) : PumpPos → PumpProg Unit
  | .reading kind d rest => pump callback kind d rest
  | .sending kind text next => do
    ask (.onOutput kind text)
    afterText callback kind next
  | .done _ => pure ()
  | .failed _ e => throw e

end PumpPos

section

variable {maxBytes : ℕ} {callback : Bool} {chunks : OutputKind → List (List UInt8)}

/-- The data after a text has been captured and forwarded. -/
def PumpData.feed (callback : Bool) (d : PumpData) (kind : OutputKind) (text : Str) : PumpData :=
  if text.isEmpty then d
  else if callback && !(d.capture.append kind text).2.isEmpty then
    (d.append kind text).call kind (d.capture.append kind text).2
  else d.append kind text

theorem advance_afterText (d : PumpData) (kind : OutputKind)
    (next : Option (Decoder × List (List UInt8))) :
    (pumps maxBytes callback chunks).advance d (PumpPos.afterText callback kind next) =
      (d, (PumpPos.ofNext kind next).prog callback) := by
  cases next with
  | none => rfl
  | some x =>
    obtain ⟨dec, rest⟩ := x
    cases rest <;> rfl

/-- A turn of a pump after a read. -/
theorem advance_emit (d : PumpData) (kind : OutputKind) (text : Str)
    (next : Option (Decoder × List (List UInt8))) :
    ∃ x, (pumps maxBytes callback chunks).advance d
          (emit callback kind text >>= fun _ => PumpPos.afterText callback kind next) =
        (d.feed callback kind text, x.prog callback) ∧
      (x = PumpPos.ofNext kind next ∨ ∃ kept, x = .sending kind kept next) := by
  by_cases htext : text.isEmpty
  · refine ⟨_, ?_, .inl rfl⟩
    simp only [emit, PumpData.feed, if_pos htext]
    exact advance_afterText d kind next
  · by_cases hkept : callback && !(d.capture.append kind text).2.isEmpty
    · refine ⟨.sending kind (d.capture.append kind text).2 next, ?_, .inr ⟨_, rfl⟩⟩
      simp only [emit, PumpData.feed, if_neg htext, if_pos hkept]
      change (pumps maxBytes callback chunks).advance (d.append kind text)
        ((if callback && !(d.capture.append kind text).2.isEmpty then
          ask (.onOutput kind (d.capture.append kind text).2) else pure ()) >>= _) = _
      rw [if_pos hkept]
      rfl
    · refine ⟨_, ?_, .inl rfl⟩
      simp only [emit, PumpData.feed, if_neg htext, if_neg hkept]
      change (pumps maxBytes callback chunks).advance (d.append kind text)
        ((if callback && !(d.capture.append kind text).2.isEmpty then
          ask (.onOutput kind (d.capture.append kind text).2) else pure ()) >>= _) = _
      rw [if_neg hkept]
      exact advance_afterText _ kind next

/-! ### The invariant -/

/-- The text of a stream. -/
def streamText (chunks : OutputKind → List (List UInt8)) (kind : OutputKind) : Str :=
  decodeUtf8 (received (chunks kind))

/-- What a pump has still to decode after the given reads. -/
def nextText : Option (Decoder × List (List UInt8)) → Str
  | none => []
  | some (dec, rest) => dec.remaining rest

/-- The texts decoded so far are those of the stream up to the position. -/
def PumpPos.Left (chunks : OutputKind → List (List UInt8)) (fed : OutputKind → Str) :
    PumpPos → Prop
  | .reading kind dec rest => fed kind ++ dec.remaining rest = streamText chunks kind
  | .sending kind _ next => fed kind ++ nextText next = streamText chunks kind
  | .done kind => fed kind = streamText chunks kind
  | .failed kind _ => fed kind <+: streamText chunks kind

/-- The data and the positions of a reachable state. -/
structure PumpInv (maxBytes : ℕ) (callback : Bool) (chunks : OutputKind → List (List UInt8))
    (d : PumpData) (xs : List PumpPos) : Prop where
  captured : Captured d.capture d.fed
  cap : d.capture.maxBytes = maxBytes
  live : callback = true → ∀ kind, d.liveText kind = d.capture.text kind
  distinct : (xs.map PumpPos.kind).Nodup
  started : ∀ kind, d.started kind = true ↔ kind ∈ xs.map PumpPos.kind
  fresh : ∀ kind, d.started kind = false → d.fed kind = []
  left : ∀ x ∈ xs, x.Left chunks d.fed

namespace PumpPos

variable {fed fed' : OutputKind → Str}

theorem Left.congr {x : PumpPos} (h : x.Left chunks fed) (heq : fed x.kind = fed' x.kind) :
    x.Left chunks fed' := by
  cases x <;> (simp only [kind] at heq; simpa only [Left, heq] using h)

theorem Left.isPrefix {x : PumpPos} (h : x.Left chunks fed) :
    fed x.kind <+: streamText chunks x.kind := by
  cases x with
  | reading kind dec rest => exact ⟨_, h⟩
  | sending kind text next => exact ⟨_, h⟩
  | done kind => exact h ▸ List.prefix_refl _
  | failed kind e => exact h

theorem left_ofNext {kind : OutputKind} {next : Option (Decoder × List (List UInt8))}
    (h : fed kind ++ nextText next = streamText chunks kind) :
    (ofNext kind next).Left chunks fed := by
  cases next with
  | none => simpa [ofNext, Left, nextText] using h
  | some x => exact h

theorem kind_ofNext (kind : OutputKind) (next : Option (Decoder × List (List UInt8))) :
    (ofNext kind next).kind = kind := by
  cases next <;> rfl

end PumpPos

section

variable {d : PumpData} {kind : OutputKind} {text : Str}

theorem PumpData.feed_fed :
    (d.feed callback kind text).fed = Function.update d.fed kind (d.fed kind ++ text) := by
  unfold feed
  split
  · next h =>
    rw [List.isEmpty_iff.mp h, List.append_nil, Function.update_eq_self]
  · split <;> rfl

theorem PumpData.feed_started : (d.feed callback kind text).started = d.started := by
  unfold feed
  split
  · rfl
  · split <;> rfl

theorem PumpData.feed_captured (h : Captured d.capture d.fed) :
    Captured (d.feed callback kind text).capture (d.feed callback kind text).fed := by
  unfold feed
  split
  · exact h
  · next htext =>
    have hne : text ≠ [] := by simpa [List.isEmpty_iff] using htext
    have happend := h.append kind hne
    split <;> exact happend

theorem OutputCapture.append_maxBytes (capture : OutputCapture) :
    (capture.append kind text).1.maxBytes = capture.maxBytes := by
  unfold append
  split
  · rfl
  · split <;> cases kind <;> rfl

theorem PumpData.feed_maxBytes :
    (d.feed callback kind text).capture.maxBytes = d.capture.maxBytes := by
  unfold feed
  split
  · rfl
  · split <;> exact d.capture.append_maxBytes

/-- `append` adds to its stream what it returns. -/
theorem OutputCapture.text_append (capture : OutputCapture) :
    (capture.append kind text).1.text =
      Function.update capture.text kind (capture.text kind ++ (capture.append kind text).2) := by
  unfold append
  split
  · rw [List.append_nil, Function.update_eq_self]
    funext k
    cases k <;> rfl
  · split
    · exact capture.text_push kind _
    · exact capture.text_push kind _

theorem PumpData.liveText_call (k : OutputKind) :
    (d.call kind text).liveText k = Function.update d.liveText kind (d.liveText kind ++ text) k := by
  by_cases hk : k = kind
  · subst hk
    simp [call, liveText]
  · simp [call, liveText, Function.update_of_ne hk, Ne.symm hk]

/-- The callback gets what was kept, unless that is nothing. -/
theorem PumpData.feed_live (h : ∀ k, d.liveText k = d.capture.text k) (k : OutputKind) :
    (d.feed true kind text).liveText k = (d.feed true kind text).capture.text k := by
  have hlive : d.liveText = d.capture.text := funext h
  unfold feed
  split
  · exact h k
  · have htext : ((d.append kind text).capture).text = Function.update d.capture.text kind
        (d.capture.text kind ++ (d.capture.append kind text).2) := d.capture.text_append
    split
    · next hkept =>
      rw [liveText_call]
      change Function.update d.liveText kind (d.liveText kind ++ _) k =
        ((d.append kind text).capture).text k
      rw [htext, hlive]
    · next hkept =>
      have hnil : (d.capture.append kind text).2 = [] := by
        simpa [List.isEmpty_iff] using hkept
      rw [htext, hnil, List.append_nil, Function.update_eq_self]
      exact h k

end

/-- One pump moves on, having dealt with a text of its stream. -/
theorem PumpInv.feed {d : PumpData} {l r : List PumpPos} {x x' : PumpPos}
    (h : PumpInv maxBytes callback chunks d (l ++ x :: r)) (hkind : x'.kind = x.kind) (text : Str)
    (hleft : x'.Left chunks (d.feed callback x.kind text).fed) :
    PumpInv maxBytes callback chunks (d.feed callback x.kind text) (l ++ x' :: r) where
  captured := PumpData.feed_captured h.captured
  cap := PumpData.feed_maxBytes.trans h.cap
  live hcallback := by
    subst hcallback
    exact PumpData.feed_live (h.live rfl)
  distinct := by simpa [hkind] using h.distinct
  started k := by
    rw [PumpData.feed_started, h.started k]
    simp [hkind]
  fresh k hk := by
    rw [PumpData.feed_started] at hk
    have hne : k ≠ x.kind := by
      rintro rfl
      have hstarted := (h.started x.kind).mpr (by simp)
      rw [hk] at hstarted
      cases hstarted
    rw [PumpData.feed_fed, Function.update_of_ne hne]
    exact h.fresh k hk
  left y hy := by
    -- another pump has another stream
    have hother : ∀ y ∈ l ++ r, y.Left chunks (d.feed callback x.kind text).fed := by
      intro y hy
      have hne : y.kind ≠ x.kind := by
        have hdistinct := h.distinct
        rw [List.map_append, List.map_cons, List.nodup_middle, List.nodup_cons,
          ← List.map_append] at hdistinct
        exact fun heq => hdistinct.1 (heq ▸ List.mem_map_of_mem hy)
      refine (h.left y ?_).congr ?_
      · simp only [List.mem_append, List.mem_cons] at hy ⊢
        exact hy.imp_right .inr
      · rw [PumpData.feed_fed, Function.update_of_ne hne]
    rcases List.mem_append.mp hy with hy | hy
    · exact hother y (List.mem_append_left _ hy)
    · rcases List.mem_cons.mp hy with rfl | hy
      · exact hleft
      · exact hother y (List.mem_append_right _ hy)

/-- The reads of a pump after a chunk. -/
def afterChunk (dec : Decoder) : List (List UInt8) → Option (Decoder × List (List UInt8))
  | [] => none
  | chunk :: rest =>
    if chunk.isEmpty then none else some ((dec.decode chunk chunk.isEmpty).2, rest)

/-- The text that the next read gives. -/
def nextChunkText (dec : Decoder) (chunks : List (List UInt8)) : Str :=
  (dec.decode (chunks.head?.getD []) (chunks.head?.getD []).isEmpty).1

theorem pump_eq (kind : OutputKind) (dec : Decoder) (rest : List (List UInt8)) :
    pump callback kind dec rest = (do
      ask (.read kind)
      emit callback kind (nextChunkText dec rest)
      PumpPos.afterText callback kind (afterChunk dec rest)) := by
  cases rest with
  | nil => rfl
  | cons chunk rest =>
    simp only [pump, nextChunkText, afterChunk, List.head?_cons, Option.getD_some]
    split <;> rfl

theorem remaining_eq (dec : Decoder) (rest : List (List UInt8)) :
    dec.remaining rest = nextChunkText dec rest ++ nextText (afterChunk dec rest) := by
  cases rest with
  | nil => exact (List.append_nil _).symm
  | cons chunk rest =>
    by_cases hchunk : chunk.isEmpty
    · rw [List.isEmpty_iff.mp hchunk]
      exact (List.append_nil _).symm
    · rw [Bool.not_eq_true] at hchunk
      rw [dec.remaining_cons hchunk]
      simp [nextChunkText, afterChunk, hchunk, nextText]

/-- A pump that has read a chunk. -/
theorem PumpInv.read {d : PumpData} {l r : List PumpPos} {kind : OutputKind} {dec : Decoder}
    {rest : List (List UInt8)}
    (h : PumpInv maxBytes callback chunks d (l ++ .reading kind dec rest :: r)) :
    ∃ d' x, (pumps maxBytes callback chunks).advance d (do
          emit callback kind (nextChunkText dec rest)
          PumpPos.afterText callback kind (afterChunk dec rest)) = (d', x.prog callback) ∧
      PumpInv maxBytes callback chunks d' (l ++ x :: r) := by
  have hleft := h.left (.reading kind dec rest) (by simp)
  rw [PumpPos.Left, remaining_eq, ← List.append_assoc] at hleft
  have hfed : (d.feed callback kind (nextChunkText dec rest)).fed kind =
      d.fed kind ++ nextChunkText dec rest := by
    rw [PumpData.feed_fed, Function.update_self]
  rw [← hfed] at hleft
  obtain ⟨x, hadvance, hx⟩ := @advance_emit maxBytes callback chunks d kind
    (nextChunkText dec rest) (afterChunk dec rest)
  refine ⟨_, x, hadvance, ?_⟩
  rcases hx with rfl | ⟨kept, rfl⟩
  · exact h.feed (PumpPos.kind_ofNext _ _) _ (PumpPos.left_ofNext hleft)
  · have hkind : (PumpPos.sending kind kept (afterChunk dec rest)).kind = kind := rfl
    exact h.feed hkind _ hleft

/-- A pump that moves on without a text. -/
theorem PumpInv.move {d : PumpData} {l r : List PumpPos} {x x' : PumpPos}
    (h : PumpInv maxBytes callback chunks d (l ++ x :: r)) (hkind : x'.kind = x.kind)
    (hleft : x'.Left chunks d.fed) : PumpInv maxBytes callback chunks d (l ++ x' :: r) :=
  h.feed hkind [] hleft

/-- A pump that an exception stops. -/
theorem PumpInv.fail {d : PumpData} {l r : List PumpPos} {x : PumpPos}
    (h : PumpInv maxBytes callback chunks d (l ++ x :: r)) (e : Exc) :
    PumpInv maxBytes callback chunks d (l ++ .failed x.kind e :: r) :=
  h.move rfl (h.left x (by simp)).isPrefix

/-- A pump that starts. -/
theorem PumpInv.start {d : PumpData} {xs : List PumpPos} {kind : OutputKind}
    (h : PumpInv maxBytes callback chunks d xs) (hstarted : d.started kind = false) :
    PumpInv maxBytes callback chunks { d with started := Function.update d.started kind true }
      (xs ++ [.reading kind .idle (chunks kind)]) where
  captured := h.captured
  cap := h.cap
  live := h.live
  distinct := by
    have hnew : kind ∉ xs.map PumpPos.kind := by
      rw [← h.started kind, hstarted]
      simp
    rw [List.map_append, List.nodup_append]
    refine ⟨h.distinct, by simp, ?_⟩
    rintro k hk k' hk' rfl
    rw [List.map_singleton, List.mem_singleton] at hk'
    rw [hk'] at hk
    exact hnew hk
  started k := by
    by_cases hk : k = kind
    · subst hk
      simp [PumpPos.kind]
    · simp [hk, h.started k, PumpPos.kind]
  fresh k hk := by
    by_cases hk' : k = kind
    · exact h.fresh k (hk' ▸ hstarted)
    · exact h.fresh k (by simpa [hk'] using hk)
  left x hx := by
    rcases List.mem_append.mp hx with hx | hx
    · exact h.left x hx
    · rw [List.mem_singleton.mp hx, PumpPos.Left, h.fresh kind hstarted]
      rfl

/-- **The invariant of the pumps.** -/
theorem captured_reachable {s : LoopState PumpData PumpCmd PumpReply Exc}
    (h : (pumps maxBytes callback chunks).Reachable s) :
    ∃ xs, s.tasks = xs.map (PumpPos.prog callback) ∧
      PumpInv maxBytes callback chunks s.data xs := by
  refine Loop.Run.positions h ?_ ?_ ?_
  · exact ⟨.init maxBytes, rfl, fun _ kind => by cases kind <;> rfl, List.nodup_nil,
      fun kind => by simp [pumps], fun _ _ => rfl, by simp⟩
  · intro d xs kind d' p _ hI hevent
    simp only [pumps] at hevent
    split at hevent
    · cases hevent
    · next hstarted =>
      obtain ⟨rfl, rfl⟩ := Prod.mk.inj (Option.some.inj hevent)
      rw [Bool.not_eq_true] at hstarted
      exact ⟨_, .reading kind .idle (chunks kind),
        advance_afterText _ kind (some (.idle, chunks kind)), hI.start hstarted⟩
  · intro d l x r answer c k d' _ hI hprog hcomplete
    obtain rfl := Option.some.inj hcomplete
    cases x with
    | reading kind dec rest =>
      rw [PumpPos.prog, pump_eq] at hprog
      cases hprog
      cases answer (.read kind) with
      | ok u => exact hI.read
      | error e => exact ⟨_, _, rfl, hI.fail e⟩
    | sending kind text next =>
      cases hprog
      cases answer (.onOutput kind text) with
      | ok u =>
        exact ⟨_, _, advance_afterText d kind next,
          hI.move (PumpPos.kind_ofNext _ _) (PumpPos.left_ofNext
            (hI.left (.sending kind text next) (by simp)))⟩
      | error e => exact ⟨_, _, rfl, hI.fail e⟩
    | done kind => cases hprog
    | failed kind e => cases hprog

/-- When both pumps have ended, every stream has been decoded to its end. -/
theorem fed_of_ended {s : LoopState PumpData PumpCmd PumpReply Exc}
    (h : (pumps maxBytes callback chunks).Reachable s)
    (hstarted : ∀ kind, s.data.started kind = true) (hdone : ∀ p ∈ s.tasks, p = pure ())
    (kind : OutputKind) : s.data.fed kind = decodeUtf8 (received (chunks kind)) := by
  obtain ⟨xs, htasks, hI⟩ := captured_reachable h
  obtain ⟨x, hx, rfl⟩ := List.mem_map.mp ((hI.started kind).mp (hstarted kind))
  have hprog := hdone (x.prog callback) (htasks ▸ List.mem_map_of_mem hx)
  have hleft := hI.left x hx
  cases x with
  | reading kind dec rest =>
    rw [PumpPos.prog, pump_eq] at hprog
    cases hprog
  | sending kind text next => cases hprog
  | done kind => exact hleft
  | failed kind e => cases hprog

/-- What is captured of a stream is a prefix of its text. -/
theorem captured_isPrefix {s : LoopState PumpData PumpCmd PumpReply Exc}
    (h : (pumps maxBytes callback chunks).Reachable s) (kind : OutputKind) :
    s.data.capture.text kind <+: decodeUtf8 (received (chunks kind)) := by
  obtain ⟨xs, -, hI⟩ := captured_reachable h
  refine (hI.captured.isPrefix kind).trans ?_
  by_cases hkind : s.data.started kind = true
  · obtain ⟨x, hx, rfl⟩ := List.mem_map.mp ((hI.started kind).mp hkind)
    exact (hI.left x hx).isPrefix
  · rw [hI.fresh kind (by simpa using hkind)]
    exact List.nil_prefix

/-- The texts that are passed to `on_output` can be encoded again. -/
theorem live_scalar {s : LoopState PumpData PumpCmd PumpReply Exc}
    (h : (pumps maxBytes true chunks).Reachable s) {kind : OutputKind} {text : Str}
    (hlive : (kind, text) ∈ s.data.live) : ∀ c ∈ text, c < 0x110000 ∧ isSurrogate c = false := by
  intro c hc
  obtain ⟨xs, -, hI⟩ := captured_reachable h
  have hshown : c ∈ s.data.liveText kind :=
    List.mem_flatMap.mpr ⟨(kind, text), List.mem_filter.mpr ⟨hlive, by simp⟩, hc⟩
  rw [hI.live rfl kind] at hshown
  exact decodeUtf8_scalar _ c ((captured_isPrefix h kind).subset hshown)

/-- Output capture under any interleaving of the two pumps: the cap holds at every moment, each
stream is captured as a prefix of its text, at the end the flag says exactly whether something is
missing, and the callback has seen what was captured. -/
theorem output_captured {s : LoopState PumpData PumpCmd PumpReply Exc}
    (h : (pumps maxBytes callback chunks).Reachable s) :
    byteLength s.data.capture.stdout + byteLength s.data.capture.stderr ≤ maxBytes ∧
    (∀ kind, s.data.capture.text kind <+: decodeUtf8 (received (chunks kind))) ∧
    ((∀ kind, s.data.started kind = true) → (∀ p ∈ s.tasks, p = pure ()) →
      (s.data.capture.truncated = true ↔
        ∃ kind, s.data.capture.text kind ≠ decodeUtf8 (received (chunks kind)))) ∧
    (callback = true → ∀ kind, s.data.liveText kind = s.data.capture.text kind) := by
  obtain ⟨xs, htasks, hI⟩ := captured_reachable h
  refine ⟨?_, captured_isPrefix h, fun hstarted hdone => ?_, hI.live⟩
  · have hsize := hI.captured.size_le
    have hused := hI.captured.used_le
    rw [hI.cap] at hused
    exact hsize.trans hused
  · have hfed := fed_of_ended h hstarted hdone
    simp only [← hfed]
    constructor
    · exact fun ht => (hI.captured.full ht).2
    · rintro ⟨kind, hkind⟩
      by_contra ht
      exact hkind (hI.captured.whole (by simpa using ht) kind)

end

/-- The sample streams: `é`, cut in two, on the standard output, and `ab` on the standard error. -/
def sampleChunks : OutputKind → List (List UInt8)
  | .stdout => [[0xC3], [0xA9]]
  | .stderr => [[97, 98]]

/-- Both pumps read in turn under a cap of three bytes. -/
def sampleTurns : List (Turn PumpCmd PumpReply Exc OutputKind) :=
  let go (i : ℕ) : Turn PumpCmd PumpReply Exc OutputKind := .resume i fun c =>
    match c with
    | .append _ _ => .ok []
    | .read _ => .ok ()
    | .onOutput _ _ => .ok ()
  [.event .stdout, .event .stderr, go 0, go 1, go 1, go 0, go 0, go 1]

/-- Where the sample ends. -/
def sampleOutput : LoopState PumpData PumpCmd PumpReply Exc :=
  (pumps 3 true sampleChunks).run (pumps 3 true sampleChunks).start sampleTurns

/-- In the sample one byte of room is left for the two of `é`, so the flag is set. -/
theorem output_captured_sample :
    sampleOutput.data.capture.truncated = true ∧ sampleOutput.data.capture.stdout = [] ∧
      byteLength sampleOutput.data.capture.stdout +
        byteLength sampleOutput.data.capture.stderr ≤ 3 := by
  refine ⟨by decide +kernel, by decide +kernel, ?_⟩
  exact (output_captured (Loop.reachable_run sampleTurns (by decide +kernel))).1

end CodeInterpreter.Executor
