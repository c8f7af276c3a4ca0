import CodeInterpreter.Executor.Output
import CodeInterpreter.Records.Texts

/-!
# Live output as texts

A message of the worker on the channel of a job is a JSON text, which the API server parses, turns
into a frame and writes as JSON again on the WebSocket of the client. The commands of the model hold
structured messages and frames. Here the client is shown to parse the frame of the message that was
published, whatever characters the output has.

## Main definitions

* `StreamMessage.fields`, `ServerFrame.fields`: the objects on the channel and on the WebSocket.
* `Worker.publishText`, `Api.frameOf`, `Api.sendText`: the texts.
* `Worker.outputMessage`: the message of a captured text.

## Main results

* `live_published`: what a pump passes on is published and parsed as the same text.
* `published_received`: the client reads the frame of the published message.
-/

namespace CodeInterpreter

/-- The object that `StreamPublisher` publishes. -/
def StreamMessage.fields : StreamMessage → List (Str × Value)
  | .stdout data => [(str "kind", .str (str "stdout")), (str "data", .str data)]
  | .stderr data => [(str "kind", .str (str "stderr")), (str "data", .str data)]
  | .status s => [(str "kind", .str (str "status")), (str "status", .str s.text)]
  | .done exitCode s wallTimeMs timedOut oomKilled =>
    [(str "kind", .str (str "done")), (str "exit_code", exitCode.elim .none .int),
      (str "status", .str s.text), (str "wall_time_ms", .int wallTimeMs),
      (str "timed_out", .bool timedOut), (str "oom_killed", .bool oomKilled)]

/-- `StreamPublisher._publish`. -/
def Worker.publishText (py : Python) (repr : FloatRepr) (message : StreamMessage) :
    Except Exc Str :=
  py.dumps repr (.dict message.fields)

/-- What `on_output` publishes. -/
def Worker.outputMessage : Executor.OutputKind → Str → StreamMessage
  | .stdout, data => .stdout data
  | .stderr, data => .stderr data

namespace Api

/-- A property that goes into a frame; an undefined one is not written. -/
def frameField (msg : List (JsStr × Json)) (name : JsStr) : List (JsStr × Json) :=
  ((ownProperty msg name).map fun v => (name, v)).toList

/-- The frame that `onWorkerMessage` sends for a text, if any. Only an object has a property
`kind`. -/
def frameOf (raw : JsStr) : Option (List (JsStr × Json)) :=
  match parse raw with
  | some (.obj msg) =>
    match ownProperty msg (js "kind") with
    | some (.str kind) =>
      if kind = js "stdout" then
        some ((js "type", .str (js "stdout")) :: frameField msg (js "data"))
      else if kind = js "stderr" then
        some ((js "type", .str (js "stderr")) :: frameField msg (js "data"))
      else if kind = js "status" then
        some ((js "type", .str (js "status")) :: frameField msg (js "status"))
      else if kind = js "done" then
        some ((js "type", .str (js "exit")) ::
          ([js "exit_code", js "status", js "wall_time_ms", js "timed_out", js "oom_killed"].flatMap
            (frameField msg)))
      else none
    | _ => none
  | _ => none

/-- `send` on an open socket. -/
def sendText (engine : Engine) (frame : List (JsStr × Json)) : Str :=
  (Json.obj frame).stringify engine

end Api

/-- The object of a frame; `errorText` is the text of an exception. -/
def ServerFrame.fields (errorText : Exc → Str) : ServerFrame → List (Str × Value)
  | .accepted jobId => [(str "type", .str (str "accepted")), (str "job_id", .str jobId)]
  | .status s => [(str "type", .str (str "status")), (str "status", .str s.text)]
  | .stdout data => [(str "type", .str (str "stdout")), (str "data", .str data)]
  | .stderr data => [(str "type", .str (str "stderr")), (str "data", .str data)]
  | .exit exitCode s wallTimeMs timedOut oomKilled =>
    [(str "type", .str (str "exit")), (str "exit_code", exitCode.elim .none .int),
      (str "status", .str s.text), (str "wall_time_ms", .int wallTimeMs),
      (str "timed_out", .bool timedOut), (str "oom_killed", .bool oomKilled)]
  | .error title detail =>
    [(str "type", .str (str "error")), (str "title", .str title), (str "detail", .str detail)]
  | .streamError e =>
    [(str "type", .str (str "error")), (str "title", .str (str "Stream error")),
      (str "detail", .str (errorText e))]

/-- The texts and numbers of a message are such that both languages hold them. -/
def StreamMessage.Sound : StreamMessage → Prop
  | .stdout data | .stderr data => Readable data
  | .status _ => True
  | .done exitCode _ wallTimeMs _ _ => (∀ n ∈ exitCode, n.natAbs ≤ 2 ^ 53) ∧ wallTimeMs ≤ 2 ^ 53

section

variable {py : Python} {repr : FloatRepr} {engine : Engine} {limit : ℕ} {message : StreamMessage}

theorem portable_exitCode {exitCode : Option ℤ} (h : ∀ n ∈ exitCode, n.natAbs ≤ 2 ^ 53) :
    Portable repr (limit + 1) (exitCode.elim .none .int) := by
  cases exitCode with
  | none => exact .none
  | some n => exact .int (h n rfl)

/-- A message or its frame: what comes behind the kind or type is the same. -/
theorem StreamMessage.Sound.portable (h : message.Sound) {tag kind : Str}
    (htag : tag = str "kind" ∨ tag = str "type") (hkind : ∀ c ∈ kind, c < 128) :
    Portable repr (limit + 2) (.dict ((tag, .str kind) :: message.fields.tail)) := by
  have hkeys : (message.fields.tail.map Prod.fst).Sublist [str "data", str "exit_code",
      str "status", str "wall_time_ms", str "timed_out", str "oom_killed"] := by
    cases message <;> simp [fields]
  have hvalues : ∀ kv ∈ message.fields.tail, Portable repr (limit + 1) kv.2 := by
    cases message with
    | stdout data => exact List.forall_mem_singleton.mpr (.str h)
    | stderr data => exact List.forall_mem_singleton.mpr (.str h)
    | status s => exact List.forall_mem_singleton.mpr (.str (readable_status s))
    | done exitCode s wallTimeMs timedOut oomKilled =>
      simp only [fields, List.tail_cons, List.forall_mem_cons]
      exact ⟨portable_exitCode h.1, .str (readable_status s), .nat h.2, .bool _, .bool _, by simp⟩
  refine portable_object _ (hkeys.cons_cons tag) ?_ ?_
    (List.forall_mem_cons.mpr ⟨.str (readable_ascii hkind), hvalues⟩)
  · rcases htag with rfl | rfl <;> decide
  · rcases htag with rfl | rfl <;> decide

/-- The frame of a message is the message with its kind renamed. -/
theorem frameOf_fields (message : StreamMessage) (errorText : Exc → Str) {raw : JsStr}
    (hraw : parse raw = some (.obj (memberJsons message.fields))) :
    Api.frameOf raw = some (memberJsons ((Api.forwarded message).fields errorText)) := by
  rw [Api.frameOf, hraw]
  cases message <;> rfl

/-- The API server parses the text of a message. -/
theorem publishText_parses (hlimit : 2 ≤ py.recursionLimit) (hmessage : message.Sound) :
    ∃ text, Worker.publishText py repr message = .ok text ∧
      parse (codeUnits text) = some (.obj (memberJsons message.fields)) := by
  obtain ⟨limit, hlimit⟩ : ∃ limit, py.recursionLimit = limit + 2 :=
    ⟨py.recursionLimit - 2, by omega⟩
  have hpublished : Portable repr (limit + 2) (.dict message.fields) := by
    cases message <;> exact hmessage.portable (.inl rfl) (by decide)
  obtain ⟨text, htext⟩ := hpublished.encodes
  rw [← hlimit] at htext
  exact ⟨text, htext, parse_dumps htext hpublished.regular⟩

/-- The client parses the text of a frame. -/
theorem sendText_parses (hengine : engine.Exact) (hmessage : message.Sound)
    (errorText : Exc → Str) :
    parse (codeUnits (Api.sendText engine
      (memberJsons ((Api.forwarded message).fields errorText)))) =
        some (.obj (memberJsons ((Api.forwarded message).fields errorText))) := by
  have hframe : Portable exactRepr 2 (.dict ((Api.forwarded message).fields errorText)) := by
    cases message <;> exact hmessage.portable (.inr rfl) (by decide)
  exact parse_stringify hengine hframe.proper

/-- **What a pump passes on is published**, and the API server parses it as the same text. -/
theorem live_published {maxBytes : ℕ} {chunks : Executor.OutputKind → List (List UInt8)}
    {s : Async.LoopState Executor.PumpData Executor.PumpCmd Executor.PumpReply Exc}
    (h : (Executor.pumps maxBytes true chunks).Reachable s) {kind : Executor.OutputKind}
    {data : Str} (hlive : (kind, data) ∈ s.data.live) (hlimit : 2 ≤ py.recursionLimit) :
    ∃ text, Worker.publishText py repr (Worker.outputMessage kind data) = .ok text ∧
      parse (codeUnits text) =
        some (.obj (memberJsons (Worker.outputMessage kind data).fields)) := by
  have hreadable : Readable data := readable_of_isScalar (Executor.live_scalar h hlive)
  have hmessage : (Worker.outputMessage kind data).Sound := by cases kind <;> exact hreadable
  exact publishText_parses hlimit hmessage

/-- **The client reads the frame of the message that the worker published.** -/
theorem published_received (hengine : engine.Exact) (hlimit : 2 ≤ py.recursionLimit)
    (hmessage : message.Sound) (errorText : Exc → Str) :
    ∃ text frame, Worker.publishText py repr message = .ok text ∧
      Api.frameOf (codeUnits text) = some frame ∧
      parse (codeUnits (Api.sendText engine frame)) =
        some (.obj (memberJsons ((Api.forwarded message).fields errorText))) := by
  obtain ⟨text, htext, hparse⟩ : ∃ text, Worker.publishText py repr message = .ok text ∧
      parse (codeUnits text) = some (.obj (memberJsons message.fields)) :=
    publishText_parses hlimit hmessage
  exact ⟨text, _, htext, frameOf_fields message errorText hparse,
    sendText_parses hengine hmessage errorText⟩

/-- A line with a character beyond sixteen bits. -/
theorem published_received_sample :
    ∃ text frame, Worker.publishText samplePython exactRepr (.stdout [0x1F600, 10]) = .ok text ∧
      Api.frameOf (codeUnits text) = some frame ∧
      parse (codeUnits (Api.sendText exactEngine frame)) =
        some (.obj [(js "type", .str (js "stdout")), (js "data", .str [0xD83D, 0xDE00, 10])]) := by
  have hmessage : StreamMessage.Sound (.stdout [0x1F600, 10]) :=
    readable_of_isScalar (by simp [IsScalar, isSurrogate])
  exact published_received exactEngine_exact (by decide) hmessage fun _ => []

end

end CodeInterpreter
