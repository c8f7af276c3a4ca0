import CodeInterpreter.Api.Auth

/-!
# The format of tokens

Which tokens `verifyJwt` accepts (`services/jwt.ts`), and that it fails with a `JwtError` on the
others. A token whose header or signed payload is the JSON value `null`, or whose `alg` does not
print, makes it raise a `TypeError` or a `RangeError` instead: the header is read before the
signature is checked, so anybody can send such a token. The clock readings are those of `Date.now`.

## Main definitions

* `Accepts`: the format of a token with a given payload.
* `FailsAsOne`: the accepted tokens are those of the format, and the others raise a `JwtError`.
* `Readable`: no property of `null` is read, and `alg` prints or is not printed.

## Main results

* `failsAsOne_iff`: verification keeps to its format exactly on the readable tokens.
-/

namespace CodeInterpreter.Api

/-! ### The format -/

/-- An `exp` claim, when it is a number, is greater than the given second. -/
def Unexpired (second : ℕ) : Option Property → Prop
  | some (.json (.num (.finite q))) => (second : ℚ) < q
  | some (.json (.num (.infinity negative))) => negative = false
  | _ => True

theorem expired_eq_false_iff {now : ℕ} {exp : Option Property} :
    expired now exp = false ↔ Unexpired (floorSeconds now) exp := by
  rcases exp with _ | (_ | _ | (_ | negative | q) | _ | _ | _) | _ <;>
    simp [expired, Unexpired]

section

variable (node : Node) (token secret : JsStr) (now : TimeValue)

/-- The JSON value of a part of a token. -/
def decodedPart (part : JsStr) : Option Json :=
  node.jsonParse (node.utf8 (node.base64urlDecode part))

/-- A token of three parts, of which the first one names the algorithm and the third one signs the
first two. -/
structure Signed (headerB64 bodyB64 signatureB64 : JsStr) (header : Json) : Prop where
  parts : splitDots token = [headerB64, bodyB64, signatureB64]
  decoded : decodedPart node headerB64 = some header
  alg : header.property (js "alg") = some (.json (.str (js "HS256")))
  signature : node.hmac (headerB64 ++ js "." ++ bodyB64) secret =
    node.base64urlDecode signatureB64

/-- A token of the format, which carries the given payload. -/
def Carries (payload : Json) : Prop :=
  ∃ headerB64 bodyB64 signatureB64 header,
    Signed node token secret headerB64 bodyB64 signatureB64 header ∧
    decodedPart node bodyB64 = some payload ∧
    Unexpired (now.ms / 1000) (payload.property (js "exp"))

/-- Verification returns the payload of a token of the format, and raises a `JwtError` on any
other token. -/
structure FailsAsOne : Prop where
  returns : ∀ payload, verifyJwt node token secret now.ms = .ok payload ↔
    Carries node token secret now payload
  raises : (∀ payload, ¬ Carries node token secret now payload) →
    ∃ message, verifyJwt node token secret now.ms = .error (.jwtError message)

/-- If the token has three parts, its header is not `null`, and its `alg` is the supported one or
the message about it can be made; and if it is signed, then its payload is not `null`. -/
structure Readable : Prop where
  header : ∀ headerB64 bodyB64 signatureB64,
    splitDots token = [headerB64, bodyB64, signatureB64] → decodedPart node headerB64 ≠ some .null
  alg : ∀ headerB64 bodyB64 signatureB64 header,
    splitDots token = [headerB64, bodyB64, signatureB64] →
    decodedPart node headerB64 = some header →
    header.property (js "alg") ≠ some (.json (.str (js "HS256"))) →
    unsupportedMessage node (header.property (js "alg")) ≠ none
  payload : ∀ headerB64 bodyB64 signatureB64 header,
    Signed node token secret headerB64 bodyB64 signatureB64 header →
    decodedPart node bodyB64 ≠ some .null

end

/-! ### Outcomes of verification -/

/-- The failure is a `JwtError`. -/
def JwtFailure.IsJwtError : JwtFailure → Prop
  | .jwtError _ => True
  | _ => False

section

variable {node : Node} {token secret : JsStr} {now : TimeValue}
  {headerB64 bodyB64 signatureB64 : JsStr} {header : Json}

/-- When the algorithm is not the supported one, the attempt to say so decides. -/
theorem verifyJwt_of_alg_ne (hparts : splitDots token = [headerB64, bodyB64, signatureB64])
    (hheader : decodedPart node headerB64 = some header) (hnull : header ≠ .null)
    (halg : header.property (js "alg") ≠ some (.json (.str (js "HS256")))) (now : ℕ) :
    verifyJwt node token secret now =
      .error (unsupported node (header.property (js "alg"))) := by
  unfold decodedPart at hheader
  cases header with
  | null => exact absurd rfl hnull
  | _ =>
    simp only [verifyJwt, hparts, hheader]
    split
    · next alg hstr => rw [if_neg fun heq => halg (by rw [hstr, heq]), hstr]
    · rfl

/-- Of a signed token, the payload decides. -/
theorem verifyJwt_of_signed
    (hsigned : Signed node token secret headerB64 bodyB64 signatureB64 header) (now : ℕ) :
    verifyJwt node token secret now =
      match decodedPart node bodyB64 with
      | none => .error (.jwtError (js "invalid payload"))
      | some .null => .error .typeError
      | some payload =>
        if expired now (payload.property (js "exp")) then
          .error (.jwtError (js "token expired"))
        else .ok payload := by
  rw [verifyJwt_of_alg hsigned.parts hsigned.decoded hsigned.alg, verifyJwt.body,
    if_pos hsigned.signature]
  rfl

/-- A token whose header is `null`. -/
theorem verifyJwt_header_null (hparts : splitDots token = [headerB64, bodyB64, signatureB64])
    (hnull : decodedPart node headerB64 = some .null) (now : ℕ) :
    verifyJwt node token secret now = .error .typeError := by
  unfold decodedPart at hnull
  simp only [verifyJwt, hparts, hnull]

/-- How the checks after the one of the algorithm end. -/
theorem signed_cases (hparts : splitDots token = [headerB64, bodyB64, signatureB64])
    (hdecoded : decodedPart node headerB64 = some header)
    (halg : header.property (js "alg") = some (.json (.str (js "HS256")))) (now : TimeValue) :
    (∃ message, verifyJwt node token secret now.ms = .error (.jwtError message)) ∨
    (verifyJwt node token secret now.ms = .error .typeError ∧ ¬ Readable node token secret) ∨
    ∃ payload, verifyJwt node token secret now.ms = .ok payload ∧
      Carries node token secret now payload := by
  by_cases hsignature : node.hmac (headerB64 ++ js "." ++ bodyB64) secret =
      node.base64urlDecode signatureB64
  · have hsigned : Signed node token secret headerB64 bodyB64 signatureB64 header :=
      ⟨hparts, hdecoded, halg, hsignature⟩
    rw [verifyJwt_of_signed hsigned]
    split
    · exact .inl ⟨_, rfl⟩
    · next hpayload =>
      exact .inr (.inl ⟨rfl, fun h => h.payload _ _ _ _ hsigned hpayload⟩)
    · next payload hnull hpayload =>
      split
      · exact .inl ⟨_, rfl⟩
      · next hexp =>
        rw [Bool.not_eq_true, expired_eq_false_iff, floorSeconds_timeValue] at hexp
        exact .inr (.inr ⟨payload, rfl, _, _, _, _, hsigned, hpayload, hexp⟩)
  · rw [verifyJwt_of_alg hparts hdecoded halg, verifyJwt.body, if_neg hsignature]
    exact .inl ⟨_, rfl⟩

/-- How verification ends: with a `JwtError`, with another exception on a token that is not
readable, or with the payload of a token of the format. -/
theorem verifyJwt_cases (node : Node) (token secret : JsStr) (now : TimeValue) :
    (∃ message, verifyJwt node token secret now.ms = .error (.jwtError message)) ∨
    (∃ e, verifyJwt node token secret now.ms = .error e ∧ ¬ e.IsJwtError ∧
      ¬ Readable node token secret) ∨
    ∃ payload, verifyJwt node token secret now.ms = .ok payload ∧
      Carries node token secret now payload := by
  by_cases hparts : ∃ a b c, splitDots token = [a, b, c]
  · obtain ⟨headerB64, bodyB64, signatureB64, hparts⟩ := hparts
    cases hheader : decodedPart node headerB64 with
    | none =>
      unfold decodedPart at hheader
      exact .inl ⟨js "invalid header", by simp only [verifyJwt, hparts, hheader]⟩
    | some header =>
      by_cases hnull : header = .null
      · subst hnull
        exact .inr (.inl ⟨_, verifyJwt_header_null hparts hheader _, id,
          fun h => h.header _ _ _ hparts hheader⟩)
      by_cases halg : header.property (js "alg") = some (.json (.str (js "HS256")))
      · rcases signed_cases hparts hheader halg now with h | ⟨h, hread⟩ | h
        · exact .inl h
        · exact .inr (.inl ⟨_, h, id, hread⟩)
        · exact .inr (.inr h)
      · rw [verifyJwt_of_alg_ne hparts hheader hnull halg, unsupported]
        split
        · exact .inl ⟨_, rfl⟩
        · next hmessage =>
          exact .inr (.inl ⟨_, rfl, id, fun h => h.alg _ _ _ _ hparts hheader halg hmessage⟩)
  · refine .inl ⟨js "malformed token", ?_⟩
    unfold verifyJwt
    split
    · next h => exact absurd ⟨_, _, _, h⟩ hparts
    · rfl

/-- Of a readable token, the payload that it carries is returned. -/
theorem verifyJwt_of_carries {payload : Json} (hread : Readable node token secret)
    (h : Carries node token secret now payload) :
    verifyJwt node token secret now.ms = .ok payload := by
  obtain ⟨headerB64, bodyB64, signatureB64, header, hsigned, hpayload, hexp⟩ := h
  rw [← floorSeconds_timeValue] at hexp
  refine verifyJwt_eq_ok hsigned.parts hsigned.decoded hsigned.alg hsigned.signature hpayload ?_
    (expired_eq_false_iff.mpr hexp)
  rintro rfl
  exact hread.payload _ _ _ _ hsigned hpayload

/-- On a token that is not readable, an exception that is no `JwtError` is raised. -/
theorem verifyJwt_of_not_readable (hread : ¬ Readable node token secret) (now : ℕ) :
    ∃ e, verifyJwt node token secret now = .error e ∧ ¬ e.IsJwtError := by
  by_contra hne
  have hheader : ∀ a b c, splitDots token = [a, b, c] → decodedPart node a ≠ some .null :=
    fun _ _ _ hparts hnull => hne ⟨_, verifyJwt_header_null hparts hnull _, id⟩
  refine hread ⟨hheader, fun _ _ _ header hparts hdecoded halg hmessage => ?_,
    fun _ _ _ _ hsigned hnull => ?_⟩
  · have hnull : header ≠ .null := fun h => hheader _ _ _ hparts (h ▸ hdecoded)
    refine hne ⟨_, verifyJwt_of_alg_ne hparts hdecoded hnull halg _, ?_⟩
    rw [unsupported, hmessage]
    exact id
  · refine hne ⟨.typeError, ?_, id⟩
    rw [verifyJwt_of_signed hsigned, hnull]

/-- Verification that raises another exception neither returns a payload nor raises a
`JwtError`. -/
theorem not_failsAsOne_of_error {e : JwtFailure}
    (herror : verifyJwt node token secret now.ms = .error e) (he : ¬ e.IsJwtError) :
    ¬ FailsAsOne node token secret now := by
  intro h
  have hnone : ∀ payload, ¬ Carries node token secret now payload := by
    intro payload hcarries
    rw [(h.returns payload).mpr hcarries] at herror
    cases herror
  obtain ⟨message, hmessage⟩ := h.raises hnone
  rw [hmessage] at herror
  cases herror
  exact he trivial

end

/-- Verification accepts exactly the tokens of the format and fails in one way exactly when the
token is readable. -/
theorem failsAsOne_iff (node : Node) (token secret : JsStr) (now : TimeValue) :
    FailsAsOne node token secret now ↔ Readable node token secret := by
  constructor
  · intro h
    by_contra hread
    obtain ⟨e, herror, he⟩ := verifyJwt_of_not_readable hread now.ms
    exact not_failsAsOne_of_error herror he h
  · intro hread
    have hcases := verifyJwt_cases node token secret now
    refine ⟨fun payload => ⟨fun hok => ?_, verifyJwt_of_carries hread⟩, fun hnone => ?_⟩
    · rcases hcases with ⟨_, h⟩ | ⟨_, h, -⟩ | ⟨payload', h, hcarries⟩
      · rw [hok] at h
        cases h
      · rw [hok] at h
        cases h
      · rw [hok] at h
        cases h
        exact hcarries
    · rcases hcases with h | ⟨_, -, -, h⟩ | ⟨payload, -, hcarries⟩
      · exact h
      · exact absurd hread h
      · exact absurd hcarries (hnone payload)

/-- With a stack for two arrays, an `alg` of three nested ones cannot be printed. -/
example : unsupported { sampleNode with printer := { samplePrinter with stackDepth := 2 } }
    (some (.json (.arr [.arr [.arr []]]))) = .unprintable := rfl

/-! ### A header that is `null` -/

/-- A platform that decodes the header `bnVsbA` as the real one does. -/
def nullHeaderNode : Node :=
  { sampleNode with
    base64urlDecode := fun s => if s = js "bnVsbA" then asciiBytes "null" else []
    jsonParse := fun s => if s = js "null" then some .null else none }

/-- The epoch. -/
def epoch : TimeValue := ⟨0, Nat.zero_le _⟩

/-- The token `bnVsbA..`, which anybody can send, raises a `TypeError`. -/
theorem null_header_typeError :
    verifyJwt nullHeaderNode (js "bnVsbA..") sampleSecret epoch.ms = .error .typeError ∧
      ¬ FailsAsOne nullHeaderNode (js "bnVsbA..") sampleSecret epoch := by
  have htext : nullHeaderNode.utf8 (nullHeaderNode.base64urlDecode (js "bnVsbA")) = js "null" := by
    decide +kernel
  have hnull : decodedPart nullHeaderNode (js "bnVsbA") = some .null := by
    unfold decodedPart
    rw [htext]
    simp only [nullHeaderNode, if_true]
  have hparts : splitDots (js "bnVsbA..") = [js "bnVsbA", [], []] := by decide +kernel
  have herror : verifyJwt nullHeaderNode (js "bnVsbA..") sampleSecret epoch.ms =
      .error .typeError := verifyJwt_header_null hparts hnull _
  exact ⟨herror, not_failsAsOne_of_error herror id⟩

end CodeInterpreter.Api
