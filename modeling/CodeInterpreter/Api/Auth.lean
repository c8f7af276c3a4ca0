import CodeInterpreter.Js.Clock
import CodeInterpreter.Js.Value
import CodeInterpreter.Api.RateLimiter

/-!
# Authentication

`verifyJwt` (`services/jwt.ts`) and `authenticatePrincipal` (`middleware/auth.ts`), and the user id
as the name of an identity: three branches write into one namespace of strings, which keys the
ownership of jobs, the concurrency quota and the rate limit.

The user id of a token is whatever truthy value its `sub` claim has. The ownership check compares
user ids as values; the Redis keys hold the string that a template literal makes of them, in UTF-8.

Base64url, UTF-8 decoding, `JSON.parse`, the digests, and how and within which limits values are
printed, are a parameter (`Node`).

## Main definitions

* `Node`, `verifyJwt`, `hashKey`, `authenticatePrincipal`.
* `Identity`, `identity`: who the credentials denote, without regard to the user id.
* `Separate`: two principals share neither user id nor Redis keys.
* `Clash`: a `sub` claim that writes the name of another identity.

## Main results

* `separate_iff_not_clash`: when two different identities are kept apart.
* `not_clash_of_wellFormed`: two string claims without lone surrogates never clash.
-/

namespace CodeInterpreter.Api

/-- What the model leaves open about the platform. -/
structure Node where
  printer : Printer
  base64urlDecode : JsStr → List UInt8
  utf8 : List UInt8 → JsStr
  jsonParse : JsStr → Option Json
  hmac : JsStr → JsStr → List UInt8
  sha256 : JsStr → List UInt8

/-! ### Tokens -/

/-- What `verifyJwt` raises: a `JwtError` with its message, the `TypeError` of reading a property of
`null`, or what `String(header.alg)` and the message with it raise. -/
inductive JwtFailure
  | jwtError (message : JsStr)
  | typeError
  | unprintable

/-- The parts of a string between the dots. -/
def splitDots : JsStr → List JsStr
  | [] => [[]]
  | u :: rest =>
    if u = 46 then [] :: splitDots rest
    else
      match splitDots rest with
      | [] => [[u]]
      | part :: parts => (u :: part) :: parts

/-- Whether a token with the given `exp` property has expired at the clock reading `now`. -/
def expired (now : ℕ) : Option Property → Bool
  | some (.json (.num (.finite q))) => q ≤ (floorSeconds now : ℚ)
  | some (.json (.num (.infinity negative))) => negative
  | _ => false

/-- The message about an algorithm that is not supported; none when it cannot be made. -/
def unsupportedMessage (node : Node) (alg : Option Property) : Option JsStr := do
  let text ← match alg with
    | some alg => alg.toText node.printer
    | none => some (js "undefined")
  node.printer.fit (js "unsupported algorithm: " ++ text)

/-- What `verifyJwt` raises for an algorithm that is not supported. -/
def unsupported (node : Node) (alg : Option Property) : JwtFailure :=
  match unsupportedMessage node alg with
  | some message => .jwtError message
  | none => .unprintable

/-- `verifyJwt`. Reading a property of `null` raises a `TypeError`, and printing `alg` may raise. -/
def verifyJwt (node : Node) (token secret : JsStr) (now : ℕ) : Except JwtFailure Json :=
  match splitDots token with
  | [headerB64, bodyB64, signatureB64] =>
    match node.jsonParse (node.utf8 (node.base64urlDecode headerB64)) with
    | none => .error (.jwtError (js "invalid header"))
    | some .null => .error .typeError
    | some header =>
      match header.property (js "alg") with
      | some (.json (.str alg)) =>
        if alg = js "HS256" then body headerB64 bodyB64 signatureB64
        else .error (unsupported node (some (.json (.str alg))))
      | alg => .error (unsupported node alg)
  | _ => .error (.jwtError (js "malformed token"))
where
  -- the checks after the one of the algorithm
  body (headerB64 bodyB64 signatureB64 : JsStr) : Except JwtFailure Json :=
    if node.hmac (headerB64 ++ js "." ++ bodyB64) secret = node.base64urlDecode signatureB64 then
      match node.jsonParse (node.utf8 (node.base64urlDecode bodyB64)) with
      | none => .error (.jwtError (js "invalid payload"))
      | some .null => .error .typeError
      | some payload =>
        if expired now (payload.property (js "exp")) then
          .error (.jwtError (js "token expired"))
        else .ok payload
    else .error (.jwtError (js "signature mismatch"))

section

variable {node : Node} {token secret headerB64 bodyB64 signatureB64 : JsStr} {now : ℕ}
  {header : Json}

/-- When the algorithm is the supported one, the checks after it decide. -/
theorem verifyJwt_of_alg (hsplit : splitDots token = [headerB64, bodyB64, signatureB64])
    (hheader : node.jsonParse (node.utf8 (node.base64urlDecode headerB64)) = some header)
    (halg : header.property (js "alg") = some (.json (.str (js "HS256")))) :
    verifyJwt node token secret now =
      verifyJwt.body node secret now headerB64 bodyB64 signatureB64 := by
  simp only [verifyJwt, hsplit, hheader]
  split
  · next h => cases h
  · next h =>
    cases h
    cases halg
  · next h =>
    cases h
    simp only [halg, if_true]

/-- A token that passes every check. -/
theorem verifyJwt_eq_ok {payload : Json}
    (hsplit : splitDots token = [headerB64, bodyB64, signatureB64])
    (hheader : node.jsonParse (node.utf8 (node.base64urlDecode headerB64)) = some header)
    (halg : header.property (js "alg") = some (.json (.str (js "HS256"))))
    (hsignature : node.hmac (headerB64 ++ js "." ++ bodyB64) secret =
      node.base64urlDecode signatureB64)
    (hpayload : node.jsonParse (node.utf8 (node.base64urlDecode bodyB64)) = some payload)
    (hnull : payload ≠ .null) (hexp : expired now (payload.property (js "exp")) = false) :
    verifyJwt node token secret now = .ok payload := by
  rw [verifyJwt_of_alg hsplit hheader halg, verifyJwt.body, if_pos hsignature, hpayload]
  cases payload with
  | null => exact absurd rfl hnull
  | _ => exact if_neg (by simp [hexp])

end

/-! ### Principals -/

/-- An authentication failure. -/
structure AuthError where
  status : ℕ
  title : JsStr
  detail : JsStr
  deriving DecidableEq

/-- A principal as it is at run time: the user id of a token may be any truthy property. So a signed
`sub` of `1e400` is read as an infinity, which the record of a job then holds as `null`. -/
structure AuthPrincipal where
  userId : Property
  tier : UserTier
  authMethod : AuthMethod

/-- The settings that authentication reads. -/
structure AuthConfig where
  apiKeyMap : JsStr → Option UserTier
  jwtSecret : JsStr
  allowAnonymous : Bool

/-- What a request brings: its header bag, the query token of a browser, and the time of the
request. -/
structure Credentials where
  headers : String → Option JsStr
  queryToken : Option JsStr
  now : ℕ

/-- A string that is there and not empty. -/
def present (s : Option JsStr) : Option JsStr := s.filter fun s => !s.isEmpty

/-- The lower-case hexadecimal digit of a number below 16. -/
def hexChar (n : ℕ) : UInt16 := UInt16.ofNat (if n < 10 then 48 + n else 87 + n)

/-- The hexadecimal text of a digest. -/
def hex (digest : List UInt8) : JsStr :=
  digest.flatMap fun b => [hexChar (b.toNat / 16), hexChar (b.toNat % 16)]

/-- Short, stable fingerprint of an API key. -/
def hashKey (node : Node) (key : JsStr) : JsStr := (hex (node.sha256 key)).take 16

/-- The token of the request, from its `Authorization` header or else from the query. -/
def bearer (c : Credentials) : Option JsStr :=
  match c.headers "authorization" with
  | some header => if (js "Bearer ").isPrefixOf header then some (header.drop 7) else c.queryToken
  | none => c.queryToken

/-- The reason in the detail of a refused token. -/
def JwtFailure.reason : JwtFailure → JsStr
  | .jwtError message => message
  | .typeError => js "verification failed"
  | .unprintable => js "verification failed"

/-- `authenticatePrincipal`. -/
def authenticatePrincipal (node : Node) (config : AuthConfig) (c : Credentials) :
    Except AuthError AuthPrincipal :=
  match present (c.headers "x-api-key") with
  | some apiKey =>
    match config.apiKeyMap apiKey with
    | none =>
      .error ⟨403, js "Invalid API key", js "The provided X-API-Key is not recognised."⟩
    | some tier => .ok ⟨.json (.str (js "key:" ++ hashKey node apiKey)), tier, .apiKey⟩
  | none =>
    match present (bearer c) with
    | some token =>
      match verifyJwt node token config.jwtSecret c.now with
      | .error err =>
        .error ⟨403, js "Invalid token", js "JWT verification failed: " ++ err.reason⟩
      | .ok claims =>
        match (claims.property (js "sub")).filter Property.truthy with
        | none =>
          .error ⟨403, js "Invalid token", js "JWT is missing the required `sub` claim."⟩
        | some sub => .ok ⟨sub, tierOf (claims.property (js "tier")), .jwt⟩
    | none =>
      if config.allowAnonymous then .ok ⟨.json (.str (js "anonymous")), .anonymous, .anonymous⟩
      else
        .error ⟨401, js "Authentication required",
          js "Provide a Bearer JWT in Authorization or a key in X-API-Key."⟩
where
  -- only `premium` is read off the claims
  tierOf : Option Property → UserTier
    | some (.json (.str tier)) => if tier = js "premium" then .premium else .authenticated
    | _ => .authenticated

/-! ### Identities -/

/-- Who a request comes from. -/
inductive Identity
  | apiKey (key : JsStr)
  | jwt (sub : Property)
  | anonymous

/-- The identity that credentials denote: their key, the `sub` of their verified token, or
nobody. -/
def identity (node : Node) (config : AuthConfig) (c : Credentials) : Option Identity :=
  match present (c.headers "x-api-key") with
  | some key => some (.apiKey key)
  | none =>
    match present (bearer c) with
    | some token =>
      match verifyJwt node token config.jwtSecret c.now with
      | .error _ => none
      | .ok claims => (claims.property (js "sub")).map .jwt
    | none => some .anonymous

/-- The text of a user id in a Redis key; none when printing it raises. -/
def idText (node : Node) (userId : Property) : Option Str :=
  (userId.toText node.printer).map sent

/-- The key of the concurrency quota. -/
def concurrencyKey (userId : Str) : Str := str "sandbox:concurrency:" ++ userId

/-- Two principals have different user ids, so neither owns a job of the other, and no quota and
no rate-limit bucket in common. -/
structure Separate (node : Node) (p q : AuthPrincipal) : Prop where
  userId : p.userId ≠ q.userId
  quota : ∀ key, (idText node p.userId).map concurrencyKey = some key →
    (idText node q.userId).map concurrencyKey ≠ some key
  rateLimit : ∀ key, (idText node p.userId).map (rateLimitKey (str "user")) = some key →
    (idText node q.userId).map (rateLimitKey (str "user")) ≠ some key

/-- The `sub` claim of the first identity prints as the user id of the second one. -/
def Clash (node : Node) : Identity → Identity → Prop
  | .jwt sub, .anonymous => idText node sub = some (str "anonymous")
  | .jwt sub, .apiKey key =>
    idText node sub = some (str "key:" ++ (hashKey node key).map UInt16.toNat)
  | .jwt sub, .jwt sub' => (idText node sub).isSome ∧ idText node sub = idText node sub'
  | _, _ => False

/-- The user id of an identity. -/
def Identity.userId (node : Node) : Identity → Property
  | .apiKey key => .json (.str (js "key:" ++ hashKey node key))
  | .jwt sub => sub
  | .anonymous => .json (.str (js "anonymous"))

/-- An API key is one of the configured ones. -/
def Identity.Known (config : AuthConfig) : Identity → Prop
  | .apiKey key => (config.apiKeyMap key).isSome
  | _ => True

section

variable {node : Node} {config : AuthConfig} {c : Credentials} {p q : AuthPrincipal}
  {i j : Identity}

/-- What `authenticatePrincipal` returns is determined by the identity and its tier. -/
theorem authenticatePrincipal_eq_ok (hp : authenticatePrincipal node config c = .ok p)
    (hi : identity node config c = some i) : p.userId = i.userId node ∧ i.Known config := by
  unfold authenticatePrincipal at hp
  unfold identity at hi
  split at hp
  · next key hkey =>
    simp only [hkey, Option.some.injEq] at hi
    subst hi
    split at hp
    · cases hp
    · next tier htier =>
      cases hp
      exact ⟨rfl, by simp [Identity.Known, htier]⟩
  · next hkey =>
    simp only [hkey] at hi
    split at hp
    · next token htoken =>
      simp only [htoken] at hi
      split at hp
      · cases hp
      · next claims hclaims =>
        simp only [hclaims, Option.map_eq_some_iff] at hi
        obtain ⟨sub, hsub, rfl⟩ := hi
        split at hp
        · cases hp
        · next sub' hsub' =>
          cases hp
          rw [hsub, Option.filter_eq_some_iff] at hsub'
          exact ⟨(Option.some.inj hsub'.1).symm, trivial⟩
    · next htoken =>
      simp only [htoken, Option.some.injEq] at hi
      subst hi
      split at hp
      · cases hp
        exact ⟨rfl, trivial⟩
      · cases hp

/-! ### Texts of user ids -/

@[simp] theorem Identity.userId_jwt (sub : Property) : Identity.userId node (.jwt sub) = sub := rfl

theorem hexChar_lt {n : ℕ} (hn : n < 16) : (hexChar n).toNat < 0xD800 := by
  unfold hexChar
  rw [UInt16.toNat_ofNat']
  split <;> omega

theorem hashKey_lt {key : JsStr} {u : UInt16} (hu : u ∈ hashKey node key) : u.toNat < 0xD800 := by
  have hhex : u ∈ hex (node.sha256 key) := List.mem_of_mem_take hu
  simp only [hex, List.mem_flatMap, List.mem_cons, List.not_mem_nil, or_false] at hhex
  obtain ⟨b, -, rfl | rfl⟩ := hhex
  · exact hexChar_lt (by have := b.toNat_lt; omega)
  · exact hexChar_lt (by omega)

theorem js_key_lt {key : JsStr} {u : UInt16} (hu : u ∈ js "key:" ++ hashKey node key) :
    u.toNat < 0xD800 := by
  have hkey : (js "key:").all (fun u => u.toNat < 0xD800) = true := by decide
  rcases List.mem_append.mp hu with hu | hu
  · exact of_decide_eq_true (List.all_eq_true.mp hkey u hu)
  · exact hashKey_lt hu

theorem idText_str {s : JsStr} (hs : ∀ u ∈ s, u.toNat < 0xD800) :
    idText node (.json (.str s)) = some (s.map UInt16.toNat) := by
  have hsent : sent s = s.map UInt16.toNat := by
    rw [sent_of_wellFormed (wellFormed_of_lt hs), codePoints_of_lt hs]
  simp [idText, Property.toText, Json.toText, Json.textWithin, hsent]

theorem idText_apiKey (key : JsStr) :
    idText node (Identity.userId node (.apiKey key)) =
      some (str "key:" ++ (hashKey node key).map UInt16.toNat) := by
  rw [Identity.userId, idText_str fun u hu => js_key_lt hu, List.map_append]
  rfl

theorem idText_anonymous :
    idText node (Identity.userId node .anonymous) = some (str "anonymous") := by
  have hname : (js "anonymous").all (fun u => u.toNat < 0xD800) = true := by decide
  rw [Identity.userId, idText_str fun u hu => of_decide_eq_true (List.all_eq_true.mp hname u hu)]
  rfl

/-- Both kinds of Redis keys tell user ids apart exactly when their texts do. -/
theorem separate_iff :
    Separate node p q ↔
      p.userId ≠ q.userId ∧ ∀ t, idText node p.userId = some t → idText node q.userId ≠ some t := by
  constructor
  · intro h
    refine ⟨h.userId, fun t hp hq => ?_⟩
    exact h.quota (concurrencyKey t) (by rw [hp]; rfl) (by rw [hq]; rfl)
  · rintro ⟨hid, htext⟩
    -- a key is a fixed text in front of the user id
    have hkey : ∀ f : Str → Str, Function.Injective f → ∀ key,
        (idText node p.userId).map f = some key → (idText node q.userId).map f ≠ some key := by
      intro f hf key hp hq
      obtain ⟨t, ht, rfl⟩ := Option.map_eq_some_iff.mp hp
      obtain ⟨t', ht', heq⟩ := Option.map_eq_some_iff.mp hq
      exact htext t ht (ht'.trans (congrArg some (hf heq)))
    exact ⟨hid, hkey _ (List.append_right_injective _), hkey _ (List.append_right_injective _)⟩

/-! ### Clashes -/

/-- The fingerprints of the configured keys do not collide. -/
def FingerprintsDistinct (node : Node) (config : AuthConfig) : Prop :=
  ∀ key key', (config.apiKeyMap key).isSome → (config.apiKeyMap key').isSome →
    hashKey node key = hashKey node key' → key = key'

theorem toNat_map_injective : Function.Injective (List.map UInt16.toNat) :=
  List.map_injective_iff.mpr fun _ _ => UInt16.toNat_inj.mp

theorem key_ne_anonymous (key : JsStr) :
    str "key:" ++ (hashKey node key).map UInt16.toNat ≠ str "anonymous" := by
  intro h
  have hhead : (107 : ℕ) = 97 := List.head_eq_of_cons_eq h
  exact absurd hhead (by decide)

/-- Two different identities have a text in common only when a `sub` claim writes the name of the
other one. -/
theorem clash_iff_idText (hfp : FingerprintsDistinct node config) (hi : i.Known config)
    (hj : j.Known config) (hij : i ≠ j) :
    (∃ t, idText node (i.userId node) = some t ∧ idText node (j.userId node) = some t) ↔
      Clash node i j ∨ Clash node j i := by
  cases i with
  | apiKey key =>
    cases j with
    | apiKey key' =>
      have hne : hashKey node key ≠ hashKey node key' := fun h =>
        hij (congrArg _ (hfp key key' hi hj h))
      simp only [idText_apiKey, Option.some.injEq, Clash, or_self, iff_false]
      rintro ⟨t, rfl, ht⟩
      exact hne (toNat_map_injective (List.append_cancel_left ht)).symm
    | jwt sub => simp [idText_apiKey, Clash]
    | anonymous =>
      simp [idText_apiKey, idText_anonymous, Clash, (key_ne_anonymous key).symm]
  | jwt sub =>
    cases j with
    | apiKey key => simp [idText_apiKey, Clash]
    | jwt sub' =>
      simp only [Identity.userId_jwt, Clash, Option.isSome_iff_exists]
      constructor
      · rintro ⟨t, hsub, hsub'⟩
        exact .inl ⟨⟨t, hsub⟩, hsub.trans hsub'.symm⟩
      · rintro (⟨⟨t, ht⟩, heq⟩ | ⟨⟨t, ht⟩, heq⟩)
        · exact ⟨t, ht, heq ▸ ht⟩
        · exact ⟨t, heq ▸ ht, ht⟩
    | anonymous => simp [idText_anonymous, Clash]
  | anonymous =>
    cases j with
    | apiKey key =>
      simp [idText_apiKey, idText_anonymous, Clash, key_ne_anonymous key]
    | jwt sub => simp [idText_anonymous, Clash]
    | anonymous => exact absurd rfl hij

/-- Different identities with one user id have its text in common. -/
theorem idText_of_userId_eq (hij : i ≠ j) (h : i.userId node = j.userId node) :
    ∃ t, idText node (i.userId node) = some t ∧ idText node (j.userId node) = some t := by
  have hsome : (∃ t, idText node (i.userId node) = some t) →
      ∃ t, idText node (i.userId node) = some t ∧ idText node (j.userId node) = some t := by
    rintro ⟨t, ht⟩
    exact ⟨t, ht, h ▸ ht⟩
  cases i with
  | apiKey key => exact hsome ⟨_, idText_apiKey key⟩
  | anonymous => exact hsome ⟨_, idText_anonymous⟩
  | jwt sub =>
    cases j with
    | apiKey key => exact hsome ⟨_, h ▸ idText_apiKey key⟩
    | anonymous => exact hsome ⟨_, h ▸ idText_anonymous⟩
    | jwt sub' => exact absurd (congrArg Identity.jwt h) hij

/-- Two accepted requests of different identities are kept apart exactly when the `sub` claim of
neither writes the name of the other. -/
theorem separate_iff_not_clash (hfp : FingerprintsDistinct node config) {a b : Credentials}
    (hp : authenticatePrincipal node config a = .ok p)
    (hq : authenticatePrincipal node config b = .ok q)
    (hi : identity node config a = some i) (hj : identity node config b = some j) (hij : i ≠ j) :
    Separate node p q ↔ ¬ Clash node i j ∧ ¬ Clash node j i := by
  obtain ⟨hpi, hiKnown⟩ := authenticatePrincipal_eq_ok hp hi
  obtain ⟨hqj, hjKnown⟩ := authenticatePrincipal_eq_ok hq hj
  have hclash := clash_iff_idText hfp hiKnown hjKnown hij
  rw [separate_iff, hpi, hqj, ← not_or, ← hclash]
  constructor
  · rintro ⟨-, htext⟩ ⟨t, ht, ht'⟩
    exact htext t ht ht'
  · intro h
    exact ⟨fun heq => h (idText_of_userId_eq hij heq), fun t ht ht' => h ⟨t, ht, ht'⟩⟩

/-- Two different string claims without lone surrogates never clash. -/
theorem not_clash_of_wellFormed {s t : JsStr} (hs : WellFormed s) (ht : WellFormed t)
    (hst : s ≠ t) : ¬ Clash node (.jwt (.json (.str s))) (.jwt (.json (.str t))) := by
  rintro ⟨-, h⟩
  refine hst (sent_injective hs ht ?_)
  simpa [idText, Property.toText, Json.toText, Json.textWithin] using h

end

/-! ### A sample -/

/-- The bytes of an ASCII text. -/
def asciiBytes (s : String) : List UInt8 := s.toList.map fun c => UInt8.ofNat c.toNat

/-- The parts of a token signed with the sample secret, the texts of its header and its payload,
and the bytes of its signature. -/
def sampleHeader : String := "eyJhbGciOiJIUzI1NiIsInR5cCI6IkpXVCJ9"

@[inherit_doc sampleHeader]
def samplePayload : String := "eyJzdWIiOiJhbm9ueW1vdXMifQ"

@[inherit_doc sampleHeader]
def sampleSignature : String := "L63rnNCI6egyNfSAp6ZKEjIC3TRKIbZje2oCSgwOXYY"

@[inherit_doc sampleHeader]
def sampleHeaderText : String := "\x7b\"alg\":\"HS256\",\"typ\":\"JWT\"\x7d"

@[inherit_doc sampleHeader]
def samplePayloadText : String := "\x7b\"sub\":\"anonymous\"\x7d"

@[inherit_doc sampleHeader]
def sampleDigest : List UInt8 :=
  [47, 173, 235, 156, 208, 136, 233, 232, 50, 53, 244, 128, 167, 166, 74, 18, 50, 2, 221, 52, 74,
    33, 182, 99, 123, 106, 2, 74, 12, 14, 93, 134]

/-- The secret of the sample token. -/
def sampleSecret : JsStr := js "0123456789abcdef0123456789abcdef"

/-- The sample token. -/
def sampleToken : JsStr :=
  js sampleHeader ++ js "." ++ js samplePayload ++ js "." ++ js sampleSignature

/-- The limits of a usual platform; the texts of the numbers play no part in the samples. -/
def samplePrinter : Printer where
  numberText _ := []
  stackDepth := 3000
  maxLength := 536870888

/-- A platform that answers as the real one does on the sample token and the sample key. -/
def sampleNode : Node where
  printer := samplePrinter
  base64urlDecode s :=
    if s = js sampleHeader then asciiBytes sampleHeaderText
    else if s = js samplePayload then asciiBytes samplePayloadText
    else if s = js sampleSignature then sampleDigest
    else []
  utf8 bytes := bytes.map UInt8.toUInt16
  jsonParse s :=
    if s = js sampleHeaderText then
      some (.obj [(js "alg", .str (js "HS256")), (js "typ", .str (js "JWT"))])
    else if s = js samplePayloadText then some (.obj [(js "sub", .str (js "anonymous"))])
    else none
  hmac data secret :=
    if data = js sampleHeader ++ js "." ++ js samplePayload ∧ secret = sampleSecret then
      sampleDigest
    else []
  sha256 key :=
    if key = js "svc-key" then
      [123, 200, 197, 108, 225, 224, 114, 65, 136, 207, 187, 236, 243, 32, 68, 53, 231, 203, 99,
        158, 50, 109, 166, 240, 255, 156, 217, 183, 220, 241, 21, 32]
    else []

/-- One API key, and anonymous access. -/
def sampleAuthConfig : AuthConfig where
  apiKeyMap key := if key = js "svc-key" then some .premium else none
  jwtSecret := sampleSecret
  allowAnonymous := true

/-- A request with the sample token. -/
def tokenCredentials : Credentials where
  headers name :=
    if name = "authorization" then
      some (js "Bearer " ++ sampleToken)
    else none
  queryToken := none
  now := 0

/-- A request with the sample key. -/
def keyCredentials : Credentials where
  headers name := if name = "x-api-key" then some (js "svc-key") else none
  queryToken := none
  now := 0

/-- A request without credentials. -/
def noCredentials : Credentials := ⟨fun _ => none, none, 0⟩

/-- The claim of the sample token. -/
def sampleSub : Property := .json (.str (js "anonymous"))

/-- The claims of the sample token. -/
def sampleClaims : Json := .obj [(js "sub", .str (js "anonymous"))]

theorem verifyJwt_sample :
    verifyJwt sampleNode sampleToken sampleSecret 0 = .ok sampleClaims := by
  have hheader : sampleNode.utf8 (sampleNode.base64urlDecode (js sampleHeader)) =
      js sampleHeaderText := by decide +kernel
  have hpayload : sampleNode.utf8 (sampleNode.base64urlDecode (js samplePayload)) =
      js samplePayloadText := by decide +kernel
  have hne : js samplePayloadText ≠ js sampleHeaderText := by decide +kernel
  have hsplit : splitDots sampleToken =
      [js sampleHeader, js samplePayload, js sampleSignature] := by decide +kernel
  have hsignature : sampleNode.hmac (js sampleHeader ++ js "." ++ js samplePayload) sampleSecret =
      sampleNode.base64urlDecode (js sampleSignature) := by decide +kernel
  have hparse : sampleNode.jsonParse (js sampleHeaderText) =
      some (.obj [(js "alg", .str (js "HS256")), (js "typ", .str (js "JWT"))]) := by
    simp only [sampleNode, if_true]
  have hparse' : sampleNode.jsonParse (js samplePayloadText) = some sampleClaims := by
    simp only [sampleNode, if_neg hne, if_true, sampleClaims]
  exact verifyJwt_eq_ok hsplit (hheader ▸ hparse) rfl hsignature (hpayload ▸ hparse')
    (fun h => by cases h) rfl

theorem bearer_tokenCredentials : present (bearer tokenCredentials) = some sampleToken := by
  decide +kernel

theorem authenticate_token :
    authenticatePrincipal sampleNode sampleAuthConfig tokenCredentials =
      .ok ⟨sampleSub, .authenticated, .jwt⟩ := by
  have hkey : present (tokenCredentials.headers "x-api-key") = none := by decide
  have hjwt : verifyJwt sampleNode sampleToken sampleAuthConfig.jwtSecret tokenCredentials.now =
      .ok sampleClaims := verifyJwt_sample
  simp only [authenticatePrincipal, hkey, bearer_tokenCredentials, hjwt]
  rfl

theorem identity_token :
    identity sampleNode sampleAuthConfig tokenCredentials = some (.jwt sampleSub) := by
  have hkey : present (tokenCredentials.headers "x-api-key") = none := by decide
  have hjwt : verifyJwt sampleNode sampleToken sampleAuthConfig.jwtSecret tokenCredentials.now =
      .ok sampleClaims := verifyJwt_sample
  simp only [identity, hkey, bearer_tokenCredentials, hjwt]
  rfl

theorem fingerprintsDistinct_sample : FingerprintsDistinct sampleNode sampleAuthConfig := by
  have honly : ∀ key, (sampleAuthConfig.apiKeyMap key).isSome → key = js "svc-key" := by
    intro key hkey
    by_contra hne
    simp [sampleAuthConfig, hne] at hkey
  intro key key' hkey hkey' _
  rw [honly key hkey, honly key' hkey']

/-- The token of a user called `anonymous` and the API key are kept apart. -/
theorem separate_token_key :
    Separate sampleNode ⟨sampleSub, .authenticated, .jwt⟩
      ⟨.json (.str (js "key:" ++ hashKey sampleNode (js "svc-key"))), .premium, .apiKey⟩ := by
  refine (separate_iff_not_clash fingerprintsDistinct_sample (a := tokenCredentials)
    (b := keyCredentials) (j := .apiKey (js "svc-key")) authenticate_token rfl identity_token rfl
    (fun h => by cases h)).mpr ⟨fun h => ?_, id⟩
  exact key_ne_anonymous _ (Option.some.inj (Eq.trans (Eq.symm h) idText_anonymous))

/-- The token of a user called `anonymous` is accepted, and its user id, its quota and its
rate-limit bucket are those of the requests without credentials. -/
theorem anonymous_token_shares :
    ∃ p q, authenticatePrincipal sampleNode sampleAuthConfig tokenCredentials = .ok p ∧
      authenticatePrincipal sampleNode sampleAuthConfig noCredentials = .ok q ∧
      identity sampleNode sampleAuthConfig tokenCredentials = some (.jwt sampleSub) ∧
      identity sampleNode sampleAuthConfig noCredentials = some .anonymous ∧
      p.authMethod ≠ q.authMethod ∧ p.userId = q.userId ∧ ¬ Separate sampleNode p q :=
  ⟨_, _, authenticate_token, rfl, identity_token, rfl, by decide, rfl, fun h => h.userId rfl⟩

end CodeInterpreter.Api
