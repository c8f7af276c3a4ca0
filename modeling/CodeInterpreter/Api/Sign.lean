import CodeInterpreter.Api.Jwt
import CodeInterpreter.Js.Encoding
import CodeInterpreter.Js.Object

/-!
# Signed tokens and their expiry

`signJwt` (`services/jwt.ts`) and the round trip through `verifyJwt`. The lifetime is guarded by its
truth value, so a lifetime of zero seconds gives a token without `exp`, which never expires. The
seconds of a clock reading and their sum with the lifetime are doubles. The round trip is about
readings of `Date.now`, whose seconds are exact; the sum with a long lifetime need not be.

A decoder of the platform reads back what was encoded, and `JSON.parse` what `JSON.stringify` wrote
(`Inverts`).

## Main definitions

* `base64urlJson`, `fullPayload`, `signJwt`.
* `Extended`: an object with `iat` and `exp` added.
* `RoundTrips`: the token is accepted with these claims until it expires, and refused from then on.

## Main results

* `verifyJwt_signJwt`: verification of a signed token depends on the `exp` claim only.
* `roundTrips_iff`: when a token makes the round trip.
-/

namespace CodeInterpreter.Api

/-! ### Signing -/

/-- A number as `JSON.stringify` writes it: `null` in the place of one that is not finite. -/
def jsonNumber : PyFloat → Json
  | .finite q => .num (.finite q)
  | _ => .null

/-- `base64urlJson`. The text of a JSON value has no surrogates, so its bytes are its UTF-8. -/
def base64urlJson (engine : Engine) (obj : Json) : JsStr :=
  base64url (utf8Encode (obj.stringify engine))

/-- The `exp` claim, which is added for a lifetime that is truthy. -/
def expiryClaim (expiresInSec : Option ℚ) (now : ℕ) : List (JsStr × Json) :=
  match expiresInSec with
  | some seconds =>
    if seconds = 0 then [] else [(js "exp", jsonNumber (.ofRat (floorSeconds now + seconds)))]
  | none => []

/-- The payload that `signJwt` signs. The claims of the caller come last. -/
def fullPayload (payload : List (JsStr × Json)) (expiresInSec : Option ℚ) (now : ℕ) :
    List (JsStr × Json) :=
  spread (spread [(js "iat", jsonNumber (.ofRat (floorSeconds now)))]
    (expiryClaim expiresInSec now)) payload

/-- The header of every token that is signed here. -/
def tokenHeader : Json := .obj [(js "alg", .str (js "HS256")), (js "typ", .str (js "JWT"))]

/-- `signJwt`; `expiresInSec`, when it is given, is a finite number. -/
def signJwt (node : Node) (engine : Engine) (payload : List (JsStr × Json)) (secret : JsStr)
    (expiresInSec : Option ℚ) (now : ℕ) : JsStr :=
  let header := base64urlJson engine tokenHeader
  let body := base64urlJson engine (.obj (fullPayload payload expiresInSec now))
  let signature := base64url (node.hmac (header ++ js "." ++ body) secret)
  header ++ js "." ++ body ++ js "." ++ signature

/-! ### The round trip -/

/-- The decoders of the platform read back what was encoded. -/
structure Inverts (node : Node) (engine : Engine) : Prop where
  bytes : ∀ bytes, node.base64urlDecode (base64url bytes) = bytes
  text : ∀ s : Str, (∀ c ∈ s, IsScalar c) → node.utf8 (utf8Encode s) = codeUnits s
  value : ∀ v : Json, v.Proper → node.jsonParse (codeUnits (v.stringify engine)) = some v

/-- The object with the given members, and with the claims `iat` and `exp`. -/
def Extended (members : List (JsStr × Json)) (iat exp : ℕ) (payload : Json) : Prop :=
  ∃ kvs, payload = .obj kvs ∧ (kvs.map Prod.fst).Nodup ∧ ∀ key, ownProperty kvs key =
    if key = js "iat" then some (.num (.finite iat))
    else if key = js "exp" then some (.num (.finite exp))
    else ownProperty members key

/-- A token for the given lifetime is accepted as long as it has not expired, with its issue and
expiry times, and raises a `JwtError` from then on. -/
def RoundTrips (node : Node) (engine : Engine) (payload : List (JsStr × Json)) (secret : JsStr)
    (expiresInSec : ℕ) (now : TimeValue) : Prop :=
  ∀ later : TimeValue,
    (later.ms / 1000 < now.ms / 1000 + expiresInSec → ∃ claims,
      verifyJwt node (signJwt node engine payload secret (some expiresInSec) now.ms) secret
        later.ms = .ok claims ∧
      Extended payload (now.ms / 1000) (now.ms / 1000 + expiresInSec) claims) ∧
    (now.ms / 1000 + expiresInSec ≤ later.ms / 1000 → ∃ message,
      verifyJwt node (signJwt node engine payload secret (some expiresInSec) now.ms) secret
        later.ms = .error (.jwtError message))

/-! ### Parts of a token -/

theorem splitDots_of_ne {s : JsStr} (hs : ∀ u ∈ s, u ≠ 46) : splitDots s = [s] := by
  induction s with
  | nil => rfl
  | cons u s ih =>
    rw [splitDots, if_neg (hs u List.mem_cons_self),
      ih fun v hv => hs v (List.mem_cons_of_mem _ hv)]

theorem splitDots_append {s : JsStr} (hs : ∀ u ∈ s, u ≠ 46) (rest : JsStr) :
    splitDots (s ++ 46 :: rest) = s :: splitDots rest := by
  induction s with
  | nil => rw [List.nil_append, splitDots, if_pos rfl]
  | cons u s ih =>
    rw [List.cons_append, splitDots, if_neg (hs u List.mem_cons_self),
      ih fun v hv => hs v (List.mem_cons_of_mem _ hv)]

theorem splitDots_parts (a b c : List UInt8) :
    splitDots (base64url a ++ js "." ++ base64url b ++ js "." ++ base64url c) =
      [base64url a, base64url b, base64url c] := by
  have hdot : js "." = [46] := by decide
  rw [hdot, List.append_assoc, List.append_assoc, List.append_assoc, List.singleton_append,
    List.singleton_append, splitDots_append fun _ => base64url_ne_dot,
    splitDots_append fun _ => base64url_ne_dot, splitDots_of_ne fun _ => base64url_ne_dot]

section

variable {node : Node} {engine : Engine}

/-- What was encoded is decoded. -/
theorem decodedPart_base64urlJson (hnode : Inverts node engine) {v : Json} (hv : v.Proper) :
    decodedPart node (base64urlJson engine v) = some v := by
  rw [decodedPart, base64urlJson, hnode.bytes, hnode.text _ (isScalar_stringify engine v),
    hnode.value v hv]

theorem tokenHeader_proper : tokenHeader.Proper := by
  refine ⟨⟨by decide, ?_⟩, trivial, trivial, trivial⟩
  exact List.pairwise_pair.mpr (by decide)

/-- A token that was signed with the same secret. -/
theorem signed_signJwt (hnode : Inverts node engine) (payload : List (JsStr × Json))
    (secret : JsStr) (expiresInSec : Option ℚ) (now : ℕ) :
    Signed node (signJwt node engine payload secret expiresInSec now) secret
      (base64urlJson engine tokenHeader)
      (base64urlJson engine (.obj (fullPayload payload expiresInSec now)))
      (base64url (node.hmac (base64urlJson engine tokenHeader ++ js "." ++
        base64urlJson engine (.obj (fullPayload payload expiresInSec now))) secret))
      tokenHeader where
  parts := splitDots_parts _ _ _
  decoded := decodedPart_base64urlJson hnode tokenHeader_proper
  alg := rfl
  signature := (hnode.bytes _).symm

/-- Verification of such a token: its `exp` claim decides. -/
theorem verifyJwt_signJwt (hnode : Inverts node engine) {payload : List (JsStr × Json)}
    {expiresInSec : Option ℚ} {now : ℕ}
    (hfull : (Json.obj (fullPayload payload expiresInSec now)).Proper) (secret : JsStr)
    (later : ℕ) :
    verifyJwt node (signJwt node engine payload secret expiresInSec now) secret later =
      if expired later
          ((ownProperty (fullPayload payload expiresInSec now) (js "exp")).map .json) then
        .error (.jwtError (js "token expired"))
      else .ok (.obj (fullPayload payload expiresInSec now)) := by
  rw [verifyJwt_of_signed (signed_signJwt hnode payload secret expiresInSec now),
    decodedPart_base64urlJson hnode hfull]
  rfl

/-! ### The claims of a token -/

theorem jsonNumber_proper (r : ℚ) : (jsonNumber (.ofRat r)).Proper := by
  cases h : PyFloat.ofRat r with
  | finite q => exact isDouble_of_ofRat h
  | nan => trivial
  | infinity negative => trivial

theorem members_singleton (kv : JsStr × Json) : Members [kv] :=
  ⟨List.nodup_singleton _, List.pairwise_singleton _ _⟩

theorem members_expiryClaim (expiresInSec : Option ℚ) (now : ℕ) :
    Members (expiryClaim expiresInSec now) ∧ MembersProper (expiryClaim expiresInSec now) := by
  unfold expiryClaim
  split
  · split
    · exact ⟨Members.nil, trivial⟩
    · exact ⟨members_singleton _, jsonNumber_proper _, trivial⟩
  · exact ⟨Members.nil, trivial⟩

/-- The payload that is signed is a JSON value. -/
theorem fullPayload_proper {payload : List (JsStr × Json)} (hpayload : (Json.obj payload).Proper)
    (expiresInSec : Option ℚ) (now : ℕ) :
    (Json.obj (fullPayload payload expiresInSec now)).Proper := by
  refine ⟨((members_singleton _).spread _).spread _,
    membersProper_spread (membersProper_spread ?_ (members_expiryClaim _ _).2) hpayload.2⟩
  exact ⟨jsonNumber_proper _, trivial⟩

theorem ownProperty_expiryClaim {key : JsStr} (hkey : key ≠ js "exp") (expiresInSec : Option ℚ)
    (now : ℕ) : ownProperty (expiryClaim expiresInSec now) key = none := by
  unfold expiryClaim
  split
  · split
    · rfl
    · rw [ownProperty_cons, if_neg hkey]
      rfl
  · rfl

/-- The properties of the payload that is signed. -/
theorem ownProperty_fullPayload {payload : List (JsStr × Json)}
    (hpayload : (Json.obj payload).Proper) (expiresInSec : Option ℚ) (now : ℕ) (key : JsStr) :
    ownProperty (fullPayload payload expiresInSec now) key =
      (ownProperty payload key).or ((ownProperty (expiryClaim expiresInSec now) key).or
        (if key = js "iat" then some (jsonNumber (.ofRat (floorSeconds now))) else none)) := by
  rw [fullPayload, ownProperty_spread ((members_singleton _).spread _) hpayload.1.nodup,
    ownProperty_spread (members_singleton _) (members_expiryClaim _ _).1.nodup]
  have hiat : ownProperty [(js "iat", jsonNumber (.ofRat (floorSeconds now)))] key =
      if key = js "iat" then some (jsonNumber (.ofRat (floorSeconds now))) else none :=
    ownProperty_cons _ _ _
  rw [hiat]

/-- A lifetime that is not zero adds its `exp` claim. -/
theorem expiryClaim_of_pos {n : ℕ} (hn : n ≠ 0) (now : ℕ) :
    expiryClaim (some n) now = [(js "exp", jsonNumber (.ofRat (floorSeconds now + n : ℕ)))] := by
  have hcast : (n : ℚ) ≠ 0 := by exact_mod_cast hn
  rw [expiryClaim, if_neg hcast, Nat.cast_add]

/-- A number is written exactly when a double holds it. -/
theorem jsonNumber_ofRat_iff {r : ℚ} : jsonNumber (.ofRat r) = .num (.finite r) ↔ IsDouble r := by
  constructor
  · intro h
    cases hr : PyFloat.ofRat r with
    | finite q =>
      rw [hr] at h
      obtain rfl : q = r := PyFloat.finite.inj (Json.num.inj h)
      exact isDouble_of_ofRat hr
    | nan =>
      rw [hr] at h
      cases h
    | infinity negative =>
      rw [hr] at h
      cases h
  · intro h
    rw [ofRat_of_isDouble h]
    rfl

variable {payload : List (JsStr × Json)} {n now : ℕ}

theorem iat_ne_exp : js "iat" ≠ js "exp" := by decide

/-- The `iat` claim of a token. -/
theorem iat_fullPayload (hpayload : (Json.obj payload).Proper)
    (hiat : ownProperty payload (js "iat") = none) :
    ownProperty (fullPayload payload (some n) now) (js "iat") =
      some (jsonNumber (.ofRat (floorSeconds now))) := by
  rw [ownProperty_fullPayload hpayload, hiat, ownProperty_expiryClaim iat_ne_exp, if_pos rfl]
  rfl

/-- The `exp` claim of a token. -/
theorem exp_fullPayload (hpayload : (Json.obj payload).Proper)
    (hexp : ownProperty payload (js "exp") = none) :
    ownProperty (fullPayload payload (some n) now) (js "exp") =
      if n = 0 then none else some (jsonNumber (.ofRat (floorSeconds now + n : ℕ))) := by
  rw [ownProperty_fullPayload hpayload, hexp, if_neg iat_ne_exp.symm]
  by_cases hn : n = 0
  · rw [if_pos hn, hn]
    rfl
  · rw [if_neg hn, expiryClaim_of_pos hn]
    rfl

/-- The other claims of a token are those of the caller. -/
theorem other_fullPayload (hpayload : (Json.obj payload).Proper) {key : JsStr}
    (hiat : key ≠ js "iat") (hexp : key ≠ js "exp") :
    ownProperty (fullPayload payload (some n) now) key = ownProperty payload key := by
  rw [ownProperty_fullPayload hpayload, ownProperty_expiryClaim hexp, if_neg hiat]
  simp

/-- The payload of a token with an exact expiry. -/
theorem extended_fullPayload (hpayload : (Json.obj payload).Proper)
    (hiat : ownProperty payload (js "iat") = none) (hexp : ownProperty payload (js "exp") = none)
    (hn : n ≠ 0) (t : TimeValue) (hend : IsDouble (t.ms / 1000 + n : ℕ)) :
    Extended payload (t.ms / 1000) (t.ms / 1000 + n)
      (.obj (fullPayload payload (some n) t.ms)) := by
  refine ⟨_, rfl, (fullPayload_proper hpayload _ _).1.nodup, fun key => ?_⟩
  rw [← floorSeconds_timeValue] at hend ⊢
  by_cases hkey : key = js "iat"
  · rw [if_pos hkey, hkey, iat_fullPayload hpayload hiat,
      jsonNumber_ofRat_iff.mpr (isDouble_floorSeconds t)]
  rw [if_neg hkey]
  by_cases hkey' : key = js "exp"
  · rw [if_pos hkey', hkey', exp_fullPayload hpayload hexp, if_neg hn,
      jsonNumber_ofRat_iff.mpr hend]
  rw [if_neg hkey', other_fullPayload hpayload hkey hkey']

/-- A token of zero seconds is accepted at any time. -/
theorem verifyJwt_zero (hnode : Inverts node engine) (hpayload : (Json.obj payload).Proper)
    (hexp : ownProperty payload (js "exp") = none) (secret : JsStr) (now later : ℕ) :
    verifyJwt node (signJwt node engine payload secret (some (0 : ℕ)) now) secret later =
      .ok (.obj (fullPayload payload (some (0 : ℕ)) now)) := by
  rw [verifyJwt_signJwt hnode (fullPayload_proper hpayload _ _), exp_fullPayload hpayload hexp,
    if_pos rfl]
  rfl

theorem not_roundTrips_zero (hnode : Inverts node engine) (hpayload : (Json.obj payload).Proper)
    (hexp : ownProperty payload (js "exp") = none) (secret : JsStr) (t : TimeValue) :
    ¬ RoundTrips node engine payload secret 0 t := by
  intro h
  obtain ⟨message, hmessage⟩ := (h t).2 (le_refl _)
  rw [verifyJwt_zero hnode hpayload hexp] at hmessage
  cases hmessage

end

/-- A token that is signed at a reading of `Date.now` makes the round trip exactly when its lifetime
is not zero and a double holds its expiry time. -/
theorem roundTrips_iff {node : Node} {engine : Engine} (hnode : Inverts node engine)
    {payload : List (JsStr × Json)} (hpayload : (Json.obj payload).Proper)
    (hiat : ownProperty payload (js "iat") = none) (hexp : ownProperty payload (js "exp") = none)
    (secret : JsStr) (n : ℕ) (now : TimeValue) :
    RoundTrips node engine payload secret n now ↔
      n ≠ 0 ∧ IsDouble (now.ms / 1000 + n : ℕ) := by
  have hverify := verifyJwt_signJwt hnode (fullPayload_proper hpayload (some n) now.ms) secret
  constructor
  · intro h
    have hn : n ≠ 0 := by
      rintro rfl
      exact not_roundTrips_zero hnode hpayload hexp secret now h
    -- long before the expiry, the token is accepted with exact claims
    obtain ⟨claims, hclaims, kvs, rfl, -, hkvs⟩ := (h epoch).1 (by simp only [epoch]; omega)
    rw [hverify] at hclaims
    split at hclaims
    · cases hclaims
    · cases hclaims
      have hexp' := hkvs (js "exp")
      rw [if_neg iat_ne_exp.symm, if_pos rfl, exp_fullPayload hpayload hexp, if_neg hn,
        Option.some.injEq, floorSeconds_timeValue, jsonNumber_ofRat_iff] at hexp'
      exact ⟨hn, hexp'⟩
  · rintro ⟨hn, hend⟩ later
    have hexpired : expired later.ms ((ownProperty (fullPayload payload (some n) now.ms)
        (js "exp")).map .json) = decide (now.ms / 1000 + n ≤ later.ms / 1000) := by
      rw [exp_fullPayload hpayload hexp, if_neg hn, floorSeconds_timeValue,
        jsonNumber_ofRat_iff.mpr hend]
      simp only [Option.map_some, expired, floorSeconds_timeValue, Nat.cast_le]
    rw [hverify, hexpired]
    constructor
    · intro hlt
      rw [if_neg (by simpa using hlt)]
      exact ⟨_, rfl, extended_fullPayload hpayload hiat hexp hn now hend⟩
    · intro hle
      rw [if_pos (decide_eq_true hle)]
      exact ⟨_, rfl⟩

/-! ### A sample -/

/-- A platform whose decoders invert the encoders, and that signs the two tokens below as the real
one does. -/
def signNode : Node :=
  { sampleNode with
    base64urlDecode := unbase64url
    utf8 := fun bytes => codeUnits (Executor.decodeUtf8 bytes)
    jsonParse := parse
    hmac := fun data secret =>
      if secret = sampleSecret ∧ data = js sampleHeader ++ js
          ".eyJpYXQiOjEwMDAsImV4cCI6MTA2MCwic3ViIjoidTEifQ" then
        [103, 236, 224, 119, 145, 18, 239, 39, 234, 245, 57, 151, 252, 199, 180, 3, 79, 95, 84, 47,
          32, 235, 183, 212, 230, 50, 249, 25, 234, 33, 39, 102]
      else if secret = sampleSecret ∧ data = js sampleHeader ++ js
          ".eyJpYXQiOjEwMDAsInN1YiI6InUxIn0" then
        [113, 101, 15, 221, 107, 237, 9, 169, 148, 226, 247, 93, 124, 190, 211, 209, 13, 122, 83,
          169, 192, 87, 246, 156, 56, 214, 247, 41, 22, 222, 88, 82]
      else [] }

theorem signNode_inverts : Inverts signNode exactEngine where
  bytes := unbase64url_base64url
  text _ hs := congrArg codeUnits (decodeUtf8_utf8Encode hs)
  value _ hv := parse_stringify exactEngine_exact hv

/-- The claims of a user. -/
def userClaims : List (JsStr × Json) := [(js "sub", .str (js "u1"))]

theorem userClaims_proper : (Json.obj userClaims).Proper := ⟨members_singleton _, trivial, trivial⟩

example : signJwt signNode exactEngine userClaims sampleSecret (some (60 : ℕ)) 1000000 =
    js "eyJhbGciOiJIUzI1NiIsInR5cCI6IkpXVCJ9.eyJpYXQiOjEwMDAsImV4cCI6MTA2MCwic3ViIjoidTEifQ" ++
      js ".Z-zgd5ES7yfq9TmX_Me0A09fVC8g67fU5jL5GeohJ2Y" := by decide +kernel

/-- A quarter of an hour after the epoch. -/
def sampleTime : TimeValue := ⟨1000000, by decide⟩

/-- A token for a minute makes the round trip. -/
theorem roundTrips_minute :
    RoundTrips signNode exactEngine userClaims sampleSecret 60 sampleTime :=
  (roundTrips_iff signNode_inverts userClaims_proper rfl rfl sampleSecret 60 sampleTime).mpr
    ⟨by decide, isDouble_natCast (by decide)⟩

/-- A token for zero seconds is still accepted a million seconds later. -/
theorem zero_lifetime_accepted :
    (∃ claims, verifyJwt signNode
      (signJwt signNode exactEngine userClaims sampleSecret (some (0 : ℕ)) sampleTime.ms)
      sampleSecret 1001000000 = .ok claims) ∧
    ¬ RoundTrips signNode exactEngine userClaims sampleSecret 0 sampleTime :=
  ⟨⟨_, verifyJwt_zero signNode_inverts userClaims_proper rfl sampleSecret _ 1001000000⟩,
    not_roundTrips_zero signNode_inverts userClaims_proper rfl sampleSecret sampleTime⟩

end CodeInterpreter.Api
