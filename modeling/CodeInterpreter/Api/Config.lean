import CodeInterpreter.Api.Validator

/-!
# The limits of the configuration

The part of `loadConfig` (`api/src/config.ts`) that the validator depends on: the numbers of the
environment, each with its check and its default, and the check that the default timeout does not
exceed the maximum. The other variables can only make `loadConfig` throw.

How JavaScript makes a number of a text is a parameter.

## Main definitions

* `NumberVariable`, `NumberVariable.read`: a variable that the schema coerces to a whole number.
* `loadConfig`: the limits, or none where it throws.
-/

namespace CodeInterpreter.Api

/-- A variable of the environment with `z.coerce.number().int()`, and `positive()` or
`nonnegative()`; its default passes the check. -/
structure NumberVariable where
  name : JsStr
  positive : Bool
  default : ℕ
  default_pos : positive = true → 0 < default

/-- The number of a variable, which is none when it does not pass the check. -/
def NumberVariable.read (v : NumberVariable) (toNumber : JsStr → PyFloat)
    (env : JsStr → Option JsStr) : Option {n : ℕ // v.positive = true → 0 < n} :=
  match env v.name with
  | none => some ⟨v.default, v.default_pos⟩
  | some text =>
    match toNumber text with
    | .finite q =>
      if h : q.den = 1 ∧ 0 ≤ q.num ∧ (v.positive = true → 0 < q.num) then
        some ⟨q.num.toNat, fun hv => by have := h.2.2 hv; omega⟩
      else none
    | _ => none

/-- `MAX_CODE_SIZE_BYTES`. -/
def maxCodeSizeVariable : NumberVariable :=
  ⟨js "MAX_CODE_SIZE_BYTES", true, 256 * 1024, by decide⟩

/-- `MAX_STDIN_BYTES`. -/
def maxStdinVariable : NumberVariable := ⟨js "MAX_STDIN_BYTES", true, 256 * 1024, by decide⟩

/-- `MAX_FILES`. -/
def maxFilesVariable : NumberVariable := ⟨js "MAX_FILES", false, 8, by decide⟩

/-- `MAX_FILE_SIZE_BYTES`. -/
def maxFileSizeVariable : NumberVariable := ⟨js "MAX_FILE_SIZE_BYTES", true, 256 * 1024, by decide⟩

/-- `MAX_ENV_VARS`. -/
def maxEnvVarsVariable : NumberVariable := ⟨js "MAX_ENV_VARS", false, 32, by decide⟩

/-- `MAX_ENV_VALUE_LENGTH`. -/
def maxEnvValueVariable : NumberVariable := ⟨js "MAX_ENV_VALUE_LENGTH", true, 4096, by decide⟩

/-- `DEFAULT_TIMEOUT_SECONDS`. -/
def defaultTimeoutVariable : NumberVariable := ⟨js "DEFAULT_TIMEOUT_SECONDS", true, 10, by decide⟩

/-- `MAX_TIMEOUT_SECONDS`. -/
def maxTimeoutVariable : NumberVariable := ⟨js "MAX_TIMEOUT_SECONDS", true, 30, by decide⟩

/-- `loadConfig`, as far as the validator reads it. -/
def loadConfig (toNumber : JsStr → PyFloat) (env : JsStr → Option JsStr) : Option Limits := do
  let maxCode ← maxCodeSizeVariable.read toNumber env
  let maxStdin ← maxStdinVariable.read toNumber env
  let maxFiles ← maxFilesVariable.read toNumber env
  let maxFileSize ← maxFileSizeVariable.read toNumber env
  let maxEnvVars ← maxEnvVarsVariable.read toNumber env
  let maxEnvValue ← maxEnvValueVariable.read toNumber env
  let defaultTimeout ← defaultTimeoutVariable.read toNumber env
  let maxTimeout ← maxTimeoutVariable.read toNumber env
  if h : defaultTimeout.val ≤ maxTimeout.val then
    some
      { maxCodeSizeBytes := maxCode
        maxStdinBytes := maxStdin
        maxFiles := maxFiles
        maxFileSizeBytes := maxFileSize
        maxEnvVars := maxEnvVars
        maxEnvValueLength := maxEnvValue
        defaultTimeoutSeconds := defaultTimeout
        maxTimeoutSeconds := maxTimeout
        default_pos := defaultTimeout.property rfl
        default_le := h }
  else none

end CodeInterpreter.Api
