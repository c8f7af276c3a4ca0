import CodeInterpreter.Js.Value

/-!
# Schemas

The combinators of zod, as far as a schema for JSON uses them. Which values a schema accepts, and
what it makes of them, is what the documentation says (the laws of `Zod`); what it reports of a
value that it does not accept is left open. A value is `none` where JavaScript has `undefined`.

The output of a record leaves out the key `__proto__`, which zod never assigns.

## Main definitions

* `Issue`, `Shape`, `Zod`.
* `acceptor`: schemas that report nothing.
-/

namespace CodeInterpreter

/-- What is wrong with a value, and where. -/
structure Issue where
  path : List JsStr
  message : JsStr
  deriving DecidableEq

/-- The fields of an object, each with its schema. The output is the tuple of their outputs. -/
inductive Shape (Schema : Type → Type) : Type → Type 1
  | nil : Shape Schema Unit
  | field {α β : Type} (key : JsStr) (schema : Schema α) (rest : Shape Schema β) :
      Shape Schema (α × β)

namespace Shape

variable {Schema : Type → Type}

/-- The keys of the fields. -/
def keys {α : Type} : Shape Schema α → List JsStr
  | .nil => []
  | .field key _ rest => key :: rest.keys

/-- The properties of an object are accepted by the schemas of the fields. -/
def Accepts (accepts : {α : Type} → Schema α → Option Json → α → Prop)
    (kvs : List (JsStr × Json)) {α : Type} : Shape Schema α → α → Prop
  | .nil, _ => True
  | .field key schema rest, (a, b) =>
    accepts schema (ownProperty kvs key) a ∧ rest.Accepts accepts kvs b

end Shape

/-- The combinators, with what they accept. A message replaces the one that zod would report. -/
structure Zod where
  Schema : Type → Type
  safeParse : {α : Type} → Schema α → Option Json → Except (List Issue) α
  string : Schema JsStr
  min : Schema JsStr → ℕ → Option JsStr → Schema JsStr
  max : Schema JsStr → ℕ → Schema JsStr
  number : Schema PyFloat
  int : Schema PyFloat → Schema PyFloat
  positive : Schema PyFloat → JsStr → Schema PyFloat
  optional : {α : Type} → Schema α → Schema (Option α)
  refine : {α : Type} → Schema α → (α → Bool) → JsStr → Schema α
  superRefine : {α : Type} → Schema α → (α → List Issue) → Schema α
  transform : {α β : Type} → Schema α → (α → β) → Schema β
  array : {α : Type} → Schema α → Schema (List α)
  arrayMax : {α : Type} → Schema (List α) → ℕ → Schema (List α)
  record : {α : Type} → Schema α → Schema (List (JsStr × α))
  object : {α : Type} → Shape Schema α → Schema α
  strictObject : {α : Type} → Shape Schema α → Schema α
  string_ok : ∀ x s, safeParse string x = .ok s ↔ x = some (.str s)
  min_ok : ∀ S n m x s, safeParse (min S n m) x = .ok s ↔ safeParse S x = .ok s ∧ n ≤ s.length
  max_ok : ∀ S n x s, safeParse (max S n) x = .ok s ↔ safeParse S x = .ok s ∧ s.length ≤ n
  number_ok : ∀ x y, safeParse number x = .ok y ↔ x = some (.num y) ∧ y ≠ .nan
  int_ok : ∀ S x y, safeParse (int S) x = .ok y ↔
    safeParse S x = .ok y ∧ ∃ n : ℤ, y = .finite n
  positive_ok : ∀ S m x y, safeParse (positive S m) x = .ok y ↔
    safeParse S x = .ok y ∧ (y = .infinity false ∨ ∃ q, y = .finite q ∧ 0 < q)
  optional_ok : ∀ {α : Type} (S : Schema α) x y, safeParse (optional S) x = .ok y ↔
    x = none ∧ y = none ∨ x ≠ none ∧ ∃ a, safeParse S x = .ok a ∧ y = some a
  refine_ok : ∀ {α : Type} (S : Schema α) p m x a, safeParse (refine S p m) x = .ok a ↔
    safeParse S x = .ok a ∧ p a = true
  superRefine_ok : ∀ {α : Type} (S : Schema α) f x a, safeParse (superRefine S f) x = .ok a ↔
    safeParse S x = .ok a ∧ f a = []
  transform_ok : ∀ {α β : Type} (S : Schema α) (f : α → β) x b,
    safeParse (transform S f) x = .ok b ↔ ∃ a, safeParse S x = .ok a ∧ b = f a
  array_ok : ∀ {α : Type} (S : Schema α) x as, safeParse (array S) x = .ok as ↔
    ∃ xs, x = some (.arr xs) ∧ List.Forall₂ (fun v a => safeParse S (some v) = .ok a) xs as
  arrayMax_ok : ∀ {α : Type} (S : Schema (List α)) n x as, safeParse (arrayMax S n) x = .ok as ↔
    safeParse S x = .ok as ∧ as.length ≤ n
  record_ok : ∀ {α : Type} (S : Schema α) x out, safeParse (record S) x = .ok out ↔
    ∃ kvs entries, x = some (.obj kvs) ∧
      List.Forall₂ (fun kv e => kv.1 = e.1 ∧ safeParse S (some kv.2) = .ok e.2) kvs entries ∧
      out = entries.filter fun e => e.1 ≠ js "__proto__"
  object_ok : ∀ {α : Type} (shape : Shape Schema α) x a, safeParse (object shape) x = .ok a ↔
    ∃ kvs, x = some (.obj kvs) ∧ shape.Accepts (fun S x a => safeParse S x = .ok a) kvs a
  strictObject_ok : ∀ {α : Type} (shape : Shape Schema α) x a,
    safeParse (strictObject shape) x = .ok a ↔
      ∃ kvs, x = some (.obj kvs) ∧ shape.Accepts (fun S x a => safeParse S x = .ok a) kvs a ∧
        ∀ kv ∈ kvs, kv.1 ∈ shape.keys

/-! ### Schemas that report nothing -/

/-- A partial function on values. -/
abbrev Acceptor (α : Type) := Option Json → Option α

/-- Read the fields of an object. -/
def Shape.read (kvs : List (JsStr × Json)) {α : Type} : Shape Acceptor α → Option α
  | .nil => some ()
  | .field key schema rest => do
    let a ← schema (ownProperty kvs key)
    let b ← rest.read kvs
    return (a, b)

theorem Shape.read_eq_some {α : Type} (shape : Shape Acceptor α) (kvs : List (JsStr × Json))
    (a : α) : shape.read kvs = some a ↔ shape.Accepts (fun S x a => S x = some a) kvs a := by
  induction shape with
  | nil => simp [Shape.read, Shape.Accepts]
  | field key schema rest ih =>
    obtain ⟨a, b⟩ := a
    simp [Shape.read, Shape.Accepts, Option.bind_eq_some_iff, ih]

theorem mapM_eq_some {α β : Type} {f : α → Option β} {xs : List α} {ys : List β} :
    xs.mapM f = some ys ↔ List.Forall₂ (fun x y => f x = some y) xs ys := by
  induction xs generalizing ys with
  | nil => simp [eq_comm]
  | cons x xs ih => cases ys <;> simp [Option.bind_eq_some_iff, ih]

/-- The value when it satisfies a condition. -/
def keepIf {α : Type} (p : α → Bool) (a : α) : Option α := if p a then some a else none

theorem bind_keepIf {α : Type} {p : α → Bool} {x : Option α} {a : α} :
    x.bind (keepIf p) = some a ↔ x = some a ∧ p a = true := by
  cases x with
  | none => simp
  | some b =>
    simp only [Option.bind_some, keepIf]
    grind

/-- A whole number. -/
def isInteger : PyFloat → Bool
  | .finite q => q.den == 1
  | _ => false

/-- A number above zero. -/
def isPositive : PyFloat → Bool
  | .finite q => 0 < q
  | .infinity negative => !negative
  | .nan => false

/-- A value that is not accepted, without an issue. -/
def toResult {α : Type} (x : Option α) : Except (List Issue) α := x.elim (.error []) .ok

theorem toResult_ok {α : Type} {x : Option α} {a : α} : toResult x = .ok a ↔ x = some a := by
  cases x <;> simp [toResult]

theorem isInteger_iff {y : PyFloat} : isInteger y = true ↔ ∃ n : ℤ, y = .finite n := by
  cases y with
  | nan => simp [isInteger]
  | infinity negative => simp [isInteger]
  | finite q =>
    simp only [isInteger, beq_iff_eq, PyFloat.finite.injEq]
    constructor
    · exact fun h => ⟨q.num, Rat.ext rfl (by simpa using h)⟩
    · rintro ⟨n, rfl⟩
      rfl

theorem isPositive_iff {y : PyFloat} :
    isPositive y = true ↔ y = .infinity false ∨ ∃ q, y = .finite q ∧ 0 < q := by
  cases y <;> simp [isPositive]

/-- The combinators on partial functions. -/
def acceptor : Zod where
  Schema := Acceptor
  safeParse S x := toResult (S x)
  string x := x.bind fun v => match v with | .str s => some s | _ => none
  min S n _ x := (S x).bind (keepIf fun s => n ≤ s.length)
  max S n x := (S x).bind (keepIf fun s => s.length ≤ n)
  number x := x.bind fun v => match v with
    | .num .nan => none
    | .num y => some y
    | _ => none
  int S x := (S x).bind (keepIf isInteger)
  positive S _ x := (S x).bind (keepIf isPositive)
  optional S x := if x.isNone then some none else (S x).map some
  refine S p _ x := (S x).bind (keepIf p)
  superRefine S f x := (S x).bind (keepIf fun a => f a = [])
  transform S f x := (S x).map f
  array S x := x.bind fun v => match v with
    | .arr xs => xs.mapM fun v => S (some v)
    | _ => none
  arrayMax S n x := (S x).bind (keepIf fun as => as.length ≤ n)
  record S x := x.bind fun v => match v with
    | .obj kvs => (kvs.mapM fun kv => (S (some kv.2)).map fun a => (kv.1, a)).map
        fun entries => entries.filter fun e => e.1 ≠ js "__proto__"
    | _ => none
  object shape x := x.bind fun v => match v with
    | .obj kvs => shape.read kvs
    | _ => none
  strictObject shape x := x.bind fun v => match v with
    | .obj kvs => (shape.read kvs).bind (keepIf fun _ => kvs.all fun kv => kv.1 ∈ shape.keys)
    | _ => none
  string_ok x s := by
    rcases x with - | (- | - | - | - | - | -) <;> simp [toResult_ok]
  min_ok S n m x s := by simp only [toResult_ok, bind_keepIf, decide_eq_true_eq]
  max_ok S n x s := by simp only [toResult_ok, bind_keepIf, decide_eq_true_eq]
  number_ok x y := by
    rcases x with - | (- | - | (- | - | -) | - | - | -) <;> simp [toResult_ok] <;> grind
  int_ok S x y := by simp only [toResult_ok, bind_keepIf, isInteger_iff]
  positive_ok S m x y := by simp only [toResult_ok, bind_keepIf, isPositive_iff]
  optional_ok S x y := by
    simp only [toResult_ok]
    cases x <;> simp [eq_comm]
  refine_ok S p m x a := by simp only [toResult_ok, bind_keepIf]
  superRefine_ok S f x a := by simp only [toResult_ok, bind_keepIf, decide_eq_true_eq]
  transform_ok S f x b := by
    simp only [toResult_ok]
    cases S x <;> simp [eq_comm]
  array_ok S x as := by
    rcases x with - | (- | - | - | - | - | -) <;> simp [toResult_ok, mapM_eq_some]
  arrayMax_ok S n x as := by simp only [toResult_ok, bind_keepIf, decide_eq_true_eq]
  record_ok S x out := by
    have hentry : ∀ (kv : JsStr × Json) e,
        (S (some kv.2)).map (fun a => (kv.1, a)) = some e ↔
          kv.1 = e.1 ∧ S (some kv.2) = some e.2 := by
      rintro kv ⟨key, a⟩
      simp only [Option.map_eq_some_iff, Prod.mk.injEq]
      grind
    simp only [toResult_ok]
    rcases x with - | (- | - | - | - | - | kvs)
    case some.obj => simp [mapM_eq_some, hentry, @eq_comm _ out]
    all_goals simp
  object_ok shape x a := by
    rcases x with - | (- | - | - | - | - | -) <;> simp [toResult_ok, Shape.read_eq_some]
  strictObject_ok shape x a := by
    rcases x with - | (- | - | - | - | - | -) <;>
      simp [toResult_ok, Shape.read_eq_some, bind_keepIf]

end CodeInterpreter
