import CodeInterpreter.Js.Json
import CodeInterpreter.Python.Double
import Mathlib.Data.List.Sort

/-!
# JavaScript objects and `JSON.parse`

An object lists its array indices before its other keys, in ascending order, and the others in the
order of their creation. `Json.Proper` are the JSON values of JavaScript: doubles, and objects in
this order.

`parse` reads back what `JSON.stringify` wrote of such a value, when the engine prints doubles in a
way that reads back: it is the grammar of `json.loads`, with numbers read as doubles.

## Main definitions

* `arrayIndex`, `setProperty`, `spread`: objects under assignment.
* `Json.Proper`: the JSON values of JavaScript.
* `Engine.Exact`, `exactEngine`: number texts that read back.
* `parse`.

## Main results

* `ownProperty_spread`: the properties of an object after a spread.
* `parse_stringify`: a value is read back from its text.
-/

namespace CodeInterpreter

/-! ### Objects -/

/-- The number of a key that is an array index; the other keys come after all of these. -/
def arrayIndex (key : JsStr) : ℕ :=
  let n := digitsValue (key.map UInt16.toNat)
  if key.map UInt16.toNat = decimal n ∧ n < 2 ^ 32 - 1 then n else 2 ^ 32 - 1

/-- One member of an object comes before another one. -/
def Before (x y : JsStr × Json) : Prop := arrayIndex x.1 < arrayIndex y.1

instance : DecidableRel Before := fun x y =>
  inferInstanceAs (Decidable (arrayIndex x.1 < arrayIndex y.1))

/-- `object[key] = v`. A new key is put before the first one that it precedes. -/
def setProperty (kvs : List (JsStr × Json)) (kv : JsStr × Json) : List (JsStr × Json) :=
  if kv.1 ∈ kvs.map Prod.fst then kvs.map fun x => if x.1 = kv.1 then kv else x
  else kvs.orderedInsert Before kv

/-- The members of one object, assigned to another one. -/
def spread (kvs more : List (JsStr × Json)) : List (JsStr × Json) := more.foldl setProperty kvs

/-- The members of an object of JavaScript. -/
structure Members (kvs : List (JsStr × Json)) : Prop where
  nodup : (kvs.map Prod.fst).Nodup
  ordered : kvs.Pairwise fun x y => ¬ Before y x

theorem Members.nil : Members [] := ⟨List.nodup_nil, List.Pairwise.nil⟩

theorem pairwise_orderedInsert {kvs : List (JsStr × Json)} (kv : JsStr × Json)
    (h : kvs.Pairwise fun x y => ¬ Before y x) :
    (kvs.orderedInsert Before kv).Pairwise fun x y => ¬ Before y x := by
  induction kvs with
  | nil => exact List.pairwise_singleton _ _
  | cons x kvs ih =>
    obtain ⟨hx, hkvs⟩ := List.pairwise_cons.mp h
    rw [List.orderedInsert_cons]
    split
    · next hbefore =>
      refine List.pairwise_cons.mpr ⟨fun y hy => ?_, h⟩
      rcases List.mem_cons.mp hy with rfl | hy
      · unfold Before at *
        omega
      · have := hx y hy
        unfold Before at *
        omega
    · next hbefore =>
      refine List.pairwise_cons.mpr ⟨fun y hy => ?_, ih hkvs⟩
      rcases (List.mem_orderedInsert _).mp hy with rfl | hy
      · exact hbefore
      · exact hx y hy

theorem keys_replace (kvs : List (JsStr × Json)) (kv : JsStr × Json) :
    (kvs.map fun x => if x.1 = kv.1 then kv else x).map Prod.fst = kvs.map Prod.fst := by
  rw [List.map_map]
  refine List.map_congr_left fun x _ => ?_
  by_cases hx : x.1 = kv.1 <;> simp [hx]

theorem Members.setProperty {kvs : List (JsStr × Json)} (h : Members kvs) (kv : JsStr × Json) :
    Members (setProperty kvs kv) := by
  unfold CodeInterpreter.setProperty
  split
  · refine ⟨by rw [keys_replace]; exact h.nodup, ?_⟩
    rw [List.pairwise_map]
    refine h.ordered.imp fun {x y} hxy => ?_
    unfold Before at *
    by_cases hx : x.1 = kv.1 <;> by_cases hy : y.1 = kv.1 <;> simp_all
  · next hnew =>
    refine ⟨?_, pairwise_orderedInsert kv h.ordered⟩
    have hperm := (List.perm_orderedInsert Before kv kvs).map Prod.fst
    rw [hperm.nodup_iff, List.map_cons, List.nodup_cons]
    exact ⟨hnew, h.nodup⟩

theorem Members.spread {kvs : List (JsStr × Json)} (h : Members kvs)
    (more : List (JsStr × Json)) : Members (spread kvs more) := by
  induction more generalizing kvs with
  | nil => exact h
  | cons kv more ih => exact ih (h.setProperty kv)

/-! ### Properties -/

theorem ownProperty_cons (kv : JsStr × Json) (kvs : List (JsStr × Json)) (key : JsStr) :
    ownProperty (kv :: kvs) key = if key = kv.1 then some kv.2 else ownProperty kvs key := by
  rw [ownProperty, List.find?_cons]
  by_cases hkey : key = kv.1
  · simp [hkey]
  · simp [hkey, ownProperty, beq_eq_false_iff_ne.mpr (Ne.symm hkey)]

/-- With distinct keys, the property of a key is the value of its only member. -/
theorem ownProperty_eq_some {kvs : List (JsStr × Json)} (h : (kvs.map Prod.fst).Nodup)
    {key : JsStr} {v : Json} : ownProperty kvs key = some v ↔ (key, v) ∈ kvs := by
  induction kvs with
  | nil => simp [ownProperty]
  | cons kv kvs ih =>
    rw [List.map_cons, List.nodup_cons] at h
    rw [List.mem_cons, ← ih h.2, ownProperty_cons]
    by_cases hkey : kv.1 = key
    · subst hkey
      have hnone : ownProperty kvs kv.1 ≠ some v := fun hv =>
        h.1 (List.mem_map.mpr ⟨_, (ih h.2).mp hv, rfl⟩)
      simp only [if_true, Option.some.injEq, hnone, or_false]
      exact ⟨fun hv => hv ▸ rfl, fun hv => by rw [← hv]⟩
    · have hne : (key, v) ≠ kv := fun hv => hkey (hv ▸ rfl)
      simp only [if_neg (Ne.symm hkey), hne, false_or]

theorem mem_setProperty {kvs : List (JsStr × Json)} {kv x : JsStr × Json} :
    x ∈ setProperty kvs kv ↔ x = kv ∨ x ∈ kvs ∧ x.1 ≠ kv.1 := by
  unfold setProperty
  split
  · next hkey =>
    rw [List.mem_map]
    constructor
    · rintro ⟨y, hy, rfl⟩
      split
      · exact .inl rfl
      · next hne => exact .inr ⟨hy, hne⟩
    · rintro (rfl | ⟨hx, hne⟩)
      · obtain ⟨y, hy, hyx⟩ := List.mem_map.mp hkey
        exact ⟨y, hy, if_pos hyx⟩
      · exact ⟨x, hx, if_neg hne⟩
  · next hkey =>
    rw [List.mem_orderedInsert]
    refine or_congr_right (iff_self_and.mpr fun hx heq => hkey ?_)
    exact heq ▸ List.mem_map_of_mem hx

/-- The properties after an assignment. -/
theorem ownProperty_setProperty {kvs : List (JsStr × Json)} (h : Members kvs) (kv : JsStr × Json)
    (key : JsStr) :
    ownProperty (setProperty kvs kv) key =
      if key = kv.1 then some kv.2 else ownProperty kvs key := by
  refine Option.ext fun v => ?_
  rw [ownProperty_eq_some (h.setProperty kv).nodup, mem_setProperty]
  split
  · next hkey =>
    subst hkey
    simp [Prod.ext_iff, eq_comm]
  · next hkey =>
    rw [ownProperty_eq_some h.nodup]
    simp [Prod.ext_iff, hkey]

/-- The properties after a spread. -/
theorem ownProperty_spread {kvs more : List (JsStr × Json)} (h : Members kvs)
    (hmore : (more.map Prod.fst).Nodup) (key : JsStr) :
    ownProperty (spread kvs more) key = (ownProperty more key).or (ownProperty kvs key) := by
  induction more generalizing kvs with
  | nil => rfl
  | cons kv more ih =>
    rw [List.map_cons, List.nodup_cons] at hmore
    rw [spread, List.foldl_cons, ← spread, ih (h.setProperty kv) hmore.2,
      ownProperty_setProperty h, ownProperty_cons]
    by_cases hkey : key = kv.1
    · have hnone : ownProperty more key = none := by
        rw [ownProperty, Option.map_eq_none_iff, List.find?_eq_none]
        intro x hx
        rw [beq_iff_eq, hkey]
        exact fun heq => hmore.1 (heq ▸ List.mem_map_of_mem hx)
      rw [if_pos hkey, if_pos hkey, hnone]
      rfl
    · rw [if_neg hkey, if_neg hkey]

/-! ### Values -/

mutual

/-- A JSON value of JavaScript: its numbers are finite doubles, and its objects are in order. -/
def Json.Proper : Json → Prop
  | .num (.finite q) => IsDouble q
  | .num _ => False
  | .arr xs => ElementsProper xs
  | .obj kvs => Members kvs ∧ MembersProper kvs
  | _ => True

/-- The same for the elements of an array. -/
def ElementsProper : List Json → Prop
  | [] => True
  | x :: xs => x.Proper ∧ ElementsProper xs

/-- The same for the members of an object. -/
def MembersProper : List (JsStr × Json) → Prop
  | [] => True
  | (_, x) :: kvs => x.Proper ∧ MembersProper kvs

end

theorem membersProper_iff {kvs : List (JsStr × Json)} :
    MembersProper kvs ↔ ∀ kv ∈ kvs, kv.2.Proper := by
  induction kvs with
  | nil => simp [MembersProper]
  | cons kv kvs ih => simp [MembersProper, ih]

/-- An object of proper values stays so under a spread. -/
theorem membersProper_spread {kvs more : List (JsStr × Json)} (h : MembersProper kvs)
    (hmore : MembersProper more) : MembersProper (spread kvs more) := by
  induction more generalizing kvs with
  | nil => exact h
  | cons kv more ih =>
    rw [membersProper_iff, List.forall_mem_cons] at hmore
    refine ih (membersProper_iff.mpr fun x hx => ?_) (membersProper_iff.mpr hmore.2)
    rcases mem_setProperty.mp hx with rfl | ⟨hx, -⟩
    · exact hmore.1
    · exact membersProper_iff.mp h x hx

mutual

theorem Json.Proper.keysDistinct : ∀ {v : Json}, v.Proper → v.KeysDistinct
  | .null, _ | .bool _, _ | .num _, _ | .str _, _ => trivial
  | .arr _, h => elementsDistinct_of_proper h
  | .obj _, h => ⟨h.1.nodup, membersDistinct_of_proper h.2⟩

theorem elementsDistinct_of_proper : ∀ {xs : List Json}, ElementsProper xs → ElementsDistinct xs
  | [], _ => trivial
  | _ :: _, h => ⟨h.1.keysDistinct, elementsDistinct_of_proper h.2⟩

theorem membersDistinct_of_proper :
    ∀ {kvs : List (JsStr × Json)}, MembersProper kvs → MembersDistinct kvs
  | [], _ => trivial
  | (_, _) :: _, h => ⟨h.1.keysDistinct, membersDistinct_of_proper h.2⟩

end

/-! ### Texts that read back -/

mutual

/-- The value that JavaScript reads where Python reads the given one. -/
def Value.toJson : Value → Json
  | .none => .null
  | .bool b => .bool b
  | .int n => .num (.ofRat n)
  | .float x => .num x
  | .str s => .str (codeUnits s)
  | .list xs => .arr (elementJsons xs)
  | .dict kvs => .obj (memberJsons kvs)

/-- The same for the elements of a list. -/
def elementJsons : List Value → List Json
  | [] => []
  | x :: xs => x.toJson :: elementJsons xs

/-- The same for the members of a `dict`. -/
def memberJsons : List (Str × Value) → List (JsStr × Json)
  | [] => []
  | (key, x) :: kvs => (codeUnits key, x.toJson) :: memberJsons kvs

end

/-- `JSON.parse` on the texts that `JSON.stringify` writes. No value is nested deeper than its text
is long. -/
def parse (s : JsStr) : Option Json :=
  (({ samplePython with recursionLimit := s.length }.loads (codePoints s)).toOption).map Value.toJson

/-- The texts of doubles read back. -/
def Engine.Exact (engine : Engine) : Prop :=
  ∀ q, IsDouble q → (engine.print q).value.toJson = .num (.finite q)

section

variable {engine : Engine}

mutual

theorem toJson_toValue (hengine : engine.Exact) :
    ∀ v : Json, v.Proper → (v.toValue engine).toJson = v
  | .null, _ | .bool _, _ => rfl
  | .num (.finite q), h => hengine q h
  | .num .nan, h | .num (.infinity _), h => h.elim
  | .str s, _ => congrArg Json.str (codeUnits_codePoints s)
  | .arr xs, h => congrArg Json.arr (elementJsons_elementValues hengine xs h)
  | .obj kvs, h => congrArg Json.obj (memberJsons_memberValues hengine kvs h.2)

theorem elementJsons_elementValues (hengine : engine.Exact) :
    ∀ xs : List Json, ElementsProper xs → elementJsons (elementValues engine xs) = xs
  | [], _ => rfl
  | x :: xs, h => by
    rw [elementValues, elementJsons, toJson_toValue hengine x h.1,
      elementJsons_elementValues hengine xs h.2]

theorem memberJsons_memberValues (hengine : engine.Exact) :
    ∀ kvs : List (JsStr × Json), MembersProper kvs → memberJsons (memberValues engine kvs) = kvs
  | [], _ => rfl
  | (key, x) :: kvs, h => by
    rw [memberValues, memberJsons, toJson_toValue hengine x h.1, codeUnits_codePoints,
      memberJsons_memberValues hengine kvs h.2]

end

mutual

theorem depth_le_length : ∀ v : Json, v.depth ≤ (v.stringify engine).length
  | .null | .bool _ | .num _ | .str _ => by
    obtain ⟨c, s, hs, -⟩ := stringify_head engine _
    rw [hs]
    exact Nat.succ_le_succ (Nat.zero_le _)
  | .arr [] => by simp [Json.depth, elementsDepth, Json.stringify]
  | .arr (x :: xs) => by
    have hx := depth_le_length x
    have hxs := depth_le_length_elements xs
    simp only [Json.depth, elementsDepth, Json.stringify, List.length_cons, List.length_append]
    omega
  | .obj [] => by simp [Json.depth, membersDepth, Json.stringify]
  | .obj ((key, x) :: kvs) => by
    have hx := depth_le_length x
    have hkvs := depth_le_length_members kvs
    simp only [Json.depth, membersDepth, Json.stringify, List.length_cons, List.length_append]
    omega

theorem depth_le_length_elements :
    ∀ xs : List Json, elementsDepth xs ≤ (moreElements engine xs).length
  | [] => Nat.zero_le _
  | x :: xs => by
    have hx := depth_le_length x
    have hxs := depth_le_length_elements xs
    simp only [elementsDepth, moreElements, List.length_cons, List.length_append]
    omega

theorem depth_le_length_members :
    ∀ kvs : List (JsStr × Json), membersDepth kvs ≤ (moreMembers engine kvs).length
  | [] => Nat.zero_le _
  | (key, x) :: kvs => by
    have hx := depth_le_length x
    have hkvs := depth_le_length_members kvs
    simp only [membersDepth, moreMembers, List.length_cons, List.length_append]
    omega

end

theorem length_le_codeUnits (s : Str) : s.length ≤ (codeUnits s).length := by
  induction s with
  | nil => exact le_refl _
  | cons c s ih =>
    have hc : 1 ≤ (pointUnits c).length := by
      unfold pointUnits
      split <;> simp
    rw [codeUnits, List.flatMap_cons, List.length_append, List.length_cons, ← codeUnits]
    omega

/-- A value is read back from its text. -/
theorem parse_stringify (hengine : engine.Exact) {v : Json} (hv : v.Proper) :
    parse (codeUnits (v.stringify engine)) = some v := by
  have hpoints := codePoints_codeUnits (isScalar_stringify engine v)
  have hdepth : v.depth ≤ (codeUnits (v.stringify engine)).length :=
    (depth_le_length v).trans (length_le_codeUnits _)
  have hloads : Python.loads
      { samplePython with recursionLimit := (codeUnits (v.stringify engine)).length }
      (v.stringify engine) = .ok (v.toValue engine) := loads_stringify engine hdepth hv.keysDistinct
  rw [parse, hpoints, hloads]
  exact congrArg some (toJson_toValue hengine v hv)

end

/-! ### An engine whose texts read back -/

/-- The decimal digits of a number. -/
def decimalDigits (n : ℕ) : List (Fin 10) := (decimal n).map fun c => Fin.ofNat 10 (c - 48)

theorem decimalDigits_text (n : ℕ) : (decimalDigits n).map (fun d => d.val + 48) = decimal n := by
  rw [decimalDigits, List.map_map]
  calc (decimal n).map ((fun d : Fin 10 => d.val + 48) ∘ fun c => Fin.ofNat 10 (c - 48))
      = (decimal n).map id := List.map_congr_left fun c hc => by
        have hdigit : 48 ≤ c ∧ c ≤ 57 := by simpa [isDigit] using isDigit_of_mem_decimal hc
        simp only [Function.comp_apply, Fin.ofNat, id_eq]
        omega
    _ = decimal n := List.map_id _

/-- A double has at most this number of digits after the point. -/
def places : ℕ := 1074

/-- An engine that prints whole numbers below `10 ^ 21` as JavaScript does, and other doubles with
all of their digits. -/
def exactEngine : Engine where
  print q :=
    if h : q = (q.num.natAbs : ℚ) ∧ q.num.natAbs < 10 ^ 21 then ⟨false, q.num.natAbs, h.2, [], none⟩
    else
      let digits := decimalDigits (q * 10 ^ places).num.natAbs
      ⟨decide (q < 0), 0, by decide, digits, some (digits.length + -places)⟩
  print_natCast n hn := by
    have hnat : ((n : ℚ)).num.natAbs = n := by simp
    have h : (n : ℚ) = (((n : ℚ)).num.natAbs : ℚ) ∧ ((n : ℚ)).num.natAbs < 10 ^ 21 := by
      rw [hnat]
      exact ⟨rfl, hn.trans_lt (by decide)⟩
    rw [dif_pos h]
    exact ⟨rfl, hnat, rfl, rfl⟩

/-- A number with `n` binary digits after the point has as many decimal ones. -/
theorem scaled_intCast {m u : ℤ} {n : ℕ} (hu : -n ≤ u) :
    ∃ z : ℤ, (m : ℚ) * 2 ^ u * 10 ^ n = z := by
  have hexp : ((u + n).toNat : ℤ) = u + n := Int.toNat_of_nonneg (by omega)
  have hten : (10 : ℚ) ^ n = 2 ^ (n : ℤ) * 5 ^ n := by
    rw [zpow_natCast, ← mul_pow]
    norm_num
  refine ⟨m * 2 ^ (u + n).toNat * 5 ^ n, ?_⟩
  push_cast
  rw [hten, ← zpow_natCast (2 : ℚ) (u + n).toNat, hexp, zpow_add₀ two_ne_zero]
  ring

theorem IsDouble.scaled {q : ℚ} (h : IsDouble q) :
    q * 10 ^ places = ((q * 10 ^ places).num : ℚ) := by
  obtain ⟨m, u, rfl, -, hu, -⟩ := h
  obtain ⟨z, hz⟩ := scaled_intCast (m := m) (u := u) (n := places) hu
  rw [hz, Rat.num_intCast]

/-- The number that is read from the digits of a whole number and a power of ten. -/
theorem value_digits {negative : Bool} {n : ℕ} {e : ℤ} :
    NumberText.value
        ⟨negative, 0, by decide, decimalDigits n, some ((decimalDigits n).length + e)⟩ =
      .float (.ofRat ((if negative then -1 else 1 : ℤ) * n * 10 ^ e)) := by
  have hdigits : digitsValue (decimal 0 ++ decimal n) = n := digitsValue_decimal n
  simp only [NumberText.value, reduceCtorEq, and_false, if_false, NumberText.fractionDigits,
    decimalDigits_text, hdigits, Option.getD_some, add_sub_cancel_left]

theorem exactEngine_exact : exactEngine.Exact := by
  intro q hq
  have hround := ofRat_of_isDouble hq
  by_cases h : q = (q.num.natAbs : ℚ) ∧ q.num.natAbs < 10 ^ 21
  · have hprint : exactEngine.print q = ⟨false, q.num.natAbs, h.2, [], none⟩ := dif_pos h
    have hvalue : (exactEngine.print q).value = .int q.num.natAbs := by
      rw [hprint]
      simp [NumberText.value]
    rw [hvalue, Value.toJson, Int.cast_natCast, ← h.1, hround]
  · have hprint : exactEngine.print q =
        ⟨decide (q < 0), 0, by decide, decimalDigits (q * 10 ^ places).num.natAbs,
          some ((decimalDigits (q * 10 ^ places).num.natAbs).length + -places)⟩ := dif_neg h
    have hpow : (0 : ℚ) < 10 ^ places := by positivity
    have hscaled := hq.scaled
    have hvalue : (exactEngine.print q).value = .float (.ofRat q) := by
      rw [hprint, value_digits]
      generalize (q * 10 ^ places).num = z at hscaled
      have hneg : q < 0 ↔ z < 0 := by
        rw [← Int.cast_lt_zero (R := ℚ), ← hscaled]
        exact ⟨fun h => mul_neg_of_neg_of_pos h hpow, fun h => lt_of_not_ge fun h' =>
          h.not_ge (mul_nonneg h' hpow.le)⟩
      have hsign : (if decide (q < 0) then -1 else 1 : ℤ) * (z.natAbs : ℤ) = z := by
        by_cases hq0 : q < 0
        · have := hneg.mp hq0
          simp only [hq0, decide_true, if_true]
          omega
        · have := hneg.not.mp hq0
          simp only [hq0, decide_false, Bool.false_eq_true, if_false]
          omega
      have hcast : ((if decide (q < 0) then -1 else 1 : ℤ) : ℚ) * (z.natAbs : ℚ) = z := by
        rw [← Int.cast_natCast z.natAbs, ← Int.cast_mul, hsign]
      rw [hcast, ← hscaled, zpow_neg, zpow_natCast, mul_inv_cancel_right₀ hpow.ne']
    rw [hvalue, Value.toJson, hround]

end CodeInterpreter
