import CodeInterpreter.Python.Dumps

/-!
# Values in both languages

The two services share their data as JSON texts. `Portable` are the values that both languages read
and write without an error and without a loss: readable strings, numbers that a double holds, and
objects with distinct keys of which none is an array index, which JavaScript would move to the
front.

A text `Holds` an object when both services read it as that object and both can write it again. An
update of the object by either service, a spread in JavaScript or `dict.update` in Python, gives a
text that holds the updated object.

## Main definitions

* `PlainKey`, `Portable`, `update`, `Holds`.

## Main results

* `memberJsons_update`: an update in Python is a spread in JavaScript.
* `Holds.stringify_spread`, `Holds.dumps_update`: the two writers.
-/

namespace CodeInterpreter

/-! ### Code units of readable strings -/

theorem codePoints_cons_of_not_pair {u : UInt16} {s : JsStr}
    (h : ∀ v ∈ s.head?, ¬ (isHigh u.toNat = true ∧ isLow v.toNat = true)) :
    codePoints (u :: s) = u.toNat :: codePoints s := by
  cases s with
  | nil => rfl
  | cons v s =>
    have hv := h v rfl
    rw [codePoints, if_neg (by simpa using hv)]

/-- The first code unit of a code point. -/
theorem head_pointUnits {c : ℕ} (hc : c < 0x110000) {v : UInt16} (hv : v ∈ (pointUnits c).head?)
    (hlow : isLow v.toNat = true) : isLow c = true := by
  unfold pointUnits at hv
  split at hv
  · next hsmall =>
    obtain rfl : UInt16.ofNat c = v := by simpa using hv
    rwa [UInt16.toNat_ofNat', Nat.mod_eq_of_lt hsmall] at hlow
  · next hbig =>
    obtain rfl : UInt16.ofNat (0xD800 + (c - 0x10000) / 1024) = v := by simpa using hv
    rw [UInt16.toNat_ofNat', Nat.mod_eq_of_lt (by omega)] at hlow
    simp only [isLow, Bool.and_eq_true, decide_eq_true_eq] at hlow
    omega

/-- A readable string is determined by its code units. -/
theorem Readable.codePoints_codeUnits {s : Str} (hs : Readable s) :
    codePoints (codeUnits s) = s := by
  obtain ⟨hpair, hbounded⟩ := hs
  induction s with
  | nil => rfl
  | cons c s ih =>
    obtain ⟨hnext, htail⟩ := List.isChain_cons.mp hpair
    obtain ⟨hc, hbounded⟩ := List.forall_mem_cons.mp hbounded
    have ih := ih htail hbounded
    have hunits : codeUnits (c :: s) = pointUnits c ++ codeUnits s := List.flatMap_cons
    rw [hunits]
    by_cases hsmall : c < 0x10000
    · have hnat : (UInt16.ofNat c).toNat = c := by
        rw [UInt16.toNat_ofNat', Nat.mod_eq_of_lt hsmall]
      rw [pointUnits, if_pos hsmall, List.singleton_append, codePoints_cons_of_not_pair, hnat, ih]
      rintro v hv ⟨hhigh, hlow⟩
      rw [hnat] at hhigh
      cases s with
      | nil => cases hv
      | cons d s =>
        have hd := hbounded d List.mem_cons_self
        have hv' : v ∈ (pointUnits d).head? := by
          have hne : pointUnits d ≠ [] := by
            unfold pointUnits
            split <;> simp
          rwa [codeUnits, List.flatMap_cons, List.head?_append_of_ne_nil _ hne] at hv
        exact hnext d rfl ⟨hhigh, head_pointUnits hd hv' hlow⟩
    · have hscalar : IsScalar c := by
        refine ⟨hc, ?_⟩
        simp only [isSurrogate, Bool.and_eq_false_iff, decide_eq_false_iff_not]
        omega
      have hpoint := CodeInterpreter.codePoints_codeUnits (List.forall_mem_singleton.mpr hscalar)
      rw [pointUnits, if_neg hsmall, List.cons_append, List.singleton_append]
      rw [codeUnits, List.flatMap_singleton, pointUnits, if_neg hsmall] at hpoint
      rw [codePoints] at hpoint ⊢
      split at hpoint
      · next hsurrogates =>
        rw [if_pos hsurrogates, (List.cons.inj hpoint).1, ih]
      · cases (List.cons.inj hpoint).2

theorem codeUnits_inj {s t : Str} (hs : Readable s) (ht : Readable t)
    (h : codeUnits s = codeUnits t) : s = t := by
  rw [← hs.codePoints_codeUnits, h, ht.codePoints_codeUnits]

/-! ### Values that both languages hold -/

theorem elementJsons_eq_map (xs : List Value) : elementJsons xs = xs.map Value.toJson := by
  induction xs with
  | nil => rfl
  | cons x xs ih => rw [elementJsons, ih, List.map_cons]

theorem memberJsons_eq_map (kvs : List (Str × Value)) :
    memberJsons kvs = kvs.map fun kv => (codeUnits kv.1, kv.2.toJson) := by
  induction kvs with
  | nil => rfl
  | cons kv kvs ih => rw [memberJsons, ih, List.map_cons]

/-- A key that both languages keep where it was put: it is no array index. -/
structure PlainKey (key : Str) : Prop where
  readable : Readable key
  last : arrayIndex (codeUnits key) = 2 ^ 32 - 1

/-- A value that both languages read and write, with `limit` levels of nesting. -/
structure Portable (repr : FloatRepr) (limit : ℕ) (v : Value) : Prop where
  regular : v.Regular
  proper : v.toJson.Proper
  shallow : v.toJson.depth ≤ limit
  encodes : ∃ t, encode repr limit v = .ok t

namespace Portable

variable {repr : FloatRepr} {limit : ℕ}

theorem none : Portable repr (limit + 1) .none :=
  ⟨trivial, trivial, Nat.succ_le_succ (Nat.zero_le _), _, rfl⟩

theorem bool (b : Bool) : Portable repr (limit + 1) (.bool b) :=
  ⟨trivial, trivial, Nat.succ_le_succ (Nat.zero_le _), _, rfl⟩

theorem str {s : Str} (hs : Readable s) : Portable repr (limit + 1) (.str s) :=
  ⟨hs, trivial, Nat.succ_le_succ (Nat.zero_le _), _, rfl⟩

/-- An integer that a double holds. -/
theorem int {n : ℤ} (hn : n.natAbs ≤ 2 ^ 53) : Portable repr (limit + 1) (.int n) := by
  have hdouble : IsDouble n := by
    obtain ⟨k, rfl | rfl⟩ := n.eq_nat_or_neg
    · exact_mod_cast isDouble_natCast (by simpa using hn)
    · exact_mod_cast (isDouble_natCast (n := k) (by simpa using hn)).neg
  have hproper : (Value.int n).toJson.Proper := by
    rw [Value.toJson, ofRat_of_isDouble hdouble]
    exact hdouble
  have hshort : ¬ maxStrDigits < (decimal n.natAbs).length :=
    Nat.not_lt.mpr (length_decimal_le (hn.trans_lt (by decide)))
  exact ⟨trivial, hproper, Nat.succ_le_succ (Nat.zero_le _), _, if_neg hshort⟩

theorem list {xs : List Value} (h : ∀ x ∈ xs, Portable repr limit x) :
    Portable repr (limit + 1) (.list xs) where
  regular := elementsRegular_iff.mpr fun x hx => (h x hx).regular
  proper := by
    rw [Value.toJson, elementJsons_eq_map]
    refine elementsProper_iff.mpr fun y hy => ?_
    obtain ⟨x, hx, rfl⟩ := List.mem_map.mp hy
    exact (h x hx).proper
  shallow := by
    rw [Value.toJson, elementJsons_eq_map]
    refine Nat.succ_le_succ (elementsDepth_le_iff.mpr fun y hy => ?_)
    obtain ⟨x, hx, rfl⟩ := List.mem_map.mp hy
    exact (h x hx).shallow
  encodes := encode_list_ok fun x hx => (h x hx).encodes

end Portable

theorem arrayIndex_le (key : JsStr) : arrayIndex key ≤ 2 ^ 32 - 1 := by
  rw [arrayIndex]
  split <;> omega

/-- Objects without array indices are in order. -/
theorem members_of_plain {kvs : List (Str × Value)} (hnodup : (kvs.map Prod.fst).Nodup)
    (hplain : ∀ kv ∈ kvs, PlainKey kv.1) : Members (memberJsons kvs) := by
  rw [memberJsons_eq_map]
  constructor
  · rw [List.map_map]
    refine (List.nodup_map_iff_inj_on (hnodup.of_map _)).mpr fun x hx y hy h => ?_
    have hkey := codeUnits_inj (hplain x hx).readable (hplain y hy).readable h
    exact List.inj_on_of_nodup_map hnodup hx hy hkey
  · rw [List.pairwise_map]
    refine List.pairwise_of_forall_mem_list fun x _ y hy => ?_
    have hlast := (hplain y hy).last
    have := arrayIndex_le (codeUnits x.1)
    simp only [Before, hlast]
    omega

theorem Portable.dict {repr : FloatRepr} {limit : ℕ} {kvs : List (Str × Value)}
    (hnodup : (kvs.map Prod.fst).Nodup)
    (h : ∀ kv ∈ kvs, PlainKey kv.1 ∧ Portable repr limit kv.2) :
    Portable repr (limit + 1) (.dict kvs) where
  regular := ⟨hnodup, membersRegular_iff.mpr fun kv hkv =>
    ⟨(h kv hkv).1.readable, (h kv hkv).2.regular⟩⟩
  proper := by
    refine ⟨members_of_plain hnodup fun kv hkv => (h kv hkv).1, ?_⟩
    rw [memberJsons_eq_map]
    refine membersProper_iff.mpr fun y hy => ?_
    obtain ⟨kv, hkv, rfl⟩ := List.mem_map.mp hy
    exact (h kv hkv).2.proper
  shallow := by
    rw [Value.toJson, memberJsons_eq_map]
    refine Nat.succ_le_succ (membersDepth_le_iff.mpr fun y hy => ?_)
    obtain ⟨kv, hkv, rfl⟩ := List.mem_map.mp hy
    exact (h kv hkv).2.shallow
  encodes := encode_dict_ok fun kv hkv => (h kv hkv).2.encodes

/-! ### Updates -/

/-- `members.update(fields)`. -/
def update (members fields : List (Str × Value)) : List (Str × Value) :=
  fields.foldl insertKey members

/-- A key that is no array index comes last in an object. -/
theorem orderedInsert_plain {kv : JsStr × Json} (hkv : arrayIndex kv.1 = 2 ^ 32 - 1)
    (kvs : List (JsStr × Json)) : kvs.orderedInsert Before kv = kvs ++ [kv] := by
  induction kvs with
  | nil => rfl
  | cons x kvs ih =>
    have hbefore : ¬ Before kv x := by
      have := arrayIndex_le x.1
      simp only [Before, hkv]
      omega
    rw [List.orderedInsert_cons, if_neg hbefore, ih, List.cons_append]

/-- An assignment in Python is one in JavaScript. -/
theorem memberJsons_insertKey {members : List (Str × Value)} {kv : Str × Value}
    (hmembers : ∀ x ∈ members, Readable x.1) (hkv : PlainKey kv.1) :
    memberJsons (insertKey members kv) =
      setProperty (memberJsons members) (codeUnits kv.1, kv.2.toJson) := by
  have hsame : ∀ x ∈ members, (codeUnits x.1 = codeUnits kv.1 ↔ x.1 = kv.1) := fun x hx =>
    ⟨codeUnits_inj (hmembers x hx) hkv.readable, congrArg codeUnits⟩
  have hmem : codeUnits kv.1 ∈ (memberJsons members).map Prod.fst ↔
      (members.any fun x => x.1 == kv.1) = true := by
    rw [memberJsons_eq_map, List.map_map, List.mem_map, List.any_eq_true]
    exact exists_congr fun x => and_congr_right fun hx => (hsame x hx).trans beq_iff_eq.symm
  by_cases hin : (members.any fun x => x.1 == kv.1) = true
  · rw [insertKey, if_pos hin, setProperty, if_pos (hmem.mpr hin)]
    simp only [memberJsons_eq_map, List.map_map]
    refine List.map_congr_left fun x hx => ?_
    by_cases hx' : x.1 = kv.1
    · simp [hx']
    · simp [hx', (hsame x hx).not.mpr hx']
  · rw [insertKey, if_neg hin, setProperty, if_neg (hmem.not.mpr hin), orderedInsert_plain hkv.last]
    simp only [memberJsons_eq_map, List.map_append, List.map_cons, List.map_nil]

theorem mem_insertKey {members : List (Str × Value)} {kv x : Str × Value}
    (h : x ∈ insertKey members kv) : x = kv ∨ x ∈ members := by
  unfold insertKey at h
  split at h
  · obtain ⟨y, hy, rfl⟩ := List.mem_map.mp h
    split
    · exact .inl rfl
    · exact .inr hy
  · rcases List.mem_append.mp h with h | h
    · exact .inr h
    · exact .inl (List.mem_singleton.mp h)

theorem mem_update {members fields : List (Str × Value)} {x : Str × Value}
    (h : x ∈ update members fields) : x ∈ fields ∨ x ∈ members := by
  induction fields generalizing members with
  | nil => exact .inr h
  | cons kv fields ih =>
    rcases ih h with h | h
    · exact .inl (List.mem_cons_of_mem kv h)
    · rcases mem_insertKey h with rfl | h
      · exact .inl List.mem_cons_self
      · exact .inr h

theorem nodup_insertKey {members : List (Str × Value)} (kv : Str × Value)
    (h : (members.map Prod.fst).Nodup) : ((insertKey members kv).map Prod.fst).Nodup := by
  unfold insertKey
  split
  · have hkeys : (members.map fun x => if x.1 == kv.1 then kv else x).map Prod.fst =
        members.map Prod.fst := by
      rw [List.map_map]
      refine List.map_congr_left fun x _ => ?_
      by_cases hx : x.1 = kv.1 <;> simp [hx]
    rwa [hkeys]
  · next hnew =>
    rw [List.map_append, List.map_cons, List.map_nil, List.nodup_append]
    refine ⟨h, List.nodup_singleton _, fun a ha b hb => ?_⟩
    obtain rfl := List.mem_singleton.mp hb
    obtain ⟨x, hx, rfl⟩ := List.mem_map.mp ha
    exact fun heq => hnew (List.any_eq_true.mpr ⟨x, hx, beq_iff_eq.mpr heq⟩)

theorem nodup_update {members : List (Str × Value)} (fields : List (Str × Value))
    (h : (members.map Prod.fst).Nodup) : ((update members fields).map Prod.fst).Nodup := by
  induction fields generalizing members with
  | nil => exact h
  | cons kv fields ih => exact ih (nodup_insertKey kv h)

/-- **An update in Python is a spread in JavaScript.** -/
theorem memberJsons_update {members fields : List (Str × Value)}
    (hmembers : ∀ x ∈ members, Readable x.1) (hfields : ∀ kv ∈ fields, PlainKey kv.1) :
    memberJsons (update members fields) = spread (memberJsons members) (memberJsons fields) := by
  induction fields generalizing members with
  | nil => rfl
  | cons kv fields ih =>
    obtain ⟨hkv, hfields⟩ := List.forall_mem_cons.mp hfields
    have hnew : ∀ x ∈ insertKey members kv, Readable x.1 := by
      intro x hx
      rcases mem_insertKey hx with rfl | hx
      · exact hkv.readable
      · exact hmembers x hx
    rw [update, List.foldl_cons, ← update, ih hnew hfields, memberJsons_insertKey hmembers hkv]
    rfl

/-! ### Texts of objects -/

/-- A text that both services read as the object with the given members, and that both can write
again. -/
structure Holds (py : Python) (repr : FloatRepr) (text : Str) (kvs : List (JsStr × Json)) :
    Prop where
  proper : (Json.obj kvs).Proper
  shallow : (Json.obj kvs).depth ≤ py.recursionLimit
  parsed : parse (codeUnits text) = some (.obj kvs)
  loaded : ∃ members, py.loads text = .ok (.dict members) ∧ memberJsons members = kvs ∧
    (Value.dict members).Regular ∧ ∃ t, py.dumps repr (.dict members) = .ok t

/-- The fields of an update: both languages hold them, below the recursion limit. -/
def Updates (py : Python) (repr : FloatRepr) (fields : List (Str × Value)) : Prop :=
  ∀ kv ∈ fields, PlainKey kv.1 ∧ ∃ limit, py.recursionLimit = limit + 1 ∧ Portable repr limit kv.2

section

variable {py : Python} {repr : FloatRepr} {text : Str} {kvs : List (JsStr × Json)}

/-- What the API server writes. -/
theorem holds_stringify {engine : Engine} (hengine : engine.Exact) (hproper : (Json.obj kvs).Proper)
    (hshallow : (Json.obj kvs).depth ≤ py.recursionLimit) :
    Holds py repr ((Json.obj kvs).stringify engine) kvs where
  proper := hproper
  shallow := hshallow
  parsed := parse_stringify hengine hproper
  loaded := ⟨memberValues engine kvs, loads_stringify engine hshallow hproper.keysDistinct,
    memberJsons_memberValues hengine kvs hproper.2, regular_toValue hengine hproper,
    encode_toValue_ok repr hshallow⟩

/-- What the worker writes. -/
theorem holds_dumps {members : List (Str × Value)} (hregular : (Value.dict members).Regular)
    (hproper : (Json.obj (memberJsons members)).Proper)
    (hshallow : (Json.obj (memberJsons members)).depth ≤ py.recursionLimit)
    (htext : py.dumps repr (.dict members) = .ok text) :
    Holds py repr text (memberJsons members) where
  proper := hproper
  shallow := hshallow
  parsed := parse_dumps htext hregular
  loaded := ⟨members, loads_dumps htext hregular, rfl, hregular, text, htext⟩

theorem mem_spread {more : List (JsStr × Json)} {x : JsStr × Json} (h : x ∈ spread kvs more) :
    x ∈ more ∨ x ∈ kvs := by
  induction more generalizing kvs with
  | nil => exact .inr h
  | cons kv more ih =>
    rcases ih h with h | h
    · exact .inl (List.mem_cons_of_mem kv h)
    · rcases mem_setProperty.mp h with rfl | ⟨h, -⟩
      · exact .inl List.mem_cons_self
      · exact .inr h

/-- The object after an update is one that both languages hold. -/
theorem Holds.spread (h : Holds py repr text kvs) {fields : List (Str × Value)}
    (hfields : Updates py repr fields) :
    (Json.obj (spread kvs (memberJsons fields))).Proper ∧
      (Json.obj (spread kvs (memberJsons fields))).depth ≤ py.recursionLimit := by
  have hmore : ∀ x ∈ memberJsons fields, x.2.Proper ∧ x.2.depth + 1 ≤ py.recursionLimit := by
    rw [memberJsons_eq_map]
    intro x hx
    obtain ⟨kv, hkv, rfl⟩ := List.mem_map.mp hx
    obtain ⟨-, limit, hlimit, hportable⟩ := hfields kv hkv
    exact ⟨hportable.proper, hlimit ▸ Nat.succ_le_succ hportable.shallow⟩
  refine ⟨⟨h.proper.1.spread _, membersProper_spread h.proper.2
    (membersProper_iff.mpr fun x hx => (hmore x hx).1)⟩, ?_⟩
  have hshallow := h.shallow
  have hpos : 1 ≤ py.recursionLimit := (Json.one_le_depth _).trans hshallow
  obtain ⟨limit, hlimit⟩ : ∃ limit, py.recursionLimit = limit + 1 :=
    ⟨py.recursionLimit - 1, by omega⟩
  rw [hlimit] at hshallow hmore ⊢
  refine Nat.succ_le_succ (membersDepth_le_iff.mpr fun x hx => ?_)
  rcases mem_spread hx with hx | hx
  · exact Nat.le_of_succ_le_succ (hmore x hx).2
  · exact membersDepth_le_iff.mp (Nat.le_of_succ_le_succ hshallow) x hx

/-- An update by the API server. -/
theorem Holds.stringify_spread {engine : Engine} (hengine : engine.Exact)
    (h : Holds py repr text kvs) {fields : List (Str × Value)} (hfields : Updates py repr fields) :
    Holds py repr ((Json.obj (CodeInterpreter.spread kvs (memberJsons fields))).stringify engine)
      (CodeInterpreter.spread kvs (memberJsons fields)) :=
  holds_stringify hengine (h.spread hfields).1 (h.spread hfields).2

/-- An update by the worker, from the members that it read. -/
theorem Holds.dumps_update (h : Holds py repr text kvs) {fields : List (Str × Value)}
    (hfields : Updates py repr fields) :
    ∃ members, py.loads text = .ok (.dict members) ∧ ∃ text',
      py.dumps repr (.dict (update members fields)) = .ok text' ∧
      Holds py repr text' (CodeInterpreter.spread kvs (memberJsons fields)) := by
  obtain ⟨hproper, hshallow⟩ := h.spread hfields
  obtain ⟨members, hloads, rfl, ⟨hnodup, hregular⟩, hencodes⟩ := h.loaded
  have hmembers := membersRegular_iff.mp hregular
  have hspread : memberJsons (update members fields) =
      CodeInterpreter.spread (memberJsons members) (memberJsons fields) :=
    memberJsons_update (fun x hx => (hmembers x hx).1) fun kv hkv => (hfields kv hkv).1
  have hpos : 1 ≤ py.recursionLimit := (Json.one_le_depth _).trans h.shallow
  obtain ⟨limit, hlimit⟩ : ∃ limit, py.recursionLimit = limit + 1 :=
    ⟨py.recursionLimit - 1, by omega⟩
  have hportable (kv : Str × Value) (hkv : kv ∈ fields) : Portable repr limit kv.2 := by
    obtain ⟨-, limit', hlimit', hp⟩ := hfields kv hkv
    obtain rfl : limit' = limit := by omega
    exact hp
  obtain ⟨text', htext'⟩ : ∃ t, py.dumps repr (.dict (update members fields)) = .ok t := by
    unfold Python.dumps at hencodes ⊢
    rw [hlimit] at hencodes ⊢
    refine encode_dict_ok fun x hx => ?_
    rcases mem_update hx with hx | hx
    · exact (hportable x hx).encodes
    · exact encode_dict_members hencodes x hx
  refine ⟨members, hloads, text', htext', ?_⟩
  rw [← hspread] at hproper hshallow ⊢
  refine holds_dumps ⟨nodup_update fields hnodup, membersRegular_iff.mpr fun x hx => ?_⟩ hproper
    hshallow htext'
  rcases mem_update hx with hx | hx
  · exact ⟨(hfields x hx).1.readable, (hportable x hx).regular⟩
  · exact hmembers x hx

end

end CodeInterpreter
