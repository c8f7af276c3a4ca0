import CodeInterpreter.RateLimits

/-!
# What a rate-limit answer predicts

An answer of the limiter is about the future: a refused check is told when to come back, and an
allowed one how many more checks there is room for. Both numbers are read off the sorted set, and
both are exact as long as the clock does not go back. The times are readings of `Date.now`, on which
the script computes without rounding (`script_doubles`).

## Main definitions

* `load`: the allowed checks in the window up to a time.

## Main results

* `refused_outcome`: the retry time of a refused check, from the allowed checks before it.
* `answers_predict`: the two predictions.
-/

namespace CodeInterpreter.Api

/-! ### The oldest entry -/

theorem oldest_eq_none_iff {l : List (Str × ℕ)} : oldest l = none ↔ l = [] := by
  cases l with
  | nil => simp [oldest]
  | cons m rest => cases h : oldest rest <;> simp [oldest, h]

/-- The entry that `ZRANGE key 0 0` returns has the smallest score. -/
theorem oldest_spec {l : List (Str × ℕ)} {m : Str × ℕ} (h : oldest l = some m) :
    m ∈ l ∧ ∀ x ∈ l, m.2 ≤ x.2 := by
  induction l generalizing m with
  | nil => simp [oldest] at h
  | cons a rest ih =>
    cases hrest : oldest rest with
    | none =>
      obtain rfl := oldest_eq_none_iff.mp hrest
      obtain rfl : a = m := by simpa [oldest] using h
      simp
    | some b =>
      obtain ⟨hb, hmin⟩ := ih hrest
      rw [oldest, hrest] at h
      by_cases hab : rankedBefore a b = true
      · obtain rfl : a = m := by simpa [hab] using h
        have hle : a.2 ≤ b.2 := by
          simp only [rankedBefore, Bool.or_eq_true, decide_eq_true_eq, Bool.and_eq_true,
            beq_iff_eq] at hab
          omega
        refine ⟨by simp, fun x hx => ?_⟩
        rcases List.mem_cons.mp hx with rfl | hx
        · exact le_rfl
        · exact hle.trans (hmin x hx)
      · obtain rfl : b = m := by simpa [hab] using h
        have hle : b.2 ≤ a.2 := by
          simp only [rankedBefore, Bool.or_eq_true, decide_eq_true_eq, not_or] at hab
          omega
        refine ⟨List.mem_cons_of_mem _ hb, fun x hx => ?_⟩
        rcases List.mem_cons.mp hx with rfl | hx
        · exact hle
        · exact hmin x hx

/-! ### The load of a key -/

/-- How many of the checks that were allowed on a key are in the window that ends at `n`. -/
def load (key : Str) (W : ℕ) (sets : RateLimits) (checks : List Check) (n : ℕ) : ℕ :=
  (allowedTimes key sets checks).countP fun t => n < t + W ∧ t ≤ n

theorem countP_lt_countP {α : Type} [DecidableEq α] {p q : α → Bool} {l : List α} {x : α}
    (h : ∀ y ∈ l, p y → q y) (hx : x ∈ l) (hq : q x = true) (hp : ¬ p x = true) :
    l.countP p < l.countP q := by
  have hperm := List.perm_cons_erase hx
  rw [hperm.countP_eq, hperm.countP_eq, List.countP_cons_of_neg hp, List.countP_cons_of_pos hq]
  have hmono : (l.erase x).countP p ≤ (l.erase x).countP q :=
    List.countP_mono_left fun y hy => h y (List.mem_of_mem_erase hy)
  exact Nat.lt_succ_of_le hmono

section

variable {sets : RateLimits} {key : Str} {limit W : ℕ} {checks later : List Check} {c : Check}

/-- Later checks only add to the allowed ones. -/
theorem allowedTimes_suffix (sets : RateLimits) (checks later : List Check) :
    allowedTimes key sets checks <:+ allowedTimes key sets (checks ++ later) := by
  induction later using List.reverseRecOn with
  | nil => simp
  | append_singleton later d ih =>
    rw [← List.append_assoc, allowedTimes_snoc]
    split_ifs
    · exact ih.trans (List.suffix_cons _ _)
    · exact ih

/-- Refused checks add nothing. -/
theorem allowedTimes_of_refused
    (h : ∀ earlier d rest, later = earlier ++ d :: rest → d.key = key →
      ¬ d.allowed (after sets (checks ++ earlier)) = true) :
    allowedTimes key sets (checks ++ later) = allowedTimes key sets checks := by
  induction later using List.reverseRecOn with
  | nil => simp
  | append_singleton later d ih =>
    have hd := h later d [] rfl
    rw [← List.append_assoc, allowedTimes_snoc, if_neg fun hboth => hd hboth.1 hboth.2]
    refine ih fun earlier d' rest heq => h earlier d' (rest ++ [d]) ?_
    rw [heq, List.append_assoc, List.cons_append]

/-- The answer to a check on the key. -/
theorem outcome_after (hempty : sets key = noEntries) (h : OnKey key limit W (checks ++ [c]))
    (hlimit : 0 < limit) (hc : c.key = key) :
    (load key W sets checks c.now < limit ∧
      c.outcome (after sets checks) = ⟨true, limit - load key W sets checks c.now - 1, 0⟩) ∨
    (limit ≤ load key W sets checks c.now ∧ ∃ first ∈ allowedTimes key sets checks,
      c.now < first + W ∧ (∀ t ∈ allowedTimes key sets checks, c.now < t + W → first ≤ t) ∧
      c.outcome (after sets checks) = ⟨false, 0, first + W - c.now⟩) := by
  obtain ⟨hl, hW⟩ := h.same c (by simp) hc
  have hlast := h.le_last hc
  have hle := allowedTimes_le sets hlast
  have hwindow := window_after hempty h.left hlimit hlast
  have hcount : ((after sets checks key).window c.now W).length =
      load key W sets checks c.now := by
    rw [← List.length_map Prod.snd, hwindow, load, ← List.countP_eq_length_filter]
    refine List.countP_congr fun t ht => ?_
    simp [hle t ht]
  simp only [Check.outcome, SlotSet.slide, hc, hW, hl, hcount]
  by_cases hroom : load key W sets checks c.now < limit
  · exact .inl ⟨hroom, by rw [if_pos hroom]⟩
  · refine .inr ⟨not_lt.mp hroom, ?_⟩
    rw [if_neg hroom]
    cases hold : oldest ((after sets checks key).window c.now W) with
    | none =>
      rw [oldest_eq_none_iff.mp hold, List.length_nil] at hcount
      omega
    | some m =>
      obtain ⟨hm, hmin⟩ := oldest_spec hold
      have hmem : m.2 ∈ (allowedTimes key sets checks).filter fun t => c.now < t + W := by
        rw [← hwindow]
        exact List.mem_map_of_mem hm
      obtain ⟨hfirst, hin⟩ := List.mem_filter.mp hmem
      rw [decide_eq_true_eq] at hin
      refine ⟨m.2, hfirst, hin, fun t ht htW => ?_, ?_⟩
      · have hmem' : t ∈ ((after sets checks key).window c.now W).map Prod.snd := by
          rw [hwindow]
          exact List.mem_filter.mpr ⟨ht, by simpa using htW⟩
        obtain ⟨x, hx, rfl⟩ := List.mem_map.mp hmem'
        exact hmin x hx
      · simp only [RateLimitOutcome.mk.injEq, true_and]
        omega

/-! ### The two predictions -/

variable {earlier : List Check} {d : Check} {first n : ℕ}

/-- The verdict of a later check. -/
theorem allowed_iff_load (hempty : sets key = noEntries) (h : OnKey key limit W (checks ++ [d]))
    (hlimit : 0 < limit) (hd : d.key = key) :
    d.allowed (after sets checks) = true ↔ load key W sets checks d.now < limit :=
  allowed_after_iff hempty h hlimit hd

/-- While the oldest check of a full window counts, the window stays full. -/
theorem load_le_load (hmin : ∀ t ∈ allowedTimes key sets checks, n < t + W → first ≤ t)
    {n' : ℕ} (hn : n ≤ n') (hn' : n' < first + W) (more : List Check) :
    load key W sets checks n ≤ load key W sets (checks ++ more) n' := by
  have hkept : load key W sets checks n ≤ load key W sets checks n' := by
    refine List.countP_mono_left fun t ht hcounts => ?_
    simp only [decide_eq_true_eq] at hcounts ⊢
    have hfirst := hmin t ht hcounts.1
    omega
  exact hkept.trans (allowedTimes_suffix sets checks more).sublist.countP_le

/-- Once the oldest check of the window leaves it, the load goes down. -/
theorem load_lt_load (hfirst : first ∈ allowedTimes key sets checks) (hle : first ≤ n)
    (hin : n < first + W) (htimes : ∀ t ∈ allowedTimes key sets checks, t ≤ n) :
    load key W sets checks (first + W) < load key W sets checks n := by
  refine countP_lt_countP (fun t ht hcounts => ?_) hfirst (by simp [hle, hin]) (by simp)
  have htn := htimes t ht
  simp only [decide_eq_true_eq] at hcounts ⊢
  omega

/-- At one time, each check adds to the load until the limit is reached. -/
theorem load_at_once (hempty : sets key = noEntries) (hlimit : 0 < limit) (hW : 0 < W)
    (h : OnKey key limit W (checks ++ later)) (hnow : ∀ d ∈ later, d.key = key → d.now = n)
    (hload : load key W sets checks n ≤ limit) :
    load key W sets (checks ++ later) n =
      min limit (load key W sets checks n + (later.filter fun d => d.key = key).length) := by
  induction later using List.reverseRecOn with
  | nil => simpa using hload
  | append_singleton later d ih =>
    rw [← List.append_assoc] at h ⊢
    have hinit := ih h.left fun d' hd' => hnow d' (List.mem_append_left _ hd')
    by_cases hd : d.key = key
    · have htime := hnow d (by simp) hd
      have hverdict := allowed_iff_load hempty h hlimit hd
      rw [htime] at hverdict
      have hkept : (later ++ [d]).filter (fun d => d.key = key) =
          later.filter (fun d => d.key = key) ++ [d] := by
        simp [List.filter_append, hd]
      rw [hkept, List.length_append, List.length_singleton]
      by_cases hroom : load key W sets (checks ++ later) n < limit
      · have hadds : load key W sets (checks ++ later ++ [d]) n =
            load key W sets (checks ++ later) n + 1 := by
          rw [load, allowedTimes_snoc, if_pos ⟨hd, hverdict.mpr hroom⟩,
            List.countP_cons_of_pos (by simp [htime, hW])]
          rfl
        omega
      · have hkeeps : load key W sets (checks ++ later ++ [d]) n =
            load key W sets (checks ++ later) n := by
          rw [load, allowedTimes_snoc, if_neg fun hboth => hroom (hverdict.mp hboth.2)]
          rfl
        omega
    · have hkeeps : load key W sets (checks ++ later ++ [d]) n =
          load key W sets (checks ++ later) n := by
        rw [load, allowedTimes_snoc, if_neg fun hboth => hd hboth.1]
        rfl
      rw [hkeeps, hinit]
      simp [List.filter_append, hd]

theorem OnKey.upto {rest : List Check}
    (h : OnKey key limit W (checks ++ c :: (earlier ++ d :: rest))) :
    OnKey key limit W (checks ++ c :: earlier ++ [d]) := by
  have hall : OnKey key limit W ((checks ++ c :: earlier ++ [d]) ++ rest) := by simpa using h
  exact hall.left

theorem OnKey.start (h : OnKey key limit W (checks ++ c :: later)) :
    OnKey key limit W (checks ++ [c]) := by
  have hall : OnKey key limit W ((checks ++ [c]) ++ later) := by simpa using h
  exact hall.left

/-- The prediction of a refused check. -/
theorem refused_predicts (hempty : sets key = noEntries) (hlimit : 0 < limit) (hc : c.key = key)
    (h : OnKey key limit W (checks ++ c :: later)) {k r : ℕ}
    (hanswer : c.outcome (after sets checks) = ⟨false, k, r⟩) :
    1 ≤ r ∧ ∀ earlier d rest, later = earlier ++ d :: rest → d.key = key →
      (d.now < c.now + r → ¬ d.allowed (after sets (checks ++ c :: earlier)) = true) ∧
      (d.now = c.now + r → (∀ d' ∈ earlier, d'.key = key → d'.now < c.now + r) →
        d.allowed (after sets (checks ++ c :: earlier)) = true) := by
  rcases outcome_after hempty h.start hlimit hc with ⟨-, houtcome⟩ |
    ⟨hfull, first, hfirst, hin, hmin, houtcome⟩
  · rw [houtcome] at hanswer
    simp at hanswer
  rw [houtcome, RateLimitOutcome.mk.injEq] at hanswer
  obtain ⟨-, -, rfl⟩ := hanswer
  have htimes := allowedTimes_le sets (h.start.le_last hc)
  -- the check itself is refused, and so is every one before the oldest check leaves the window
  have hrefused : ∀ earlier d rest, later = earlier ++ d :: rest → d.key = key →
      d.now < first + W → ¬ d.allowed (after sets (checks ++ c :: earlier)) = true := by
    rintro earlier d rest rfl hd hbefore
    have hcd : c.now ≤ d.now := h.upto.le_last hd c (by simp) hc
    have hstill := load_le_load hmin hcd hbefore (c :: earlier)
    rw [allowed_iff_load hempty h.upto hlimit hd]
    omega
  have hself : ¬ c.allowed (after sets checks) = true := by
    rw [allowed_iff_load hempty h.start hlimit hc]
    omega
  refine ⟨by omega, fun earlier d rest hlater hd => ⟨fun hbefore => ?_, fun hnow hbefore => ?_⟩⟩
  · exact hrefused earlier d rest hlater hd (by omega)
  · subst hlater
    have hsame : allowedTimes key sets (checks ++ c :: earlier) = allowedTimes key sets checks := by
      refine allowedTimes_of_refused fun before d' after' heq hd' => ?_
      cases before with
      | nil =>
        obtain ⟨rfl, -⟩ := List.cons.inj heq
        simpa using hself
      | cons x before =>
        obtain ⟨rfl, rfl⟩ := List.cons.inj heq
        have hbefore' := hbefore d' (by simp) hd'
        exact hrefused before d' (after' ++ d :: rest) (by simp) hd' (by omega)
    have hlast : d.now = first + W := by omega
    have hdrop := load_lt_load hfirst (htimes first hfirst) hin htimes
    have hbound := allowed_in_window hempty h.start.left hlimit c.now
    have hload : load key W sets checks c.now ≤ limit := by
      refine le_trans (List.countP_mono_left fun t _ hcounts => ?_) hbound
      simp only [decide_eq_true_eq] at hcounts ⊢
      omega
    rw [allowed_iff_load hempty h.upto hlimit hd, load, hsame, hlast]
    exact lt_of_lt_of_le hdrop hload

/-- The prediction of an allowed check. -/
theorem allowed_predicts (hempty : sets key = noEntries) (hlimit : 0 < limit) (hW : 0 < W)
    (hc : c.key = key) (h : OnKey key limit W (checks ++ c :: later)) {k r : ℕ}
    (hanswer : c.outcome (after sets checks) = ⟨true, k, r⟩) :
    ∀ earlier d rest, later = earlier ++ d :: rest → d.key = key → d.now = c.now →
      (d.allowed (after sets (checks ++ c :: earlier)) = true ↔
        (earlier.filter fun d' => d'.key = key).length < k) := by
  rintro earlier d rest rfl hd hnow
  rcases outcome_after hempty h.start hlimit hc with ⟨hroom, houtcome⟩ |
    ⟨-, first, -, -, -, houtcome⟩
  · rw [houtcome, RateLimitOutcome.mk.injEq] at hanswer
    obtain ⟨-, rfl, -⟩ := hanswer
    -- the clock stands still from the check on
    have hstill : ∀ d' ∈ c :: earlier, d'.key = key → d'.now = c.now := by
      intro d' hd' hkey
      have hle : d'.now ≤ d.now := h.upto.le_last hd d' (List.mem_append_right _ hd') hkey
      have hge : c.now ≤ d'.now := by
        rcases List.mem_cons.mp hd' with rfl | hd'
        · exact le_rfl
        · obtain ⟨before, after', rfl⟩ := List.append_of_mem hd'
          have hpre : OnKey key limit W (checks ++ c :: (before ++ d' :: after')) := h.upto.left
          exact hpre.upto.le_last hkey c (by simp) hc
      omega
    have hload := load_at_once hempty hlimit hW h.upto.left hstill (by omega)
    rw [List.filter_cons_of_pos (by simpa using hc), List.length_cons] at hload
    rw [allowed_iff_load hempty h.upto hlimit hd, hnow, hload]
    omega
  · rw [houtcome] at hanswer
    simp at hanswer

/-- **Answers are exact predictions.** For every state of a key that checks with one limit and one
window have reached: a check that is refused with `retryAfterMs = r` has `1 ≤ r`, every later one
before `r` milliseconds have passed is refused, and the first one when they have passed is allowed;
after a check that is allowed with `remaining = k`, exactly the next `k` checks at the same time are
allowed. -/
theorem answers_predict (hempty : sets key = noEntries) (hlimit : 0 < limit) (hW : 0 < W)
    (hc : c.key = key) (h : OnKey key limit W (checks ++ c :: later)) :
    (∀ k r, (check true (.reply ()) c (after sets checks)).2 = .ok ⟨false, k, r⟩ →
      1 ≤ r ∧ ∀ earlier d rest, later = earlier ++ d :: rest → d.key = key →
        (d.now < c.now + r → ¬ d.allowed (after sets (checks ++ c :: earlier)) = true) ∧
        (d.now = c.now + r → (∀ d' ∈ earlier, d'.key = key → d'.now < c.now + r) →
          d.allowed (after sets (checks ++ c :: earlier)) = true)) ∧
    (∀ k r, (check true (.reply ()) c (after sets checks)).2 = .ok ⟨true, k, r⟩ →
      ∀ earlier d rest, later = earlier ++ d :: rest → d.key = key → d.now = c.now →
        (d.allowed (after sets (checks ++ c :: earlier)) = true ↔
          (earlier.filter fun d' => d'.key = key).length < k)) := by
  have hpos : 0 < c.limit := by
    rw [(h.same c (by simp) hc).1]
    exact hlimit
  rw [check_reply hpos]
  exact ⟨fun k r hanswer => refused_predicts hempty hlimit hc h (Except.ok.inj hanswer),
    fun k r hanswer => allowed_predicts hempty hlimit hW hc h (Except.ok.inj hanswer)⟩

end

/-- A full window, a refused check, and a check when the retry time has passed. -/
def predictedChecks : List Check :=
  [⟨str "a", 2, 10, 5, str "m1"⟩, ⟨str "a", 2, 10, 7, str "m2"⟩]

theorem answers_predict_sample :
    (check true (.reply ()) ⟨str "a", 2, 10, 8, str "m3"⟩
      (after (fun _ => noEntries) predictedChecks)).2 = .ok ⟨false, 0, 7⟩ ∧
    Check.allowed (after (fun _ => noEntries)
        (predictedChecks ++ [⟨str "a", 2, 10, 8, str "m3"⟩, ⟨str "a", 2, 10, 14, str "m4"⟩]))
      ⟨str "a", 2, 10, 15, str "m5"⟩ = true := by
  refine ⟨by decide, ?_⟩
  have h := @answers_predict (fun _ => noEntries) (str "a") 2 10 predictedChecks
    [⟨str "a", 2, 10, 14, str "m4"⟩, ⟨str "a", 2, 10, 15, str "m5"⟩]
    ⟨str "a", 2, 10, 8, str "m3"⟩ rfl (by decide) (by decide) rfl
    ⟨by decide, by decide, by decide⟩
  exact ((h.1 0 7 (by decide)).2 [⟨str "a", 2, 10, 14, str "m4"⟩] _ [] rfl rfl).2 (by decide)
    (by decide)

end CodeInterpreter.Api
