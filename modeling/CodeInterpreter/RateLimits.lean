import CodeInterpreter.Api.RateLimiter
import Mathlib.Data.List.Induction

/-!
# Exact sliding windows

The sorted set of a key is an image of the checks that were allowed: evicted lazily, with an
inclusive bound, and expiring as a whole. At every later time it shows exactly the allowed checks
that are still in the trailing window, so the limiter decides as if it knew the whole past.

The times of a run are natural numbers. Of those, `Date.now` returns the ones up to `maxTime`, and
on them the doubles of the script are the integers of the model (`script_doubles`).

## Main definitions

* `Check.allowed`, `Check.after`, `after`, `allowedTimes`: runs of checks without Redis errors.
* `OnKey`: the checks of a run on one key.

## Main results

* `window_after`: what the sorted set shows after a run.
* `sliding_window_exact`: the verdict of every check.
* `uncharged_iff`: when a blocked request leaves both scopes as they were.
-/

namespace CodeInterpreter.Api

open Async

/-! ### Runs of checks -/

/-- The sets after a check that Redis answered. -/
def Check.after (sets : RateLimits) (c : Check) : RateLimits := (check true (.reply ()) c sets).1

/-- Whether a check that Redis answered was allowed. -/
def Check.allowed (sets : RateLimits) (c : Check) : Bool :=
  match (check true (.reply ()) c sets).2 with
  | .ok outcome => outcome.allowed
  | .error _ => false

/-- The sets after a run of checks, the first one first. -/
def after (sets : RateLimits) (checks : List Check) : RateLimits := checks.foldl Check.after sets

/-- The times of the allowed checks on a key, the last one first. -/
def allowedTimes (key : Str) (sets : RateLimits) (checks : List Check) : List ℕ :=
  (checks.foldl (fun (x : RateLimits × List ℕ) c =>
    (c.after x.1, if c.key = key ∧ c.allowed x.1 then c.now :: x.2 else x.2)) (sets, [])).2

/-- A set without entries. -/
def noEntries : SlotSet := ⟨[], none⟩

section

variable {sets : RateLimits} {key : Str}

@[simp] theorem after_nil : after sets [] = sets := rfl

@[simp] theorem after_snoc (checks : List Check) (c : Check) :
    after sets (checks ++ [c]) = c.after (after sets checks) := by
  simp [after]

@[simp] theorem allowedTimes_nil : allowedTimes key sets [] = [] := rfl

theorem allowedTimes_snoc (checks : List Check) (c : Check) :
    allowedTimes key sets (checks ++ [c]) =
      if c.key = key ∧ c.allowed (after sets checks) then
        c.now :: allowedTimes key sets checks
      else allowedTimes key sets checks := by
  have hfst : ∀ (checks : List Check) (x : RateLimits × List ℕ),
      (checks.foldl (fun (x : RateLimits × List ℕ) c => (c.after x.1,
        if c.key = key ∧ c.allowed x.1 then c.now :: x.2 else x.2)) x).1 = after x.1 checks := by
    intro checks
    induction checks with
    | nil => simp
    | cons c checks ih =>
      intro x
      simpa [after] using ih _
  simp only [allowedTimes, List.foldl_append, List.foldl_cons, List.foldl_nil]
  rw [hfst]

theorem check_reply {c : Check} (hlimit : 0 < c.limit) :
    check true (.reply ()) c sets = (c.store sets, .ok (c.outcome sets)) :=
  if_neg hlimit.ne'

/-- A check on another key changes nothing. -/
theorem after_apply_of_ne {c : Check} (h : c.key ≠ key) : c.after sets key = sets key := by
  by_cases hlimit : c.limit = 0
  · simp [Check.after, check, hlimit]
  · simp [Check.after, check, hlimit, Check.store, Function.update_of_ne h.symm]

theorem after_apply {c : Check} (hkey : c.key = key) (hlimit : 0 < c.limit) :
    c.after sets key = ((sets key).slide c.now c.member c.windowMs c.limit).1 := by
  subst hkey
  simp [Check.after, check_reply hlimit, Check.store]

theorem allowed_iff (sets : RateLimits) {c : Check} (hlimit : 0 < c.limit) :
    c.allowed sets = true ↔ ((sets c.key).window c.now c.windowMs).length < c.limit := by
  by_cases h : ((sets c.key).window c.now c.windowMs).length < c.limit
  · simp [Check.allowed, check_reply hlimit, Check.outcome, SlotSet.slide, h]
  · simp [Check.allowed, check_reply hlimit, Check.outcome, SlotSet.slide, h]

end

/-! ### What the set shows later -/

section

variable {z : SlotSet} {m n W : ℕ}

theorem mem_of_mem_window {x : Str × ℕ} (h : x ∈ z.window m W) : x ∈ z.members := by
  have hcurrent := List.mem_of_mem_filter h
  rw [SlotSet.current] at hcurrent
  split_ifs at hcurrent
  · exact hcurrent
  · simp at hcurrent

theorem filter_map_snd (l : List (Str × ℕ)) :
    (l.filter fun x => n < x.2 + W).map Prod.snd = (l.map Prod.snd).filter fun t => n < t + W := by
  rw [List.filter_map]
  rfl

/-- What is in the window now and later is what is in the window later. -/
theorem filter_later {α : Type} (time : α → ℕ) (h : m ≤ n) (l : List α) :
    (l.filter fun x => m < time x + W).filter (fun x => n < time x + W) =
      l.filter fun x => n < time x + W := by
  rw [List.filter_filter]
  refine List.filter_congr fun x _ => ?_
  by_cases hx : n < time x + W
  · have hm : m < time x + W := by omega
    simp [hx, hm]
  · simp [hx]

/-- Eviction does not change what the set shows later. -/
theorem window_evict (h : m ≤ n) :
    (⟨z.window m W, z.expiry⟩ : SlotSet).window n W = z.window n W := by
  by_cases hn : ∀ t ∈ z.expiry, n < t
  · have hm : ∀ t ∈ z.expiry, m < t := fun t ht => h.trans_lt (hn t ht)
    simp only [SlotSet.window, SlotSet.current, if_pos hn, if_pos hm]
    exact filter_later Prod.snd h z.members
  · simp only [SlotSet.window, SlotSet.current, if_neg hn]

/-- What a set that was written at the time `m` shows later. -/
theorem window_admit {member : Str} {l : List (Str × ℕ)} (h : ∀ x ∈ l, x.2 ≤ m) :
    (⟨(member, m) :: l, some (m + W)⟩ : SlotSet).window n W =
      ((member, m) :: l).filter fun x => n < x.2 + W := by
  by_cases hn : n < m + W
  · simp [SlotSet.window, SlotSet.current, hn]
  · have hnone : ∀ x ∈ (member, m) :: l, ¬ n < x.2 + W := by
      intro x hx
      rcases List.mem_cons.mp hx with rfl | hx
      · exact hn
      · have := h x hx
        omega
    rw [List.filter_eq_nil_iff.mpr fun x hx => by simpa using hnone x hx]
    simp [SlotSet.window, SlotSet.current, hn]

end

/-- The checks of a run on a key: one limit, one window, a clock that does not go back, and
distinct members. -/
structure OnKey (key : Str) (limit W : ℕ) (checks : List Check) : Prop where
  same : ∀ c ∈ checks, c.key = key → c.limit = limit ∧ c.windowMs = W
  clock : (checks.filter fun c => c.key = key).Pairwise fun c c' => c.now ≤ c'.now
  members : ((checks.filter fun c => c.key = key).map Check.member).Nodup

section

variable {sets : RateLimits} {key : Str} {limit W : ℕ} {checks : List Check} {c : Check}

theorem OnKey.left {later : List Check} (h : OnKey key limit W (checks ++ later)) :
    OnKey key limit W checks where
  same c' hc' := h.same c' (List.mem_append_left _ hc')
  clock := by
    have hclock := h.clock
    rw [List.filter_append, List.pairwise_append] at hclock
    exact hclock.1
  members := by
    have hmembers := h.members
    rw [List.filter_append, List.map_append, List.nodup_append] at hmembers
    exact hmembers.1

theorem OnKey.le_last (h : OnKey key limit W (checks ++ [c])) (hc : c.key = key) :
    ∀ c' ∈ checks, c'.key = key → c'.now ≤ c.now := by
  intro c' hc' hkey
  have hclock := h.clock
  rw [List.filter_append, List.pairwise_append] at hclock
  exact hclock.2.2 c' (by simp [hc', hkey]) c (by simp [hc])

theorem OnKey.fresh (h : OnKey key limit W (checks ++ [c])) (hc : c.key = key) :
    ∀ c' ∈ checks, c'.key = key → c'.member ≠ c.member := by
  intro c' hc' hkey heq
  have hmembers := h.members
  rw [List.filter_append, List.map_append, List.nodup_append] at hmembers
  exact hmembers.2.2 c'.member (List.mem_map_of_mem (by simp [hc', hkey])) c.member
    (by simp [hc]) heq

/-- The entries of the set come from checks of the run. -/
theorem mem_after (hempty : sets key = noEntries) (h : OnKey key limit W checks)
    (hlimit : 0 < limit) : ∀ x ∈ (after sets checks key).members,
      ∃ c ∈ checks, c.key = key ∧ x = (c.member, c.now) := by
  induction checks using List.reverseRecOn with
  | nil => simp [hempty, noEntries]
  | append_singleton checks c ih =>
    intro x hx
    have hold : x ∈ (after sets checks key).members →
        ∃ c' ∈ checks ++ [c], c'.key = key ∧ x = (c'.member, c'.now) := by
      intro hx
      obtain ⟨c', hc', h'⟩ := ih h.left x hx
      exact ⟨c', List.mem_append_left _ hc', h'⟩
    rw [after_snoc] at hx
    by_cases hc : c.key = key
    · have hpos : 0 < c.limit := by rw [(h.same c (by simp) hc).1]; exact hlimit
      rw [after_apply hc hpos, SlotSet.slide] at hx
      dsimp only at hx
      split_ifs at hx with hcount
      · rcases List.mem_cons.mp hx with rfl | hx
        · exact ⟨c, by simp, hc, rfl⟩
        · exact hold (mem_of_mem_window (List.mem_of_mem_filter hx))
      · exact hold (mem_of_mem_window hx)
    · rw [after_apply_of_ne hc] at hx
      exact hold hx

theorem allowedTimes_le (sets : RateLimits) {n : ℕ} (hn : ∀ c ∈ checks, c.key = key → c.now ≤ n) :
    ∀ t ∈ allowedTimes key sets checks, t ≤ n := by
  induction checks using List.reverseRecOn with
  | nil => simp
  | append_singleton checks c ih =>
    have hinit := ih fun c' hc' => hn c' (List.mem_append_left _ hc')
    rw [allowedTimes_snoc]
    split_ifs with hc
    · intro t ht
      rcases List.mem_cons.mp ht with rfl | ht
      · exact hn c (by simp) hc.1
      · exact hinit t ht
    · exact hinit

/-- **The set shows the trailing window.** At every time from the last check on, it shows exactly
the allowed checks of the last `W` milliseconds. -/
theorem window_after (hempty : sets key = noEntries) (h : OnKey key limit W checks)
    (hlimit : 0 < limit) {n : ℕ} (hn : ∀ c ∈ checks, c.key = key → c.now ≤ n) :
    ((after sets checks key).window n W).map Prod.snd =
      (allowedTimes key sets checks).filter fun t => n < t + W := by
  induction checks using List.reverseRecOn generalizing n with
  | nil => simp [hempty, noEntries, SlotSet.window, SlotSet.current]
  | append_singleton checks c ih =>
    have hinit : ∀ c' ∈ checks, c'.key = key → c'.now ≤ n := fun c' hc' =>
      hn c' (List.mem_append_left _ hc')
    rw [after_snoc, allowedTimes_snoc]
    by_cases hc : c.key = key
    · obtain ⟨hl, hW⟩ := h.same c (by simp) hc
      have hpos : 0 < c.limit := by rw [hl]; exact hlimit
      have hcn : c.now ≤ n := hn c (by simp) hc
      have hlast := h.le_last hc
      have hallowed := allowed_iff (after sets checks) hpos
      rw [hc, hW] at hallowed
      rw [after_apply hc hpos, SlotSet.slide, hW]
      dsimp only
      by_cases hcount : ((after sets checks key).window c.now W).length < c.limit
      · rw [if_pos hcount, if_pos ⟨hc, hallowed.mpr hcount⟩]
        have hkept : ∀ x ∈ (after sets checks key).window c.now W,
            x.1 ≠ c.member ∧ x.2 ≤ c.now := by
          intro x hx
          obtain ⟨c', hc', hkey, rfl⟩ := mem_after hempty h.left hlimit x (mem_of_mem_window hx)
          exact ⟨h.fresh hc c' hc' hkey, hlast c' hc' hkey⟩
        have hall : ((after sets checks key).window c.now W).filter (fun x => x.1 ≠ c.member) =
            (after sets checks key).window c.now W :=
          List.filter_eq_self.mpr fun x hx => by simpa using (hkept x hx).1
        have hscores := ih h.left hlast
        rw [hall, window_admit fun x hx => (hkept x hx).2, filter_map_snd, List.map_cons, hscores,
          List.filter_cons, List.filter_cons,
          show _ = _ from filter_later (fun t : ℕ => t) hcn (allowedTimes key sets checks)]
      · rw [if_neg hcount, if_neg fun hboth => hcount (hallowed.mp hboth.2)]
        rw [window_evict hcn]
        exact ih h.left hinit
    · rw [after_apply_of_ne hc, if_neg fun hboth => hc hboth.1]
      exact ih h.left hinit

/-- The verdict of a check, from the allowed checks before it. -/
theorem allowed_after_iff (hempty : sets key = noEntries)
    (h : OnKey key limit W (checks ++ [c])) (hlimit : 0 < limit) (hc : c.key = key) :
    c.allowed (after sets checks) = true ↔
      (allowedTimes key sets checks).countP (fun t => c.now < t + W ∧ t ≤ c.now) < limit := by
  obtain ⟨hl, hW⟩ := h.same c (by simp) hc
  have hpos : 0 < c.limit := by rw [hl]; exact hlimit
  have hlast := h.le_last hc
  have hle := allowedTimes_le sets hlast
  have hcount : (allowedTimes key sets checks).countP (fun t => c.now < t + W ∧ t ≤ c.now) =
      (allowedTimes key sets checks).countP fun t => c.now < t + W := by
    refine List.countP_congr fun t ht => ?_
    simp [hle t ht]
  rw [allowed_iff _ hpos, hc, hW, hl, hcount, List.countP_eq_length_filter,
    ← window_after hempty h.left hlimit hlast, List.length_map]

/-- **No window is over-full**: at most `limit` checks are allowed in any `W` milliseconds. -/
theorem allowed_in_window (hempty : sets key = noEntries) (h : OnKey key limit W checks)
    (hlimit : 0 < limit) (x : ℤ) :
    (allowedTimes key sets checks).countP (fun t : ℕ => t ≤ x ∧ x < t + W) ≤ limit := by
  induction checks using List.reverseRecOn with
  | nil => simp
  | append_singleton checks c ih =>
    have hinit := ih h.left
    rw [allowedTimes_snoc]
    split_ifs with hc
    · by_cases hx : (c.now : ℤ) ≤ x ∧ x < c.now + W
      · -- what is in the window of `x` was in the window of the new check
        have hcount := (allowed_after_iff hempty h hlimit hc.1).mp hc.2
        have hle := allowedTimes_le sets (h.le_last hc.1)
        have hsub : (allowedTimes key sets checks).countP (fun t : ℕ => t ≤ x ∧ x < t + W) ≤
            (allowedTimes key sets checks).countP fun t => c.now < t + W ∧ t ≤ c.now := by
          refine List.countP_mono_left fun t ht hxt => ?_
          have htc := hle t ht
          simp only [decide_eq_true_eq] at hxt ⊢
          omega
        rw [List.countP_cons_of_pos (by simpa using hx)]
        omega
      · rw [List.countP_cons_of_neg (by simpa using hx)]
        exact hinit
    · exact hinit

/-- Checks on other keys do not change the set of a key. -/
theorem after_filter_apply (checks : List Check) :
    after sets checks key = after sets (checks.filter fun c => c.key = key) key := by
  induction checks using List.reverseRecOn with
  | nil => rfl
  | append_singleton checks c ih =>
    rw [after_snoc, List.filter_append]
    by_cases hc : c.key = key
    · rw [List.filter_cons_of_pos (by simpa using hc), List.filter_nil, after_snoc]
      simp only [Check.after, check]
      split_ifs
      · exact ih
      · simp [Check.store, hc, ih]
    · rw [after_apply_of_ne hc, ih, List.filter_cons_of_neg (by simpa using hc), List.filter_nil,
        List.append_nil]

/-- The verdict of a check depends on the set of its key only. -/
theorem allowed_congr {sets' : RateLimits} (h : sets c.key = sets' c.key) :
    c.allowed sets = c.allowed sets' := by
  simp only [Check.allowed, check]
  split_ifs
  · rfl
  · simp [Check.outcome, h]

/-- **The sliding window is exact.** A check is allowed exactly when fewer than `limit` checks on
its key were allowed in the `W` milliseconds up to it; so every half-open interval of that length
has at most `limit` allowed checks, and checks on other keys do not matter. -/
theorem sliding_window_exact (hempty : sets key = noEntries) (h : OnKey key limit W checks)
    (hlimit : 0 < limit) :
    (∀ earlier c later, checks = earlier ++ c :: later → c.key = key →
      (c.allowed (after sets earlier) = true ↔
        (allowedTimes key sets earlier).countP (fun t => c.now < t + W ∧ t ≤ c.now) < limit)) ∧
    (∀ a : ℤ,
      (allowedTimes key sets checks).countP (fun t : ℕ => a ≤ t ∧ t < a + W) ≤ limit ∧
      (allowedTimes key sets checks).countP (fun t : ℕ => a < t ∧ t ≤ a + W) ≤ limit) ∧
    ∀ earlier c later, checks = earlier ++ c :: later → c.key = key →
      c.allowed (after sets earlier) =
        c.allowed (after sets (earlier.filter fun c' => c'.key = key)) := by
  refine ⟨?_, fun a => ⟨?_, ?_⟩, ?_⟩
  · rintro earlier c later rfl hc
    have hpre : OnKey key limit W (earlier ++ [c]) := OnKey.left (by simpa using h)
    exact allowed_after_iff hempty hpre hlimit hc
  · refine (List.countP_mono_left fun t _ ht => ?_).trans
      (allowed_in_window hempty h hlimit (a + W - 1))
    simp only [decide_eq_true_eq] at ht ⊢
    omega
  · refine (List.countP_mono_left fun t _ ht => ?_).trans
      (allowed_in_window hempty h hlimit (a + W))
    simp only [decide_eq_true_eq] at ht ⊢
    omega
  · rintro earlier c later rfl hc
    refine allowed_congr ?_
    rw [hc]
    exact after_filter_apply earlier

end

/-- Two checks on one key, with a check on another one in between. -/
def sampleChecks : List Check :=
  [⟨str "a", 1, 10, 5, str "m1"⟩, ⟨str "b", 3, 20, 6, str "m1"⟩, ⟨str "a", 1, 10, 14, str "m2"⟩]

theorem sliding_window_exact_sample :
    (Check.allowed (after (fun _ => noEntries) (sampleChecks.take 2))
      ⟨str "a", 1, 10, 14, str "m2"⟩ = true ↔
      (allowedTimes (str "a") (fun _ => noEntries) (sampleChecks.take 2)).countP
        (fun t => 14 < t + 10 ∧ t ≤ 14) < 1) :=
  (@sliding_window_exact (fun _ => noEntries) (str "a") 1 10 sampleChecks rfl
    ⟨by decide, by decide, by decide⟩ (by decide)).1 (sampleChecks.take 2) _ [] rfl rfl

/-! ### The combined verdict -/

/-- The check finds room in its set. -/
def Check.HasRoom (c : Check) (sets : RateLimits) : Prop :=
  ((sets c.key).window c.now c.windowMs).length < c.limit

instance (c : Check) (sets : RateLimits) : Decidable (c.HasRoom sets) :=
  inferInstanceAs (Decidable (_ < _))

/-- At the time of the check, its set holds the same entries as before, minus the expired ones. -/
def Check.Uncharged (c : Check) (before after : RateLimits) : Prop :=
  (after c.key).window c.now c.windowMs = (before c.key).window c.now c.windowMs

section

variable {sets : RateLimits} {c : Check}

/-- A check charges its set exactly when it finds room. -/
theorem uncharged_after_iff (hlimit : 0 < c.limit) (hwindow : 0 < c.windowMs)
    (hfresh : ∀ x ∈ (sets c.key).members, x.1 ≠ c.member) :
    c.Uncharged sets (c.after sets) ↔ ¬ c.HasRoom sets := by
  rw [Check.Uncharged, after_apply rfl hlimit, SlotSet.slide]
  dsimp only
  by_cases hroom : c.HasRoom sets
  · rw [if_pos (show _ < _ from hroom)]
    refine iff_of_false (fun heq => ?_) (not_not_intro hroom)
    have hmem : (c.member, c.now) ∈ (sets c.key).window c.now c.windowMs := by
      rw [← heq]
      simp [SlotSet.window, SlotSet.current, hwindow]
    exact hfresh _ (mem_of_mem_window hmem) rfl
  · rw [if_neg (show ¬ _ < _ from hroom)]
    exact iff_of_true (window_evict le_rfl) hroom

end

theorem user_key_ne_ip_key (user ip : Str) :
    rateLimitKey (str "user") user ≠ rateLimitKey (str "ip") ip := by
  simp [rateLimitKey, str]

section

variable (config : RateLimitConfig) (q : Judged) (sets : RateLimits)

theorem limitForTier_pos (tier : UserTier) : 0 < limitForTier config tier := by
  cases tier
  · exact config.anon_pos
  · exact config.requests_pos
  · exact config.premium_pos

theorem userCheck_limit_pos : 0 < (q.userCheck config).limit := limitForTier_pos config _

theorem ipCheck_limit_pos : 0 < (q.ipCheck config).limit :=
  lt_max_of_lt_right config.premium_pos

/-- The two scripts act on different sets. -/
theorem ipCheck_key_ne : (q.ipCheck config).key ≠ (q.userCheck config).key :=
  (user_key_ne_ip_key q.principal.userId q.ip).symm

/-- The sets after an answered evaluation. -/
theorem evaluateRateLimit_sets :
    (evaluateRateLimit config q (.reply ()) (.reply ()) sets).1 =
      (q.ipCheck config).after ((q.userCheck config).after sets) := rfl

/-- An answered evaluation blocks a request that one of the scopes has no room for. -/
theorem evaluateRateLimit_blocked :
    ∃ verdict, (evaluateRateLimit config q (.reply ()) (.reply ()) sets).2 = .ok verdict ∧
      (verdict.blocked = true ↔
        ¬ ((q.userCheck config).HasRoom sets ∧ (q.ipCheck config).HasRoom sets)) := by
  have hupos := userCheck_limit_pos config q
  have hipos := ipCheck_limit_pos config q
  have huser := allowed_iff sets hupos
  have hip := allowed_iff ((q.userCheck config).after sets) hipos
  rw [after_apply_of_ne (ipCheck_key_ne config q).symm] at hip
  rw [Check.allowed, check_reply hupos] at huser
  rw [Check.allowed, check_reply hipos] at hip
  simp only [evaluateRateLimit, check_reply hupos, check_reply hipos]
  refine ⟨_, rfl, ?_⟩
  rw [Check.after, check_reply hupos] at hip
  simp only [Bool.or_eq_true, Bool.not_eq_true', ← Bool.not_eq_true, huser, hip]
  exact (not_and_or (a := (q.userCheck config).HasRoom sets)).symm

/-- **When a blocked request is not charged.** With every script answered, a blocked request leaves
the sets of both scopes as they were exactly when either both scopes have room for it or neither
has: if just one has room, that one is charged although the request is refused. -/
theorem uncharged_iff
    (huser : ∀ x ∈ (sets (q.userCheck config).key).members, x.1 ≠ q.userMember)
    (hip : ∀ x ∈ (sets (q.ipCheck config).key).members, x.1 ≠ q.ipMember) :
    ((∃ verdict, (evaluateRateLimit config q (.reply ()) (.reply ()) sets).2 = .ok verdict ∧
        verdict.blocked = true) →
      (q.userCheck config).Uncharged sets
          (evaluateRateLimit config q (.reply ()) (.reply ()) sets).1 ∧
        (q.ipCheck config).Uncharged sets
          (evaluateRateLimit config q (.reply ()) (.reply ()) sets).1) ↔
      ((q.userCheck config).HasRoom sets ↔ (q.ipCheck config).HasRoom sets) := by
  obtain ⟨verdict, hverdict, hblocked⟩ := evaluateRateLimit_blocked config q sets
  have hne := ipCheck_key_ne config q
  have hucharge := uncharged_after_iff (userCheck_limit_pos config q) (show 0 < windowMs by decide)
    huser
  have hicharge := uncharged_after_iff (ipCheck_limit_pos config q) (show 0 < windowMs by decide)
    hip
  have hu : (q.userCheck config).Uncharged sets
      (evaluateRateLimit config q (.reply ()) (.reply ()) sets).1 ↔
        ¬ (q.userCheck config).HasRoom sets := by
    rw [← hucharge, Check.Uncharged, Check.Uncharged, evaluateRateLimit_sets,
      after_apply_of_ne hne]
  have hi : (q.ipCheck config).Uncharged sets
      (evaluateRateLimit config q (.reply ()) (.reply ()) sets).1 ↔
        ¬ (q.ipCheck config).HasRoom sets := by
    rw [← hicharge, Check.Uncharged, Check.Uncharged, evaluateRateLimit_sets,
      after_apply rfl (ipCheck_limit_pos config q), after_apply_of_ne hne.symm,
      after_apply rfl (ipCheck_limit_pos config q)]
  rw [hu, hi]
  constructor
  · intro h
    by_cases hroom : (q.userCheck config).HasRoom sets ∧ (q.ipCheck config).HasRoom sets
    · exact iff_of_true hroom.1 hroom.2
    · obtain ⟨hno, hno'⟩ := h ⟨verdict, hverdict, hblocked.mpr hroom⟩
      exact iff_of_false hno hno'
  · rintro hiff ⟨verdict', hverdict', hblocked'⟩
    obtain rfl : verdict = verdict' := Except.ok.inj (hverdict.symm.trans hverdict')
    have hnot := hblocked.mp hblocked'
    exact ⟨fun h => hnot ⟨h, hiff.mp h⟩, fun h => hnot ⟨hiff.mpr h, h⟩⟩

end

/-- The default limits. -/
def RateLimitConfig.default : RateLimitConfig where
  requestsPerMinute := 60
  anonPerMinute := 10
  premiumPerMinute := 600

/-- An anonymous request. -/
def anonymousRequest : Judged where
  principal := ⟨str "anonymous", .anonymous, .anonymous⟩
  ip := str "10.0.0.1"
  userNow := 1000
  userMember := str "new"
  ipNow := 1000
  ipMember := str "new"

/-- The user's set holds ten requests of this minute; the set of the IP is empty. -/
def busyUser : RateLimits :=
  Function.update (fun _ => noEntries) (rateLimitKey (str "user") (str "anonymous"))
    ⟨(List.range 10).map fun i => ([i], 900 + i), some 60909⟩

theorem uncharged_iff_sample :
    ((∃ verdict, (evaluateRateLimit .default anonymousRequest (.reply ()) (.reply ())
          busyUser).2 = .ok verdict ∧ verdict.blocked = true) →
      (anonymousRequest.userCheck .default).Uncharged busyUser
          (evaluateRateLimit .default anonymousRequest (.reply ()) (.reply ()) busyUser).1 ∧
        (anonymousRequest.ipCheck .default).Uncharged busyUser
          (evaluateRateLimit .default anonymousRequest (.reply ()) (.reply ()) busyUser).1) ↔
      ((anonymousRequest.userCheck .default).HasRoom busyUser ↔
        (anonymousRequest.ipCheck .default).HasRoom busyUser) :=
  uncharged_iff .default anonymousRequest busyUser (by decide +kernel) (by decide +kernel)

/-- A request that the user's limit refuses is charged to its IP. -/
theorem blocked_request_charged :
    ∃ verdict,
      (evaluateRateLimit .default anonymousRequest (.reply ()) (.reply ()) busyUser).2 =
        .ok verdict ∧ verdict.blocked = true ∧
      (busyUser (rateLimitKey (str "ip") (str "10.0.0.1"))).members = [] ∧
      ((evaluateRateLimit .default anonymousRequest (.reply ()) (.reply ()) busyUser).1
        (rateLimitKey (str "ip") (str "10.0.0.1"))).members = [(str "new", 1000)] ∧
      ¬ (anonymousRequest.ipCheck .default).Uncharged busyUser
        (evaluateRateLimit .default anonymousRequest (.reply ()) (.reply ()) busyUser).1 := by
  refine ⟨⟨true, 0, 59900, 10⟩, ?_, rfl, ?_, ?_, ?_⟩
  · decide +kernel
  · decide +kernel
  · decide +kernel
  · unfold Check.Uncharged
    decide +kernel

end CodeInterpreter.Api
