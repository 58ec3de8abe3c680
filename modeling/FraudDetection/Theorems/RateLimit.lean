import FraudDetection.Lib.FixedWindow
import FraudDetection.Lib.NumberToken
import FraudDetection.RateLimit

/-!
# The rate limit holds

The counter of a window holds the number of calls of its subject that fell in the window, as long as no call is executed after the
counter has expired. The counter is renewed to at least a second after the end of its window, so it is enough that each pipeline is
executed before then. The calls of a subject are then judged as by a limiter of their own.
-/

namespace FraudDetection

/-- Redis is reachable, and the calls are of some subjects. -/
def RedisReachable (subjects : Set String) : RateEvent → Prop
  | .enforce _ subject => subject ∈ subjects
  | .unavailable _ => False
  | _ => True

/-- A pipeline is executed less than a second after the window of its call. -/
def ExecutedInTime (settings : RateSettings) (s : RateState) : RateEvent → Prop
  | .execute c => ∀ subject now, s.calls c = .counting subject now →
      s.now < ((callWindow settings now : ℚ) + 1) * settings.windowSeconds + 1
  | _ => True

/-- A call of a subject fell in a window. -/
def RateCall.FellIn (settings : RateSettings) (subject : String) (k : ℤ) (call : RateCall) : Prop :=
  call.subject = subject ∧ callWindow settings call.now = k

instance (settings : RateSettings) (subject : String) (k : ℤ) : DecidablePred (RateCall.FellIn settings subject k) :=
  fun _ => inferInstanceAs (Decidable (_ ∧ _))

/-- The calls of a subject. -/
def callsOf (subject : String) (calls : List RateCall) : List RateCall := calls.filter fun call => decide (call.subject = subject)

/-- The time of a call, and whether it was allowed. -/
def RateCall.judged (call : RateCall) : ℚ × Bool := (call.now, decide (call.outcome = .allowed))

/-- The rate limit holds of the calls that were executed. -/
structure RateLimited (sha : Sha256) (settings : RateSettings) (s : RateState) : Prop where
  perWindow : ∀ subject k,
    s.executed.countP (fun call => decide (call.FellIn settings subject k ∧ call.outcome = .allowed)) ≤ settings.maxRequests
  perInterval : ∀ subject (a : ℚ), (callsOf subject s.executed).countP
    (fun call => decide ((a ≤ call.now ∧ call.now < a + settings.windowSeconds) ∧ call.outcome = .allowed)) ≤ 2 * settings.maxRequests
  rejected : ∀ before call after n, s.executed = before ++ call :: after → call.outcome = .rejected n →
    settings.maxRequests ≤ before.countP fun earlier => decide (earlier.FellIn settings call.subject (callWindow settings call.now))
  counter : ∀ call ∈ s.executed, ∃ counter, s.counters (bucketKey sha call.subject (callWindow settings call.now)) = some counter ∧
    ((callWindow settings call.now : ℚ) + 1) * settings.windowSeconds < counter.expiresAt
  retry : ∀ call ∈ s.executed, ∀ n, call.outcome = .rejected n → 1 ≤ n ∧ n ≤ settings.windowSeconds ∧
    ∀ t : ℚ, call.now + n ≤ t → callWindow settings call.now < callWindow settings t
  /-- The calls of a subject are judged by their own times. -/
  alone : ∀ subject, (callsOf subject s.executed).map RateCall.judged =
    FixedWindow.judge settings.maxRequests settings.windowSeconds [] ((callsOf subject s.executed).map (·.now))

namespace RateLimitAux

variable {sha : Sha256} {settings : RateSettings} {subjects : Set String}

/-! ## Keys -/

/-- A window has no colon in its number. -/
theorem colon_not_mem (k : ℤ) : ':' ∉ (toString k).toList := by
  have hdigits : ∀ n : ℕ, ':' ∉ n.repr.toList := by
    intro n hm
    rw [Nat.repr, String.toList_ofList] at hm
    exact absurd (NumberToken.isDigit_toDigits hm) (by decide)
  intro hm
  cases k with
  | ofNat n => exact hdigits n hm
  | negSucc n =>
    change ':' ∈ ("-" ++ (n + 1).repr).toList at hm
    rw [String.toList_append] at hm
    rcases List.mem_append.mp hm with hm | hm
    · exact absurd hm (by decide)
    · exact hdigits _ hm

/-- A window is known by its number. -/
theorem toString_inj {k k' : ℤ} (h : toString k = toString k') : k = k' := by
  have hnat : ∀ {m n : ℕ}, m.repr = n.repr → m = n := by
    intro m n hr
    exact NumberToken.toDigits_inj (String.ofList_inj.mp hr)
  have hminus : ∀ m n : ℕ, m.repr ≠ "-" ++ n.repr := by
    intro m n hr
    have hmem : '-' ∈ m.repr.toList := by
      rw [hr, String.toList_append]
      exact List.mem_append_left _ (by decide)
    rw [Nat.repr, String.toList_ofList] at hmem
    exact absurd (NumberToken.isDigit_toDigits hmem) (by decide)
  cases k with
  | ofNat m =>
    cases k' with
    | ofNat n => exact congrArg Int.ofNat (hnat h)
    | negSucc n => exact absurd h (hminus m (n + 1))
  | negSucc m =>
    cases k' with
    | ofNat n => exact absurd h.symm (hminus n (m + 1))
    | negSucc n =>
      change "-" ++ (m + 1).repr = "-" ++ (n + 1).repr at h
      exact congrArg Int.negSucc (Nat.succ.inj (hnat (String.append_right_inj _ |>.mp h)))

/-- A key names one subject and one window. -/
theorem bucketKey_inj (hsubjects : Set.InjOn (subjectDigest sha) subjects) {subject subject' : String} {k k' : ℤ}
    (hs : subject ∈ subjects) (hs' : subject' ∈ subjects) (h : bucketKey sha subject k = bucketKey sha subject' k') :
    subject = subject' ∧ k = k' := by
  have htoList : ∀ (subject : String) (k : ℤ), (bucketKey sha subject k).toList =
      ("fraud:ratelimit:".toList ++ (subjectDigest sha subject).toList) ++ ':' :: (toString k).toList := by
    intro subject k
    have hcolon : ":".toList = [':'] := rfl
    unfold bucketKey
    rw [String.toList_append, String.toList_append, String.toList_append, hcolon, List.append_assoc _ [':'], List.singleton_append]
  have hlist := congrArg String.toList h
  rw [htoList, htoList] at hlist
  obtain ⟨hdigest, hwindow⟩ := NumberToken.split_last hlist (colon_not_mem k) (colon_not_mem k')
  refine ⟨hsubjects hs hs' (String.toList_inj.mp (List.append_cancel_left hdigest)), ?_⟩
  exact toString_inj (String.toList_inj.mp hwindow)

/-! ## Calls of a subject -/

/-- The calls of a subject in a window, counted among its own. -/
theorem countP_fellIn (settings : RateSettings) (subject : String) (k : ℤ) (calls : List RateCall) :
    calls.countP (fun call => decide (call.FellIn settings subject k)) =
      FixedWindow.inWindow settings.windowSeconds ((callsOf subject calls).map (·.now)) k := by
  unfold FixedWindow.inWindow callsOf
  rw [List.countP_map, List.countP_filter]
  refine List.countP_congr fun call _ => ?_
  simp only [Bool.and_eq_true, decide_eq_true_iff, Function.comp]
  exact and_comm

theorem countP_snoc (settings : RateSettings) (calls : List RateCall) (call : RateCall) (subject : String) (k : ℤ) :
    (calls ++ [call]).countP (fun call => decide (call.FellIn settings subject k)) =
      calls.countP (fun call => decide (call.FellIn settings subject k)) + if call.FellIn settings subject k then 1 else 0 := by
  rw [List.countP_append, List.countP_singleton]
  simp only [decide_eq_true_iff]

theorem callsOf_append (subject : String) (calls calls' : List RateCall) :
    callsOf subject (calls ++ calls') = callsOf subject calls ++ callsOf subject calls' := List.filter_append ..

/-! ## The steps -/

/-- What a step does. -/
theorem step_cases {s s' : RateState} {e : RateEvent} (h : rateStep sha settings s e = some s') :
    (∃ duration, 0 ≤ duration ∧ s' = { s with now := s.now + duration }) ∨
      (∃ c subject, e = .enforce c subject ∧ s' = { s with calls := Function.update s.calls c (.counting subject s.now) }) ∨
      (∃ c subject now, e = .execute c ∧ s.calls c = .counting subject now ∧ s' = s.execute sha settings c subject now) ∨
      ∃ c, e = .unavailable c := by
  cases e with
  | tick duration =>
    simp only [rateStep] at h
    split at h
    · rename_i hd
      cases h
      exact .inl ⟨duration, hd, rfl⟩
    · cases h
  | enforce c subject =>
    simp only [rateStep] at h
    split at h
    · cases h
      exact .inr (.inl ⟨c, subject, rfl, rfl⟩)
    · cases h
  | execute c =>
    simp only [rateStep] at h
    split at h
    · rename_i subject now hc
      cases h
      exact .inr (.inr (.inl ⟨c, subject, now, rfl, hc, rfl⟩))
    · cases h
  | unavailable c => exact .inr (.inr (.inr ⟨c, rfl⟩))

/-- The counter of a subject and a window: none before the first call, and then their number, to a second after the window. -/
def Counts (sha : Sha256) (settings : RateSettings) (s : RateState) (subject : String) (k : ℤ) : Prop :=
  let n := s.executed.countP fun call => decide (call.FellIn settings subject k)
  (n = 0 ∧ s.counters (bucketKey sha subject k) = none) ∨
    ∃ x, s.counters (bucketKey sha subject k) = some ⟨n, x⟩ ∧ ((k : ℚ) + 1) * settings.windowSeconds + 1 ≤ x

/-- What holds in every state that such steps reach. -/
structure RateInv (sha : Sha256) (settings : RateSettings) (subjects : Set String) (s : RateState) : Prop where
  counting : ∀ c subject now, s.calls c = .counting subject now → subject ∈ subjects ∧ now ≤ s.now
  executed : ∀ call ∈ s.executed, call.subject ∈ subjects
  counts : ∀ subject ∈ subjects, ∀ k, Counts sha settings s subject k
  retry : ∀ call ∈ s.executed, ∀ n, call.outcome = .rejected n → n = retryAfter settings call.now
  alone : ∀ subject, (callsOf subject s.executed).map RateCall.judged =
    FixedWindow.judge settings.maxRequests settings.windowSeconds [] ((callsOf subject s.executed).map (·.now))

/-- A pipeline that is executed in time increments the number of calls before it. -/
theorem incremented_eq {s : RateState} {subject : String} {k : ℤ} (h : Counts sha settings s subject k)
    (hnow : s.now < ((k : ℚ) + 1) * settings.windowSeconds + 1) :
    incremented s (bucketKey sha subject k) = s.executed.countP (fun call => decide (call.FellIn settings subject k)) + 1 := by
  unfold incremented
  rcases h with ⟨hzero, hnone⟩ | ⟨x, hsome, hx⟩
  · rw [hnone, hzero]
  · rw [hsome]
    exact if_pos (hnow.trans_le hx)

/-- The count decides whether a call is allowed as the number of calls before it does. -/
theorem judged_execute {s : RateState} {subject : String} {now : ℚ} (h : Counts sha settings s subject (callWindow settings now))
    (hnow : s.now < ((callWindow settings now : ℚ) + 1) * settings.windowSeconds + 1) :
    RateCall.judged ⟨subject, now, rateOutcome settings now (incremented s (bucketKey sha subject (callWindow settings now)))⟩ =
      FixedWindow.judgeOne settings.maxRequests settings.windowSeconds ((callsOf subject s.executed).map (·.now)) now := by
  rw [incremented_eq h hnow, countP_fellIn]
  unfold RateCall.judged FixedWindow.judgeOne rateOutcome
  simp only [Prod.mk.injEq, true_and]
  refine decide_eq_decide.mpr ?_
  change _ ↔ FixedWindow.inWindow _ _ (callWindow settings now) < settings.maxRequests
  split_ifs with hspent
  · simp only [false_iff]
    omega
  · simp only [true_iff]
    omega

/-- The counters after a pipeline is executed. -/
theorem counts_execute (hsubjects : Set.InjOn (subjectDigest sha) subjects) {s : RateState} {c : ℕ} {subject : String} {now : ℚ}
    (h : ∀ subject ∈ subjects, ∀ k, Counts sha settings s subject k) (hs : subject ∈ subjects) (hle : now ≤ s.now)
    (hnow : s.now < ((callWindow settings now : ℚ) + 1) * settings.windowSeconds + 1) {subject' : String} (hs' : subject' ∈ subjects)
    (k : ℤ) : Counts sha settings (s.execute sha settings c subject now) subject' k := by
  unfold Counts RateState.execute
  simp only [countP_snoc]
  by_cases hsame : subject = subject' ∧ callWindow settings now = k
  · obtain ⟨rfl, rfl⟩ := hsame
    refine .inr ⟨s.now + settings.windowSeconds + 1, ?_, ?_⟩
    · rw [Function.update_self, incremented_eq (h subject hs _) hnow, if_pos ⟨rfl, rfl⟩]
    · have hstart : (callWindow settings now : ℚ) * settings.windowSeconds ≤ now := FixedWindow.start_le settings.window_ok now
      linarith
  · have hkey : bucketKey sha subject' k ≠ bucketKey sha subject (callWindow settings now) := by
      intro hkey
      obtain ⟨hsubject, hk⟩ := bucketKey_inj hsubjects hs' hs hkey
      exact hsame ⟨hsubject.symm, hk.symm⟩
    rw [Function.update_of_ne hkey, if_neg (by exact hsame), Nat.add_zero]
    exact h subject' hs' k

/-- A pipeline that is executed in time keeps the invariant. -/
theorem inv_execute (hsubjects : Set.InjOn (subjectDigest sha) subjects) {s : RateState} {c : ℕ} {subject : String} {now : ℚ}
    (h : RateInv sha settings subjects s) (hc : s.calls c = .counting subject now)
    (hnow : s.now < ((callWindow settings now : ℚ) + 1) * settings.windowSeconds + 1) :
    RateInv sha settings subjects (s.execute sha settings c subject now) := by
  obtain ⟨hs, hle⟩ := h.counting c subject now hc
  refine ⟨?_, ?_, fun subject' hs' k => counts_execute hsubjects h.counts hs hle hnow hs' k, ?_, ?_⟩
  · intro c' subject' now' hc'
    by_cases heq : c' = c
    · simp [RateState.execute, heq] at hc'
    · simp only [RateState.execute, Function.update_of_ne heq] at hc'
      exact h.counting c' subject' now' hc'
  · intro call hcall
    rcases List.mem_append.mp hcall with hcall | hcall
    · exact h.executed call hcall
    · rw [List.mem_singleton.mp hcall]
      exact hs
  · intro call hcall n hn
    rcases List.mem_append.mp hcall with hcall | hcall
    · exact h.retry call hcall n hn
    · rw [List.mem_singleton.mp hcall] at hn ⊢
      unfold rateOutcome at hn
      split_ifs at hn
      cases hn
      rfl
  · intro subject'
    change (callsOf subject' (s.executed ++ [_])).map RateCall.judged = FixedWindow.judge _ _ [] ((callsOf subject' (s.executed ++ [_])).map _)
    rw [callsOf_append]
    by_cases hsame : subject = subject'
    · subst hsame
      have hone : ∀ outcome, callsOf subject [⟨subject, now, outcome⟩] = [⟨subject, now, outcome⟩] := by simp [callsOf]
      rw [hone, List.map_append, List.map_append, FixedWindow.judge_append, ← h.alone subject, List.nil_append, List.map_singleton,
        List.map_singleton, judged_execute (h.counts subject hs _) hnow]
      rfl
    · have hnone : ∀ outcome, callsOf subject' [⟨subject, now, outcome⟩] = [] := by simp [callsOf, hsame]
      rw [hnone, List.append_nil]
      exact h.alone subject'

/-- A step of a system whose Redis is reachable, and executes pipelines in time, keeps the invariant. -/
theorem inv_step (hsubjects : Set.InjOn (subjectDigest sha) subjects) {s s' : RateState} {e : RateEvent}
    (h : RateInv sha settings subjects s) (hreach : RedisReachable subjects e) (htime : ExecutedInTime settings s e)
    (hs : rateStep sha settings s e = some s') : RateInv sha settings subjects s' := by
  rcases step_cases hs with ⟨duration, hd, rfl⟩ | ⟨c, subject, rfl, rfl⟩ | ⟨c, subject, now, rfl, hc, rfl⟩ | ⟨c, rfl⟩
  · refine ⟨fun c subject now hc => ?_, h.executed, h.counts, h.retry, h.alone⟩
    obtain ⟨hmem, hle⟩ := h.counting c subject now hc
    exact ⟨hmem, hle.trans (le_add_of_nonneg_right hd)⟩
  · refine ⟨fun c' subject' now hc => ?_, h.executed, h.counts, h.retry, h.alone⟩
    by_cases heq : c' = c
    · simp only [heq, Function.update_self] at hc
      cases hc
      exact ⟨hreach, le_rfl⟩
    · simp only [Function.update_of_ne heq] at hc
      exact h.counting c' subject' now hc
  · exact inv_execute hsubjects h hc (htime subject now hc)
  · exact hreach.elim

theorem inv_reachable (hsubjects : Set.InjOn (subjectDigest sha) subjects) {s : RateState}
    (h : (rateLimiting sha settings).ReachableWhen (fun s e => RedisReachable subjects e ∧ ExecutedInTime settings s e) s) :
    RateInv sha settings subjects s := by
  refine StepSystem.ReachableWhen.invariant ?_ ?_ h
  · rintro s ⟨now, rfl⟩
    exact ⟨nofun, nofun, fun subject _ k => .inl ⟨rfl, rfl⟩, nofun, fun subject => rfl⟩
  · intro s e s' hi hg hs
    exact inv_step hsubjects hi hg.1 hg.2 hs

/-! ## What follows -/

/-- The allowed calls of a subject are those its own limiter allows. -/
theorem allowed_times {s : RateState} (h : RateInv sha settings subjects s) (subject : String) (p : ℚ → Bool) :
    (callsOf subject s.executed).countP (fun call => p call.now && decide (call.outcome = .allowed)) =
      (FixedWindow.allowed settings.maxRequests settings.windowSeconds ((callsOf subject s.executed).map (·.now))).countP p := by
  unfold FixedWindow.allowed
  rw [← h.alone subject, List.countP_map, List.countP_filter, List.countP_map]
  rfl

/-- A rejected call has the limit of calls before it in its window. -/
theorem rejected_before {s : RateState} (h : RateInv sha settings subjects s) {before after : List RateCall} {call : RateCall} {n : ℤ}
    (hsplit : s.executed = before ++ call :: after) (hn : call.outcome = .rejected n) :
    settings.maxRequests ≤ before.countP fun earlier => decide (earlier.FellIn settings call.subject (callWindow settings call.now)) := by
  have halone := h.alone call.subject
  have hcall : callsOf call.subject (call :: after) = call :: callsOf call.subject after := by simp [callsOf]
  have hjudged : call.judged = (call.now, false) := by simp [RateCall.judged, hn]
  rw [hsplit, callsOf_append, hcall, List.map_append, List.map_append, List.map_cons, List.map_cons, hjudged] at halone
  rw [countP_fellIn]
  exact FixedWindow.limit_le_of_not_allowed halone.symm (by simp)

/-- A pipeline that is executed at once is executed in time. -/
theorem atOnce_inTime (settings : RateSettings) (now : ℚ) :
    now < ((callWindow settings now : ℚ) + 1) * settings.windowSeconds + 1 :=
  (FixedWindow.lt_end settings.window_ok now).trans (lt_add_one _)

end RateLimitAux

open RateLimitAux

/-- While Redis is reachable and executes each pipeline less than a second after the window of its call, the rate limit holds. -/
theorem rate_limited (sha : Sha256) (settings : RateSettings) {subjects : Set String}
    (hsubjects : Set.InjOn (subjectDigest sha) subjects) {s : RateState}
    (h : (rateLimiting sha settings).ReachableWhen (fun s e => RedisReachable subjects e ∧ ExecutedInTime settings s e) s) :
    RateLimited sha settings s := by
  have hi := inv_reachable hsubjects h
  refine ⟨?_, ?_, fun before call after n => rejected_before hi, ?_, ?_, hi.alone⟩
  · intro subject k
    have hle := FixedWindow.allowed_inWindow_le settings.maxRequests settings.windowSeconds
      ((callsOf subject s.executed).map (·.now)) k
    unfold FixedWindow.inWindow at hle
    rw [← allowed_times hi] at hle
    refine le_of_eq_of_le ?_ hle
    unfold callsOf
    rw [List.countP_filter]
    refine List.countP_congr fun call _ => ?_
    simp only [Bool.and_eq_true, decide_eq_true_iff]
    exact ⟨fun hc => ⟨⟨hc.1.2, hc.2⟩, hc.1.1⟩, fun hc => ⟨⟨hc.2, hc.1.1⟩, hc.1.2⟩⟩
  · intro subject a
    have hle := FixedWindow.allowed_interval_le settings.window_ok settings.maxRequests ((callsOf subject s.executed).map (·.now)) a
    rw [← allowed_times hi] at hle
    refine le_of_eq_of_le (List.countP_congr fun call _ => ?_) hle
    simp only [Bool.and_eq_true, decide_eq_true_iff]
  · intro call hcall
    rcases hi.counts call.subject (hi.executed call hcall) (callWindow settings call.now) with ⟨hzero, -⟩ | ⟨x, hx, hend⟩
    · exact absurd (decide_eq_true ⟨rfl, rfl⟩) (List.countP_eq_zero.mp hzero call hcall)
    · exact ⟨_, hx, lt_of_lt_of_le (lt_add_one _) hend⟩
  · intro call hcall n hn
    rw [hi.retry call hcall n hn]
    exact ⟨FixedWindow.one_le_wait _ _, FixedWindow.wait_le settings.window_ok _,
      fun t ht => FixedWindow.window_lt_of_wait settings.window_ok ht⟩

namespace RateLimitExample

/-- The digest of the subject. -/
def hexdigest : String := "458d6b0ead310136d96bda2772b37b3706957cb001d20c933c2b84c4d704ece9"

/-- A digest that has this value where SHA-256 has it. -/
def sha : Sha256 := ⟨Equiv.swap "analyst-1" hexdigest, Equiv.injective _⟩

/-- One request a minute. -/
def settings : RateSettings := ⟨1, 60, le_rfl, Nat.le_of_ble_eq_true rfl⟩

/-- At the start. -/
def start : RateState := ⟨0, fun _ => none, fun _ => .absent, []⟩

/-- A call at the start of the window, and one twenty seconds later. -/
def spent : List RateEvent := [.enforce 0 "analyst-1", .execute 0, .tick 20, .enforce 1 "analyst-1", .execute 1]

/-- A call at the start of the window, and one that reads the clock at its end and is executed 1.3 seconds later. -/
def late : List RateEvent := [.enforce 0 "analyst-1", .execute 0, .tick (599 / 10), .enforce 1 "analyst-1", .tick (13 / 10), .execute 1]

theorem spent_executed : ((rateLimiting sha settings).run start spent).map (·.executed) =
    some [⟨"analyst-1", 0, .allowed⟩, ⟨"analyst-1", 20, .rejected 40⟩] := by decide +kernel

theorem late_executed : ((rateLimiting sha settings).run start late).map (·.executed) =
    some [⟨"analyst-1", 0, .allowed⟩, ⟨"analyst-1", 599 / 10, .allowed⟩] := by decide +kernel

theorem analyst_injOn : Set.InjOn (subjectDigest sha) {"analyst-1"} := Set.injOn_singleton _ _

/-- Both pipelines are executed at once. -/
theorem spent_meets : (rateLimiting sha settings).Meets
    (fun s e => RedisReachable {"analyst-1"} e ∧ ExecutedInTime settings s e) start spent := by
  refine ⟨⟨rfl, trivial⟩, fun s hs => ?_⟩
  obtain rfl := Option.some.inj hs
  refine ⟨⟨trivial, fun subject now hc => ?_⟩, fun s hs => ?_⟩
  · cases hc
    exact atOnce_inTime settings 0
  obtain rfl := Option.some.inj hs
  refine ⟨⟨trivial, trivial⟩, fun s hs => ?_⟩
  obtain rfl := Option.some.inj hs
  refine ⟨⟨rfl, trivial⟩, fun s hs => ?_⟩
  obtain rfl := Option.some.inj hs
  refine ⟨⟨trivial, fun subject now hc => ?_⟩, fun s hs => trivial⟩
  cases hc
  exact atOnce_inTime settings (0 + 20)

end RateLimitExample

open RateLimitExample in
/-- A second request in a minute that has one to spend. -/
theorem rate_limited_spent : ∃ s, (rateLimiting sha settings).run start spent = some s ∧
    s.executed = [⟨"analyst-1", 0, .allowed⟩, ⟨"analyst-1", 20, .rejected 40⟩] ∧ RateLimited sha settings s := by
  obtain ⟨s, hrun, hs⟩ := Option.map_eq_some_iff.mp spent_executed
  exact ⟨s, hrun, hs, rate_limited sha settings analyst_injOn (StepSystem.ReachableWhen.run (.start ⟨0, rfl⟩) spent_meets hrun)⟩

open RateLimitExample in
/-- A second request in the same minute is allowed when its pipeline is executed after the counter has expired. -/
theorem rate_limited_false : ¬∀ (sha : Sha256) (settings : RateSettings) (subjects : Set String) (s : RateState),
    Set.InjOn (subjectDigest sha) subjects → (rateLimiting sha settings).ReachableWhen (fun _ e => RedisReachable subjects e) s →
      RateLimited sha settings s := by
  intro hall
  obtain ⟨s, hrun, hs⟩ := Option.map_eq_some_iff.mp late_executed
  have hmeets : (rateLimiting sha settings).Meets (fun _ e => RedisReachable {"analyst-1"} e) start late := by
    refine StepSystem.meets_of_forall (fun e he _ => ?_) start
    simp only [late, List.mem_cons, List.not_mem_nil, or_false] at he
    rcases he with rfl | rfl | rfl | rfl | rfl | rfl <;> trivial
  have hlimited := hall sha settings _ s analyst_injOn (StepSystem.ReachableWhen.run (.start ⟨0, rfl⟩) hmeets hrun)
  have htwo := hlimited.perWindow "analyst-1" 0
  rw [hs] at htwo
  exact absurd htwo (by decide +kernel)

end FraudDetection
