import SystemsLab.Framework.Table
import SystemsLab.RateLimit.TokenBucket

/-!
# Sliding window rate limiting

The sorted set under a key keeps the admitted requests that can still count. A rejected request
leaves nothing, and a key that has been idle for a whole window is dropped.
-/

namespace SystemsLab.RateLimit

structure SlidingWindowConfig where
  windowMs : Int
  limit : Nat
  deriving DecidableEq, Repr

structure WindowEntry where
  member : String
  score : Int
  deriving DecidableEq, Repr

/-- The sorted set under a key. Redis has no empty sorted set: with no entries there is no key. -/
structure WindowLog where
  entries : List WindowEntry := []
  expiresAtMs : Int := 0
  deriving DecidableEq, Repr

def zremrangebyscore (max : Int) (entries : List WindowEntry) : List WindowEntry :=
  entries.filter fun entry => max < entry.score

/-- `ZADD`: a member that is there gets the new score. -/
def zadd (score : Int) (member : String) (entries : List WindowEntry) : List WindowEntry :=
  if member ∈ entries.map WindowEntry.member then
    updateWhere (·.member == member) (fun entry => { entry with score }) entries
  else entries ++ [⟨member,score⟩]

/-- `SLIDING_WINDOW_SCRIPT`, run when the clock of Redis shows `redisMs`. -/
def slidingWindowScript (redisMs : Int) (log : WindowLog) (nowMs windowMs : Int) (limit : Nat)
    (member : String) : WindowLog × RateLimitDecision Nat :=
  let kept := zremrangebyscore (nowMs - windowMs) log.entries
  let count := kept.length
  if count < limit then
    (⟨zadd nowMs member kept,redisMs + windowMs⟩,⟨true,count + 1⟩)
  else (⟨kept,redisMs + windowMs⟩,⟨false,count⟩)

/-- A call of `check`, with the `randomUUID()` it draws. -/
structure WindowCall where
  now : Int
  uuid : String
  deriving DecidableEq, Repr

def WindowCall.member (call : WindowCall) : String :=
  toString call.now ++ ":" ++ call.uuid

/-- What `PEXPIRE` has left of the set. -/
def WindowLog.unexpired (redisMs : Int) (log : WindowLog) : WindowLog :=
  if redisMs < log.expiresAtMs then log else {}

namespace SlidingWindowConfig

/-- `check(clientKey, now)` of `createSlidingWindowLimiter`; the clock of Redis shows `now`. -/
def check (config : SlidingWindowConfig) (log : WindowLog) (call : WindowCall) :
    WindowLog × RateLimitDecision Nat :=
  slidingWindowScript call.now (log.unexpired call.now) call.now config.windowMs config.limit
    call.member

/-- The set and the times of the admissions, after one more call. -/
def serve (config : SlidingWindowConfig) (state : WindowLog × List Int) (call : WindowCall) :
    WindowLog × List Int :=
  let (log,decision) := config.check state.1 call
  (log,if decision.allowed then state.2 ++ [call.now] else state.2)

def served (config : SlidingWindowConfig) (calls : List WindowCall) : WindowLog × List Int :=
  calls.foldl config.serve ({},[])

/-- When the admitted calls were made. -/
def admissions (config : SlidingWindowConfig) (calls : List WindowCall) : List Int :=
  (config.served calls).2

/-- What a call is told after earlier calls. -/
def decision (config : SlidingWindowConfig) (calls : List WindowCall) (call : WindowCall) :
    RateLimitDecision Nat :=
  (config.check (config.served calls).1 call).2

end SlidingWindowConfig

/-- How many of the times are in the half-open interval of length `windowMs` that ends at `t`. -/
def inWindow (windowMs t : Int) (times : List Int) : Nat :=
  times.countP fun a => t - windowMs < a ∧ a ≤ t

variable {config : SlidingWindowConfig} {log : WindowLog} {admitted : List Int} {last : Int}
  {members : List String} {call : WindowCall}

/-- The set agrees with the admissions wherever a later call looks. -/
structure WindowLog.Tracks (config : SlidingWindowConfig) (admitted : List Int) (last : Int)
    (members : List String) (log : WindowLog) : Prop where
  kept : ∀ t, last ≤ t → (log.entries.map WindowEntry.score).filter (t - config.windowMs < ·) =
    admitted.filter (t - config.windowMs < ·)
  past : ∀ a ∈ admitted, a ≤ last
  expires : log.entries = [] ∨ ∀ a ∈ admitted, a + config.windowMs ≤ log.expiresAtMs
  members : ∀ entry ∈ log.entries, entry.member ∈ members

private theorem scores_zremrangebyscore (max : Int) (entries : List WindowEntry) :
    (zremrangebyscore max entries).map WindowEntry.score =
      (entries.map WindowEntry.score).filter (max < ·) := by
  rw [zremrangebyscore,List.filter_map]
  rfl

private theorem WindowLog.Tracks.found (h : log.Tracks config admitted last members) {t : Int}
    (ht : last ≤ t) :
    (zremrangebyscore (t - config.windowMs) (log.unexpired t).entries).map WindowEntry.score =
      admitted.filter (t - config.windowMs < ·) := by
  rw [scores_zremrangebyscore]
  unfold WindowLog.unexpired
  split
  · exact h.kept t ht
  · rename_i hexpired
    have hkept := h.kept t ht
    rcases h.expires with hempty | hexpires
    · rw [hempty] at hkept
      exact hkept
    · symm
      show _ = []
      rw [List.filter_eq_nil_iff]
      intro a ha
      have hlive := hexpires a ha
      rw [decide_eq_true_eq]
      omega

theorem WindowLog.Tracks.mono (h : log.Tracks config admitted last members) {later : Int}
    (hlater : last ≤ later) : log.Tracks config admitted later members :=
  ⟨fun t ht => h.kept t (hlater.trans ht),fun a ha => (h.past a ha).trans hlater,h.expires,
    h.members⟩

private theorem WindowLog.Tracks.count (h : log.Tracks config admitted last members) {t : Int}
    (ht : last ≤ t) :
    (zremrangebyscore (t - config.windowMs) (log.unexpired t).entries).length =
      inWindow config.windowMs t admitted := by
  rw [← List.length_map (f := WindowEntry.score),h.found ht,inWindow,List.countP_eq_length_filter]
  congr 1
  apply List.filter_congr
  intro a ha
  have hpast := h.past a ha
  rw [decide_eq_decide]
  omega

private theorem WindowLog.Tracks.allowed (h : log.Tracks config admitted last members)
    (hnow : last ≤ call.now) : (config.check log call).2.allowed =
      decide (inWindow config.windowMs call.now admitted < config.limit) := by
  rw [← h.count hnow]
  unfold SlidingWindowConfig.check slidingWindowScript
  dsimp only
  split
  · rename_i hroom
    exact (decide_eq_true hroom).symm
  · rename_i hfull
    exact (decide_eq_false hfull).symm

/-- The admissions once the call has been served. -/
def afterCall (config : SlidingWindowConfig) (admitted : List Int) (call : WindowCall) : List Int :=
  if inWindow config.windowMs call.now admitted < config.limit then admitted ++ [call.now]
  else admitted

private theorem WindowLog.Tracks.serve (h : log.Tracks config admitted last members)
    (hnow : last ≤ call.now) :
    config.serve (log,admitted) call =
      ((config.check log call).1,afterCall config admitted call) := by
  show ((config.check log call).1,if (config.check log call).2.allowed = true then _ else _) = _
  rw [h.allowed hnow]
  unfold afterCall
  simp only [decide_eq_true_eq]

private theorem WindowLog.Tracks.detail (h : log.Tracks config admitted last members)
    (hnow : last ≤ call.now) (hwindow : 0 < config.windowMs) : (config.check log call).2.detail =
      inWindow config.windowMs call.now (afterCall config admitted call) := by
  have hcount := h.count hnow
  unfold SlidingWindowConfig.check slidingWindowScript afterCall
  dsimp only
  rw [hcount]
  split
  · have hown : inWindow config.windowMs call.now [call.now] = 1 := by
      simp [inWindow,hwindow]
    unfold inWindow at hown ⊢
    rw [List.countP_append,hown]
  · rfl

/-- The set after the call, without a word on what `ZADD` does. -/
theorem WindowLog.Tracks.entries (h : log.Tracks config admitted last members)
    (hnow : last ≤ call.now) (hfresh : call.member ∉ members) :
    (config.check log call).1.entries =
        zremrangebyscore (call.now - config.windowMs) (log.unexpired call.now).entries ++
          (if inWindow config.windowMs call.now admitted < config.limit
            then [⟨call.member,call.now⟩] else []) ∧
      (config.check log call).1.expiresAtMs = call.now + config.windowMs := by
  have hcount := h.count hnow
  have hmembers : call.member ∉
      (zremrangebyscore (call.now - config.windowMs) (log.unexpired call.now).entries).map
        WindowEntry.member := by
    intro hmem
    obtain ⟨entry,hentry,heq⟩ := List.mem_map.mp hmem
    have hlive := List.mem_of_mem_filter hentry
    unfold WindowLog.unexpired at hlive
    split at hlive
    · exact hfresh (heq ▸ h.members entry hlive)
    · exact absurd hlive List.not_mem_nil
  unfold SlidingWindowConfig.check slidingWindowScript
  dsimp only
  rw [hcount]
  split
  · exact ⟨if_neg hmembers,rfl⟩
  · exact ⟨(List.append_nil _).symm,rfl⟩

private theorem filter_window {windowMs now t : Int} (ht : now ≤ t) (times : List Int) :
    (times.filter (now - windowMs < ·)).filter (t - windowMs < ·) =
      times.filter (t - windowMs < ·) := by
  rw [List.filter_filter]
  apply List.filter_congr
  intro a _
  rw [← Bool.decide_and,decide_eq_decide]
  omega

private theorem WindowLog.Tracks.check (h : log.Tracks config admitted last members)
    (hnow : last ≤ call.now) (hfresh : call.member ∉ members) :
    (config.check log call).1.Tracks config (afterCall config admitted call) call.now
      (members ++ [call.member]) := by
  obtain ⟨hentries,hexpires⟩ := h.entries hnow hfresh
  have hpast : ∀ a ∈ afterCall config admitted call, a ≤ call.now := by
    intro a ha
    have hold : a ∈ admitted → a ≤ call.now := fun hmem => (h.past a hmem).trans hnow
    unfold afterCall at ha
    split at ha
    · rcases List.mem_append.mp ha with hmem | hself
      · exact hold hmem
      · rw [List.mem_singleton.mp hself]
    · exact hold ha
  refine ⟨?_,hpast,.inr ?_,?_⟩
  · intro t ht
    rw [hentries,List.map_append,List.filter_append,h.found hnow,filter_window ht]
    unfold afterCall
    split
    · rw [List.filter_append]
      rfl
    · exact List.append_nil _
  · intro a ha
    rw [hexpires]
    exact Int.add_le_add_right (hpast a ha) _
  · intro entry hentry
    rw [hentries] at hentry
    rcases List.mem_append.mp hentry with hkept | hself
    · have hlive := List.mem_of_mem_filter hkept
      unfold WindowLog.unexpired at hlive
      split at hlive
      · exact List.mem_append_left _ (h.members entry hlive)
      · exact absurd hlive List.not_mem_nil
    · split at hself
      · rw [List.mem_singleton.mp hself]
        exact List.mem_append_right _ (List.mem_singleton_self _)
      · exact absurd hself List.not_mem_nil

private theorem served_append (calls : List WindowCall) (call : WindowCall) :
    config.served (calls ++ [call]) = config.serve (config.served calls) call := by
  unfold SlidingWindowConfig.served
  rw [List.foldl_append]
  rfl

/-- Calls in the order of their clock, with members that differ. -/
structure InOrder (calls : List WindowCall) : Prop where
  sorted : (calls.map WindowCall.now).Pairwise (· ≤ ·)
  distinct : (calls.map WindowCall.member).Nodup

private theorem InOrder.before {calls : List WindowCall} (h : InOrder (calls ++ [call])) :
    InOrder calls ∧ (∀ c ∈ calls, c.now ≤ call.now) ∧
      call.member ∉ calls.map WindowCall.member := by
  obtain ⟨hsorted,hdistinct⟩ := h
  rw [List.map_append,List.pairwise_append] at hsorted
  rw [List.map_append,List.nodup_append] at hdistinct
  refine ⟨⟨hsorted.1,hdistinct.1⟩,?_,?_⟩
  · intro c hc
    exact hsorted.2.2 c.now (List.mem_map_of_mem hc) call.now (List.mem_singleton_self _)
  · intro hmem
    exact hdistinct.2.2 _ hmem _ (List.mem_singleton_self _) rfl

private theorem InOrder.initial {before after : List WindowCall} (h : InOrder (before ++ after)) :
    InOrder before := by
  obtain ⟨hsorted,hdistinct⟩ := h
  rw [List.map_append] at hsorted hdistinct
  exact ⟨(List.pairwise_append.mp hsorted).1,(List.nodup_append.mp hdistinct).1⟩

private theorem InOrder.tracks {calls : List WindowCall} (h : InOrder calls)
    (hlast : ∀ call ∈ calls, call.now ≤ last) :
    (config.served calls).1.Tracks config (config.admissions calls) last
      (calls.map WindowCall.member) := by
  induction calls using List.reverseRecOn generalizing last with
  | nil =>
    refine ⟨fun _ _ => rfl,?_,.inl rfl,?_⟩
    · exact fun _ ha => absurd ha List.not_mem_nil
    · exact fun _ he => absurd he List.not_mem_nil
  | append_singleton calls call ih =>
    obtain ⟨hbefore,hpast,hfresh⟩ := h.before
    have htracks := ih hbefore hpast
    have hserved : config.served (calls ++ [call]) =
        ((config.check (config.served calls).1 call).1,
          afterCall config (config.admissions calls) call) :=
      (served_append calls call).trans (htracks.serve (le_refl _))
    have hnext := htracks.check (le_refl _) hfresh
    rw [List.map_append,SlidingWindowConfig.admissions,hserved]
    exact hnext.mono (hlast call (List.mem_append_right _ (List.mem_singleton_self _)))

private theorem InOrder.decision {calls : List WindowCall} (h : InOrder (calls ++ [call]))
    (hwindow : 0 < config.windowMs) :
    ((config.decision calls call).allowed = true ↔
        inWindow config.windowMs call.now (config.admissions calls) < config.limit) ∧
      (config.decision calls call).detail =
        inWindow config.windowMs call.now (config.admissions (calls ++ [call])) ∧
      config.admissions (calls ++ [call]) = afterCall config (config.admissions calls) call := by
  obtain ⟨hbefore,hpast,_⟩ := h.before
  have htracks : (config.served calls).1.Tracks config (config.admissions calls) call.now _ :=
    hbefore.tracks hpast
  have hadmissions : config.admissions (calls ++ [call]) =
      afterCall config (config.admissions calls) call := by
    show (config.served (calls ++ [call])).2 = _
    rw [served_append]
    exact congrArg Prod.snd (htracks.serve (le_refl _))
  refine ⟨?_,?_,hadmissions⟩
  · unfold SlidingWindowConfig.decision
    rw [htracks.allowed (le_refl _),decide_eq_true_eq]
  · rw [hadmissions]
    exact htracks.detail (le_refl _) hwindow

private theorem InOrder.inWindow_le {calls : List WindowCall} (h : InOrder calls)
    (hwindow : 0 < config.windowMs) (t : Int) :
    inWindow config.windowMs t (config.admissions calls) ≤ config.limit := by
  induction calls using List.reverseRecOn with
  | nil => exact Nat.zero_le _
  | append_singleton calls call ih =>
    obtain ⟨hbefore,_,_⟩ := h.before
    have hle := ih hbefore
    rw [(h.decision hwindow).2.2]
    unfold afterCall
    split
    · rename_i hroom
      unfold inWindow at hroom hle ⊢
      rw [List.countP_append]
      by_cases hin : t - config.windowMs < call.now ∧ call.now ≤ t
      · have hself : [call.now].countP (fun a => t - config.windowMs < a ∧ a ≤ t) = 1 := by
          simp [hin]
        have hothers : (config.admissions calls).countP (fun a => t - config.windowMs < a ∧ a ≤ t) ≤
            (config.admissions calls).countP
              (fun a => call.now - config.windowMs < a ∧ a ≤ call.now) := by
          apply List.countP_mono_left
          intro a ha hwithin
          rw [decide_eq_true_eq] at hwithin ⊢
          have htracks :
              (config.served calls).1.Tracks config (config.admissions calls) call.now _ :=
            hbefore.tracks h.before.2.1
          have hpast := htracks.past a ha
          omega
        omega
      · have hself : [call.now].countP (fun a => t - config.windowMs < a ∧ a ≤ t) = 0 := by
          simp [hin]
        omega
    · exact hle

/-- The limiter is exact: a call is admitted if and only if its window has room, it is told what
its window holds, and no half-open interval of the length of a window holds more than the
limit. -/
theorem slidingWindow_exact (config : SlidingWindowConfig) (hwindow : 0 < config.windowMs)
    (calls : List WindowCall) (h : InOrder calls) :
    (∀ before call after, calls = before ++ call::after →
      ((config.decision before call).allowed = true ↔
          inWindow config.windowMs call.now (config.admissions before) < config.limit) ∧
        (config.decision before call).detail =
          inWindow config.windowMs call.now (config.admissions (before ++ [call]))) ∧
      ∀ t, inWindow config.windowMs t (config.admissions calls) ≤ config.limit ∧
        (config.admissions calls).countP (fun a => t ≤ a ∧ a < t + config.windowMs) ≤
          config.limit := by
  constructor
  · intro before call after hcalls
    have hwhole : InOrder ((before ++ [call]) ++ after) := by
      rw [List.append_assoc]
      exact hcalls ▸ h
    obtain ⟨hallowed,hdetail,_⟩ := hwhole.initial.decision hwindow
    exact ⟨hallowed,hdetail⟩
  · intro t
    refine ⟨h.inWindow_le hwindow t,?_⟩
    have hshift := h.inWindow_le hwindow (t + config.windowMs - 1)
    unfold inWindow at hshift
    have heq : (fun a : Int => decide (t ≤ a ∧ a < t + config.windowMs)) =
        fun a => decide (t + config.windowMs - 1 - config.windowMs < a ∧
          a ≤ t + config.windowMs - 1) := by
      funext a
      rw [decide_eq_decide]
      omega
    rw [heq]
    exact hshift

def twoInTen : SlidingWindowConfig := ⟨10,2⟩

/-- Two of three calls in one millisecond are admitted, the window's end is exclusive, and the
key is dropped at once after it. -/
def threeAtOnce : List WindowCall :=
  [⟨0,"a"⟩,⟨0,"b"⟩,⟨0,"c"⟩,⟨9,"d"⟩,⟨10,"e"⟩,⟨30,"f"⟩]

theorem threeAtOnce_exact : (∀ before call after, threeAtOnce = before ++ call::after →
      ((twoInTen.decision before call).allowed = true ↔
          inWindow 10 call.now (twoInTen.admissions before) < 2) ∧
        (twoInTen.decision before call).detail =
          inWindow 10 call.now (twoInTen.admissions (before ++ [call]))) ∧
      ∀ t, inWindow 10 t (twoInTen.admissions threeAtOnce) ≤ 2 ∧
        (twoInTen.admissions threeAtOnce).countP (fun a => t ≤ a ∧ a < t + 10) ≤ 2 :=
  slidingWindow_exact twoInTen (by decide) _ ⟨by decide +kernel,by decide +kernel⟩

end SystemsLab.RateLimit
