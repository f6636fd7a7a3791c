import SystemsLab.Caching.RefreshInFlight

/-!
# How old a value is

What Redis has, and what it answers, was read from the database after the fill was started that
has set it.
-/

namespace SystemsLab.Caching

open Locks

variable {α : Type} {options : RevalidateOptions} {json : ProductJson (CacheEntry α)}
  {w t : RevalidateWorld α} {e : RevalidateEvent α} {n f : Nat} {c : Fill α}

/-- The number that a text stands for. -/
def readInt : List Char → Int
  | '-' :: digits => -(Nat.ofDigitChars 10 digits 0 : Nat)
  | digits => Nat.ofDigitChars 10 digits 0

private theorem readInt_digits (n : Nat) : readInt (Nat.toDigits 10 n) = n := by
  have hminus : '-' ∉ Nat.toDigits 10 n := by
    intro hmem
    have hdigit := Nat.isDigit_of_mem_toDigits (by decide) (by decide) hmem
    revert hdigit
    decide
  unfold readInt
  split
  · rename_i hdigits
    rw [hdigits] at hminus
    exact absurd List.mem_cons_self hminus
  · rw [Nat.ofDigitChars_ten_toDigits]

private theorem readInt_toString (i : Int) : readInt (toString i).toList = i := by
  cases i with
  | ofNat n =>
    show readInt n.repr.toList = _
    rw [Nat.toList_repr,readInt_digits]
    rfl
  | negSucc n =>
    show readInt ("-" ++ (n + 1).repr).toList = _
    rw [String.toList_append,Nat.toList_repr]
    show -((Nat.ofDigitChars 10 (Nat.toDigits 10 (n + 1)) 0 : Nat) : Int) = _
    rw [Nat.ofDigitChars_ten_toDigits]
    rfl

theorem productCacheKey_injective {i j : Int} (h : productCacheKey i = productCacheKey j) : i = j := by
  have htext : (toString i).toList = (toString j).toList := by
    rw [String.append_right_inj _ |>.mp h]
  rw [← readInt_toString i,htext,readInt_toString]

/-- The database has read `product` at a time that meets `p`. -/
def RevalidateWorld.ReadFrom (w : RevalidateWorld α) (productId : Int) (product : α)
    (p : Int → Prop) : Prop :=
  ∃ r ∈ w.reads, r.productId = productId ∧ r.product = product ∧ p r.time

theorem RevalidateWorld.ReadFrom.mono {productId : Int} {product : α} {p q : Int → Prop}
    (h : w.ReadFrom productId product p) (hreads : w.reads ⊆ t.reads) (hpq : ∀ time, p time → q time) :
    t.ReadFrom productId product q := by
  obtain ⟨r,hr,hid,hproduct,hp⟩ := h
  exact ⟨r,hreads hr,hid,hproduct,hpq _ hp⟩

/-- A value that was read at `time` is `maxAge` old at most. -/
def Within (maxAge now time : Int) : Prop := time ≤ now ∧ now ≤ time + maxAge

/-- What the fill has got from the database. -/
def FillPhase.product : FillPhase α → Option α
  | .queried product => some product
  | .setting product _ => some product
  | .stored product _ => some product
  | _ => none

private theorem product_of_settled {phase : FillPhase α} (h : phase.waiting = false) :
    phase.product = none := by
  cases phase <;> first | rfl | cases h

/-- What Redis has and what has been answered, and what fills are about to set, was read from the
database. -/
structure RevalidateWorld.Backed (json : ProductJson (CacheEntry α)) (maxAge : Int)
    (w : RevalidateWorld α) : Prop where
  started : ∀ f c, w.fill f = some c → c.startedAt ≤ w.clock
  fills : ∀ f c, w.fill f = some c → ∀ product, c.phase.product = some product →
    w.ReadFrom c.productId product fun time => c.startedAt ≤ time ∧ time ≤ w.clock
  commands : ∀ f c, w.fill f = some c → ∀ product entry, c.phase.command = some (product,entry) →
    ∃ freshUntil, json.parse entry = .ok ⟨product,freshUntil⟩
  entries : ∀ productId e, w.redis.lookup w.clock (productCacheKey productId) = some e →
    ∃ text entry expiresAt, e = ⟨.text text,some expiresAt⟩ ∧ json.parse text = .ok entry ∧
      w.ReadFrom productId entry.product fun time =>
        time ≤ w.clock ∧ expiresAt ≤ time + maxAge
  answers : ∀ n productId raw answeredAt, w.call n = some ⟨productId,.answered raw answeredAt⟩ →
    ∀ entry, parseRaw json raw = some (.ok entry) →
      w.ReadFrom productId entry.product (Within maxAge answeredAt)
  served : ∀ s ∈ w.served, w.ReadFrom s.productId s.product (Within maxAge s.answeredAt)

/-- Redis executes the `SET` of a fill at most `maxMs` after the call of the database. -/
def RevalidateEvent.Timely (maxMs : Int) (w : RevalidateWorld α) : RevalidateEvent α → Prop
  | .redisSet f => ∀ c ∈ w.fill f, w.clock ≤ c.startedAt + maxMs
  | _ => True

instance (maxMs : Int) (w : RevalidateWorld α) : ∀ e, Decidable (RevalidateEvent.Timely maxMs w e)
  | .redisSet f => inferInstanceAs (Decidable (∀ c ∈ w.fill f, _))
  | .getProduct _ => isTrue trivial
  | .redisGet _ => isTrue trivial
  | .reply _ => isTrue trivial
  | .rejectGet _ _ => isTrue trivial
  | .read _ _ => isTrue trivial
  | .fetched _ => isTrue trivial
  | .acknowledged _ => isTrue trivial
  | .rejectFill _ _ => isTrue trivial
  | .finish _ => isTrue trivial
  | .advance _ => isTrue trivial

namespace RevalidateWorld.Backed

variable {maxAge maxMs : Int}

private theorem putCall (h : w.Backed json maxAge) {d : Lookup α}
    (hanswer : ∀ raw answeredAt, d.phase = .answered raw answeredAt →
      ∀ entry, parseRaw json raw = some (.ok entry) →
        w.ReadFrom d.productId entry.product (Within maxAge answeredAt)) :
    (w.putCall n d).Backed json maxAge := by
  refine ⟨h.started,h.fills,h.commands,h.entries,?_,h.served⟩
  intro m productId raw answeredAt hm entry hentry
  rcases update_eq_some hm with ⟨_,rfl⟩ | ⟨_,hold⟩
  · exact hanswer raw answeredAt rfl entry hentry
  · exact h.answers m productId raw answeredAt hold entry hentry

private theorem putFill (h : w.Backed json maxAge) (hstarted : c.startedAt ≤ w.clock)
    (hproduct : ∀ product, c.phase.product = some product →
      w.ReadFrom c.productId product fun time => c.startedAt ≤ time ∧ time ≤ w.clock)
    (hcommand : ∀ product entry, c.phase.command = some (product,entry) →
      ∃ freshUntil, json.parse entry = .ok ⟨product,freshUntil⟩) :
    (w.putFill f c).Backed json maxAge := by
  refine ⟨?_,?_,?_,h.entries,h.answers,h.served⟩
  · intro g d hd
    rcases update_eq_some hd with ⟨_,rfl⟩ | ⟨_,hold⟩
    · exact hstarted
    · exact h.started g d hold
  · intro g d hd
    rcases update_eq_some hd with ⟨_,rfl⟩ | ⟨_,hold⟩
    · exact hproduct
    · exact h.fills g d hold
  · intro g d hd
    rcases update_eq_some hd with ⟨_,rfl⟩ | ⟨_,hold⟩
    · exact hcommand
    · exact h.commands g d hold

theorem settle (h : w.Backed json maxAge) (hf : w.fill f = some c) {phase : FillPhase α}
    (hphase : phase.waiting = false) : (w.putFill f { c with phase }).Backed json maxAge := by
  have hstarted := h.started f c hf
  refine h.putFill hstarted ?_ ?_
  · intro product hproduct
    cases (product_of_settled hphase).symm.trans hproduct
  · intro product entry hcommand
    cases (command_of_settled hphase).symm.trans hcommand

private theorem advance (h : w.Backed json maxAge) (ms : Nat) :
    Backed json maxAge { w with clock := w.clock + ms } := by
  have hlater : w.clock ≤ w.clock + ms := by omega
  refine ⟨?_,?_,h.commands,?_,h.answers,h.served⟩
  · intro f c hf
    exact (h.started f c hf).trans hlater
  · intro f c hf product hproduct
    exact (h.fills f c hf product hproduct).mono (List.Subset.refl _)
      fun time htime => ⟨htime.1,htime.2.trans hlater⟩
  · intro productId e he
    obtain ⟨hdb,hlive⟩ := Keyspace.lookup_eq_some.mp he
    have hnow := Keyspace.lookup_eq_some.mpr ⟨hdb,RedisEntry.expired_of_le hlater hlive⟩
    obtain ⟨text,entry,expiresAt,heq,hparse,hread⟩ := h.entries productId e hnow
    exact ⟨text,entry,expiresAt,heq,hparse,hread.mono (List.Subset.refl _)
      fun time htime => ⟨htime.1.trans hlater,htime.2⟩⟩

private theorem read (h : w.Backed json maxAge) (r : ProductRead α) :
    Backed json maxAge { w with reads := w.reads ++ [r] } := by
  have hreads : w.reads ⊆ w.reads ++ [r] := List.subset_append_left _ _
  refine ⟨h.started,?_,h.commands,?_,?_,?_⟩
  · intro f c hf product hproduct
    exact (h.fills f c hf product hproduct).mono hreads fun _ => id
  · intro productId e he
    obtain ⟨text,entry,expiresAt,heq,hparse,hread⟩ := h.entries productId e he
    exact ⟨text,entry,expiresAt,heq,hparse,hread.mono hreads fun _ => id⟩
  · intro n productId raw answeredAt hn entry hentry
    exact (h.answers n productId raw answeredAt hn entry hentry).mono hreads fun _ => id
  · intro s hs
    exact (h.served s hs).mono hreads fun _ => id

private theorem serve (h : w.Backed json maxAge) {productId : Int} {product : α} {answeredAt : Int}
    (hread : w.ReadFrom productId product (Within maxAge answeredAt)) :
    (w.serve n productId product answeredAt).Backed json maxAge := by
  have hcall : (w.putCall n ⟨productId,.settled (.ok product)⟩).Backed json maxAge :=
    h.putCall nofun
  refine ⟨hcall.started,hcall.fills,hcall.commands,hcall.entries,hcall.answers,?_⟩
  exact forall_append_next h.served hread

private theorem startFill (h : w.Backed json maxAge) (productId : Int) (call : Option Nat) :
    (w.startFill productId call).Backed json maxAge := by
  have hfill : (w.putFill w.fills { productId, call, startedAt := w.clock }).Backed json maxAge :=
    h.putFill (Int.le_refl _) nofun nofun
  exact ⟨hfill.started,hfill.fills,hfill.commands,hfill.entries,hfill.answers,hfill.served⟩

private theorem answer (h : w.Backed json maxAge) (n : Nat) (productId : Int) :
    (w.putCall n ⟨productId,.answered (w.redis.get w.clock (productCacheKey productId)) w.clock⟩)
      |>.Backed json maxAge := by
  apply h.putCall
  intro raw answeredAt hphase entry hentry
  cases hphase
  obtain ⟨found,hfound,hparse⟩ := Option.map_eq_some_iff.mp hentry
  obtain ⟨hget,_⟩ := Option.filter_eq_some_iff.mp hfound
  obtain ⟨e,he,rfl⟩ := Option.map_eq_some_iff.mp hget
  obtain ⟨text,entry',expiresAt,rfl,hparse',hread⟩ := h.entries productId e he
  have hlive := expired_text.mp (Keyspace.lookup_eq_some.mp he).2
  obtain rfl : entry' = entry := Except.ok.inj (hparse'.symm.trans hparse)
  refine hread.mono (List.Subset.refl _) fun time htime => ⟨htime.1,?_⟩
  omega

private theorem set (h : w.Backed json (options.staleMs + maxMs)) (hf : w.fill f = some c)
    {product : α} {entry : String} (hcommand : c.phase.command = some (product,entry))
    (htimely : w.clock ≤ c.startedAt + maxMs) :
    Backed json (options.staleMs + maxMs) { w.putFill f { c with phase := .stored product entry } with
      redis := Function.update w.redis (productCacheKey c.productId)
        (some ⟨.text entry,some (w.clock + options.staleMs)⟩) } := by
  have hproduct : c.phase.product = some product := by
    cases hphase : c.phase <;> rw [hphase] at hcommand <;> cases hcommand <;> rfl
  have hread := h.fills f c hf product hproduct
  have hparse := h.commands f c hf product entry hcommand
  have hfill : (w.putFill f { c with phase := .stored product entry }).Backed json
      (options.staleMs + maxMs) := by
    refine h.putFill ?_ ?_ ?_
    · exact h.started f c hf
    · rintro _ ⟨⟩
      exact hread
    · rintro _ _ ⟨⟩
      exact hparse
  refine ⟨hfill.started,hfill.fills,hfill.commands,?_,hfill.answers,hfill.served⟩
  intro productId e he
  by_cases hid : productId = c.productId
  · subst hid
    have hself : Function.update w.redis (productCacheKey c.productId)
        (some ⟨.text entry,some (w.clock + options.staleMs)⟩) (productCacheKey c.productId) =
          some ⟨.text entry,some (w.clock + options.staleMs)⟩ := Function.update_self ..
    obtain rfl := Option.some.inj (hself.symm.trans (Keyspace.lookup_eq_some.mp he).1)
    obtain ⟨freshUntil,hparse⟩ := hparse
    refine ⟨entry,⟨product,freshUntil⟩,_,rfl,hparse,?_⟩
    refine hread.mono (List.Subset.refl _) fun time htime => ⟨htime.2,?_⟩
    omega
  · have hother : w.redis.lookup w.clock (productCacheKey productId) = some e := by
      have hne := fun hkey => hid (productCacheKey_injective hkey)
      exact (Keyspace.lookup_of_ne _ _ _ hne).symm.trans he
    exact h.entries productId e hother

private theorem queried (h : w.Backed json maxAge) (hf : w.fill f = some c) (product : α) :
    Backed json maxAge { w.putFill f { c with phase := .queried product } with
      reads := w.reads ++ [⟨c.productId,product,w.clock⟩] } := by
  have hread := h.read ⟨c.productId,product,w.clock⟩
  have hstarted := h.started f c hf
  refine hread.putFill hstarted ?_ nofun
  rintro _ ⟨⟩
  exact ⟨_,List.mem_append_right _ List.mem_cons_self,rfl,rfl,hstarted,Int.le_refl _⟩

private theorem fetched (h : w.Backed json maxAge) (hf : w.fill f = some c) {product : α}
    {freshUntil : Int} (hphase : c.phase = .queried product) :
    (w.putFill f ⟨c.productId,c.call,c.startedAt,
      .setting product (json.stringify ⟨product,freshUntil⟩)⟩).Backed json maxAge := by
  refine h.putFill (h.started f c hf) ?_ ?_
  · rintro _ ⟨⟩
    exact h.fills f c hf product (by rw [hphase]; rfl)
  · rintro _ _ ⟨⟩
    exact ⟨freshUntil,json.parse_stringify _⟩

private theorem finish (h : w.Backed json maxAge) (hf : w.fill f = some c)
    (outcome : Except String α) :
    (w.finish f c outcome).Backed json maxAge := by
  obtain ⟨productId,call,startedAt,phase⟩ := c
  have hover : (w.putFill f ⟨productId,call,startedAt,.done⟩).Backed json maxAge :=
    h.settle hf rfl
  cases call with
  | none =>
    exact ⟨hover.started,hover.fills,hover.commands,hover.entries,hover.answers,hover.served⟩
  | some n => exact hover.putCall nofun

theorem move (h : w.Backed json (options.staleMs + maxMs)) (htimely : e.Timely maxMs w)
    (hmove : RevalidateMove options json w e t) : t.Backed json (options.staleMs + maxMs) := by
  cases hmove with
  | called productId =>
    have hcall : (w.putCall w.calls { productId }).Backed json (options.staleMs + maxMs) :=
      h.putCall nofun
    exact ⟨hcall.started,hcall.fills,hcall.commands,hcall.entries,hcall.answers,hcall.served⟩
  | answered hn => exact h.answer _ _
  | missed hn hraw => exact (h.startFill _ _).putCall nofun
  | unreadable hn hraw => exact h.putCall nofun
  | served hn hraw hfresh => exact h.serve (h.answers _ _ _ _ hn _ hraw)
  | @refreshed n productId raw answeredAt entry hn hraw hstale hkey =>
    have hstart := h.startFill productId none
    have hrefresh : Backed json (options.staleMs + maxMs) { w.startFill productId none with
        refreshInFlight := insert (productCacheKey productId) w.refreshInFlight } :=
      ⟨hstart.started,hstart.fills,hstart.commands,hstart.entries,hstart.answers,hstart.served⟩
    exact hrefresh.serve (h.answers _ _ _ _ hn _ hraw)
  | rejected hn => exact h.putCall nofun
  | @queried f c product hf hphase => exact h.queried hf product
  | fetched hf hphase => exact h.fetched hf hphase
  | refused hf hcommand => exact h.settle hf rfl
  | set hf hcommand => exact h.set hf hcommand (htimely _ hf)
  | acknowledged hf hphase => exact h.settle hf rfl
  | failed hf hwaiting => exact h.settle hf rfl
  | finished hf hphase => exact h.finish hf _
  | advanced ms => exact h.advance ms

end RevalidateWorld.Backed

/-- Every value from the cache was read from the database at most `maxAge` before Redis answered
with it. -/
def RevalidateWorld.ServedWithin (maxAge : Int) (w : RevalidateWorld α) : Prop :=
  ∀ s ∈ w.served, w.ReadFrom s.productId s.product (Within maxAge s.answeredAt)

namespace RevalidateWorld.Cold

private theorem deduplicated (h : w.Cold) : w.Deduplicated := by
  have hnone : ∀ key f, ¬ w.Refreshing key f := by
    rintro key f ⟨c,hc,_⟩
    rw [h.fills] at hc
    cases hc
  refine ⟨fun f _ => by rw [h.fills],fun key f g hf => absurd hf (hnone key f),fun key => ?_⟩
  simp [h.refreshInFlight,hnone]

private theorem backed (h : w.Cold) (maxAge : Int) : w.Backed json maxAge := by
  refine ⟨?_,?_,?_,?_,?_,?_⟩
  · intro f c hf
    rw [h.fills] at hf
    cases hf
  · intro f c hf
    rw [h.fills] at hf
    cases hf
  · intro f c hf
    rw [h.fills] at hf
    cases hf
  · intro productId e he
    rw [h.entries] at he
    cases he
  · intro n productId raw answeredAt hn
    rw [h.calls] at hn
    cases hn
  · rw [h.served]
    nofun

end RevalidateWorld.Cold

/-- Whatever Redis and the database do: there is one refresh per key at most, and a failed one
gives way to the next. If the database and the `SET` take `maxMs` at most, a value is
`staleMs + maxMs` old at most when Redis answers with it. -/
theorem staleWhileRevalidate_revalidates {start : RevalidateWorld α}
    {es : List (RevalidateEvent α)} (hcold : start.Cold)
    (hrun : run (revalidateStep options json) start es = some w) :
    w.Revalidating options json ∧
      ∀ maxMs, Along (revalidateStep options json) (RevalidateEvent.Timely maxMs) start es →
        w.ServedWithin (options.staleMs + maxMs) := by
  have hdeduplicated : w.Deduplicated :=
    run_invariant (fun _ _ _ hw => hw.step) hcold.deduplicated hrun
  refine ⟨hdeduplicated.revalidating,fun maxMs htimely => ?_⟩
  have hbacked : w.Backed json (options.staleMs + maxMs) := by
    apply htimely.invariant hrun (hcold.backed _)
    intro w e t hw hok hstep
    exact hw.move hok (revalidateStep_move hstep)
  exact hbacked.served

/-- `JSON.stringify` and `JSON.parse` on entries whose product is 1 or 0. -/
def flagEntryJson : ProductJson (CacheEntry Bool) where
  stringify entry := "\x7b\"product\":" ++ (if entry.product then "1" else "0") ++
    ",\"freshUntil\":" ++ toString entry.freshUntil ++ "\x7d"
  parse text :=
    let head := text.toList.take 12
    let freshUntil := readInt (text.toList.drop 26).dropLast
    if head = "\x7b\"product\":1".toList then .ok ⟨true,freshUntil⟩
    else if head = "\x7b\"product\":0".toList then .ok ⟨false,freshUntil⟩
    else .error "SyntaxError"
  parse_stringify entry := by
    obtain ⟨product,freshUntil⟩ := entry
    have hnumber := readInt_toString freshUntil
    rw [Int.toString_eq_repr] at hnumber
    cases product <;> simp [hnumber]
  stringify_ne entry h := by
    have htext := congrArg (fun text => text.toList.length) h
    simp at htext

def coldRevalidate : RevalidateWorld Bool where
  redis _ := none
  clock := 0

private theorem coldRevalidate_cold : coldRevalidate.Cold := ⟨fun _ => rfl,rfl,rfl,rfl,rfl⟩

/-- A cold fill, a stale hit whose refresh fails while there is another one, and a stale hit that
starts the next refresh. -/
def failedRefresh : List (RevalidateEvent Bool) :=
  [.getProduct 7,.redisGet 0,.reply 0,.read 0 false,.advance 75,.fetched 0,.redisSet 0,
    .acknowledged 0,.finish 0,.advance 600,.getProduct 7,.redisGet 1,.reply 1,.getProduct 7,
    .redisGet 2,.reply 2,.rejectFill 1 "refused",.finish 1,.getProduct 7,.redisGet 3,.reply 3,
    .read 2 true,.advance 75,.fetched 2,.redisSet 2,.acknowledged 2,.finish 2,.getProduct 7,
    .redisGet 4,.advance 20,.reply 4]

theorem failedRefresh_revalidates :
    ∃ w, run (revalidateStep {} flagEntryJson) coldRevalidate failedRefresh = some w ∧
      w.served.map Served.product = [false,false,false,true] ∧
        w.Revalidating {} flagEntryJson ∧ w.ServedWithin (5000 + 75) := by
  have htimely : Along (revalidateStep {} flagEntryJson) (RevalidateEvent.Timely 75)
      coldRevalidate failedRefresh := by
    decide +kernel
  have hserved : ((run (revalidateStep {} flagEntryJson) coldRevalidate failedRefresh).map
      fun w => w.served.map Served.product) = some [false,false,false,true] := by
    decide +kernel
  obtain ⟨w,hrun,hserved⟩ := Option.map_eq_some_iff.mp hserved
  have h := staleWhileRevalidate_revalidates coldRevalidate_cold hrun
  exact ⟨w,hrun,hserved,h.1,h.2 75 htimely⟩

/-- A cold fill and, when its entry is about to expire, a hit. -/
def lateHit : List (RevalidateEvent Bool) :=
  [.getProduct 7,.redisGet 0,.reply 0,.read 0 false,.advance 75,.fetched 0,.redisSet 0,
    .acknowledged 0,.finish 0,.advance 4999,.getProduct 7,.redisGet 1]

/-- A cold fill, and a refresh by a stale hit. -/
def firstRefresh : List (RevalidateEvent Bool) :=
  [.getProduct 7,.redisGet 0,.reply 0,.read 0 false,.advance 75,.fetched 0,.redisSet 0,
    .acknowledged 0,.finish 0,.advance 600,.getProduct 7,.redisGet 1,.reply 1]

/-- The reply to a `GET` comes a second late, and with it a value that is too old by then; and a
refresh fails though Redis has executed its `SET`. -/
theorem lostReplies_not_promised :
    (¬ ∀ (es : List (RevalidateEvent Bool)) w maxMs,
      run (revalidateStep {} flagEntryJson) coldRevalidate es = some w →
      Along (revalidateStep {} flagEntryJson) (RevalidateEvent.Timely maxMs) coldRevalidate es →
      ∀ s ∈ w.served, w.ReadFrom s.productId s.product (Within (5000 + maxMs) s.servedAt)) ∧
    ¬ ∀ (es es' : List (RevalidateEvent Bool)) w t key f c error,
      run (revalidateStep {} flagEntryJson) coldRevalidate es = some w →
      run (revalidateStep {} flagEntryJson) w es' = some t → w.Refreshing key f →
      (∀ g, .redisSet g ∈ es' → g = f) → t.fill f = some c →
      c.phase = .settled (.error error) → t.redis.get t.clock key = w.redis.get t.clock key := by
  constructor
  · intro h
    have htimely : Along (revalidateStep {} flagEntryJson) (RevalidateEvent.Timely 75)
        coldRevalidate (lateHit ++ [.advance 1000,.reply 1]) := by
      decide +kernel
    obtain ⟨r,hr,_,_,hwithin⟩ :=
      h (lateHit ++ [.advance 1000,.reply 1]) _ 75 rfl htimely _ List.mem_cons_self
    obtain rfl := List.mem_singleton.mp hr
    revert hwithin
    unfold Within
    decide +kernel
  · intro h
    have hsame := h firstRefresh
      [.read 1 true,.fetched 1,.redisSet 1,.rejectFill 1 "Connection is closed."] _ _
      (productCacheKey 7) 1 _ _ rfl rfl ⟨_,rfl,rfl,rfl,rfl⟩ (by simp) rfl rfl
    revert hsame
    decide +kernel

end SystemsLab.Caching
