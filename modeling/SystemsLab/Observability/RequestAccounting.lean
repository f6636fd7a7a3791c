import SystemsLab.Observability.Server
import Mathlib

/-!
# What a request leaves behind

The `try` block answers the request with its status code or throws before it has written anything;
the `catch` block answers what has not been answered; so there is exactly one answer when the
`finally` block accounts for it. What comes before the `try` block has no such protection.
-/

namespace SystemsLab.Observability

variable {ν : Type} {platform : Platform ν} {outcomes : Outcomes ν} {bindings : LogBindings}
  {updates : List MetricUpdate} {statusCode : Nat}

def MetricUpdate.inFlight : MetricUpdate → Int
  | inFlightInc => 1
  | inFlightDec => -1
  | _ => 0

/-- The gauge after some updates. -/
def inFlightAfter (before : Int) (updates : List MetricUpdate) : Int :=
  before + (updates.map MetricUpdate.inFlight).sum

def requestsTotal (updates : List MetricUpdate) : List RequestLabels :=
  updates.filterMap fun
    | .requestsTotal labels => some labels
    | _ => none

def errorsTotal (updates : List MetricUpdate) : List String :=
  updates.filterMap fun
    | .errorsTotal route => some route
    | _ => none

def completions (logs : List LogLine) : Nat := logs.countP fun line => line.step = "request.complete"

/-- The response has been ended once, and the metrics and the logs say so. -/
structure RequestState.Accounted (method : String) (s : RequestState) : Prop where
  ended : s.res.ended.length = 1
  restored : ∀ before, inFlightAfter before s.updates = before
  counted : ∃ statusCode contentType route, s.res.head = some (statusCode,contentType) ∧
    requestsTotal s.updates = [⟨method,route,toString statusCode⟩] ∧
      errorsTotal s.updates = if 500 ≤ statusCode then [route] else []
  completed : completions s.logs = 1

structure Unanswered (updates : List MetricUpdate) (s : RequestState) : Prop where
  res : s.res = {}
  updates : s.updates = updates
  logs : completions s.logs = 0

/-- The answer is still to be given, with this status code. -/
def Ready (updates : List MetricUpdate) (statusCode : Nat) (s : RequestState) : Prop :=
  Unanswered updates s ∧ s.statusCode = statusCode

structure Answered (updates : List MetricUpdate) (s : RequestState) : Prop where
  head : ∃ contentType, s.res.head = some (s.statusCode,contentType)
  ended : s.res.ended.length = 1
  updates : s.updates = updates
  logs : completions s.logs = 0

private theorem completions_append (logs : List LogLine) (line : LogLine) :
    completions (logs ++ [line]) =
      completions logs + if line.step = "request.complete" then 1 else 0 := by
  simp [completions,List.countP_append,List.countP_singleton]

theorem log_keeps {line : LogLine} (h : line.step ≠ "request.complete") :
    Keeps (Ready updates statusCode) (log line) := by
  apply Keeps.update
  rintro s ⟨hs,hcode⟩
  refine ⟨⟨hs.res,hs.updates,?_⟩,hcode⟩
  rw [completions_append,hs.logs,if_neg h]

private theorem setOutcome_ready {outcome : String} {E : Thrown → RequestState → Prop} :
    Triple (Unanswered updates) (setOutcome statusCode outcome)
      (fun _ => Ready updates statusCode) E := by
  apply Triple.update
  intro s hs
  exact ⟨⟨hs.res,hs.updates,hs.logs⟩,rfl⟩

private theorem write_answers {contentType payload : String} {E : Thrown → RequestState → Prop} :
    Triple (Ready updates statusCode)
      (do writeHead statusCode contentType; endResponse payload)
      (fun _ => Answered updates) E := by
  rintro s ⟨hs,rfl⟩
  obtain ⟨code,outcome,errorForLog,res,_,logs,naiveLog⟩ := s
  obtain ⟨rfl,rfl,hlogs⟩ := hs
  exact ⟨⟨contentType,rfl⟩,rfl,rfl,hlogs⟩

private theorem send_answers (body : ResponseBody ν) :
    Triple (Ready updates statusCode) (send platform statusCode body)
      (fun _ => Answered updates) fun _ => Unanswered updates := by
  refine Triple.seq (Q := fun _ => Ready updates statusCode) ?_ fun payload => write_answers
  exact Triple.lift (fun _ _ _ hs => hs) fun _ _ _ hs => hs.1

theorem findOrderById_keeps (slow : Bool) :
    Keeps (Ready updates statusCode) (findOrderById outcomes slow bindings) := by
  refine .seq (log_keeps (by simp)) fun _ => .seq ?_ fun _ => .seq (.lift _) fun rows => ?_
  · exact .split (.lift _) (.done _)
  · exact .seq (log_keeps (by simp)) fun _ => .done _

theorem insertOrder_keeps (input : NewOrderInput ν) :
    Keeps (Ready updates statusCode) (insertOrder outcomes input bindings) := by
  refine .seq (log_keeps (by simp)) fun _ => .seq (.lift _) fun rows => ?_
  exact .seq (log_keeps (by simp)) fun _ => .done _

theorem buildOrderView_keeps (order : OrderRow ν) :
    Keeps (Ready updates statusCode) (buildOrderView platform order bindings) := by
  refine .seq (log_keeps (by simp)) fun _ => .seq (.lift _) fun domain => ?_
  exact .seq (log_keeps (by simp)) fun _ => .done _

theorem readJsonBody_keeps : Keeps (Ready updates statusCode) (readJsonBody platform outcomes) :=
  .seq (.lift _) fun _ => .split (.done _) (.lift _)

private theorem unanswered_of_ready (_ : Thrown) (s : RequestState)
    (h : Ready updates statusCode s) :
    Unanswered updates s :=
  h.1

private theorem outcome_answers {code : Nat} {outcome : String} (body : ResponseBody ν) :
    Triple (Ready updates statusCode) (do setOutcome code outcome; send platform code body)
      (fun _ => Answered updates) fun _ => Unanswered updates :=
  Triple.seq (setOutcome_ready.mono (fun _ hs => hs.1) (fun _ _ => id) fun _ _ => id)
    fun _ => send_answers body

private theorem getMetrics_answers :
    Triple (Ready updates 200) (getMetrics platform outcomes) (fun _ => Answered updates)
      fun _ => Unanswered updates :=
  (Keeps.lift outcomes.metrics).before unanswered_of_ready fun _ => write_answers

private theorem getOrder_answers (digits : String) (url : Url) :
    Triple (Ready updates 200) (getOrder platform outcomes digits url bindings)
      (fun _ => Answered updates) fun _ => Unanswered updates := by
  refine (findOrderById_keeps _).before unanswered_of_ready fun found => ?_
  cases found with
  | none => exact outcome_answers _
  | some order =>
    refine (buildOrderView_keeps order).before unanswered_of_ready fun view => ?_
    exact outcome_answers _

private theorem postOrder_answers :
    Triple (Ready updates 200) (postOrder platform outcomes bindings)
      (fun _ => Answered updates) fun _ => Unanswered updates := by
  refine readJsonBody_keeps.before unanswered_of_ready fun body => ?_
  refine (Keeps.lift _).before unanswered_of_ready fun customerEmail => ?_
  refine (Keeps.lift _).before unanswered_of_ready fun amount => ?_
  refine (Keeps.lift _).before unanswered_of_ready fun amountCents => ?_
  refine (insertOrder_keeps _).before unanswered_of_ready fun created => ?_
  exact outcome_answers _

private theorem routeRequest_answers (method : String) (url : Url) :
    Triple (Ready updates 200) (routeRequest platform outcomes method url bindings)
      (fun _ => Answered updates) fun _ => Unanswered updates := by
  unfold routeRequest
  split
  · exact send_answers _
  split
  · exact getMetrics_answers
  split
  · exact getOrder_answers _ _
  split
  · exact postOrder_answers
  · exact outcome_answers _

private theorem requestFailed_answers (error : Thrown) :
    Triple (Unanswered updates) (requestFailed platform error) (fun _ => Answered updates)
      fun _ _ => False := by
  have hready : Triple (Unanswered updates)
      (modify fun s => { s with statusCode := 500, outcome := "error", errorForLog := error })
      (fun _ => Ready updates 500) fun (_ : Thrown) _ => False :=
    Triple.update fun s hs => ⟨⟨hs.res,hs.updates,hs.logs⟩,rfl⟩
  obtain ⟨payload,hpayload⟩ := platform.stringify_internalServerError
  refine hready.seq fun _ => Triple.seq (Q := fun _ => Ready updates 500) ?_ fun _ => write_answers
  refine Triple.lift (fun _ _ _ hs => hs) fun e he => ?_
  rw [hpayload] at he
  cases he

def completionUpdates (bindings : LogBindings) (statusCode : Nat) : List MetricUpdate :=
  let labels := ⟨bindings.method,bindings.route,toString statusCode⟩
  [.inFlightDec,.dbPool,.requestsTotal labels,.requestDuration labels] ++
    if 500 ≤ statusCode then [.errorsTotal bindings.route] else []

private theorem requestComplete_eq (s : RequestState) : requestComplete bindings s =
    .ok () { s with
      updates := s.updates ++ completionUpdates bindings s.statusCode
      logs := s.logs ++ [completion bindings s]
      naiveLog := s.naiveLog ++ [⟨bindings.route,bindings.method,s.statusCode,s.outcome⟩] } := by
  unfold requestComplete completionUpdates
  by_cases hcode : 500 ≤ s.statusCode
  · simp [hcode,bind,EStateM.bind,get,getThe,MonadStateOf.get,EStateM.get,update,log,modify,modifyGet,
      MonadStateOf.modifyGet,EStateM.modifyGet]
  · simp [hcode,bind,EStateM.bind,get,getThe,MonadStateOf.get,EStateM.get,update,log,modify,modifyGet,
      MonadStateOf.modifyGet,EStateM.modifyGet]

private theorem inFlightAfter_append (before : Int) (updates more : List MetricUpdate) :
    inFlightAfter before (updates ++ more) = inFlightAfter (inFlightAfter before updates) more := by
  simp [inFlightAfter,add_assoc]

private theorem completionUpdates_inFlight (before : Int) (bindings : LogBindings)
    (statusCode : Nat) :
    inFlightAfter before (completionUpdates bindings statusCode) = before - 1 := by
  unfold completionUpdates
  split <;> simp [inFlightAfter,MetricUpdate.inFlight,sub_eq_add_neg]

private theorem completionUpdates_requestsTotal (bindings : LogBindings) (statusCode : Nat) :
    requestsTotal (completionUpdates bindings statusCode) =
      [⟨bindings.method,bindings.route,toString statusCode⟩] := by
  unfold completionUpdates
  split <;> rfl

private theorem completionUpdates_errorsTotal (bindings : LogBindings) (statusCode : Nat) :
    errorsTotal (completionUpdates bindings statusCode) =
      if 500 ≤ statusCode then [bindings.route] else [] := by
  unfold completionUpdates
  split <;> rfl

private theorem requestComplete_accounted :
    Triple (Answered [.inFlightInc]) (requestComplete bindings)
      (fun _ => RequestState.Accounted bindings.method) fun _ _ => False := by
  rintro s ⟨⟨contentType,hhead⟩,hended,hupdates,hlogs⟩
  rw [requestComplete_eq,hupdates]
  refine ⟨hended,?_,⟨s.statusCode,contentType,bindings.route,hhead,?_,?_⟩,?_⟩
  · intro before
    rw [inFlightAfter_append,completionUpdates_inFlight]
    simp [inFlightAfter,MetricUpdate.inFlight]
  · exact completionUpdates_requestsTotal bindings s.statusCode
  · exact completionUpdates_errorsTotal bindings s.statusCode
  · rw [completions_append,hlogs]
    rfl

/-- What follows the parsing of the request target. -/
theorem parsed_accounted (req : IncomingMessage) {url : Url}
    (hurl : platform.parseUrl (req.url.getD "/") = some url) :
    Triple (· = {}) (handleRequest platform outcomes req)
      (fun _ => RequestState.Accounted (req.method.getD "GET")) fun _ _ => False := by
  have hparse : newUrl platform (req.url.getD "/") = pure url := by
    rw [newUrl,hurl]
  let bindings : LogBindings :=
    ⟨req.requestId.getD outcomes.randomUUID,routeOf url.pathname,req.method.getD "GET"⟩
  have hinc : Triple (· = {}) (update .inFlightInc) (fun _ => Ready [.inFlightInc] 200)
      fun _ _ => False := by
    apply Triple.update
    rintro _ rfl
    exact ⟨⟨rfl,rfl,rfl⟩,rfl⟩
  have hstart : Triple (Ready [.inFlightInc] 200)
      (log { bindings, step := "request.start", message := "request start" })
      (fun _ => Ready [.inFlightInc] 200) fun _ _ => False := by
    apply Triple.update
    rintro s ⟨hs,hcode⟩
    refine ⟨⟨hs.res,hs.updates,?_⟩,hcode⟩
    rw [completions_append,hs.logs]
    rfl
  have hanswer : Triple (Ready [.inFlightInc] 200)
      (tryCatch (routeRequest platform outcomes bindings.method url bindings)
        (requestFailed platform))
      (fun _ => Answered [.inFlightInc]) fun _ _ => False :=
    (routeRequest_answers bindings.method url).handle requestFailed_answers
  have hcomplete : Triple (Ready [.inFlightInc] 200)
      (tryFinally (tryCatch (routeRequest platform outcomes bindings.method url bindings)
        (requestFailed platform)) (requestComplete bindings))
      (fun _ => RequestState.Accounted bindings.method) fun _ _ => False :=
    hanswer.finalize (fun _ => requestComplete_accounted) fun _ _ => False.elim
  have hall := hinc.seq fun _ => hstart.seq fun _ => hcomplete
  unfold handleRequest
  rw [hparse]
  exact hall

/-- A request is answered and accounted for if and only if its target is a URL, whatever the
client, the database and the registry do. -/
theorem handleRequest_accounted_iff (platform : Platform ν) (outcomes : Outcomes ν)
    (req : IncomingMessage) :
    (∃ s : RequestState, handleRequest platform outcomes req {} = .ok () s ∧
        s.Accounted (req.method.getD "GET")) ↔
      (platform.parseUrl (req.url.getD "/")).isSome = true := by
  cases hurl : platform.parseUrl (req.url.getD "/") with
  | none =>
    have hthrows : handleRequest platform outcomes req {} =
        .error (.error "TypeError" "Invalid URL") {} := by
      unfold handleRequest newUrl
      rw [hurl]
      rfl
    simp [hthrows]
  | some url =>
    have haccounted : Triple (· = {}) (handleRequest platform outcomes req)
        (fun _ => RequestState.Accounted (req.method.getD "GET")) fun _ _ => False :=
      parsed_accounted req hurl
    have hdone := haccounted {} rfl
    cases hrun : handleRequest platform outcomes req {} with
    | ok _ s =>
      rw [hrun] at hdone
      exact iff_of_true ⟨s,rfl,hdone⟩ rfl
    | error e s =>
      rw [hrun] at hdone
      exact hdone.elim

/-- Requests may be handled at the same time: in whatever order their updates reach the gauge, it
is back where it was in the end. -/
theorem inFlight_interleaved {handled : List RequestState}
    (h : ∀ s ∈ handled, ∃ method, s.Accounted method) {all : List MetricUpdate}
    (hall : all.Perm (handled.flatMap RequestState.updates)) (before : Int) :
    inFlightAfter before all = before := by
  have hzero : ((handled.flatMap RequestState.updates).map MetricUpdate.inFlight).sum = 0 := by
    clear hall
    induction handled with
    | nil => rfl
    | cons s handled ih =>
      obtain ⟨method,hs⟩ := h s List.mem_cons_self
      have hown : (s.updates.map MetricUpdate.inFlight).sum = 0 := by
        simpa [inFlightAfter] using hs.restored 0
      rw [List.flatMap_cons,List.map_append,List.sum_append,hown,
        ih fun t ht => h t (List.mem_cons_of_mem _ ht)]
      rfl
  rw [inFlightAfter,(hall.map _).sum_eq,hzero,add_zero]

def isSlash (c : Char) : Bool := c = '/' || c = '\\'

/-- The parameters of a query without escapes. -/
def parseSearch (search : List Char) : List (String × String) :=
  (search.splitOn '&').map fun pair =>
    (String.ofList (pair.takeWhile (· ≠ '=')),String.ofList ((pair.dropWhile (· ≠ '=')).drop 1))

def parsePath (cs : List Char) : Url :=
  let path := cs.takeWhile fun c => c ≠ '?' ∧ c ≠ '#'
  let search := ((cs.dropWhile fun c => c ≠ '?' ∧ c ≠ '#').takeWhile (· ≠ '#')).drop 1
  ⟨String.ofList (if path.head?.any isSlash then path else '/' :: path),parseSearch search⟩

/-- `new URL(target, "http://localhost")` for targets without a scheme that need no
normalisation. Two slashes start an authority, whose host must not be empty; host and port are taken
to be valid otherwise. -/
def parseTarget (target : String) : Option Url :=
  let cs := target.toList
  if (cs.take 2).length = 2 ∧ (cs.take 2).all isSlash then
    let authority := cs.dropWhile isSlash
    let host := authority.takeWhile fun c => !isSlash c ∧ c ≠ '?' ∧ c ≠ '#'
    if host = [] then none else some (parsePath (authority.drop host.length))
  else some (parsePath cs)

/-- A runtime whose texts need no escapes. -/
def plainPlatform : Platform Nat where
  parseUrl := parseTarget
  parseJson _ := .error (.error "SyntaxError" "Unexpected end of JSON input")
  toNumber
    | .number n => .ok n
    | _ => .ok 0
  digitsToNumber digits := Nat.ofDigitChars 10 digits.toList 0
  zero := 0
  toLowerCase := String.toLower
  metricsContentType := "text/plain; version=0.0.4; charset=utf-8"
  stringify
    | .health => .ok "\x7b\"status\":\"ok\"\x7d"
    | .notFound => .ok "\x7b\"error\":\"not found\"\x7d"
    | .orderNotFound orderId =>
      .ok ("\x7b\"error\":\"order not found\",\"orderId\":" ++ toString orderId ++ "\x7d")
    | .order view => .ok ("\x7b\"publicId\":\"" ++ view.publicId ++ "\",\"amountCents\":" ++
        toString view.amountCents ++ ",\"status\":\"" ++ view.status ++
          "\",\"emailDomain\":\"" ++ view.emailDomain ++ "\"\x7d")
    | .created _ => .ok "\x7b\x7d"
    | .internalServerError => .ok "\x7b\"error\":\"internal server error\"\x7d"
  stringify_internalServerError := ⟨_,rfl⟩

/-- A database without orders. -/
def noOrders : Outcomes Nat where
  chunks := .ok []
  pgSleep := .ok ()
  selectOrder := .ok []
  insertOrder _ := .error (.error "error" "null value in column")
  metrics := .ok ""
  randomUUID := "00000000-0000-4000-8000-000000000000"

example : parseTarget "/orders/7?slow=1" = some ⟨"/orders/7",[("slow","1")]⟩ := by decide

/-- `GET //` is neither answered nor counted. -/
theorem emptyHost_not_accounted :
    ¬ ∀ (outcomes : Outcomes Nat) (req : IncomingMessage), ∃ s : RequestState,
      handleRequest plainPlatform outcomes req {} = .ok () s ∧
        s.Accounted (req.method.getD "GET") := by
  intro h
  obtain ⟨s,hs,_⟩ := h noOrders ⟨some "GET",some "//",none⟩
  have hthrows : handleRequest plainPlatform noOrders ⟨some "GET",some "//",none⟩ {} =
      .error (.error "TypeError" "Invalid URL") {} := rfl
  rw [hthrows] at hs
  cases hs

end SystemsLab.Observability
