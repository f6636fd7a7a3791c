import SystemsLab.Framework.Exceptional

/-!
# `handleRequest`

One request from the start of `handleRequest` to its end, with what it does to the response, to
the metrics and to the logs. What the runtime, the database and the client contribute is given
beforehand: it may be anything. Times are left out.
-/

namespace SystemsLab.Observability

variable {ν : Type}

inductive Thrown
  | undefined
  | error (name message : String)
  deriving DecidableEq, Repr

inductive JsonValue (ν : Type)
  | null
  | bool (value : Bool)
  | number (value : ν)
  | string (value : String)
  | array (items : List (JsonValue ν))
  | object (fields : List (String × JsonValue ν))

/-- `value.field`, where `none` is `undefined`. -/
def JsonValue.get (value : JsonValue ν) (field : String) : Except Thrown (Option (JsonValue ν)) :=
  match value with
  | .null =>
    let message := "Cannot read properties of null (reading '" ++ field ++ "')"
    .error (.error "TypeError" message)
  | .object fields => .ok (fields.lookup field)
  | _ => .ok none

structure Url where
  pathname : String
  searchParams : List (String × String) := []
  deriving DecidableEq, Repr

structure OrderRow (ν : Type) where
  id : ν
  publicId : String
  customerEmail : Option String
  amountCents : ν
  status : String
  createdAt : String
  deriving DecidableEq, Repr

structure OrderView (ν : Type) where
  publicId : String
  amountCents : ν
  status : String
  emailDomain : String
  deriving DecidableEq, Repr

structure NewOrderInput (ν : Type) where
  customerEmail : JsonValue ν
  amountCents : ν

/-- What `send` is given. -/
inductive ResponseBody (ν : Type)
  | health
  | notFound
  | orderNotFound (orderId : ν)
  | order (view : OrderView ν)
  | created (row : Option (OrderRow ν))
  | internalServerError
  deriving DecidableEq, Repr

/-- What the runtime does. `parseUrl` is `new URL` on the base `http://localhost`, and `parseJson`
is `JSON.parse` on the UTF-8 text of some bytes. -/
structure Platform (ν : Type) where
  parseUrl : String → Option Url
  parseJson : List UInt8 → Except Thrown (JsonValue ν)
  toNumber : JsonValue ν → Except Thrown ν
  digitsToNumber : String → ν
  zero : ν
  toLowerCase : String → String
  metricsContentType : String
  stringify : ResponseBody ν → Except Thrown String
  stringify_internalServerError : ∃ payload, stringify .internalServerError = .ok payload

structure IncomingMessage where
  method : Option String
  url : Option String
  requestId : Option String
  deriving DecidableEq, Repr

/-- What the client, the database, the registry and `randomUUID` reply, if they are asked. -/
structure Outcomes (ν : Type) where
  chunks : Except Thrown (List (List UInt8))
  pgSleep : Except Thrown Unit
  selectOrder : Except Thrown (List (OrderRow ν))
  insertOrder : NewOrderInput ν → Except Thrown (List (OrderRow ν))
  metrics : Except Thrown String
  randomUUID : String

/-- `ended` has one entry for each call of `end`. -/
structure ServerResponse where
  head : Option (Nat × String) := none
  ended : List String := []
  deriving DecidableEq, Repr

structure RequestLabels where
  method : String
  route : String
  statusCode : String
  deriving DecidableEq, Repr

inductive MetricUpdate
  | inFlightInc
  | inFlightDec
  | dbPool
  | requestsTotal (labels : RequestLabels)
  | requestDuration (labels : RequestLabels)
  | errorsTotal (route : String)
  deriving DecidableEq, Repr

inductive LogLevel
  | info
  | error
  deriving DecidableEq, Repr

/-- What `logger.child` binds. -/
structure LogBindings where
  requestId : String
  route : String
  method : String
  deriving DecidableEq, Repr

structure LogLine where
  bindings : LogBindings
  level : LogLevel := .info
  step : String
  message : String
  statusCode : Option Nat := none
  outcome : Option String := none
  err : Option Thrown := none
  deriving DecidableEq, Repr

structure NaiveLogLine where
  route : String
  method : String
  statusCode : Nat
  outcome : String
  deriving DecidableEq, Repr

/-- The local variables of `handleRequest`, and what it has done. -/
structure RequestState where
  statusCode : Nat := 200
  outcome : String := "success"
  errorForLog : Thrown := .undefined
  res : ServerResponse := {}
  updates : List MetricUpdate := []
  logs : List LogLine := []
  naiveLog : List NaiveLogLine := []
  deriving DecidableEq, Repr

abbrev Handler := EStateM Thrown RequestState

def update (u : MetricUpdate) : Handler Unit :=
  modify fun s => { s with updates := s.updates ++ [u] }

def log (line : LogLine) : Handler Unit :=
  modify fun s => { s with logs := s.logs ++ [line] }

def setOutcome (statusCode : Nat) (outcome : String) : Handler Unit :=
  modify fun s => { s with statusCode, outcome }

/-- `res.writeHead`, which throws if the head has been written. -/
def writeHead (statusCode : Nat) (contentType : String) : Handler Unit := do
  let s ← get
  match s.res.head with
  | some _ => throw (.error "Error" "Cannot write headers after they are sent to the client")
  | none => set { s with res := { s.res with head := some (statusCode,contentType) } }

/-- `res.end`. -/
def endResponse (payload : String) : Handler Unit :=
  modify fun s => { s with res := { s.res with ended := s.res.ended ++ [payload] } }

variable (platform : Platform ν) (outcomes : Outcomes ν)

def newUrl (target : String) : Handler Url :=
  match platform.parseUrl target with
  | some url => pure url
  | none => throw (.error "TypeError" "Invalid URL")

def readJsonBody : Handler (JsonValue ν) := do
  let chunks ← liftExcept outcomes.chunks
  if chunks = [] then return .object []
  else liftExcept (platform.parseJson chunks.flatten)

def send (statusCode : Nat) (body : ResponseBody ν) : Handler Unit := do
  let payload ← liftExcept (platform.stringify body)
  writeHead statusCode "application/json"
  endResponse payload

def sleepIfSlow (slow : Bool) : Handler Unit :=
  if slow then liftExcept outcomes.pgSleep else pure ()

def findOrderById (slow : Bool) (bindings : LogBindings) : Handler (Option (OrderRow ν)) := do
  log { bindings, step := "db.query.start", message := "db query start" }
  sleepIfSlow outcomes slow
  let rows ← liftExcept outcomes.selectOrder
  log { bindings, step := "db.query.end", message := "db query end" }
  return rows.head?

def insertOrder (input : NewOrderInput ν) (bindings : LogBindings) :
    Handler (Option (OrderRow ν)) := do
  log { bindings, step := "db.query.start", message := "db query start" }
  let rows ← liftExcept (outcomes.insertOrder input)
  log { bindings, step := "db.query.end", message := "db query end" }
  return rows.head?

/-- `customerEmail!.split("@")[1]!.toLowerCase()`. -/
def emailDomain (customerEmail : Option String) : Except Thrown String :=
  match customerEmail with
  | none => .error (.error "TypeError" "Cannot read properties of null (reading 'split')")
  | some email =>
    match (email.splitOn "@")[1]? with
    | none =>
      .error (.error "TypeError" "Cannot read properties of undefined (reading 'toLowerCase')")
    | some domain => .ok (platform.toLowerCase domain)

def buildOrderView (order : OrderRow ν) (bindings : LogBindings) : Handler (OrderView ν) := do
  log { bindings, step := "business_logic.start", message := "business logic start" }
  let emailDomain ← liftExcept (emailDomain platform order.customerEmail)
  log { bindings, step := "business_logic.end", message := "business logic end" }
  return ⟨order.publicId,order.amountCents,order.status,emailDomain⟩

/-- The digits of `/^\/orders\/(\d+)$/`. -/
def orderIdMatch (pathname : String) : Option String :=
  let digits := pathname.toList.drop 8
  if "/orders/".toList.isPrefixOf pathname.toList ∧ digits ≠ [] ∧ digits.all Char.isDigit then
    some (String.ofList digits)
  else none

def routeOf (pathname : String) : String :=
  if pathname = "/orders" then "/orders"
  else if (orderIdMatch pathname).isSome then "/orders/:id"
  else pathname

def getMetrics : Handler Unit := do
  let body ← liftExcept outcomes.metrics
  writeHead 200 platform.metricsContentType
  endResponse body

def getOrder (digits : String) (url : Url) (bindings : LogBindings) : Handler Unit := do
  let slow := url.searchParams.lookup "slow" = some "1"
  match ← findOrderById outcomes slow bindings with
  | none =>
    setOutcome 404 "not_found"
    send platform 404 (.orderNotFound (platform.digitsToNumber digits))
  | some order =>
    let view ← buildOrderView platform order bindings
    setOutcome 200 "success"
    send platform 200 (.order view)

/-- `Number(amount ?? 0)`. -/
def amountOf (amount : Option (JsonValue ν)) : Except Thrown ν :=
  match amount with
  | none => .ok platform.zero
  | some .null => .ok platform.zero
  | some value => platform.toNumber value

def postOrder (bindings : LogBindings) : Handler Unit := do
  let body ← readJsonBody platform outcomes
  let customerEmail ← liftExcept (body.get "customerEmail")
  let amount ← liftExcept (body.get "amountCents")
  let amountCents ← liftExcept (amountOf platform amount)
  let created ← insertOrder outcomes ⟨customerEmail.getD .null,amountCents⟩ bindings
  setOutcome 201 "success"
  send platform 201 (.created created)

/-- The `try` block. -/
def routeRequest (method : String) (url : Url) (bindings : LogBindings) : Handler Unit :=
  if method = "GET" ∧ url.pathname = "/health" then send platform 200 .health
  else if method = "GET" ∧ url.pathname = "/metrics" then getMetrics platform outcomes
  else match if method = "GET" then orderIdMatch url.pathname else none with
    | some digits => getOrder platform outcomes digits url bindings
    | none =>
      if method = "POST" ∧ url.pathname = "/orders" then postOrder platform outcomes bindings
      else do
        setOutcome 404 "not_found"
        send platform 404 .notFound

/-- The `catch` block. -/
def requestFailed (error : Thrown) : Handler Unit := do
  modify fun s => { s with statusCode := 500, outcome := "error", errorForLog := error }
  send platform 500 .internalServerError

/-- The last line of a request. -/
def completion (bindings : LogBindings) (s : RequestState) : LogLine where
  bindings
  level := if s.errorForLog = .undefined then .info else .error
  step := "request.complete"
  message := if s.errorForLog = .undefined then "request complete" else "request failed"
  statusCode := some s.statusCode
  outcome := some s.outcome
  err := if s.errorForLog = .undefined then none else some s.errorForLog

/-- The `finally` block. -/
def requestComplete (bindings : LogBindings) : Handler Unit := do
  let s ← get
  let labels := ⟨bindings.method,bindings.route,toString s.statusCode⟩
  update .inFlightDec
  update .dbPool
  update (.requestsTotal labels)
  update (.requestDuration labels)
  if 500 ≤ s.statusCode then update (.errorsTotal bindings.route)
  log (completion bindings s)
  modify fun t => { t with naiveLog := t.naiveLog ++
    [⟨bindings.route,bindings.method,s.statusCode,s.outcome⟩] }

def handleRequest (req : IncomingMessage) : Handler Unit := do
  let method := req.method.getD "GET"
  let url ← newUrl platform (req.url.getD "/")
  let requestId := req.requestId.getD outcomes.randomUUID
  let bindings : LogBindings := ⟨requestId,routeOf url.pathname,method⟩
  update .inFlightInc
  log { bindings, step := "request.start", message := "request start" }
  try
    routeRequest platform outcomes method url bindings
  catch error =>
    requestFailed platform error
  finally
    requestComplete bindings

end SystemsLab.Observability
