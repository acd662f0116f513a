import JwtService.Model.Auth

/-!
# The log of requests and its metric (`logging.rs`, `metrics.rs`)

`RequestLog.call` is the outermost layer of the service: around the answer to a
request it picks the id of the request and the labels of the metric
`http_requests_total`. What lies inside is a parameter (`App`): the router of
actix over the patterns that `configure_api` registers, and what is answered.
The span, the latency and the text of the log have no part in the labels and
are left out.
-/

namespace JwtService

/-- The characters of a method. -/
def isMethodChar (c : Char) : Bool := c.isAlphanum || "!#$%&'*+-.^_`|~".toList.contains c

/-- A method as it arrives: a standard one or any other token. -/
structure Method where
  text : String
  token : text ≠ "" ∧ ∀ c ∈ text.toList, isMethodChar c = true
deriving DecidableEq

structure StatusCode where
  code : Nat
  range : 100 ≤ code ∧ code ≤ 999
deriving DecidableEq

structure HttpRequest where
  method : Method
  path : String
  headers : HeaderMap
  body : List UInt8

/-- The patterns of `configure_api`. -/
def routePatterns (metricsEnabled : Bool) : List String :=
  ["/tokens", "/tokens/verify", "/tokens/refresh", "/tokens/{jti}", "/subjects/{sub}/tokens"] ++
    (if metricsEnabled then ["/metrics"] else []) ++
    ["/api-docs/openapi.json", "/livez", "/readyz"]

/-- The service inside of the layer: the pattern that a path matches, and what
a request may be answered after the requests so far, an error instead of a
response included. -/
structure App where
  metricsEnabled : Bool
  matchPattern : String → Option String
  matchPattern_mem : ∀ path pattern, matchPattern path = some pattern →
    pattern ∈ routePatterns metricsEnabled
  answers : List HttpRequest → HttpRequest → Option StatusCode → Prop

/-- Whether an `X-Request-Id` from outside is taken over. -/
def isValidRequestId (value : String) : Bool :=
  value != "" && decide ((Text.utf8 value).length ≤ 128) &&
    value.toList.all fun c => c.isAlphanum || c == '-' || c == '_'

/-- The id of a request, a new one if it brings no valid one. -/
def requestId (headers : HeaderMap) (fresh : String) : String :=
  ((((headers.get "x-request-id").bind headerText).map String.ofList).filter isValidRequestId).getD fresh

/-- The labels of `record_http_request`. -/
structure Labels where
  method : String
  endpoint : String
  status : Nat
deriving DecidableEq

/-- `RequestLogMiddleware::call`: the status of the response with its
`X-Request-Id`, and the labels that are recorded. An error passes through, and
nothing is recorded. -/
def RequestLog.call (app : App) (fresh : String) (req : HttpRequest) :
    Option StatusCode → Option ((StatusCode × String) × Labels)
  | none => none
  | some status =>
    let endpoint := (app.matchPattern req.path).getD "unmatched"
    some ((status, requestId req.headers fresh), ⟨req.method.text, endpoint, status.code⟩)

/-! ## Streams of requests -/

/-- A request, the id drawn for it, and what the service inside answered. -/
structure Exchange where
  request : HttpRequest
  fresh : String
  outcome : Option StatusCode

namespace App

variable (app : App)

/-- The service may answer the requests so, one after another. -/
def Serves : (past : List HttpRequest) → List Exchange → Prop
  | _, [] => True
  | past, e :: es => app.answers past e.request e.outcome ∧ Serves (past ++ [e.request]) es

/-- The labels that are recorded of an exchange. -/
def labels (e : Exchange) : Option Labels :=
  (RequestLog.call app e.fresh e.request e.outcome).map Prod.snd

def recorded (es : List Exchange) : List Labels := es.filterMap app.labels

end App

end JwtService
