import ReactiveMarkup.Value.Json

/-!
# Requests and responses

A request is described by a value: a text is its address, and an object may also tell a method and
parameters. A response is of use if its status tells success and its body is JSON.

Main definitions: `Request.ofValue`, `Response.value`, `RequestError.payload`.
-/
namespace ReactiveMarkup

/-- The number of a request. -/
abbrev RequestId := Nat

/-- What a request does. -/
inductive Method where
  | get | post
  deriving DecidableEq, Repr, Inhabited

namespace Method

/-- How the method is written. -/
def text : Method → String
  | get => "GET"
  | post => "POST"

/-- The method with a name, in upper or lower case. -/
def ofName? (name : String) : Option Method :=
  let name := name.toList.map Char.toLower
  if name = "get".toList then some get
  else if name = "post".toList then some post
  else none

end Method

/-- A request to the outside. -/
structure Request where
  url : String
  method : Method
  params : Json
  deriving Inhabited

/-- Why a request gives no value. -/
inductive RequestError where
  | transport (reason : String)
  | status (status : Nat)
  | invalidJson (error : Json.ReadError)
  /-- the value, as JSON text, describes no request -/
  | invalidRequest (value : String)
  | missingTarget
  deriving DecidableEq, Repr, Inhabited

namespace RequestError

/-- What the error says. -/
def message : RequestError → String
  | transport reason => "Request failed: " ++ reason
  | status n => "Request failed with status " ++ toString n
  | invalidJson e => "Invalid JSON response: " ++ e.message
  | invalidRequest value =>
    "Invalid request \x60" ++ value ++ "\x60, expected a URL or \x7burl, method, params\x7d"
  | missingTarget => "Scope declaring \x60request\x60 has no \x60data\x60 to receive the response"

/-- The status of the response, if there was one that told failure. -/
def status? : RequestError → Option Nat
  | status n => some n
  | _ => none

/-- The object that stands for the failed request's data, stamped `stamp`. -/
def payload (stamp : Stamp) (e : RequestError) : Value :=
  .object stamp (Keyed.ofList
    [("error", .string e.message), ("status", (e.status?.map Value.ofNat).getD .null)])

end RequestError

namespace Request

/-- The request for an address alone. -/
def ofUrl (url : String) : Request := ⟨url, .get, .null⟩

/-- The method that an object tells. -/
def method? : Option Value → Option Method
  | none | some .undefined | some .null => some .get
  | some (.string name) => Method.ofName? name
  | some _ => none

/-- The request that a value describes. -/
def ofValue (v : Value) : Except RequestError Request :=
  let refuse := Except.error (.invalidRequest v.toJson.toText)
  match v with
  | .string url => .ok (ofUrl url)
  | .object _ entries =>
    match (entries.lookup "url").bind Value.string?, method? (entries.lookup "method") with
    | some url, some method => .ok ⟨url, method, ((entries.lookup "params").map Value.toJson).getD .null⟩
    | _, _ => refuse
  | _ => refuse

end Request

/-- The outcome of a request that was answered. -/
structure Response where
  status : Nat
  body : String
  deriving DecidableEq, Repr, Inhabited

namespace Response

/-- A response that tells success. -/
def ok (body : String) : Response := ⟨200, body⟩

/-- Whether the status tells success. -/
def isSuccess (r : Response) : Bool := 200 ≤ r.status && r.status < 300

/-- The value of the body, with stamps from `next` on, and the next free stamp. -/
def value (next : Stamp) (r : Response) : Except RequestError (Value × Stamp) :=
  if r.isSuccess then
    match Json.read r.body with
    | .ok j => .ok (Value.ofJson next j)
    | .error e => .error (.invalidJson e)
  else .error (.status r.status)

end Response

end ReactiveMarkup
