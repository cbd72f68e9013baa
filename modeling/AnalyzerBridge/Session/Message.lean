import AnalyzerBridge.Json.Basic

/-!
The messages of a session: what the editor sends, and what it is sent.
-/

namespace AnalyzerBridge.Session

/-- A request, or a notification if it has no number. -/
structure Message where
  id : Option Json
  method : String
  params : Option Json
deriving Repr

/-- Why a request is refused. -/
inductive Refusal where
  | notInitialized
  | invalidRequest
  | methodNotFound (name : Option String)
  | invalidParams (reason : String)
  | cancelled
deriving DecidableEq, Repr

/-- The protocol's number for a refusal. -/
def Refusal.code : Refusal → Int
  | notInitialized => -32002
  | invalidRequest => -32600
  | methodNotFound _ => -32601
  | invalidParams _ => -32602
  | cancelled => -32800

def Refusal.message : Refusal → String
  | notInitialized => "Server not initialized"
  | invalidRequest => "Invalid request"
  | methodNotFound _ => "Method not found"
  | invalidParams reason => reason
  | cancelled => "Canceled"

/-- What a refusal says beyond its wording. -/
def Refusal.data : Refusal → Option Json
  | methodNotFound name => name.map .text
  | _ => none

inductive Outgoing where
  | result (id : Json) (value : Json)
  | refusal (id : Json) (reason : Refusal)
  | notification (method : String) (params : Json)
deriving Repr

def Outgoing.toJson : Outgoing → Json
  | result id value => .object [("id", id), ("result", value)]
  | refusal id reason => .object [("id", id), ("error", .ofMembers [("code", some (.int reason.code)),
      ("message", some (.text reason.message)), ("data", reason.data)])]
  | notification method params => .object [("method", .text method), ("params", params)]

def Outgoing.isNotification : Outgoing → Bool
  | notification .. => true
  | _ => false

def Outgoing.answers? : Outgoing → Option Json
  | result id _ => some id
  | refusal id _ => some id
  | notification .. => none

/-- The message that a value is. A member that is null counts as one, and an absent one as none. -/
def Message.ofJson (v : Json) : Message where
  id := v.get? "id"
  method := match v.get? "method" with
    | some (.text m) => m
    | _ => ""
  params := v.get? "params"

end AnalyzerBridge.Session
