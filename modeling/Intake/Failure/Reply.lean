import Intake.Failure.Basic

/-!
Replies to requests that fail. Every failure is noted once when it becomes a reply: as a warning if
the client can mend it, and as an error if not.
-/

namespace Intake

/-- A reply: its status and its body. -/
structure Reply where
  status : Nat
  body : Value
deriving Repr, Inhabited

namespace Failure

/-- The reply for a failure. -/
def reply (f : Failure) : Action Reply := do
  let status := f.code.httpStatus
  Action.note (if status < 500 then .warning else .error) "error_response"
    [("error_code", .text f.code.name), ("error_code_num", .int f.code.number),
      ("message", .text f.message), ("category", .text f.code.category),
      ("correlation_id", .text f.correlation.text),
      ("origin", (f.origin.map Value.text).getD .null)]
  return ⟨status, f.envelope⟩

/-- What statuses are called. -/
def reasons : List (Nat × String) :=
  [(100, "Continue"), (101, "Switching Protocols"), (102, "Processing"), (103, "Early Hints"),
    (200, "OK"), (201, "Created"), (202, "Accepted"), (203, "Non-Authoritative Information"),
    (204, "No Content"), (205, "Reset Content"), (206, "Partial Content"), (207, "Multi-Status"),
    (208, "Already Reported"), (226, "IM Used"), (300, "Multiple Choices"),
    (301, "Moved Permanently"), (302, "Found"), (303, "See Other"), (304, "Not Modified"),
    (305, "Use Proxy"), (307, "Temporary Redirect"), (308, "Permanent Redirect"),
    (400, "Bad Request"), (401, "Unauthorized"), (402, "Payment Required"), (403, "Forbidden"),
    (404, "Not Found"), (405, "Method Not Allowed"), (406, "Not Acceptable"),
    (407, "Proxy Authentication Required"), (408, "Request Timeout"), (409, "Conflict"),
    (410, "Gone"), (411, "Length Required"), (412, "Precondition Failed"),
    (413, "Request Entity Too Large"), (414, "Request-URI Too Long"),
    (415, "Unsupported Media Type"), (416, "Requested Range Not Satisfiable"),
    (417, "Expectation Failed"), (418, "I'm a Teapot"), (421, "Misdirected Request"),
    (422, "Unprocessable Entity"), (423, "Locked"), (424, "Failed Dependency"), (425, "Too Early"),
    (426, "Upgrade Required"), (428, "Precondition Required"), (429, "Too Many Requests"),
    (431, "Request Header Fields Too Large"), (451, "Unavailable For Legal Reasons"),
    (500, "Internal Server Error"), (501, "Not Implemented"), (502, "Bad Gateway"),
    (503, "Service Unavailable"), (504, "Gateway Timeout"), (505, "HTTP Version Not Supported"),
    (506, "Variant Also Negotiates"), (507, "Insufficient Storage"), (508, "Loop Detected"),
    (510, "Not Extended"), (511, "Network Authentication Required")]

/-- The code for a status that a handler of requests ends with. -/
def codeOfStatus (status : Nat) : ErrorCode :=
  if status = 400 ∨ status = 422 then .invalid
  else if status = 404 then .notFound
  else if status = 413 then .payloadTooLarge
  else if status = 415 then .unsupportedMediaType
  else if 500 ≤ status then .unexpected
  else .internal

/-- The failure of a request that ends with a status. Without a detail the status says what it is
called. -/
def ofStatus (status : Nat) (detail : Option String) (correlation : Option String) : Failure :=
  let detail := detail.getD ((reasons.lookup status).getD "")
  { code := codeOfStatus status
    message := if detail.isEmpty then "HTTP " ++ toString status else detail
    correlation := .given (correlation.getD "")
    origin := some "http"
    requestId := none
    metadata := [] }

/-- A problem with a parameter of a request: the way to it, of which the first step is the part of the
request, and the message. -/
structure ParameterProblem where
  path : List String
  message : String
deriving Repr, Inhabited

/-- The failure of a request with unusable parameters. -/
def ofParameters (problems : List ParameterProblem) (correlation requestId : Option String) : Failure :=
  let errors := problems.map fun p =>
    let place := ".".intercalate (p.path.drop 1)
    FieldError.mk (if place.isEmpty then "$" else place) p.message
  { code := .invalid
    message := "Request validation failed"
    correlation := .given (correlation.getD "")
    origin := some "request_validation"
    requestId := some (requestId.getD "")
    metadata := [("error_count", .int errors.length), ("errors", errorList errors)] }

/-- Something that no one expected: its type and its text. -/
structure Surprise where
  type : String
  text : String
deriving Repr, Inhabited

/-- The reply to a request during which something unexpected happened. It does not say what. -/
def replyToSurprise (s : Surprise) (correlation : Option String) : Action Reply := do
  let correlation := correlation.getD ""
  Action.note .error "unhandled_exception"
    [("error_type", .text s.type), ("error_message", .text s.text),
      ("correlation_id", .text correlation)]
  reply { code := .unexpected
          message := "An unexpected error occurred"
          correlation := .given correlation
          origin := some "unhandled"
          requestId := none
          metadata := [] }

end Failure
end Intake
