import Cool.Http.Message

/-!
# Messages as text

`HttpResponse`, and the `dump` of both kinds of message.
-/

namespace Cool.Http

inductive HttpStatus where
  | continue_ | switchingProtocols | processing | ok | created | accepted
  | nonAuthoritativeInformation | noContent | resetContent | partialContent | multiStatus
  | alreadyReported | imUsed | multipleChoices | movedPermanently | found | seeOther | notModified
  | useProxy | temporaryRedirect | permanentRedirect | badRequest | unauthorized | paymentRequired
  | forbidden | notFound | methodNotAllowed | notAcceptable | proxyAuthenticationRequired
  | requestTimeout | conflict | gone | lengthRequired | preconditionFailed | payloadTooLarge
  | uriTooLong | unsupportedMediaType | rangeNotSatisfiable | expectationFailed
  | misdirectedRequest | unprocessableEntity | locked | failedDependency | upgradeRequired
  | preconditionRequired | tooManyRequests | requestHeaderFieldsTooLarge
  | unavailableForLegalReasons | internalServerError | notImplemented | badGateway
  | serviceUnavailable | gatewayTimeout | httpVersionNotSupported | variantAlsoNegotiates
  | insufficientStorage | loopDetected | notExtended | networkAuthenticationRequired
  /-- A value that was cast. -/
  | other (code : Nat)
  deriving DecidableEq, Repr

/-- `HTTP_STATUS_MAP`, with the third column as the preprocessor spells it. -/
def httpStatusMap : List (HttpStatus × Nat × List UInt8) := [
  (.continue_, 100, ascii "Continue"), (.switchingProtocols, 101, ascii "Switching Protocols"),
  (.processing, 102, ascii "Processing"), (.ok, 200, ascii "OK"), (.created, 201, ascii "Created"),
  (.accepted, 202, ascii "Accepted"),
  (.nonAuthoritativeInformation, 203, ascii "Non - Authoritative Information"),
  (.noContent, 204, ascii "No Content"), (.resetContent, 205, ascii "Reset Content"),
  (.partialContent, 206, ascii "Partial Content"), (.multiStatus, 207, ascii "Multi - Status"),
  (.alreadyReported, 208, ascii "Already Reported"), (.imUsed, 226, ascii "IM Used"),
  (.multipleChoices, 300, ascii "Multiple Choices"), (.movedPermanently, 301, ascii "Moved Permanently"),
  (.found, 302, ascii "Found"), (.seeOther, 303, ascii "See Other"),
  (.notModified, 304, ascii "Not Modified"), (.useProxy, 305, ascii "Use Proxy"),
  (.temporaryRedirect, 307, ascii "Temporary Redirect"),
  (.permanentRedirect, 308, ascii "Permanent Redirect"), (.badRequest, 400, ascii "Bad Request"),
  (.unauthorized, 401, ascii "Unauthorized"), (.paymentRequired, 402, ascii "Payment Required"),
  (.forbidden, 403, ascii "Forbidden"), (.notFound, 404, ascii "Not Found"),
  (.methodNotAllowed, 405, ascii "Method Not Allowed"), (.notAcceptable, 406, ascii "Not Acceptable"),
  (.proxyAuthenticationRequired, 407, ascii "Proxy Authentication Required"),
  (.requestTimeout, 408, ascii "Request Timeout"), (.conflict, 409, ascii "Conflict"),
  (.gone, 410, ascii "Gone"), (.lengthRequired, 411, ascii "Length Required"),
  (.preconditionFailed, 412, ascii "Precondition Failed"),
  (.payloadTooLarge, 413, ascii "Payload Too Large"), (.uriTooLong, 414, ascii "URI Too Long"),
  (.unsupportedMediaType, 415, ascii "Unsupported Media Type"),
  (.rangeNotSatisfiable, 416, ascii "Range Not Satisfiable"),
  (.expectationFailed, 417, ascii "Expectation Failed"),
  (.misdirectedRequest, 421, ascii "Misdirected Request"),
  (.unprocessableEntity, 422, ascii "Unprocessable Entity"), (.locked, 423, ascii "Locked"),
  (.failedDependency, 424, ascii "Failed Dependency"), (.upgradeRequired, 426, ascii "Upgrade Required"),
  (.preconditionRequired, 428, ascii "Precondition Required"),
  (.tooManyRequests, 429, ascii "Too Many Requests"),
  (.requestHeaderFieldsTooLarge, 431, ascii "Request Header Fields Too Large"),
  (.unavailableForLegalReasons, 451, ascii "Unavailable For Legal Reasons"),
  (.internalServerError, 500, ascii "Internal Server Error"),
  (.notImplemented, 501, ascii "Not Implemented"), (.badGateway, 502, ascii "Bad Gateway"),
  (.serviceUnavailable, 503, ascii "Service Unavailable"), (.gatewayTimeout, 504, ascii "Gateway Timeout"),
  (.httpVersionNotSupported, 505, ascii "HTTP Version Not Supported"),
  (.variantAlsoNegotiates, 506, ascii "Variant Also Negotiates"),
  (.insufficientStorage, 507, ascii "Insufficient Storage"), (.loopDetected, 508, ascii "Loop Detected"),
  (.notExtended, 510, ascii "Not Extended"),
  (.networkAuthenticationRequired, 511, ascii "Network Authentication Required")]

namespace HttpStatus

def code (s : HttpStatus) : Nat :=
  match s with
  | .other code => code
  | s => match httpStatusMap.find? (·.1 = s) with
    | none => 0
    | some row => row.2.1

/-- `(http_status)code`. -/
def ofCode (code : Nat) : HttpStatus :=
  match httpStatusMap.find? (·.2.1 = code) with
  | none => .other code
  | some row => row.1

end HttpStatus

def httpStatusToChars (s : HttpStatus) : List UInt8 :=
  match httpStatusMap.find? (·.1 = s) with
  | none => ascii "<unknow>"
  | some row => row.2.2

def httpMethodToChars (m : HttpMethod) : List UInt8 :=
  match httpMethodMap.find? (·.1 = m) with
  | none => ascii "<unknow>"
  | some row => row.2

structure HttpResponse where
  status : HttpStatus
  version : UInt8
  close : Bool
  body : List UInt8
  reason : List UInt8
  headers : MapType
  deriving DecidableEq, Repr

/-- `HttpResponse(version, close)`. -/
def HttpResponse.new (version : UInt8) (close : Bool) : HttpResponse where
  status := .ok
  version := version
  close := close
  body := []
  reason := []
  headers := []

/-! ## Printing -/

def crlf : List UInt8 := [13, 10]

/-- `HTTP/` and the two halves of the version byte. -/
def printVersion (version : UInt8) : List UInt8 :=
  ascii "HTTP/" ++ printNat (version >>> 4).toNat ++ ascii "." ++ printNat (version &&& 0x0F).toNat

/-- `strcasecmp(a, b) == 0`. -/
def strcasecmpEq (a b : List UInt8) : Bool := !strcasecmpLt a b && !strcasecmpLt b a

/-- What a message says about the connection. -/
def announced (close : Bool) : List UInt8 := if close then ascii "close" else ascii "keep-alive"

def printConnection (close : Bool) : List UInt8 := ascii "Connection: " ++ announced close ++ crlf

/-- A header line; the two kinds of message differ in what they write after the name. -/
def printHeader (colon : List UInt8) (header : List UInt8 × List UInt8) : List UInt8 :=
  header.1 ++ colon ++ header.2 ++ crlf

/-- The header map without `Connection`. -/
def printHeaders (colon : List UInt8) (headers : MapType) : List UInt8 :=
  (headers.filter fun header => !strcasecmpEq header.1 (ascii "Connection")).flatMap (printHeader colon)

/-- The end of a message from `Content-Length` on. -/
def printBody (body : List UInt8) : List UInt8 :=
  if body = [] then crlf
  else ascii "Content-Length: " ++ printNat body.length ++ crlf ++ crlf ++ body

/-- A part of a request target that is left out when it is empty. -/
def printPart (mark part : List UInt8) : List UInt8 := if part = [] then [] else mark ++ part

def HttpRequest.dump (r : HttpRequest) : List UInt8 :=
  httpMethodToChars r.method ++ ascii " " ++ r.path ++ printPart (ascii "?") r.query ++
    printPart (ascii "#") r.fragment ++ ascii " " ++ printVersion r.version ++ crlf ++
    printConnection r.close ++ printHeaders (ascii ":") r.headers ++ printBody r.body

def HttpResponse.effectiveReason (r : HttpResponse) : List UInt8 :=
  if r.reason = [] then httpStatusToChars r.status else r.reason

def HttpResponse.dump (r : HttpResponse) : List UInt8 :=
  printVersion r.version ++ ascii " " ++ printNat r.status.code ++ ascii " " ++ r.effectiveReason ++ crlf ++
    printHeaders (ascii ": ") r.headers ++ printConnection r.close ++ printBody r.body

end Cool.Http
