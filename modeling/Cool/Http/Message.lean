import Cool.Foundation.OrderedMap
import Cool.Http.Numbers

/-!
# Requests

`HttpRequest`, its header map and the method table. Strings are lists of bytes.
-/

namespace Cool.Http

open Foundation

def ascii (s : String) : List UInt8 := s.toList.map fun c => UInt8.ofNat c.toNat

/-- `strncmp(a, b, n) == 0` on memory that starts with `a` and `b`. -/
def strncmpEq : Nat → List UInt8 → List UInt8 → Bool
  | 0, _, _ => true
  | n + 1, x :: xs, y :: ys => x == y && (x == 0 || strncmpEq n xs ys)
  | _ + 1, _, _ => false

/-- What both parsers do with the text of a version. -/
def onVersion {δ : Type} (text : List UInt8) (length : Nat) (store : UInt8 → δ) (refuse : δ) : δ :=
  if strncmpEq length text (ascii "HTTP/1.1" ++ [0]) then store 0x11
  else if strncmpEq length text (ascii "HTTP/1.0" ++ [0]) then store 0x10
  else refuse

theorem onVersion_cases {δ : Type} (text : List UInt8) (length : Nat) (store : UInt8 → δ) (refuse : δ) :
    (∃ version, onVersion text length store refuse = store version) ∨ onVersion text length store refuse = refuse := by
  unfold onVersion
  split
  · exact .inl ⟨_, rfl⟩
  · split
    · exact .inl ⟨_, rfl⟩
    · exact .inr rfl

inductive HttpMethod where
  | delete | get | head | post | put
  | connect | options | trace
  | copy | lock | mkcol | move | propfind | proppatch | search | unlock | bind | rebind | unbind | acl
  | report | mkactivity | checkout | merge
  | msearch | notify | subscribe | unsubscribe
  | patch | purge
  | mkcalendar
  | link | unlink
  | source
  | invalidMethod
  deriving DecidableEq, Repr

/-- `HTTP_METHOD_MAP`, with the third column as the preprocessor spells it. -/
def httpMethodMap : List (HttpMethod × List UInt8) := [
  (.delete, ascii "DELETE"), (.get, ascii "GET"), (.head, ascii "HEAD"), (.post, ascii "POST"),
  (.put, ascii "PUT"), (.connect, ascii "CONNECT"), (.options, ascii "OPTIONS"),
  (.trace, ascii "TRACE"), (.copy, ascii "COPY"), (.lock, ascii "LOCK"), (.mkcol, ascii "MKCOL"),
  (.move, ascii "MOVE"), (.propfind, ascii "PROPFIND"), (.proppatch, ascii "PROPPATCH"),
  (.search, ascii "SEARCH"), (.unlock, ascii "UNLOCK"), (.bind, ascii "BIND"),
  (.rebind, ascii "REBIND"), (.unbind, ascii "UNBIND"), (.acl, ascii "ACL"),
  (.report, ascii "REPORT"), (.mkactivity, ascii "MKACTIVITY"), (.checkout, ascii "CHECKOUT"),
  (.merge, ascii "MERGE"), (.msearch, ascii "M - SEARCH"), (.notify, ascii "NOTIFY"),
  (.subscribe, ascii "SUBSCRIBE"), (.unsubscribe, ascii "UNSUBSCRIBE"), (.patch, ascii "PATCH"),
  (.purge, ascii "PURGE"), (.mkcalendar, ascii "MKCALENDAR"), (.link, ascii "LINK"),
  (.unlink, ascii "UNLINK"), (.source, ascii "SOURCE")]

/-- `string_to_http_method(v)`: the method whose name is `v.c_str()`. -/
def stringToHttpMethod (v : List UInt8) : HttpMethod :=
  match httpMethodMap.find? fun entry => entry.2 == v.takeWhile (· ≠ 0) with
  | none => .invalidMethod
  | some entry => entry.1

/-- The first method whose name starts the memory at `v`. -/
def charsToHttpMethd (v : List UInt8) : HttpMethod :=
  match httpMethodMap.find? fun entry => strncmpEq entry.2.length entry.2 v with
  | none => .invalidMethod
  | some entry => entry.1

/-! ### The header map -/

def tolower (c : UInt8) : UInt8 := if 65 ≤ c && c ≤ 90 then c + 32 else c

/-- `strcasecmp(a, b) < 0`. -/
def strcasecmpLt : List UInt8 → List UInt8 → Bool
  | _, [] => false
  | [], y :: _ => y != 0
  | x :: xs, y :: ys =>
    if tolower x < tolower y then true
    else if tolower y < tolower x then false
    else x != 0 && strcasecmpLt xs ys

/-- `std::map<std::string, std::string, CaseInsensitiveLess>`, in the order of its keys. -/
abbrev MapType := List (List UInt8 × List UInt8)

namespace MapType

def find (m : MapType) (key : List UInt8) : Option (List UInt8) := OrderedMap.find strcasecmpLt m key

/-- `m[key] = val`: an equal key keeps its spelling. -/
def set (m : MapType) (key val : List UInt8) : MapType := OrderedMap.set strcasecmpLt m key val

end MapType

structure HttpRequest where
  method : HttpMethod
  version : UInt8
  close : Bool
  path : List UInt8
  query : List UInt8
  fragment : List UInt8
  body : List UInt8
  headers : MapType
  deriving DecidableEq, Repr

namespace HttpRequest

def new : HttpRequest where
  method := .get
  version := 0x11
  close := true
  path := ascii "/"
  query := []
  fragment := []
  body := []
  headers := []

def setHeader (r : HttpRequest) (key val : List UInt8) : HttpRequest :=
  { r with headers := r.headers.set key val }

/-- `getHeaderAs<uint64_t>(key, def)`. -/
def getHeaderAs [Boost] (r : HttpRequest) (key : List UInt8) (def' : Nat) : Nat :=
  match r.headers.find key with
  | none => def'
  | some text => (Boost.lexicalCast text).getD def'

end HttpRequest

end Cool.Http
