import Cool.Foundation.Lines
import Cool.Http.Framing
import Cool.Http.Headers
import Mathlib.Data.List.TakeWhile

/-!
# The header lines of a printed message

What a reader of a printed message finds between the start line and the empty line: the lines of the header
map but for `Connection`, a line about the connection, and a line with the length of a body. The first are
printed whatever their names are.
-/

namespace Cool.Http

open Foundation

inductive Message where
  | request (r : HttpRequest)
  | response (r : HttpResponse)
  deriving DecidableEq, Repr

/-- The name of a header line, up to case. -/
def fieldName (line : List UInt8) : List UInt8 := (line.takeWhile (· ≠ 58)).map tolower

/-- What stands behind the colon of a header line, and behind blanks. -/
def fieldValue (line : List UInt8) : List UInt8 := ((line.dropWhile (· ≠ 58)).drop 1).dropWhile (· = 32)

/-- What is expected of the header lines of a message. -/
structure Framed (close : Bool) (body : List UInt8) (lines : List (List UInt8)) : Prop where
  once : (lines.map fieldName).Nodup
  connection : (lines.filter fun line => fieldName line = ascii "connection").map fieldValue = [announced close]
  content : body ≠ [] → ∃ line ∈ lines, fieldName line = ascii "content-length" ∧ fieldValue line = printNat body.length

namespace Message

def dump : Message → List UInt8
  | .request r => r.dump
  | .response r => r.dump

def close : Message → Bool
  | .request r => r.close
  | .response r => r.close

def headers : Message → MapType
  | .request r => r.headers
  | .response r => r.headers

def body : Message → List UInt8
  | .request r => r.body
  | .response r => r.body

/-- The other strings of a message. -/
def texts : Message → List (List UInt8)
  | .request r => [r.path, r.query, r.fragment]
  | .response r => [r.reason]

/-- No field contains a line break. -/
structure Unbroken (m : Message) : Prop where
  texts : ∀ text ∈ m.texts, 13 ∉ text ∧ 10 ∉ text
  headers : ∀ h ∈ m.headers, (13 ∉ h.1 ∧ 10 ∉ h.1) ∧ 13 ∉ h.2 ∧ 10 ∉ h.2

def readLines (m : Message) : List (List UInt8) := (headLines 13 10 [] m.dump).tail

end Message

def printedHeaders (headers : MapType) : MapType := headers.filter fun h => !strcasecmpEq h.1 (ascii "Connection")

/-- The names that are printed differ from each other and from those that are added. -/
structure DistinctNames (headers : MapType) (body : List UInt8) : Prop where
  names : ((printedHeaders headers).map fun h => fieldName h.1).Nodup
  connection : ∀ h ∈ printedHeaders headers, fieldName h.1 ≠ ascii "connection"
  content : body ≠ [] → ∀ h ∈ printedHeaders headers, fieldName h.1 ≠ ascii "content-length"

/-! ### The lines that are printed -/

def headerLine (colon : List UInt8) (h : List UInt8 × List UInt8) : List UInt8 := h.1 ++ colon ++ h.2

def connectionLine (close : Bool) : List UInt8 := ascii "Connection: " ++ announced close

def contentLines (body : List UInt8) : List (List UInt8) :=
  if body = [] then [] else [ascii "Content-Length: " ++ printNat body.length]

namespace Message

def startLine : Message → List UInt8
  | .request r => httpMethodToChars r.method ++ ascii " " ++ r.path ++ printPart (ascii "?") r.query ++
      printPart (ascii "#") r.fragment ++ ascii " " ++ printVersion r.version
  | .response r => printVersion r.version ++ ascii " " ++ printNat r.status.code ++ ascii " " ++ r.effectiveReason

def lines : Message → List (List UInt8)
  | .request r =>
    connectionLine r.close :: ((printedHeaders r.headers).map (headerLine (ascii ":")) ++ contentLines r.body)
  | .response r =>
    (printedHeaders r.headers).map (headerLine (ascii ": ")) ++ connectionLine r.close :: contentLines r.body

end Message

variable {m : Message} {headers : MapType} {body colon line : List UInt8} {close : Bool}

theorem printHeaders_lines (colon : List UInt8) (headers : MapType) :
    printHeaders colon headers = ((printedHeaders headers).map (headerLine colon)).flatMap (· ++ crlf) := by
  rw [List.flatMap_map]
  rfl

theorem printBody_lines (body : List UInt8) :
    printBody body = (contentLines body).flatMap (· ++ crlf) ++ (crlf ++ body) := by
  unfold printBody contentLines
  split
  · rename_i empty
    simp [empty]
  · simp

theorem Message.dump_lines (m : Message) :
    m.dump = (m.startLine :: m.lines).flatMap (· ++ crlf) ++ (crlf ++ m.body) := by
  cases m with
  | request r =>
    show r.dump = _
    unfold HttpRequest.dump
    rw [printHeaders_lines, printBody_lines]
    simp [startLine, lines, connectionLine, printConnection, Message.body]
  | response r =>
    show r.dump = _
    unfold HttpResponse.dump
    rw [printHeaders_lines, printBody_lines]
    simp [startLine, lines, connectionLine, printConnection, Message.body]

/-! ### They are read back -/

theorem printNat_unbroken (n : Nat) : 13 ∉ printNat n := by
  intro member
  exact absurd (printNat_bounds member).1 (by decide)

theorem tables_unbroken : (∀ e ∈ httpMethodMap, 13 ∉ e.2) ∧ ∀ e ∈ httpStatusMap, 13 ∉ e.2.2 := by decide +kernel

theorem httpMethodToChars_unbroken (method : HttpMethod) : 13 ∉ httpMethodToChars method := by
  unfold httpMethodToChars
  split
  · decide
  · rename_i row found
    exact tables_unbroken.1 row (List.mem_of_find?_eq_some found)

theorem httpStatusToChars_unbroken (status : HttpStatus) : 13 ∉ httpStatusToChars status := by
  unfold httpStatusToChars
  split
  · decide
  · rename_i row found
    exact tables_unbroken.2 row (List.mem_of_find?_eq_some found)

theorem printVersion_unbroken (version : UInt8) : 13 ∉ printVersion version := by
  have parts : 13 ∉ ascii "HTTP/" ∧ 13 ∉ ascii "." := by decide
  simp only [printVersion, List.mem_append, parts, printNat_unbroken, or_self, not_false_eq_true]

theorem printPart_unbroken (mark : List UInt8) {part : List UInt8} (free : 13 ∉ mark) (unbroken : 13 ∉ part) :
    13 ∉ printPart mark part := by
  unfold printPart
  split
  · exact List.not_mem_nil
  · simp [free, unbroken]

theorem Message.startLine_full (unbroken : m.Unbroken) : 13 ∉ m.startLine ∧ m.startLine ≠ [] := by
  have space : 13 ∉ ascii " " := by decide
  cases m with
  | request r =>
    have path := (unbroken.texts r.path (by simp [texts])).1
    have query := printPart_unbroken (ascii "?") (by decide) (unbroken.texts r.query (by simp [texts])).1
    have fragment := printPart_unbroken (ascii "#") (by decide) (unbroken.texts r.fragment (by simp [texts])).1
    constructor
    · simp only [startLine, List.mem_append, not_or]
      exact ⟨⟨⟨⟨⟨⟨httpMethodToChars_unbroken _, space⟩, path⟩, query⟩, fragment⟩, space⟩, printVersion_unbroken _⟩
    · simp [startLine, ascii]
  | response r =>
    have reason : 13 ∉ r.effectiveReason := by
      unfold HttpResponse.effectiveReason
      split
      · exact httpStatusToChars_unbroken _
      · exact (unbroken.texts r.reason (by simp [texts])).1
    constructor
    · simp only [startLine, List.mem_append, not_or]
      exact ⟨⟨⟨⟨printVersion_unbroken _, space⟩, printNat_unbroken _⟩, space⟩, reason⟩
    · simp [startLine, ascii]

theorem headerLine_full {h : List UInt8 × List UInt8} (free : 13 ∉ colon) (nonempty : colon ≠ []) (name : 13 ∉ h.1)
    (value : 13 ∉ h.2) : 13 ∉ headerLine colon h ∧ headerLine colon h ≠ [] := by
  simp [headerLine, free, nonempty, name, value]

theorem connectionLine_full (close : Bool) : 13 ∉ connectionLine close ∧ connectionLine close ≠ [] := by
  cases close <;> decide

theorem contentLines_full (member : line ∈ contentLines body) : 13 ∉ line ∧ line ≠ [] := by
  have start : 13 ∉ ascii "Content-Length: " ∧ ascii "Content-Length: " ≠ [] := by decide
  unfold contentLines at member
  split at member
  · cases member
  · obtain rfl := List.mem_singleton.mp member
    simp [start, printNat_unbroken]

theorem Message.lines_full (unbroken : m.Unbroken) : ∀ line ∈ m.lines, 13 ∉ line ∧ line ≠ [] := by
  have printed (colon : List UInt8) (free : 13 ∉ colon) (nonempty : colon ≠ []) :
      ∀ line ∈ (printedHeaders m.headers).map (headerLine colon), 13 ∉ line ∧ line ≠ [] := by
    intro line member
    obtain ⟨h, inside, rfl⟩ := List.mem_map.mp member
    obtain ⟨name, value⟩ := unbroken.headers h (List.mem_of_mem_filter inside)
    exact headerLine_full free nonempty name.1 value.1
  intro line member
  cases m with
  | request r =>
    simp only [lines, List.mem_cons, List.mem_append] at member
    rcases member with rfl | header | content
    · exact connectionLine_full r.close
    · exact printed (ascii ":") (by decide) (by decide) line header
    · exact contentLines_full content
  | response r =>
    simp only [lines, List.mem_cons, List.mem_append] at member
    rcases member with header | rfl | content
    · exact printed (ascii ": ") (by decide) (by decide) line header
    · exact connectionLine_full r.close
    · exact contentLines_full content

theorem Message.readLines_eq (unbroken : m.Unbroken) : m.readLines = m.lines := by
  have full : ∀ line ∈ m.startLine :: m.lines, 13 ∉ line ∧ line ≠ [] := by
    intro line member
    rcases List.mem_cons.mp member with rfl | header
    · exact m.startLine_full unbroken
    · exact m.lines_full unbroken line header
  have read := headLines_block 10 full m.body
  rw [readLines, dump_lines]
  exact congrArg List.tail read

/-! ### Their names -/

theorem fieldName_append (name rest : List UInt8) : fieldName (name ++ 58 :: rest) = fieldName name := by
  unfold fieldName
  induction name with
  | nil => simp
  | cons c name ih =>
    by_cases colon : c = 58
    · simp [colon]
    · simpa [colon] using ih

theorem fieldName_connectionLine (close : Bool) : fieldName (connectionLine close) = ascii "connection" := by
  cases close <;> decide

theorem fieldValue_connectionLine (close : Bool) : fieldValue (connectionLine close) = announced close := by
  cases close <;> decide

theorem fieldValue_content (n : Nat) : fieldValue (ascii "Content-Length: " ++ printNat n) = printNat n := by
  have start : ascii "Content-Length: " = ascii "Content-Length" ++ [58, 32] := by decide
  have name : ∀ c ∈ ascii "Content-Length", decide (c ≠ 58) = true := List.all_eq_true.mp (by decide)
  rw [start, fieldValue, List.append_assoc, List.dropWhile_append_of_pos name]
  show (printNat n).dropWhile (· = 32) = printNat n
  -- A number starts with a digit.
  cases digits : printNat n with
  | nil => rfl
  | cons c rest =>
    have bound := (printNat_bounds (n := n) (digits ▸ List.mem_cons_self)).1
    have visible : c ≠ 32 := by
      rintro rfl
      exact absurd bound (by decide)
    rw [List.dropWhile_cons_of_neg (by simpa using visible)]

theorem fieldName_content (n : Nat) : fieldName (ascii "Content-Length: " ++ printNat n) = ascii "content-length" := by
  have start : ascii "Content-Length: " = ascii "Content-Length" ++ [58, 32] := by decide
  rw [start, List.append_assoc]
  exact (fieldName_append _ _).trans (by decide)

theorem Framed.perm {lines lines' : List (List UInt8)} (perm : lines.Perm lines') (framed : Framed close body lines) :
    Framed close body lines' where
  once := (perm.map fieldName).nodup_iff.mp framed.once
  connection := by
    have same := (perm.filter fun line => fieldName line = ascii "connection").map fieldValue
    rw [framed.connection] at same
    exact List.perm_singleton.mp same.symm
  content nonempty := by
    obtain ⟨line, member, found⟩ := framed.content nonempty
    exact ⟨line, perm.mem_iff.mp member, found⟩

theorem map_headerLine (pad : List UInt8) (headers : MapType) :
    (headers.map (headerLine (58 :: pad))).map fieldName = headers.map fun h => fieldName h.1 := by
  rw [List.map_map]
  refine List.map_congr_left fun h _ => ?_
  show fieldName (h.1 ++ 58 :: pad ++ h.2) = _
  rw [List.append_assoc]
  exact fieldName_append h.1 _

/-- The lines of a message, with the one about the connection first. -/
def orderedLines (pad : List UInt8) (close : Bool) (headers : MapType) (body : List UInt8) : List (List UInt8) :=
  connectionLine close :: ((printedHeaders headers).map (headerLine (58 :: pad)) ++ contentLines body)

theorem names_orderedLines (pad : List UInt8) (close : Bool) (headers : MapType) (body : List UInt8) :
    (orderedLines pad close headers body).map fieldName =
      ascii "connection" :: (((printedHeaders headers).map fun h => fieldName h.1) ++
        if body = [] then [] else [ascii "content-length"]) := by
  rw [orderedLines, List.map_cons, List.map_append, map_headerLine, fieldName_connectionLine]
  unfold contentLines
  split
  · rfl
  · rw [List.map_singleton, fieldName_content]

theorem nodup_orderedLines (pad : List UInt8) (close : Bool) :
    ((orderedLines pad close headers body).map fieldName).Nodup ↔ DistinctNames headers body := by
  have apart : ascii "connection" ≠ ascii "content-length" := by decide
  rw [names_orderedLines, List.nodup_cons, List.nodup_append]
  constructor
  · rintro ⟨first, names, _, others⟩
    refine ⟨names, ?_, ?_⟩
    · intro h member same
      exact first (List.mem_append_left _ (List.mem_map.mpr ⟨h, member, same⟩))
    · intro nonempty h member
      rw [if_neg nonempty] at others
      exact others _ (List.mem_map_of_mem member) _ (List.mem_singleton_self _)
  · intro distinct
    refine ⟨?_, distinct.names, ?_, ?_⟩
    · intro member
      rcases List.mem_append.mp member with header | content
      · obtain ⟨h, inside, same⟩ := List.mem_map.mp header
        exact distinct.connection h inside same
      · split at content
        · cases content
        · exact apart (List.mem_singleton.mp content)
    · split
      · exact List.nodup_nil
      · exact List.pairwise_singleton _ _
    · intro name header other content
      obtain ⟨h, inside, rfl⟩ := List.mem_map.mp header
      split at content
      · cases content
      · rename_i nonempty
        rw [List.mem_singleton.mp content]
        exact distinct.content nonempty h inside

theorem framed_orderedLines (pad : List UInt8) (close : Bool) :
    Framed close body (orderedLines pad close headers body) ↔ DistinctNames headers body := by
  refine ⟨fun framed => (nodup_orderedLines pad close).mp framed.once, fun distinct => ?_⟩
  have once := (nodup_orderedLines pad close).mpr distinct
  refine ⟨once, ?_, ?_⟩
  · -- No other line has the name of the first.
    have others : ∀ line ∈ (printedHeaders headers).map (headerLine (58 :: pad)) ++ contentLines body,
        fieldName line ≠ ascii "connection" := by
      intro line member same
      rw [orderedLines, List.map_cons, List.nodup_cons, fieldName_connectionLine] at once
      exact once.1 (List.mem_map.mpr ⟨line, member, same⟩)
    rw [orderedLines, List.filter_cons_of_pos (by rw [fieldName_connectionLine]; decide),
      List.filter_eq_nil_iff.mpr (fun line member => by simpa using others line member), List.map_singleton,
      fieldValue_connectionLine]
  · intro nonempty
    refine ⟨ascii "Content-Length: " ++ printNat body.length, ?_, fieldName_content _, fieldValue_content _⟩
    have last : ascii "Content-Length: " ++ printNat body.length ∈ contentLines body := by
      rw [contentLines, if_neg nonempty]
      exact List.mem_singleton_self _
    exact List.mem_cons_of_mem _ (List.mem_append_right _ last)

theorem Message.framed_lines (m : Message) :
    Framed m.close m.body m.lines ↔ DistinctNames m.headers m.body := by
  cases m with
  | request r => exact framed_orderedLines [] r.close
  | response r =>
    have perm : (Message.response r).lines.Perm (orderedLines [32] r.close r.headers r.body) := List.perm_middle
    exact ⟨fun framed => (framed_orderedLines [32] r.close).mp (framed.perm perm),
      fun distinct => ((framed_orderedLines [32] r.close).mpr distinct).perm perm.symm⟩

/-! ### Names that can be read -/

/-- A name that ends where it is printed to end. -/
structure Plain (name : List UInt8) : Prop where
  colon : 58 ∉ name
  nul : 0 ∉ name

theorem Plain.fieldName {name : List UInt8} (plain : Plain name) : fieldName name = name.map tolower := by
  unfold Http.fieldName
  rw [List.takeWhile_eq_self_iff.mpr]
  intro c member
  refine decide_eq_true ?_
  rintro rfl
  exact plain.colon member

theorem Plain.folded {name : List UInt8} (plain : Plain name) :
    folded name = (Http.fieldName name).map UInt8.toNat := by
  unfold Http.folded
  rw [List.takeWhile_eq_self_iff.mpr, plain.fieldName, List.map_map]
  · rfl
  · intro c member
    refine decide_eq_true ?_
    rintro rfl
    exact plain.nul member

theorem fieldName_eq_iff {a b : List UInt8} (plain : Plain a) (plain' : Plain b) :
    fieldName a = fieldName b ↔ folded a = folded b := by
  rw [plain.folded, plain'.folded]
  exact (List.map_injective_iff.mpr fun _ _ => UInt8.toNat_inj.mp).eq_iff.symm

theorem distinctNames_iff (ordered : OrderedMap.Ordered folded headers) (plain : ∀ h ∈ headers, Plain h.1) :
    DistinctNames headers body ↔ body = [] ∨ headers.find (ascii "content-length") = none := by
  have plainConnection : Plain (ascii "Connection") := ⟨by decide, by decide⟩
  have plainContent : Plain (ascii "content-length") := ⟨by decide, by decide⟩
  have content : fieldName (ascii "content-length") = ascii "content-length" := by decide
  have connection : fieldName (ascii "Connection") = ascii "connection" := by decide
  have inside {h : List UInt8 × List UInt8} (member : h ∈ printedHeaders headers) : h ∈ headers :=
    List.mem_of_mem_filter member
  rw [MapType.find]
  constructor
  · intro distinct
    refine or_iff_not_imp_left.mpr fun nonempty => OrderedMap.find_of_fresh compares ?_
    intro h member same
    have name : fieldName h.1 = ascii "content-length" := by
      rw [← content]
      exact (fieldName_eq_iff (plain h member) plainContent).mpr same
    refine distinct.content nonempty h (List.mem_filter.mpr ⟨member, ?_⟩) name
    have other : ¬ strcasecmpEq h.1 (ascii "Connection") = true := by
      rw [strcasecmpEq_iff, same]
      decide
    simpa using other
  · intro condition
    refine ⟨?_, ?_, ?_⟩
    · have sublist : (printedHeaders headers).Sublist headers := List.filter_sublist
      refine List.pairwise_map.mpr ((ordered.sublist sublist).imp_of_mem ?_)
      intro h h' member member' below same
      rw [fieldName_eq_iff (plain h (inside member)) (plain h' (inside member'))] at same
      exact absurd same (ne_of_lt below)
    · intro h member name
      have other : ¬ strcasecmpEq h.1 (ascii "Connection") = true := by
        simpa using (List.mem_filter.mp member).2
      rw [strcasecmpEq_iff, ← fieldName_eq_iff (plain h (inside member)) plainConnection, connection] at other
      exact other name
    · intro nonempty h member name
      rw [← content, fieldName_eq_iff (plain h (inside member)) plainContent] at name
      have found := OrderedMap.find_of_mem compares ordered (inside member) name
      rw [(condition.resolve_left nonempty)] at found
      cases found

/-- A message without line breaks in its fields is framed as expected exactly when the printed names differ from
each other and from those that are added. With readable names, that is when it has no body or no
`Content-Length` of its own. -/
theorem dump_framed_iff (m : Message) (unbroken : m.Unbroken) :
    (Framed m.close m.body m.readLines ↔ DistinctNames m.headers m.body) ∧
      (OrderedMap.Ordered folded m.headers → (∀ h ∈ m.headers, Plain h.1) →
        (Framed m.close m.body m.readLines ↔
          m.body = [] ∨ m.headers.find (ascii "content-length") = none)) := by
  rw [Message.readLines_eq unbroken, Message.framed_lines]
  exact ⟨Iff.rfl, distinctNames_iff⟩

def framedResponse : HttpResponse :=
  { HttpResponse.new 0x11 false with body := ascii "abc", headers := [(ascii "Server", ascii "cool")] }

theorem dump_framed_iff_response :
    Framed false (ascii "abc") (Message.response framedResponse).readLines := by
  have unbroken : (Message.response framedResponse).Unbroken := ⟨by decide, by decide⟩
  refine ((dump_framed_iff (.response framedResponse) unbroken).1).mpr ⟨by decide, by decide, ?_⟩
  intro _
  decide

/-- A request that `recvRequest` returned has a body and the header that announced it, so that its length is
printed twice, and differently. -/
theorem received_twice :
    (HttpSession.recvRequest (Memory.zeroed 64)
        ⟨[ascii "POST / HTTP/1.1\r\nContent-Length: 3\r\n\r\nabc"], true⟩).toOption.map
      (fun reply => reply.request.map fun r =>
        ((Message.request r).readLines.filter fun line => fieldName line = ascii "content-length").map fieldValue) =
        some (some [ascii "3", ascii "6"]) := by
  decide +kernel

end Cool.Http
