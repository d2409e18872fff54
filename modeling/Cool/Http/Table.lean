import Mathlib.Data.List.Basic

/-!
# The request machine

The automaton that Ragel generates from `http11_parser.rl` (`http11_parser.rl.cpp`), state by state
under the generated numbers. `http_parser_start` is 1, `http_parser_first_final` 348 and
`http_parser_error` 0; a byte that no edge of the current state admits leads to the error state.
-/

namespace Cool.Http

/-- The actions of the machine. `start_value` and `mark` set the same register and are one. -/
inductive Action where
  | mark
  | startField
  | writeField
  | writeValue
  | requestMethod
  | requestUri
  | fragment
  | startQuery
  | queryString
  | httpVersion
  | requestPath
  | done
  | xml
  | json
  deriving DecidableEq, Repr

structure Edge where
  ranges : List (Nat × Nat)
  target : Nat
  actions : List Action
  -- `more_delims`: taken only when `parser->uri_relaxed` is set
  relaxed : Bool
  deriving DecidableEq, Repr

namespace Edge

def admits (e : Edge) (uriRelaxed : Bool) (c : UInt8) : Bool :=
  (!e.relaxed || uriRelaxed) && e.ranges.any fun r => r.1 ≤ c.toNat && c.toNat ≤ r.2

def act (ranges : List (Nat × Nat)) (target : Nat) (actions : List Action) : Edge :=
  ⟨ranges, target, actions, false⟩

def go (ranges : List (Nat × Nat)) (target : Nat) : Edge := act ranges target []

/-- An edge on `{`, `}` or `^`. -/
def loose (target : Nat) (actions : List Action) : Edge :=
  ⟨[(94, 94), (123, 123), (125, 125)], target, actions, true⟩

end Edge

/-! ### Byte classes -/

def byte (n : Nat) : List (Nat × Nat) := [(n, n)]

def one (c : Char) : List (Nat × Nat) := byte c.toNat

def nul : List (Nat × Nat) := byte 0
def lf : List (Nat × Nat) := byte 10
def cr : List (Nat × Nat) := byte 13
def sp : List (Nat × Nat) := byte 32
def digit : List (Nat × Nat) := [(48, 57)]
def xdigit : List (Nat × Nat) := [(48, 57), (65, 70), (97, 102)]
def hexLetter : List (Nat × Nat) := [(65, 70), (97, 102)]
def alpha : List (Nat × Nat) := [(65, 90), (97, 122)]
def methodChar : List (Nat × Nat) := [(48, 57), (65, 90)]

/-- `unreserved | sub_delims`. -/
def regName : List (Nat × Nat) :=
  [(33, 33), (36, 36), (38, 46), (48, 57), (59, 59), (61, 61), (65, 90), (95, 95), (97, 122),
    (126, 126)]

def userinfo : List (Nat × Nat) :=
  [(33, 33), (36, 36), (38, 46), (48, 59), (61, 61), (65, 90), (95, 95), (97, 122), (126, 126)]

def userinfoNoDigit : List (Nat × Nat) :=
  [(33, 33), (36, 36), (38, 46), (58, 59), (61, 61), (65, 90), (95, 95), (97, 122), (126, 126)]

def segmentNc : List (Nat × Nat) :=
  [(33, 33), (36, 36), (38, 46), (48, 57), (59, 59), (61, 61), (64, 90), (95, 95), (97, 122),
    (126, 126)]

def relativeFirst : List (Nat × Nat) :=
  [(33, 33), (36, 36), (38, 46), (48, 57), (59, 59), (61, 61), (64, 64), (95, 95), (126, 126)]

def pchar : List (Nat × Nat) :=
  [(33, 33), (36, 36), (38, 46), (48, 59), (61, 61), (64, 90), (95, 95), (97, 122), (126, 126)]

/-- `pchar | "/"`. -/
def pathChar : List (Nat × Nat) :=
  [(33, 33), (36, 36), (38, 59), (61, 61), (64, 90), (95, 95), (97, 122), (126, 126)]

/-- `pchar | "/" | "?"`. -/
def queryChar : List (Nat × Nat) :=
  [(33, 33), (36, 36), (38, 59), (61, 61), (63, 90), (95, 95), (97, 122), (126, 126)]

-- `(0 - 31)` in the grammar is a difference, not a range: only NUL and DEL are control characters
def token : List (Nat × Nat) :=
  [(1, 8), (10, 31), (33, 33), (35, 39), (42, 43), (45, 46), (48, 57), (65, 90), (94, 122),
    (124, 124), (126, 126)]

def fieldFirst : List (Nat × Nat) :=
  [(1, 8), (11, 12), (14, 31), (33, 33), (35, 39), (42, 43), (45, 46), (48, 57), (65, 90),
    (94, 122), (124, 124), (126, 126)]

def fieldAfterCr : List (Nat × Nat) :=
  [(1, 8), (11, 31), (33, 33), (35, 39), (42, 43), (45, 46), (48, 57), (65, 90), (94, 122),
    (124, 124), (126, 126)]

def valueFirst : List (Nat × Nat) := [(1, 8), (11, 12), (14, 31), (33, 126), (128, 255)]
def valueChar : List (Nat × Nat) := [(1, 9), (11, 12), (14, 126), (128, 255)]

/-! ### The states -/

open Edge in
def rows : List (Nat × List Edge) := [
  (1, [act methodChar 2 [.mark], act (one '<') 194 [.mark], act (one '@') 198 [.mark]]),
  (2, [act sp 3 [.requestMethod], go methodChar 175]),
  (3, [act sp 4 [.mark, .requestPath, .requestUri], act relativeFirst 19 [.mark],
    act (one '#') 20 [.mark, .requestPath, .requestUri], act (one '%') 24 [.mark],
    act (one '/') 33 [.mark], act (one '?') 29 [.mark, .requestPath], act alpha 173 [.mark],
    loose 19 [.mark]]),
  (4, [act (one 'H') 5 [.mark]]),
  (5, [go (one 'T') 6]),
  (6, [go (one 'T') 7]),
  (7, [go (one 'P') 8]),
  (8, [go (one '/') 9]),
  (9, [go (one '1') 10]),
  (10, [go (one '.') 11]),
  (11, [go [(48, 49)] 12]),
  (12, [act lf 13 [.httpVersion], act cr 17 [.httpVersion]]),
  (13, [act fieldFirst 14 [.startField], act lf 348 [.startField, .done], act cr 18 [.startField]]),
  (14, [go token 14, act (one ':') 15 [.writeField]]),
  (15, [act valueFirst 16 [.mark], act [(9, 9), (32, 32)] 15 [.mark],
    act lf 13 [.mark, .writeValue], act cr 17 [.mark, .writeValue]]),
  (16, [go valueChar 16, act lf 13 [.writeValue], act cr 17 [.writeValue]]),
  (17, [go lf 13]),
  (18, [go fieldAfterCr 14, act lf 348 [.done], act (one ':') 15 [.writeField]]),
  (19, [act sp 4 [.requestPath, .requestUri], go segmentNc 19,
    act (one '#') 20 [.requestPath, .requestUri], go (one '%') 24, go (one '/') 26,
    act (one '?') 29 [.requestPath], loose 19 []]),
  (20, [act sp 4 [.mark, .fragment], act queryChar 21 [.mark], act (one '%') 22 [.mark],
    loose 21 [.mark]]),
  (21, [act sp 4 [.fragment], go queryChar 21, go (one '%') 22, loose 21 []]),
  (22, [go xdigit 23]),
  (23, [go xdigit 21]),
  (24, [go xdigit 25]),
  (25, [go xdigit 19]),
  (26, [act sp 4 [.requestPath, .requestUri], go pathChar 26,
    act (one '#') 20 [.requestPath, .requestUri], go (one '%') 27, act (one '?') 29 [.requestPath],
    loose 26 []]),
  (27, [go xdigit 28]),
  (28, [go xdigit 26]),
  (29, [act sp 4 [.startQuery, .queryString, .requestUri], act queryChar 30 [.startQuery],
    act (one '#') 20 [.startQuery, .queryString, .requestUri], act (one '%') 31 [.startQuery],
    loose 30 [.startQuery]]),
  (30, [act sp 4 [.queryString, .requestUri], go queryChar 30,
    act (one '#') 20 [.queryString, .requestUri], go (one '%') 31, loose 30 []]),
  (31, [go xdigit 32]),
  (32, [go xdigit 30]),
  (33, [act sp 4 [.requestPath, .requestUri], go pchar 26,
    act (one '#') 20 [.requestPath, .requestUri], go (one '%') 27, go (one '/') 34,
    act (one '?') 29 [.requestPath], loose 26 []]),
  (34, [act sp 4 [.requestPath, .requestUri], go regName 35,
    act (one '#') 20 [.requestPath, .requestUri], go (one '%') 36, go (one '/') 26,
    go (one ':') 38, act (one '?') 29 [.requestPath], go (one '@') 42, go (one '[') 47,
    loose 35 []]),
  (35, [act sp 4 [.requestPath, .requestUri], go regName 35,
    act (one '#') 20 [.requestPath, .requestUri], go (one '%') 36, go (one '/') 26,
    go (one ':') 38, act (one '?') 29 [.requestPath], go (one '@') 42, loose 35 []]),
  (36, [go xdigit 37]),
  (37, [go xdigit 35]),
  (38, [act sp 4 [.requestPath, .requestUri], go userinfoNoDigit 39,
    act (one '#') 20 [.requestPath, .requestUri], go (one '%') 40, go (one '/') 26, go digit 38,
    act (one '?') 29 [.requestPath], go (one '@') 42, loose 39 []]),
  (39, [go userinfo 39, go (one '%') 40, go (one '@') 42, loose 39 []]),
  (40, [go xdigit 41]),
  (41, [go xdigit 39]),
  (42, [act sp 4 [.requestPath, .requestUri], go regName 43,
    act (one '#') 20 [.requestPath, .requestUri], go (one '%') 44, go (one '/') 26,
    go (one ':') 46, act (one '?') 29 [.requestPath], go (one '[') 47, loose 43 []]),
  (43, [act sp 4 [.requestPath, .requestUri], go regName 43,
    act (one '#') 20 [.requestPath, .requestUri], go (one '%') 44, go (one '/') 26,
    go (one ':') 46, act (one '?') 29 [.requestPath], loose 43 []]),
  (44, [go xdigit 45]),
  (45, [go xdigit 43]),
  (46, [act sp 4 [.requestPath, .requestUri], act (one '#') 20 [.requestPath, .requestUri],
    go (one '/') 26, go digit 46, act (one '?') 29 [.requestPath]]),
  (47, [go (byte 6) 48, go xdigit 91, go (one ':') 167, go (one 'v') 169]),
  (48, [go xdigit 49]),
  (49, [go xdigit 50, go (one ':') 53]),
  (50, [go xdigit 51, go (one ':') 53]),
  (51, [go xdigit 52, go (one ':') 53]),
  (52, [go (one ':') 53]),
  (53, [go [(48, 48), (51, 57)] 54, go (one '1') 84, go (one '2') 87, go hexLetter 90]),
  (54, [go (one '.') 55, go xdigit 77, go (one ':') 80]),
  (55, [go [(48, 48), (51, 57)] 56, go (one '1') 72, go (one '2') 74]),
  (56, [go (one '.') 57]),
  (57, [go [(48, 48), (51, 57)] 58, go (one '1') 67, go (one '2') 69]),
  (58, [go (one '.') 59]),
  (59, [go [(48, 48), (51, 57)] 60, go (one '1') 62, go (one '2') 64]),
  (60, [go (one ']') 61]),
  (61, [act sp 4 [.requestPath, .requestUri], act (one '#') 20 [.requestPath, .requestUri],
    go (one '/') 26, go (one ':') 46, act (one '?') 29 [.requestPath]]),
  (62, [go digit 63, go (one ']') 61]),
  (63, [go digit 60, go (one ']') 61]),
  (64, [go (one '0') 65, go (one '5') 66, go (one ']') 61]),
  (65, [go digit 60]),
  (66, [go (one '0') 60]),
  (67, [go (one '.') 59, go digit 68]),
  (68, [go (one '.') 59, go digit 58]),
  (69, [go (one '.') 59, go (one '0') 70, go (one '5') 71]),
  (70, [go digit 58]),
  (71, [go (one '0') 58]),
  (72, [go (one '.') 57, go digit 73]),
  (73, [go (one '.') 57, go digit 56]),
  (74, [go (one '.') 57, go (one '0') 75, go (one '5') 76]),
  (75, [go digit 56]),
  (76, [go (one '0') 56]),
  (77, [go xdigit 78, go (one ':') 80]),
  (78, [go xdigit 79, go (one ':') 80]),
  (79, [go (one ':') 80]),
  (80, [go xdigit 81]),
  (81, [go xdigit 82, go (one ']') 61]),
  (82, [go xdigit 83, go (one ']') 61]),
  (83, [go xdigit 60, go (one ']') 61]),
  (84, [go (one '.') 55, go digit 85, go (one ':') 80, go hexLetter 77]),
  (85, [go (one '.') 55, go digit 86, go (one ':') 80, go hexLetter 78]),
  (86, [go (one '.') 55, go xdigit 79, go (one ':') 80]),
  (87, [go (one '.') 55, go (one '0') 88, go [(49, 52), (54, 57), (65, 70), (97, 102)] 77,
    go (one '5') 89, go (one ':') 80]),
  (88, [go digit 86, go (one ':') 80, go hexLetter 78]),
  (89, [go (one '0') 86, go [(49, 57), (65, 70), (97, 102)] 78, go (one ':') 80]),
  (90, [go xdigit 77, go (one ':') 80]),
  (91, [go xdigit 92, go (one ':') 95]),
  (92, [go xdigit 93, go (one ':') 95]),
  (93, [go xdigit 94, go (one ':') 95]),
  (94, [go (one ':') 95]),
  (95, [go xdigit 96, go (one ':') 166]),
  (96, [go xdigit 97, go (one ':') 100]),
  (97, [go xdigit 98, go (one ':') 100]),
  (98, [go xdigit 99, go (one ':') 100]),
  (99, [go (one ':') 100]),
  (100, [go xdigit 101, go (one ':') 165]),
  (101, [go xdigit 102, go (one ':') 105]),
  (102, [go xdigit 103, go (one ':') 105]),
  (103, [go xdigit 104, go (one ':') 105]),
  (104, [go (one ':') 105]),
  (105, [go xdigit 106, go (one ':') 164]),
  (106, [go xdigit 107, go (one ':') 110]),
  (107, [go xdigit 108, go (one ':') 110]),
  (108, [go xdigit 109, go (one ':') 110]),
  (109, [go (one ':') 110]),
  (110, [go xdigit 111, go (one ':') 163]),
  (111, [go xdigit 112, go (one ':') 115]),
  (112, [go xdigit 113, go (one ':') 115]),
  (113, [go xdigit 114, go (one ':') 115]),
  (114, [go (one ':') 115]),
  (115, [go xdigit 116, go (one ':') 151]),
  (116, [go xdigit 117, go (one ':') 120]),
  (117, [go xdigit 118, go (one ':') 120]),
  (118, [go xdigit 119, go (one ':') 120]),
  (119, [go (one ':') 120]),
  (120, [go xdigit 121, go (one ':') 150]),
  (121, [go xdigit 122, go (one ':') 125]),
  (122, [go xdigit 123, go (one ':') 125]),
  (123, [go xdigit 124, go (one ':') 125]),
  (124, [go (one ':') 125]),
  (125, [go xdigit 121, go (one ':') 126]),
  (126, [go [(2, 3)] 48, go [(48, 48), (51, 57)] 127, go (one '1') 143, go (one '2') 146,
    go hexLetter 149, go (one ']') 61]),
  (127, [go (one '.') 55, go xdigit 128, go (one ':') 131, go (one ']') 61]),
  (128, [go xdigit 129, go (one ':') 131, go (one ']') 61]),
  (129, [go xdigit 130, go (one ':') 131, go (one ']') 61]),
  (130, [go (one ':') 131, go (one ']') 61]),
  (131, [go [(48, 48), (51, 57)] 132, go (one '1') 136, go (one '2') 139, go hexLetter 142]),
  (132, [go (one '.') 55, go xdigit 133, go (one ':') 80, go (one ']') 61]),
  (133, [go xdigit 134, go (one ':') 80, go (one ']') 61]),
  (134, [go xdigit 135, go (one ':') 80, go (one ']') 61]),
  (135, [go (one ':') 80, go (one ']') 61]),
  (136, [go (one '.') 55, go digit 137, go (one ':') 80, go hexLetter 133, go (one ']') 61]),
  (137, [go (one '.') 55, go digit 138, go (one ':') 80, go hexLetter 134, go (one ']') 61]),
  (138, [go (one '.') 55, go xdigit 135, go (one ':') 80, go (one ']') 61]),
  (139, [go (one '.') 55, go (one '0') 140, go [(49, 52), (54, 57), (65, 70), (97, 102)] 133,
    go (one '5') 141, go (one ':') 80, go (one ']') 61]),
  (140, [go digit 138, go (one ':') 80, go hexLetter 134, go (one ']') 61]),
  (141, [go (one '0') 138, go [(49, 57), (65, 70), (97, 102)] 134, go (one ':') 80,
    go (one ']') 61]),
  (142, [go xdigit 133, go (one ':') 80, go (one ']') 61]),
  (143, [go (one '.') 55, go digit 144, go (one ':') 131, go hexLetter 128, go (one ']') 61]),
  (144, [go (one '.') 55, go digit 145, go (one ':') 131, go hexLetter 129, go (one ']') 61]),
  (145, [go (one '.') 55, go xdigit 130, go (one ':') 131, go (one ']') 61]),
  (146, [go (one '.') 55, go (one '0') 147, go [(49, 52), (54, 57), (65, 70), (97, 102)] 128,
    go (one '5') 148, go (one ':') 131, go (one ']') 61]),
  (147, [go digit 145, go (one ':') 131, go hexLetter 129, go (one ']') 61]),
  (148, [go (one '0') 145, go [(49, 57), (65, 70), (97, 102)] 129, go (one ':') 131,
    go (one ']') 61]),
  (149, [go xdigit 128, go (one ':') 131, go (one ']') 61]),
  (150, [go [(2, 3)] 48, go [(48, 48), (51, 57)] 127, go (one '1') 143, go (one '2') 146,
    go hexLetter 149]),
  (151, [go [(2, 3)] 48, go [(48, 48), (51, 57)] 152, go (one '1') 156, go (one '2') 159,
    go hexLetter 162]),
  (152, [go (one '.') 55, go xdigit 153, go (one ':') 131]),
  (153, [go xdigit 154, go (one ':') 131]),
  (154, [go xdigit 155, go (one ':') 131]),
  (155, [go (one ':') 131]),
  (156, [go (one '.') 55, go digit 157, go (one ':') 131, go hexLetter 153]),
  (157, [go (one '.') 55, go digit 158, go (one ':') 131, go hexLetter 154]),
  (158, [go (one '.') 55, go xdigit 155, go (one ':') 131]),
  (159, [go (one '.') 55, go (one '0') 160, go [(49, 52), (54, 57), (65, 70), (97, 102)] 153,
    go (one '5') 161, go (one ':') 131]),
  (160, [go digit 158, go (one ':') 131, go hexLetter 154]),
  (161, [go (one '0') 158, go [(49, 57), (65, 70), (97, 102)] 154, go (one ':') 131]),
  (162, [go xdigit 153, go (one ':') 131]),
  (163, [go [(2, 3)] 48, go xdigit 49]),
  (164, [go [(2, 3)] 48]),
  (165, [go (byte 3) 48]),
  (166, [go (byte 4) 48]),
  (167, [go (one ':') 168]),
  (168, [go [(2, 5)] 48, go [(48, 48), (51, 57)] 127, go (one '1') 143, go (one '2') 146,
    go hexLetter 149, go (one ']') 61]),
  (169, [go xdigit 170]),
  (170, [go (one '.') 171, go xdigit 170]),
  (171, [go userinfo 172, loose 172 []]),
  (172, [go userinfo 172, go (one ']') 61, loose 172 []]),
  (173, [act sp 4 [.requestPath, .requestUri],
    go [(33, 33), (36, 36), (38, 42), (44, 44), (59, 59), (61, 61), (64, 64), (95, 95),
      (126, 126)] 19,
    act (one '#') 20 [.requestPath, .requestUri], go (one '%') 24,
    go [(43, 43), (45, 46), (48, 57), (65, 90), (97, 122)] 173, go (one '/') 26,
    go (one ':') 174, act (one '?') 29 [.requestPath], loose 19 []]),
  (174, [act sp 4 [.mark, .requestPath, .requestUri], act pchar 26 [.mark],
    act (one '#') 20 [.mark, .requestPath, .requestUri], act (one '%') 27 [.mark],
    act (one '/') 33 [.mark], act (one '?') 29 [.mark, .requestPath], loose 26 [.mark]]),
  (175, [act sp 3 [.requestMethod], go methodChar 176]),
  (176, [act sp 3 [.requestMethod], go methodChar 177]),
  (177, [act sp 3 [.requestMethod], go methodChar 178]),
  (178, [act sp 3 [.requestMethod], go methodChar 179]),
  (179, [act sp 3 [.requestMethod], go methodChar 180]),
  (180, [act sp 3 [.requestMethod], go methodChar 181]),
  (181, [act sp 3 [.requestMethod], go methodChar 182]),
  (182, [act sp 3 [.requestMethod], go methodChar 183]),
  (183, [act sp 3 [.requestMethod], go methodChar 184]),
  (184, [act sp 3 [.requestMethod], go methodChar 185]),
  (185, [act sp 3 [.requestMethod], go methodChar 186]),
  (186, [act sp 3 [.requestMethod], go methodChar 187]),
  (187, [act sp 3 [.requestMethod], go methodChar 188]),
  (188, [act sp 3 [.requestMethod], go methodChar 189]),
  (189, [act sp 3 [.requestMethod], go methodChar 190]),
  (190, [act sp 3 [.requestMethod], go methodChar 191]),
  (191, [act sp 3 [.requestMethod], go methodChar 192]),
  (192, [act sp 3 [.requestMethod], go methodChar 193]),
  (193, [act sp 3 [.requestMethod]]),
  (194, [go [(45, 46), (48, 57), (65, 90), (97, 122)] 195]),
  (195, [act [(9, 13), (32, 32), (47, 47), (62, 62)] 196 [.requestPath],
    go [(45, 46), (48, 57), (65, 90), (97, 122)] 195]),
  (196, [go [(0, 61), (63, 255)] 196, go (one '>') 197]),
  (197, [act nul 349 [.xml, .done], go [(1, 61), (63, 255)] 196, go (one '>') 197]),
  (198, [act sp 199 [.requestPath], go segmentNc 202, go (one '%') 203, go (one '/') 208,
    loose 202 []]),
  (199, [act (byte 123) 200 [.mark]]),
  (200, [go [(0, 124), (126, 255)] 200, go (byte 125) 201]),
  (201, [act nul 349 [.json, .done], go [(1, 124), (126, 255)] 200, go (byte 125) 201]),
  (202, [act sp 199 [.requestPath], go segmentNc 202, go (one '%') 203, go (one '/') 205,
    loose 202 []]),
  (203, [go xdigit 204]),
  (204, [go xdigit 202]),
  (205, [act sp 199 [.requestPath], go pathChar 205, go (one '%') 206, loose 205 []]),
  (206, [go xdigit 207]),
  (207, [go xdigit 205]),
  (208, [act sp 199 [.requestPath], go pchar 205, go (one '%') 206, go (one '/') 209,
    loose 205 []]),
  (209, [act sp 199 [.requestPath], go regName 210, go (one '%') 211, go (one '/') 205,
    go (one ':') 213, go (one '@') 217, go (one '[') 222, loose 210 []]),
  (210, [act sp 199 [.requestPath], go regName 210, go (one '%') 211, go (one '/') 205,
    go (one ':') 213, go (one '@') 217, loose 210 []]),
  (211, [go xdigit 212]),
  (212, [go xdigit 210]),
  (213, [act sp 199 [.requestPath], go userinfoNoDigit 214, go (one '%') 215, go (one '/') 205,
    go digit 213, go (one '@') 217, loose 214 []]),
  (214, [go userinfo 214, go (one '%') 215, go (one '@') 217, loose 214 []]),
  (215, [go xdigit 216]),
  (216, [go xdigit 214]),
  (217, [act sp 199 [.requestPath], go regName 218, go (one '%') 219, go (one '/') 205,
    go (one ':') 221, go (one '[') 222, loose 218 []]),
  (218, [act sp 199 [.requestPath], go regName 218, go (one '%') 219, go (one '/') 205,
    go (one ':') 221, loose 218 []]),
  (219, [go xdigit 220]),
  (220, [go xdigit 218]),
  (221, [act sp 199 [.requestPath], go (one '/') 205, go digit 221]),
  (222, [go (byte 6) 223, go xdigit 266, go (one ':') 342, go (one 'v') 344]),
  (223, [go xdigit 224]),
  (224, [go xdigit 225, go (one ':') 228]),
  (225, [go xdigit 226, go (one ':') 228]),
  (226, [go xdigit 227, go (one ':') 228]),
  (227, [go (one ':') 228]),
  (228, [go [(48, 48), (51, 57)] 229, go (one '1') 259, go (one '2') 262, go hexLetter 265]),
  (229, [go (one '.') 230, go xdigit 252, go (one ':') 255]),
  (230, [go [(48, 48), (51, 57)] 231, go (one '1') 247, go (one '2') 249]),
  (231, [go (one '.') 232]),
  (232, [go [(48, 48), (51, 57)] 233, go (one '1') 242, go (one '2') 244]),
  (233, [go (one '.') 234]),
  (234, [go [(48, 48), (51, 57)] 235, go (one '1') 237, go (one '2') 239]),
  (235, [go (one ']') 236]),
  (236, [act sp 199 [.requestPath], go (one '/') 205, go (one ':') 221]),
  (237, [go digit 238, go (one ']') 236]),
  (238, [go digit 235, go (one ']') 236]),
  (239, [go (one '0') 240, go (one '5') 241, go (one ']') 236]),
  (240, [go digit 235]),
  (241, [go (one '0') 235]),
  (242, [go (one '.') 234, go digit 243]),
  (243, [go (one '.') 234, go digit 233]),
  (244, [go (one '.') 234, go (one '0') 245, go (one '5') 246]),
  (245, [go digit 233]),
  (246, [go (one '0') 233]),
  (247, [go (one '.') 232, go digit 248]),
  (248, [go (one '.') 232, go digit 231]),
  (249, [go (one '.') 232, go (one '0') 250, go (one '5') 251]),
  (250, [go digit 231]),
  (251, [go (one '0') 231]),
  (252, [go xdigit 253, go (one ':') 255]),
  (253, [go xdigit 254, go (one ':') 255]),
  (254, [go (one ':') 255]),
  (255, [go xdigit 256]),
  (256, [go xdigit 257, go (one ']') 236]),
  (257, [go xdigit 258, go (one ']') 236]),
  (258, [go xdigit 235, go (one ']') 236]),
  (259, [go (one '.') 230, go digit 260, go (one ':') 255, go hexLetter 252]),
  (260, [go (one '.') 230, go digit 261, go (one ':') 255, go hexLetter 253]),
  (261, [go (one '.') 230, go xdigit 254, go (one ':') 255]),
  (262, [go (one '.') 230, go (one '0') 263, go [(49, 52), (54, 57), (65, 70), (97, 102)] 252,
    go (one '5') 264, go (one ':') 255]),
  (263, [go digit 261, go (one ':') 255, go hexLetter 253]),
  (264, [go (one '0') 261, go [(49, 57), (65, 70), (97, 102)] 253, go (one ':') 255]),
  (265, [go xdigit 252, go (one ':') 255]),
  (266, [go xdigit 267, go (one ':') 270]),
  (267, [go xdigit 268, go (one ':') 270]),
  (268, [go xdigit 269, go (one ':') 270]),
  (269, [go (one ':') 270]),
  (270, [go xdigit 271, go (one ':') 341]),
  (271, [go xdigit 272, go (one ':') 275]),
  (272, [go xdigit 273, go (one ':') 275]),
  (273, [go xdigit 274, go (one ':') 275]),
  (274, [go (one ':') 275]),
  (275, [go xdigit 276, go (one ':') 340]),
  (276, [go xdigit 277, go (one ':') 280]),
  (277, [go xdigit 278, go (one ':') 280]),
  (278, [go xdigit 279, go (one ':') 280]),
  (279, [go (one ':') 280]),
  (280, [go xdigit 281, go (one ':') 339]),
  (281, [go xdigit 282, go (one ':') 285]),
  (282, [go xdigit 283, go (one ':') 285]),
  (283, [go xdigit 284, go (one ':') 285]),
  (284, [go (one ':') 285]),
  (285, [go xdigit 286, go (one ':') 338]),
  (286, [go xdigit 287, go (one ':') 290]),
  (287, [go xdigit 288, go (one ':') 290]),
  (288, [go xdigit 289, go (one ':') 290]),
  (289, [go (one ':') 290]),
  (290, [go xdigit 291, go (one ':') 326]),
  (291, [go xdigit 292, go (one ':') 295]),
  (292, [go xdigit 293, go (one ':') 295]),
  (293, [go xdigit 294, go (one ':') 295]),
  (294, [go (one ':') 295]),
  (295, [go xdigit 296, go (one ':') 325]),
  (296, [go xdigit 297, go (one ':') 300]),
  (297, [go xdigit 298, go (one ':') 300]),
  (298, [go xdigit 299, go (one ':') 300]),
  (299, [go (one ':') 300]),
  (300, [go xdigit 296, go (one ':') 301]),
  (301, [go [(2, 3)] 223, go [(48, 48), (51, 57)] 302, go (one '1') 318, go (one '2') 321,
    go hexLetter 324, go (one ']') 236]),
  (302, [go (one '.') 230, go xdigit 303, go (one ':') 306, go (one ']') 236]),
  (303, [go xdigit 304, go (one ':') 306, go (one ']') 236]),
  (304, [go xdigit 305, go (one ':') 306, go (one ']') 236]),
  (305, [go (one ':') 306, go (one ']') 236]),
  (306, [go [(48, 48), (51, 57)] 307, go (one '1') 311, go (one '2') 314, go hexLetter 317]),
  (307, [go (one '.') 230, go xdigit 308, go (one ':') 255, go (one ']') 236]),
  (308, [go xdigit 309, go (one ':') 255, go (one ']') 236]),
  (309, [go xdigit 310, go (one ':') 255, go (one ']') 236]),
  (310, [go (one ':') 255, go (one ']') 236]),
  (311, [go (one '.') 230, go digit 312, go (one ':') 255, go hexLetter 308, go (one ']') 236]),
  (312, [go (one '.') 230, go digit 313, go (one ':') 255, go hexLetter 309, go (one ']') 236]),
  (313, [go (one '.') 230, go xdigit 310, go (one ':') 255, go (one ']') 236]),
  (314, [go (one '.') 230, go (one '0') 315, go [(49, 52), (54, 57), (65, 70), (97, 102)] 308,
    go (one '5') 316, go (one ':') 255, go (one ']') 236]),
  (315, [go digit 313, go (one ':') 255, go hexLetter 309, go (one ']') 236]),
  (316, [go (one '0') 313, go [(49, 57), (65, 70), (97, 102)] 309, go (one ':') 255,
    go (one ']') 236]),
  (317, [go xdigit 308, go (one ':') 255, go (one ']') 236]),
  (318, [go (one '.') 230, go digit 319, go (one ':') 306, go hexLetter 303, go (one ']') 236]),
  (319, [go (one '.') 230, go digit 320, go (one ':') 306, go hexLetter 304, go (one ']') 236]),
  (320, [go (one '.') 230, go xdigit 305, go (one ':') 306, go (one ']') 236]),
  (321, [go (one '.') 230, go (one '0') 322, go [(49, 52), (54, 57), (65, 70), (97, 102)] 303,
    go (one '5') 323, go (one ':') 306, go (one ']') 236]),
  (322, [go digit 320, go (one ':') 306, go hexLetter 304, go (one ']') 236]),
  (323, [go (one '0') 320, go [(49, 57), (65, 70), (97, 102)] 304, go (one ':') 306,
    go (one ']') 236]),
  (324, [go xdigit 303, go (one ':') 306, go (one ']') 236]),
  (325, [go [(2, 3)] 223, go [(48, 48), (51, 57)] 302, go (one '1') 318, go (one '2') 321,
    go hexLetter 324]),
  (326, [go [(2, 3)] 223, go [(48, 48), (51, 57)] 327, go (one '1') 331, go (one '2') 334,
    go hexLetter 337]),
  (327, [go (one '.') 230, go xdigit 328, go (one ':') 306]),
  (328, [go xdigit 329, go (one ':') 306]),
  (329, [go xdigit 330, go (one ':') 306]),
  (330, [go (one ':') 306]),
  (331, [go (one '.') 230, go digit 332, go (one ':') 306, go hexLetter 328]),
  (332, [go (one '.') 230, go digit 333, go (one ':') 306, go hexLetter 329]),
  (333, [go (one '.') 230, go xdigit 330, go (one ':') 306]),
  (334, [go (one '.') 230, go (one '0') 335, go [(49, 52), (54, 57), (65, 70), (97, 102)] 328,
    go (one '5') 336, go (one ':') 306]),
  (335, [go digit 333, go (one ':') 306, go hexLetter 329]),
  (336, [go (one '0') 333, go [(49, 57), (65, 70), (97, 102)] 329, go (one ':') 306]),
  (337, [go xdigit 328, go (one ':') 306]),
  (338, [go [(2, 3)] 223, go xdigit 224]),
  (339, [go [(2, 3)] 223]),
  (340, [go (byte 3) 223]),
  (341, [go (byte 4) 223]),
  (342, [go (one ':') 343]),
  (343, [go [(2, 5)] 223, go [(48, 48), (51, 57)] 302, go (one '1') 318, go (one '2') 321,
    go hexLetter 324, go (one ']') 236]),
  (344, [go xdigit 345]),
  (345, [go (one '.') 346, go xdigit 345]),
  (346, [go userinfo 347, loose 347 []]),
  (347, [go userinfo 347, go (one ']') 236, loose 347 []]),
  (348, [go token 14, act (one ':') 15 [.writeField]]),
  (349, [])]

def edge (uriRelaxed : Bool) (cs : Nat) (c : UInt8) : Option Edge :=
  match rows.find? (·.1 == cs) with
  | none => none
  | some row => row.2.find? (·.admits uriRelaxed c)

/-- `fbreak` leaves the loop exactly on the edges into the final states, and no edge leads to the
error state. -/
def Edge.Ordinary (e : Edge) : Prop := (.done ∈ e.actions ↔ 348 ≤ e.target) ∧ e.target ≠ 0

instance : DecidablePred Edge.Ordinary := fun e => by unfold Edge.Ordinary; infer_instance

theorem rows_ordinary : ∀ row ∈ rows, ∀ e ∈ row.2, e.Ordinary := by decide +kernel

theorem edge_holds {P : Nat → Edge → Prop} (all : ∀ row ∈ rows, ∀ e ∈ row.2, P row.1 e)
    {uriRelaxed : Bool} {cs : Nat} {c : UInt8} {e : Edge} (found : edge uriRelaxed cs c = some e) :
    P cs e := by
  unfold edge at found
  split at found
  · cases found
  · rename_i row hrow
    have same : row.1 = cs := by simpa using List.find?_some hrow
    exact same ▸ all row (List.mem_of_find?_eq_some hrow) e (List.mem_of_find?_eq_some found)

theorem edge_ordinary {uriRelaxed : Bool} {cs : Nat} {c : UInt8} {e : Edge}
    (found : edge uriRelaxed cs c = some e) : e.Ordinary :=
  edge_holds (P := fun _ e => e.Ordinary) rows_ordinary found

end Cool.Http
