import Cool.Http.Table

/-!
# The response machine

The automaton that Ragel generates from `httpclient_parser.rl` (`httpclient_parser.rl.cpp`), state by
state under the generated numbers. `httpclient_parser_start` is 1, `httpclient_parser_first_final` 120
and `httpclient_parser_error` 0. Of the edges of a state the first that admits a byte is taken; a byte
that none admits leads to the error state.
-/

namespace Cool.Http.Client

/-- The actions of the machine. `start_value` and `mark` set the same register and are one. -/
inductive Action where
  | mark
  | startField
  | writeField
  | writeContentLen
  | writeConnectionClose
  | writeValue
  | reasonPhrase
  | statusCode
  | httpVersion
  | chunkSize
  | transChunked
  | done
  deriving DecidableEq, Repr

structure Edge where
  ranges : List (Nat × Nat)
  target : Nat
  actions : List Action
  deriving DecidableEq, Repr

namespace Edge

def admits (e : Edge) (c : UInt8) : Bool := e.ranges.any fun r => r.1 ≤ c.toNat && c.toNat ≤ r.2

def act (ranges : List (Nat × Nat)) (target : Nat) (actions : List Action) : Edge := ⟨ranges, target, actions⟩

def go (ranges : List (Nat × Nat)) (target : Nat) : Edge := act ranges target []

end Edge

/-! ### Byte classes -/

def letter (c : Char) : List (Nat × Nat) := [(c.toNat - 32, c.toNat - 32), (c.toNat, c.toNat)]

def any : List (Nat × Nat) := [(0, 255)]

def notLf : List (Nat × Nat) := [(0, 9), (11, 255)]

def space : List (Nat × Nat) := [(9, 13), (32, 32)]

def blank : List (Nat × Nat) := [(9, 9), (11, 12), (32, 32)]

/-- `token = (ascii -- (CTL | tspecials))`. -/
def token : List (Nat × Nat) :=
  [(33, 33), (35, 39), (42, 43), (45, 46), (48, 57), (65, 90), (94, 122), (124, 124), (126, 126)]

/-! ### The states -/

open Client.Edge in
def rows : List (Nat × List Edge) := [
  (1, [act xdigit 2 [.mark], act (one 'H') 8 [.mark]]),
  (2, [act lf 120 [.chunkSize, .done], act cr 3 [.chunkSize], go xdigit 2,
    act (one ';') 4 [.chunkSize]]),
  (3, [act lf 120 [.done]]),
  (4, [act token 5 [.startField]]),
  (5, [act lf 120 [.writeField, .mark, .writeValue, .done],
    act cr 3 [.writeField, .mark, .writeValue], act (one ';') 4 [.writeField, .mark, .writeValue],
    act (one '=') 6 [.writeField, .mark], go token 5]),
  (6, [act token 7 [.mark]]),
  (7, [act lf 120 [.writeValue, .done], act cr 3 [.writeValue], act (one ';') 4 [.writeValue],
    go token 7]),
  (8, [go (one 'T') 9]),
  (9, [go (one 'T') 10]),
  (10, [go (one 'P') 11]),
  (11, [go (one '/') 12]),
  (12, [go digit 13]),
  (13, [go (one '.') 14, go digit 13]),
  (14, [go digit 15]),
  (15, [act sp 16 [.httpVersion], go digit 15]),
  (16, [act digit 17 [.mark]]),
  (17, [act sp 18 [.statusCode], go digit 17]),
  (18, [act notLf 19 [.mark]]),
  (19, [act lf 20 [.reasonPhrase], act cr 24 [.reasonPhrase], go any 19]),
  (20, [act lf 120 [.done], go cr 3, act (letter 'c') 25 [.startField],
    act (letter 't') 44 [.startField], act token 21 [.startField]]),
  (21, [act (one ':') 22 [.writeField], go token 21]),
  (22, [act blank 22 [.mark], act lf 20 [.mark, .writeValue], act cr 24 [.mark, .writeValue],
    act any 23 [.mark]]),
  (23, [act lf 20 [.writeValue], act cr 24 [.writeValue], go any 23]),
  (24, [go lf 20]),
  (25, [act (one ':') 22 [.writeField], go (letter 'o') 26, go token 21]),
  (26, [act (one ':') 22 [.writeField], go (letter 'n') 27, go token 21]),
  (27, [act (one ':') 22 [.writeField], go (letter 'n') 28, go (letter 't') 101, go token 21]),
  (28, [act (one ':') 22 [.writeField], go (letter 'e') 29, go token 21]),
  (29, [act (one ':') 22 [.writeField], go (letter 'c') 30, go token 21]),
  (30, [act (one ':') 22 [.writeField], go (letter 't') 31, go token 21]),
  (31, [act (one ':') 22 [.writeField], go (letter 'i') 32, go token 21]),
  (32, [act (one ':') 22 [.writeField], go (letter 'o') 33, go token 21]),
  (33, [act (one ':') 22 [.writeField], go (letter 'n') 34, go token 21]),
  (34, [act (one ':') 35 [.writeField], go token 21]),
  (35, [act blank 35 [.mark], act lf 36 [.mark, .writeValue], act cr 95 [.mark, .writeValue],
    act (letter 'c') 96 [.mark], act any 23 [.mark]]),
  (36, [go blank 37, act lf 122 [.done], go cr 89, act (letter 'c') 90 [.startField],
    act (letter 't') 44 [.startField], act token 21 [.startField]]),
  (37, [go (letter 'c') 38, go space 37]),
  (38, [go (letter 'l') 39]),
  (39, [go (letter 'o') 40]),
  (40, [go (letter 's') 41]),
  (41, [go (letter 'e') 42]),
  (42, [go lf 43, go cr 88]),
  (43, [act lf 120 [.writeConnectionClose, .done], act cr 3 [.writeConnectionClose],
    act (letter 'c') 25 [.writeConnectionClose, .startField],
    act (letter 't') 44 [.writeConnectionClose, .startField],
    act token 21 [.writeConnectionClose, .startField]]),
  (44, [act (one ':') 22 [.writeField], go (letter 'r') 45, go token 21]),
  (45, [act (one ':') 22 [.writeField], go (letter 'a') 46, go token 21]),
  (46, [act (one ':') 22 [.writeField], go (letter 'n') 47, go token 21]),
  (47, [act (one ':') 22 [.writeField], go (letter 's') 48, go token 21]),
  (48, [act (one ':') 22 [.writeField], go (letter 'f') 49, go token 21]),
  (49, [act (one ':') 22 [.writeField], go (letter 'e') 50, go token 21]),
  (50, [act (one ':') 22 [.writeField], go (letter 'r') 51, go token 21]),
  (51, [go (one '-') 52, act (one ':') 22 [.writeField], go token 21]),
  (52, [act (one ':') 22 [.writeField], go (letter 'e') 53, go token 21]),
  (53, [act (one ':') 22 [.writeField], go (letter 'n') 54, go token 21]),
  (54, [act (one ':') 22 [.writeField], go (letter 'c') 55, go token 21]),
  (55, [act (one ':') 22 [.writeField], go (letter 'o') 56, go token 21]),
  (56, [act (one ':') 22 [.writeField], go (letter 'd') 57, go token 21]),
  (57, [act (one ':') 22 [.writeField], go (letter 'i') 58, go token 21]),
  (58, [act (one ':') 22 [.writeField], go (letter 'n') 59, go token 21]),
  (59, [act (one ':') 22 [.writeField], go (letter 'g') 60, go token 21]),
  (60, [act (one ':') 61 [.writeField], go token 21]),
  (61, [act blank 61 [.mark], act lf 62 [.mark, .writeValue], act cr 80 [.mark, .writeValue],
    act (letter 'c') 81 [.mark], act any 23 [.mark]]),
  (62, [go blank 63, act lf 121 [.done], go cr 72, act (letter 'c') 73 [.mark, .startField],
    act (letter 't') 44 [.startField], act token 21 [.startField]]),
  (63, [act (letter 'c') 64 [.mark], go space 63]),
  (64, [go (letter 'h') 65]),
  (65, [go (letter 'u') 66]),
  (66, [go (letter 'n') 67]),
  (67, [go (letter 'k') 68]),
  (68, [go (letter 'e') 69]),
  (69, [go (letter 'd') 70]),
  (70, [act lf 20 [.writeValue, .transChunked], act cr 71 [.writeValue]]),
  (71, [act lf 20 [.transChunked]]),
  (72, [act lf 121 [.done], act (letter 'c') 64 [.mark], go space 63]),
  (73, [act (one ':') 22 [.writeField], go (letter 'h') 74, go (letter 'o') 26, go token 21]),
  (74, [act (one ':') 22 [.writeField], go (letter 'u') 75, go token 21]),
  (75, [act (one ':') 22 [.writeField], go (letter 'n') 76, go token 21]),
  (76, [act (one ':') 22 [.writeField], go (letter 'k') 77, go token 21]),
  (77, [act (one ':') 22 [.writeField], go (letter 'e') 78, go token 21]),
  (78, [act (one ':') 22 [.writeField], go (letter 'd') 79, go token 21]),
  (79, [act lf 20 [.writeValue, .transChunked], act cr 71 [.writeValue],
    act (one ':') 22 [.writeField], go token 21]),
  (80, [go lf 62, act (letter 'c') 64 [.mark], go space 63]),
  (81, [act lf 20 [.writeValue], act cr 24 [.writeValue], go (letter 'h') 82, go any 23]),
  (82, [act lf 20 [.writeValue], act cr 24 [.writeValue], go (letter 'u') 83, go any 23]),
  (83, [act lf 20 [.writeValue], act cr 24 [.writeValue], go (letter 'n') 84, go any 23]),
  (84, [act lf 20 [.writeValue], act cr 24 [.writeValue], go (letter 'k') 85, go any 23]),
  (85, [act lf 20 [.writeValue], act cr 24 [.writeValue], go (letter 'e') 86, go any 23]),
  (86, [act lf 20 [.writeValue], act cr 24 [.writeValue], go (letter 'd') 87, go any 23]),
  (87, [act lf 20 [.writeValue, .transChunked], act cr 71 [.writeValue], go any 23]),
  (88, [go lf 43]),
  (89, [act lf 122 [.done], go (letter 'c') 38, go space 37]),
  (90, [act (one ':') 22 [.writeField], go (letter 'l') 91, go (letter 'o') 26, go token 21]),
  (91, [act (one ':') 22 [.writeField], go (letter 'o') 92, go token 21]),
  (92, [act (one ':') 22 [.writeField], go (letter 's') 93, go token 21]),
  (93, [act (one ':') 22 [.writeField], go (letter 'e') 94, go token 21]),
  (94, [go lf 43, go cr 88, act (one ':') 22 [.writeField], go token 21]),
  (95, [go lf 36, go (letter 'c') 38, go space 37]),
  (96, [act lf 20 [.writeValue], act cr 24 [.writeValue], go (letter 'l') 97, go any 23]),
  (97, [act lf 20 [.writeValue], act cr 24 [.writeValue], go (letter 'o') 98, go any 23]),
  (98, [act lf 20 [.writeValue], act cr 24 [.writeValue], go (letter 's') 99, go any 23]),
  (99, [act lf 20 [.writeValue], act cr 24 [.writeValue], go (letter 'e') 100, go any 23]),
  (100, [act lf 43 [.writeValue], act cr 88 [.writeValue], go any 23]),
  (101, [act (one ':') 22 [.writeField], go (letter 'e') 102, go token 21]),
  (102, [act (one ':') 22 [.writeField], go (letter 'n') 103, go token 21]),
  (103, [act (one ':') 22 [.writeField], go (letter 't') 104, go token 21]),
  (104, [go (one '-') 105, act (one ':') 22 [.writeField], go token 21]),
  (105, [act (one ':') 22 [.writeField], go (letter 'l') 106, go token 21]),
  (106, [act (one ':') 22 [.writeField], go (letter 'e') 107, go token 21]),
  (107, [act (one ':') 22 [.writeField], go (letter 'n') 108, go token 21]),
  (108, [act (one ':') 22 [.writeField], go (letter 'g') 109, go token 21]),
  (109, [act (one ':') 22 [.writeField], go (letter 't') 110, go token 21]),
  (110, [act (one ':') 22 [.writeField], go (letter 'h') 111, go token 21]),
  (111, [act (one ':') 112 [.writeField], go token 21]),
  (112, [act blank 112 [.mark], act lf 113 [.mark, .writeValue], act cr 118 [.mark, .writeValue],
    act digit 119 [.mark], act any 23 [.mark]]),
  (113, [go blank 114, act lf 123 [.done], go cr 116, act digit 117 [.mark, .startField],
    act (letter 'c') 25 [.startField], act (letter 't') 44 [.startField], act token 21 [.startField]]),
  (114, [act digit 115 [.mark], go space 114]),
  (115, [act lf 20 [.writeContentLen, .writeValue], act cr 24 [.writeContentLen, .writeValue],
    go digit 115]),
  (116, [act lf 123 [.done], act digit 115 [.mark], go space 114]),
  (117, [act lf 20 [.writeContentLen, .writeValue], act cr 24 [.writeContentLen, .writeValue],
    go digit 117, act (one ':') 22 [.writeField], go token 21]),
  (118, [go lf 113, act digit 115 [.mark], go space 114]),
  (119, [act lf 20 [.writeContentLen, .writeValue], act cr 24 [.writeContentLen, .writeValue],
    go digit 119, go any 23]),
  (120, []),
  (121, [act (letter 'c') 64 [.mark], go space 63]),
  (122, [go (letter 'c') 38, go space 37]),
  (123, [act digit 115 [.mark], go space 114])]

/-- Where a byte leads and what it does on the way. -/
def move (cs : Nat) (c : UInt8) : Option (Nat × List Action) :=
  match rows.find? (·.1 == cs) with
  | none => none
  | some row => (row.2.find? (·.admits c)).map fun e => (e.target, e.actions)

end Cool.Http.Client
