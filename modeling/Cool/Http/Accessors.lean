import Cool.Foundation.Trace
import Cool.Http.Headers

/-!
# The three maps of a request

The accessors of headers, parameters and cookies, beside three maps keyed by the folded keys. `delCookie` erases a
parameter, and the `has` functions write through a pointer that is null by default.
-/

namespace Cool.Http

open Foundation

/-- Undefined behaviour. -/
inductive Misuse where
  | nullPointer
  deriving DecidableEq, Repr

namespace MapType

def erase (m : MapType) (key : List UInt8) : MapType :=
  OrderedMap.erase strcasecmpLt m key

def get (m : MapType) (key def' : List UInt8) : List UInt8 :=
  match m.find key with
  | none => def'
  | some text => text

/-- `val` is the string behind the pointer, `none` for a null pointer. The result has the string afterwards. -/
def has (m : MapType) (key : List UInt8) (val : Option (List UInt8)) : Except Misuse (Bool × Option (List UInt8)) :=
  match m.find key, val with
  | none, val => .ok (false, val)
  | some _, none => .error .nullPointer
  | some text, some _ => .ok (true, some text)

end MapType

/-- `HttpRequest` with the two maps that the parser and `dump` do not use. -/
structure Request extends HttpRequest where
  params : MapType
  cookies : MapType
  deriving DecidableEq, Repr

namespace Request

def new : Request := { HttpRequest.new with params := [], cookies := [] }

section

variable (r : Request) (key : List UInt8)

def getHeader (def' : List UInt8) : List UInt8 := r.headers.get key def'
def getParam (def' : List UInt8) : List UInt8 := r.params.get key def'
def getCookie (def' : List UInt8) : List UInt8 := r.cookies.get key def'

def setHeader (val : List UInt8) : Request := { r with toHttpRequest := r.toHttpRequest.setHeader key val }
def setParam (val : List UInt8) : Request := { r with params := r.params.set key val }
def setCookie (val : List UInt8) : Request := { r with cookies := r.cookies.set key val }

def delHeader : Request := { r with headers := r.headers.erase key }
def delParam : Request := { r with params := r.params.erase key }
def delCookie : Request := { r with params := r.params.erase key }

def hasHeader (val : Option (List UInt8)) := r.headers.has key val
def hasParam (val : Option (List UInt8)) := r.params.has key val
def hasCookie (val : Option (List UInt8)) := r.cookies.has key val

end

/-- The keys that `c_str()` does not cut. -/
abbrev Key := { key : List UInt8 // 0 ∉ key }

inductive Field where
  | header | param | cookie
  deriving DecidableEq, Repr

inductive Call where
  | get (field : Field) (key : Key) (def' : List UInt8)
  | set (field : Field) (key : Key) (val : List UInt8)
  | del (field : Field) (key : Key)
  | has (field : Field) (key : Key) (val : Option (List UInt8))

inductive Answer where
  | nothing
  | text (s : List UInt8)
  | has (found : Bool) (val : Option (List UInt8))
  deriving DecidableEq, Repr

def Call.exec (r : Request) : Call → Except Misuse (Answer × Request)
  | .get .header key def' => .ok (.text (r.getHeader key def'), r)
  | .get .param key def' => .ok (.text (r.getParam key def'), r)
  | .get .cookie key def' => .ok (.text (r.getCookie key def'), r)
  | .set .header key val => .ok (.nothing, r.setHeader key val)
  | .set .param key val => .ok (.nothing, r.setParam key val)
  | .set .cookie key val => .ok (.nothing, r.setCookie key val)
  | .del .header key => .ok (.nothing, r.delHeader key)
  | .del .param key => .ok (.nothing, r.delParam key)
  | .del .cookie key => .ok (.nothing, r.delCookie key)
  | .has .header key val => (r.hasHeader key val).map fun found => (.has found.1 found.2, r)
  | .has .param key val => (r.hasParam key val).map fun found => (.has found.1 found.2, r)
  | .has .cookie key val => (r.hasCookie key val).map fun found => (.has found.1 found.2, r)

/-! ### Three independent maps -/

abbrev Maps := Field → Key → Option (List UInt8)

def SameKey (a b : Key) : Prop := a.val.map tolower = b.val.map tolower

instance (a b : Key) : Decidable (SameKey a b) := inferInstanceAs (Decidable (_ = _))

namespace Maps

def put (maps : Maps) (field : Field) (key : Key) (val : Option (List UInt8)) : Maps :=
  fun f k => if f = field ∧ SameKey key k then val else maps f k

def exec (maps : Maps) : Call → Answer × Maps
  | .get field key def' => (.text ((maps field key).getD def'), maps)
  | .set field key val => (.nothing, maps.put field key (some val))
  | .del field key => (.nothing, maps.put field key none)
  | .has field key val => (.has (maps field key).isSome (val.map ((maps field key).getD ·)), maps)

end Maps

def field (r : Request) : Field → MapType
  | .header => r.headers
  | .param => r.params
  | .cookie => r.cookies

def maps (r : Request) : Maps := fun field key => (r.field field).find key.val

/-- A cookie is deleted only where neither a cookie nor a parameter has the key, and a key that is there is not asked
for without a pointer. -/
def Call.Harmless (maps : Maps) : Call → Prop
  | .del .cookie key => maps .cookie key = none ∧ maps .param key = none
  | .has field key none => maps field key = none
  | _ => True

/-! ### One call -/

theorem folded_visible (key : Key) : folded key.val = (key.val.map tolower).map UInt8.toNat := by
  rw [folded, takeWhile_visible key.property, List.map_map]
  rfl

theorem sameKey_iff (a b : Key) : SameKey a b ↔ folded a.val = folded b.val := by
  rw [folded_visible, folded_visible]
  exact (List.map_injective_iff.mpr (fun x y => UInt8.toNat_inj.mp)).eq_iff.symm

theorem SameKey.refl (key : Key) : SameKey key key := rfl

end Request

namespace MapType

variable (m : MapType) (key k : Request.Key) (val : List UInt8)

theorem find_set : (m.set key val).find k = if Request.SameKey key k then some val else m.find k := by
  rw [set, find, find, OrderedMap.find_set compares]
  simp only [Request.sameKey_iff]
  congr

theorem find_erase : (m.erase key).find k = if Request.SameKey key k then none else m.find k := by
  rw [erase, find, find, OrderedMap.find_erase compares]
  simp only [Request.sameKey_iff]
  congr

theorem get_eq (def' : List UInt8) : m.get key def' = (m.find key).getD def' := by
  unfold get
  cases m.find key.val <;> rfl

theorem has_some (out : List UInt8) : m.has key (some out) = .ok ((m.find key).isSome, some ((m.find key).getD out)) := by
  unfold has
  cases m.find key.val <;> rfl

theorem has_none : m.has key none = if m.find key = none then .ok (false, none) else .error .nullPointer := by
  unfold has
  cases m.find key.val <;> rfl

end MapType

namespace Request

section

variable (r : Request) (key : Key) (val : List UInt8)

/-- A request that differs in one map, and there at one key. -/
theorem maps_put {r' : Request} {field : Field} {val : Option (List UInt8)}
    (here : ∀ k : Key, (r'.field field).find k = if SameKey key k then val else (r.field field).find k)
    (others : ∀ f, f ≠ field → r'.field f = r.field f) : r'.maps = r.maps.put field key val := by
  funext f k
  unfold Maps.put Request.maps
  by_cases same : f = field
  · subst same
    simp only [here, true_and]
  · simp only [others f same, same, false_and, if_false]

theorem maps_setHeader : (r.setHeader key val).maps = r.maps.put .header key (some val) := by
  apply maps_put r key
  · intro k
    exact MapType.find_set r.headers key k val
  · intro field other
    cases field <;> first | rfl | exact absurd rfl other

theorem maps_setParam : (r.setParam key val).maps = r.maps.put .param key (some val) := by
  apply maps_put r key
  · intro k
    exact MapType.find_set r.params key k val
  · intro field other
    cases field <;> first | rfl | exact absurd rfl other

theorem maps_setCookie : (r.setCookie key val).maps = r.maps.put .cookie key (some val) := by
  apply maps_put r key
  · intro k
    exact MapType.find_set r.cookies key k val
  · intro field other
    cases field <;> first | rfl | exact absurd rfl other

theorem maps_delHeader : (r.delHeader key).maps = r.maps.put .header key none := by
  apply maps_put r key
  · intro k
    exact MapType.find_erase r.headers key k
  · intro field other
    cases field <;> first | rfl | exact absurd rfl other

theorem maps_delParam : (r.delParam key).maps = r.maps.put .param key none := by
  apply maps_put r key
  · intro k
    exact MapType.find_erase r.params key k
  · intro field other
    cases field <;> first | rfl | exact absurd rfl other

theorem maps_congr (field : Field) {key k : Key} (same : SameKey key k) : r.maps field key = r.maps field k := by
  unfold Request.maps
  rw [MapType.find, MapType.find]
  exact OrderedMap.find_congr compares ((sameKey_iff key k).mp same) _

theorem put_none {field : Field} {key : Key} (absent : r.maps field key = none) :
    r.maps.put field key none = r.maps := by
  funext f k
  unfold Maps.put
  split
  · rename_i here
    rw [here.1, ← maps_congr r field here.2, absent]
  · rfl

/-- The cookie stays and the parameter goes. -/
theorem delCookie_agrees : Agrees Call.exec Maps.exec Request.maps r (.del .cookie key) ↔
    r.maps .cookie key = none ∧ r.maps .param key = none := by
  have erased : (r.delCookie key).maps = r.maps.put .param key none := maps_delParam r key
  have called : Call.exec r (.del .cookie key) = .ok (.nothing, r.delCookie key) := rfl
  rw [agrees_of_ok called, erased]
  constructor
  · -- the two maps after the call are compared at the key itself
    intro same
    have put := (Prod.mk.inj same).2
    have cookie := congrFun (congrFun put .cookie) key
    have param := congrFun (congrFun put .param) key
    simp [Maps.put, SameKey.refl] at cookie param
    exact ⟨cookie.symm, param⟩
  · rintro ⟨noCookie, noParam⟩
    simp only [Maps.exec, put_none r noCookie, put_none r noParam]

theorem has_agrees (field : Field) (val : Option (List UInt8))
    (called : Call.exec r (.has field key val) =
      ((r.field field).has key val).map fun found => (.has found.1 found.2, r)) :
    Agrees Call.exec Maps.exec Request.maps r (.has field key val) ↔ Call.Harmless r.maps (.has field key val) := by
  cases val with
  | some out =>
    rw [MapType.has_some] at called
    rw [agrees_of_ok called]
    exact iff_of_true rfl trivial
  | none =>
    rw [MapType.has_none] at called
    by_cases absent : (r.field field).find key = none
    · rw [if_pos absent] at called
      rw [agrees_of_ok called]
      refine iff_of_true ?_ absent
      simp [Maps.exec, Request.maps, absent]
    · rw [if_neg absent] at called
      exact iff_of_false (not_agrees called) absent

theorem put_agrees {call : Call} {r' : Request} {maps : Maps} (called : call.exec r = .ok (.nothing, r'))
    (specified : r.maps.exec call = (.nothing, maps)) (changed : r'.maps = maps) :
    Agrees Call.exec Maps.exec Request.maps r call := by
  rw [agrees_of_ok called, specified, changed]

/-- A call answers and changes the maps as it should exactly when it is harmless. -/
theorem call_agrees (call : Call) : Agrees Call.exec Maps.exec Request.maps r call ↔ call.Harmless r.maps := by
  cases call with
  | get field key def' =>
    have called : Call.exec r (.get field key def') = .ok (.text ((r.maps field key).getD def'), r) := by
      cases field <;> exact congrArg (fun text => Except.ok (Answer.text text, r)) (MapType.get_eq _ key def')
    rw [agrees_of_ok called]
    exact iff_of_true rfl trivial
  | set field key val =>
    cases field with
    | header => exact iff_of_true (put_agrees r rfl rfl (maps_setHeader r key val)) trivial
    | param => exact iff_of_true (put_agrees r rfl rfl (maps_setParam r key val)) trivial
    | cookie => exact iff_of_true (put_agrees r rfl rfl (maps_setCookie r key val)) trivial
  | del field key =>
    cases field with
    | header => exact iff_of_true (put_agrees r rfl rfl (maps_delHeader r key)) trivial
    | param => exact iff_of_true (put_agrees r rfl rfl (maps_delParam r key)) trivial
    | cookie => exact delCookie_agrees r key
  | has field key val => exact has_agrees r key field val (by cases field <;> rfl)

end

/-- The answers of a sequence of calls, and what the request holds after each, are those of three independent maps
exactly when every call is harmless in the maps it meets. -/
theorem accesses_iff (r : Request) (calls : List Call) :
    trace Call.exec Request.maps r calls = .ok (specTrace Maps.exec r.maps calls) ↔
      Along Maps.exec (fun maps call => call.Harmless maps) r.maps calls :=
  trace_iff (I := fun _ => True) (fun r call _ => call_agrees r call) (fun _ _ _ _ _ _ => trivial) trivial calls

/-- A cookie that is deleted is still there, a parameter of its name is not, and a header that is there cannot be
asked for alone. -/
theorem accesses_differ :
    ((Request.new.setCookie (ascii "id") (ascii "1")).delCookie (ascii "id")).getCookie (ascii "id") [] = ascii "1" ∧
      ((Request.new.setParam (ascii "id") (ascii "1")).delCookie (ascii "id")).getParam (ascii "id") [] = [] ∧
      (Request.new.setHeader (ascii "Host") (ascii "a")).hasHeader (ascii "host") none = .error .nullPointer := by
  decide

end Request

end Cool.Http
