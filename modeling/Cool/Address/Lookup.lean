import Cool.Address.Parse

/-!
# Looking up a host

`Lookup` cuts the host into the node and the service that it asks `getaddrinfo` for. Two searches share the pointer to
the service, and what the second one leaves there decides what is asked for a host with several colons.
-/

namespace Cool.Address

open Foundation
open Cool.ByteArray.Typed (byteswap byteswap_byteswap)

/-! ### The function -/

def nul : Char := '\x00'

/-- The memory at `host.c_str()`. -/
def cStr (s : Text) : Text := s ++ [nul]

/-- What a function reads that takes a C string. -/
def cString (memory : Text) : Text := memory.takeWhile (· ≠ nul)

/-- `memchr` of the bytes from `start` on, as an index. -/
def memchr (memory : Text) (start : Nat) (c : Char) (n : Nat) : Option Nat :=
  (((memory.drop start).take n).idxOf? c).map (start + ·)

def substr (s : Text) (pos n : Nat) : Text := (s.drop pos).take n

/-- The variables of `Lookup`. The service is an index into `host.c_str()`. -/
structure Parts where
  node : Text
  service : Option Nat
  deriving DecidableEq, Repr

def checkIpv6addressService (host : Text) (p : Parts) : Parts :=
  if host.head? = some '[' then
    match memchr (cStr host) 1 ']' (host.length - 1) with
    | some endipv6 =>
      let service := if (cStr host)[endipv6 + 1]? = some ':' then some (endipv6 + 2) else p.service
      ⟨substr host 1 (endipv6 - 1), service⟩
    | none => p
  else p

def checkNodeService (host : Text) (p : Parts) : Parts :=
  if p.node = [] then
    match memchr (cStr host) 0 ':' host.length with
    | some service =>
      if memchr (cStr host) (service + 1) ':' (host.length - service - 1) = none then
        ⟨substr host 0 service, some (service + 1)⟩
      else ⟨p.node, some service⟩
    | none => ⟨p.node, none⟩
  else p

/-- The node and the service that `getaddrinfo` gets. -/
def request (host : Text) : Text × Option Text :=
  let p := checkNodeService host (checkIpv6addressService host ⟨[], none⟩)
  let node := if p.node = [] then host else p.node
  (cString (cStr node), p.service.map fun service => cString ((cStr host).drop service))

structure Hints where
  aiFamily : Int
  aiSocktype : Int
  aiProtocol : Int
  deriving DecidableEq, Repr

section Lookup

variable (getaddrinfo : Text → Option Text → Hints → Except Int (List Sockaddr))

def lookup (res : List Object) (host : Text) (family type protocol : Int) : Bool × List Object :=
  match getaddrinfo (request host).1 (request host).2 ⟨family, type, protocol⟩ with
  | .error _ => (false, res)
  | .ok results => (true, results.foldl (fun res next => res ++ [create next]) res)

/-- `getaddrinfo` that succeeds has at least one result, which `res[0]` relies on. -/
def lookupAny (host : Text) (family type protocol : Int) : Option Object :=
  let (found, res) := lookup getaddrinfo [] host family type protocol
  if found then res.head? else none

def Object.isIPAddress : Object → Bool
  | .iPv4 _ _ | .iPv6 _ => true
  | _ => false

def lookupAnyIPAddress (host : Text) (family type protocol : Int) : Option Object :=
  let (found, res) := lookup getaddrinfo [] host family type protocol
  if found then res.find? Object.isIPAddress else none

end Lookup

/-! ### What the searches find -/

theorem memchr_cStr (host : Text) (start : Nat) (inside : start ≤ host.length) (c : Char) :
    memchr (cStr host) start c (host.length - start) = ((host.drop start).idxOf? c).map (start + ·) := by
  rw [memchr, cStr, List.drop_append_of_le_length inside, List.take_left' List.length_drop]

theorem idxOf_first {c : Char} {s : Text} (free : c ∉ s) (rest : Text) : (s ++ c :: rest).idxOf? c = some s.length := by
  induction s with
  | nil => simp [List.idxOf?_cons]
  | cons d s ih =>
    obtain ⟨here, later⟩ := not_or.mp (mt List.mem_cons.mpr free)
    simp [List.idxOf?_cons, ih later, Ne.symm here]

theorem cString_cStr {s : Text} (free : nul ∉ s) : cString (cStr s) = s := by
  rw [cString, cStr, List.takeWhile_append_of_pos]
  · simp
  · intro c member
    simpa using fun same : c = nul => free (same ▸ member)

theorem cString_drop {front rest : Text} (free : nul ∉ front ++ rest) {k : Nat} (length : k = front.length) :
    cString ((cStr (front ++ rest)).drop k) = rest := by
  rw [cStr, List.append_assoc, length, List.drop_left]
  exact cString_cStr fun member => free (List.mem_append_right _ member)

theorem checkIpv6addressService_of_head {host : Text} (plain : host.head? ≠ some '[') (p : Parts) :
    checkIpv6addressService host p = p := if_neg plain

theorem checkIpv6addressService_brackets {N : Text} (free : ']' ∉ N) (rest : Text) (p : Parts) :
    checkIpv6addressService ('[' :: (N ++ ']' :: rest)) p =
      ⟨N, if rest.head? = some ':' then some (N.length + 3) else p.service⟩ := by
  have found := memchr_cStr ('[' :: (N ++ ']' :: rest)) 1 (by simp) ']'
  have behind : (cStr ('[' :: (N ++ ']' :: rest)))[1 + N.length + 1]? = (rest ++ [nul]).head? := by
    have parts : cStr ('[' :: (N ++ ']' :: rest)) = ('[' :: N ++ [']']) ++ (rest ++ [nul]) := by simp [cStr]
    have length : ('[' :: N ++ [']']).length = 1 + N.length + 1 := by simp [Nat.add_comm]
    rw [parts, List.getElem?_append_right (Nat.le_of_eq length), length, Nat.sub_self, List.head?_eq_getElem?]
  have next : (rest ++ [nul]).head? = some ':' ↔ rest.head? = some ':' := by
    cases rest with
    | nil => simp [nul]
    | cons => rfl
  rw [List.drop_one, List.tail_cons, idxOf_first free, Option.map_some] at found
  rw [checkIpv6addressService, List.head?_cons, if_pos rfl, found]
  simp only [behind, next]
  congr 1
  · simp [substr]
  · rw [show 1 + N.length + 2 = N.length + 3 by omega]

theorem checkNodeService_colon {H : Text} (free : ':' ∉ H) (S : Text) (service : Option Nat) :
    checkNodeService (H ++ ':' :: S) ⟨[], service⟩ =
      if ':' ∈ S then ⟨[], some H.length⟩ else ⟨H, some (H.length + 1)⟩ := by
  have first := memchr_cStr (H ++ ':' :: S) 0 (Nat.zero_le _) ':'
  have second := memchr_cStr (H ++ ':' :: S) (H.length + 1) (by simp) ':'
  have rest : (H ++ ':' :: S).drop (H.length + 1) = S := by simp
  rw [List.drop_zero, idxOf_first free, Option.map_some, Nat.zero_add, Nat.sub_zero] at first
  rw [rest] at second
  rw [checkNodeService, if_pos rfl, first]
  simp only [Nat.sub_sub, second, Option.map_eq_none_iff, List.idxOf?_eq_none_iff]
  by_cases more : ':' ∈ S
  · rw [if_neg (not_not_intro more), if_pos more]
  · rw [if_pos more, if_neg more, substr, List.drop_zero, List.take_left]

theorem checkNodeService_of_notMem {host : Text} (free : ':' ∉ host) : checkNodeService host ⟨[], none⟩ = ⟨[], none⟩ := by
  have nothing := memchr_cStr host 0 (Nat.zero_le _) ':'
  rw [List.drop_zero, List.idxOf?_eq_none_iff.mpr free, Option.map_none, Nat.sub_zero] at nothing
  rw [checkNodeService, if_pos rfl, nothing]

theorem checkNodeService_of_node {p : Parts} (named : p.node ≠ []) (host : Text) : checkNodeService host p = p :=
  if_neg named

/-! ### What is asked for -/

section Request

variable {N H S : Text}

theorem request_brackets (nonempty : N ≠ []) (closed : ']' ∉ N) (clean : nul ∉ '[' :: (N ++ [']'])) :
    request ('[' :: (N ++ [']'])) = (N, none) := by
  have clean_node : nul ∉ N := fun member => clean (by simp [member])
  rw [request, checkIpv6addressService_brackets closed, checkNodeService_of_node nonempty]
  simp [nonempty, cString_cStr clean_node]

theorem request_brackets_service (nonempty : N ≠ []) (closed : ']' ∉ N)
    (clean : nul ∉ '[' :: (N ++ ']' :: ':' :: S)) : request ('[' :: (N ++ ']' :: ':' :: S)) = (N, some S) := by
  have clean_node : nul ∉ N := fun member => clean (by simp [member])
  have host : '[' :: (N ++ ']' :: ':' :: S) = '[' :: (N ++ [']', ':']) ++ S := by simp
  have service := cString_drop (k := N.length + 3) (host ▸ clean) (by simp)
  rw [request, checkIpv6addressService_brackets closed, checkNodeService_of_node nonempty, host]
  simp only [List.head?_cons, if_true, if_neg nonempty, Option.map_some, service, cString_cStr clean_node]

/-- The second search keeps the pointer to the first colon when there are more of them. -/
theorem request_colon (plain : (H ++ ':' :: S).head? ≠ some '[') (free : ':' ∉ H) (clean : nul ∉ H ++ ':' :: S) :
    request (H ++ ':' :: S) =
      if ':' ∈ S then (H ++ ':' :: S, some (':' :: S)) else (if H = [] then H ++ ':' :: S else H, some S) := by
  have clean_node : nul ∉ H := fun member => clean (List.mem_append_left _ member)
  have host : H ++ ':' :: S = (H ++ [':']) ++ S := by simp
  rw [request, checkIpv6addressService_of_head plain, checkNodeService_colon free]
  split
  · simp only [if_true, Option.map_some, cString_cStr clean, cString_drop clean rfl]
  · rw [Option.map_some, host, cString_drop (host ▸ clean) (by simp), ← host]
    simp only
    split
    · rw [cString_cStr clean]
    · rw [cString_cStr clean_node]

theorem request_of_notMem {host : Text} (plain : host.head? ≠ some '[') (free : ':' ∉ host) (clean : nul ∉ host) :
    request host = (host, none) := by
  rw [request, checkIpv6addressService_of_head plain, checkNodeService_of_notMem free]
  simp [cString_cStr clean]

end Request

/-- How a host is meant to be cut into the node and the service. -/
inductive Splits : Text → Text → Option Text → Prop
  | bracketsService {N S : Text} (nonempty : N ≠ []) (closed : ']' ∉ N) :
    Splits ('[' :: (N ++ ']' :: ':' :: S)) N (some S)
  | brackets {N : Text} (nonempty : N ≠ []) (closed : ']' ∉ N) : Splits ('[' :: (N ++ [']'])) N none
  | service {H S : Text} (nonempty : H ≠ []) (plain : H.head? ≠ some '[') (one : (H ++ ':' :: S).count ':' = 1) :
    Splits (H ++ ':' :: S) H (some S)
  | bare {host : Text} (plain : host.head? ≠ some '[') (colons : host.count ':' = 0 ∨ 2 ≤ host.count ':') :
    Splits host host none

theorem splits_iff {host node : Text} {service : Option Text} (clean : nul ∉ host) (splits : Splits host node service) :
    request host = (node, service) ↔ host.head? = some '[' ∨ host.count ':' < 2 := by
  cases splits with
  | bracketsService nonempty closed =>
    exact iff_of_true (request_brackets_service nonempty closed clean) (.inl rfl)
  | brackets nonempty closed => exact iff_of_true (request_brackets nonempty closed clean) (.inl rfl)
  | @service _ S nonempty plain one =>
    have parts := one
    rw [List.count_append, List.count_cons_self] at parts
    have before : ':' ∉ node := List.count_eq_zero.mp (by omega)
    have behind : ':' ∉ S := List.count_eq_zero.mp (by omega)
    have plain_host : (node ++ ':' :: S).head? ≠ some '[' := by rwa [List.head?_append_of_ne_nil _ nonempty]
    refine iff_of_true ?_ (.inr (by omega))
    rw [request_colon plain_host before clean, if_neg behind, if_neg nonempty]
  | bare plain colons =>
    rcases colons with none | several
    · exact iff_of_true (request_of_notMem plain (List.count_eq_zero.mp none) clean) (.inr (by omega))
    · obtain ⟨H, S, rfl, before⟩ := List.eq_append_cons_of_mem (List.count_pos_iff.mp (by omega : 0 < host.count ':'))
      have parts := several
      rw [List.count_append, List.count_eq_zero.mpr before, List.count_cons_self] at parts
      have behind : ':' ∈ S := List.count_pos_iff.mp (by omega)
      refine iff_of_false ?_ (not_or.mpr ⟨plain, by omega⟩)
      rw [request_colon plain before clean, if_pos behind]
      simp

/-! ### The text of an address -/

/-- The four bytes of an address with dots between them. -/
def IPv4Address.addressText (m : SockaddrIn) : Text :=
  ['.'].intercalate ([24, 16, 8, 0].map fun k => Nat.toDigits 10 ((byteswapOnLittleEndian m.sAddr >>> k) &&& 0xff#32).toNat)

theorem IPv4Address.insert_text (m : SockaddrIn) (text : Text) :
    (insert m ⟨text, .dec⟩).text = text ++ (addressText m ++ ':' :: Nat.toDigits 10 (byteswap (n := 2) m.port).toNat) := by
  simp [insert, Ostream.put, Ostream.putNat, Base.radix, addressText, List.intercalate]

theorem IPv4Address.notMem_addressText {c : Char} (other : digitValue c = none) (different : c ≠ '.') (m : SockaddrIn) :
    c ∉ addressText m := by
  have free (n : Nat) : c ∉ Nat.toDigits 10 n := (numeral_toDigits (by decide) (by decide) n).notMem other
  simp [addressText, List.intercalate, free, different]

theorem notMem_port {c : Char} (other : digitValue c = none) (port : BitVec 16) :
    c ∉ Nat.toDigits 10 (byteswap (n := 2) port).toNat :=
  (numeral_toDigits (by decide) (by decide) _).notMem other

theorem request_iPv4 (m : SockaddrIn) (sinZero : BitVec 64) :
    request (Object.iPv4 m sinZero).toString =
      (IPv4Address.addressText m, some (Nat.toDigits 10 (byteswap (n := 2) m.port).toNat)) := by
  have free {c : Char} (other : digitValue c = none) (apart : c ≠ '.' ∧ c ≠ ':') :
      c ∉ IPv4Address.addressText m ++ ':' :: Nat.toDigits 10 (byteswap (n := 2) m.port).toNat := by
    simp [IPv4Address.notMem_addressText other apart.1 m, notMem_port other m.port, apart.2]
  have before : ':' ∉ IPv4Address.addressText m := IPv4Address.notMem_addressText (by decide) (by decide) m
  have behind : ':' ∉ Nat.toDigits 10 (byteswap (n := 2) m.port).toNat := notMem_port (by decide) m.port
  have nonempty : IPv4Address.addressText m ≠ [] := by simp [IPv4Address.addressText, List.intercalate]
  rw [Object.toString, Object.insert, IPv4Address.insert_text, List.nil_append,
    request_colon (fun head => free (by decide) (by decide) (List.mem_of_head? head)) before
      (free (by decide) (by decide)),
    if_neg behind, if_neg nonempty]

theorem request_iPv6 (m : SockaddrIn6) :
    request (Object.iPv6 m).toString =
      (IPv6Address.addressText m, some (Nat.toDigits 10 (byteswap (n := 2) m.port).toNat)) := by
  have free {c : Char} (other : digitValue c = none) (apart : c ≠ ':') : c ∉ IPv6Address.addressText m :=
    IPv6Address.notMem_form other apart (IPv6Address.addressText_form m)
  have nonempty : IPv6Address.addressText m ≠ [] := by
    intro empty
    have recovered := IPv6Address.create_addressText m 0
    rw [empty] at recovered
    simp [IPv6Address.create, IPv6Address.inetPton, IPv6Address.ptonLoop, IPv6Address.ptonEnd] at recovered
  have clean : nul ∉ '[' :: (IPv6Address.addressText m ++ ']' :: ':' :: Nat.toDigits 10 (byteswap (n := 2) m.port).toNat) := by
    have address := free (c := nul) (by decide) (by decide)
    have port := notMem_port (c := nul) (by decide) m.port
    simp [address, port, show nul ≠ '[' ∧ nul ≠ ']' ∧ nul ≠ ':' by decide]
  rw [Object.toString, Object.insert, IPv6Address.insert_text, List.nil_append,
    request_brackets_service nonempty (free (by decide) (by decide)) clean]

/-! ### An IPv6 address is found again -/

section Found

variable {getaddrinfo : Text → Option Text → Hints → Except Int (List Sockaddr)}

/-- For the text of an address and a decimal port the first result is that address. -/
def Numeric (getaddrinfo : Text → Option Text → Hints → Except Int (List Sockaddr)) : Prop :=
  ∀ (text : Text) (port : BitVec 16) (hints : Hints) (m : SockaddrIn6),
    hints.aiFamily = afInet6.toNat → IPv6Address.create text port = some m →
    ∃ first rest, getaddrinfo text (some (Nat.toDigits 10 port.toNat)) hints = .ok (first :: rest) ∧ first.asIn6 = m

theorem push_results (results : List Sockaddr) (res : List Object) :
    results.foldl (fun res next => res ++ [create next]) res = res ++ results.map create := by
  induction results generalizing res with
  | nil => simp
  | cons next results ih => rw [List.foldl_cons, ih, List.map_cons, List.append_assoc, List.singleton_append]

theorem create_iPv6 {addr : Sockaddr} (family : addr.asIn6.family = afInet6) : create addr = .iPv6 addr.asIn6 := by
  have other : afInet6 ≠ afInet := by decide
  rw [create, ← addr.in6Family, family, if_neg other, if_pos rfl]

theorem lookup_iPv6 (numeric : Numeric getaddrinfo) (m : SockaddrIn6) (type protocol : Int) :
    ∃ rest, lookup getaddrinfo [] (Object.iPv6 m).toString afInet6.toNat type protocol =
      (true, .iPv6 ⟨afInet6, m.port, 0, m.s6Addr, 0⟩ :: rest) := by
  have read := IPv6Address.create_addressText m (byteswap (n := 2) m.port)
  rw [byteswap_byteswap (n := 2) m.port] at read
  obtain ⟨first, rest, answer, same⟩ := numeric _ _ ⟨afInet6.toNat, type, protocol⟩ _ rfl read
  have created : create first = .iPv6 ⟨afInet6, m.port, 0, m.s6Addr, 0⟩ := by
    rw [← same]
    exact create_iPv6 (by rw [same])
  refine ⟨rest.map create, ?_⟩
  rw [lookup, request_iPv6, answer]
  simp only [push_results, List.map_cons, created, List.nil_append]

theorem lookupAny_iPv6 (numeric : Numeric getaddrinfo) (m : SockaddrIn6) (type protocol : Int) :
    lookupAny getaddrinfo (Object.iPv6 m).toString afInet6.toNat type protocol =
      some (.iPv6 ⟨afInet6, m.port, 0, m.s6Addr, 0⟩) ∧
    lookupAnyIPAddress getaddrinfo (Object.iPv6 m).toString afInet6.toNat type protocol =
      some (.iPv6 ⟨afInet6, m.port, 0, m.s6Addr, 0⟩) := by
  obtain ⟨rest, found⟩ := lookup_iPv6 numeric m type protocol
  rw [lookupAny, lookupAnyIPAddress, found]
  exact ⟨rfl, rfl⟩

end Found

/-! ### Hosts and services -/

/-- A host is asked for as it is meant exactly when it starts with a bracket or has fewer than two colons. The text of an
address has such a form, and with a `getaddrinfo` that reads addresses an IPv6 address is found again. -/
theorem request_iff {host node : Text} {service : Option Text} (clean : nul ∉ host) (splits : Splits host node service)
    (m : SockaddrIn) (sinZero : BitVec 64) (m6 : SockaddrIn6) :
    (request host = (node, service) ↔ host.head? = some '[' ∨ host.count ':' < 2) ∧
    request (Object.iPv4 m sinZero).toString =
      (IPv4Address.addressText m, some (Nat.toDigits 10 (byteswap (n := 2) m.port).toNat)) ∧
    request (Object.iPv6 m6).toString =
      (IPv6Address.addressText m6, some (Nat.toDigits 10 (byteswap (n := 2) m6.port).toNat)) ∧
    ∀ getaddrinfo type protocol, Numeric getaddrinfo →
      lookupAny getaddrinfo (Object.iPv6 m6).toString afInet6.toNat type protocol =
        some (.iPv6 ⟨afInet6, m6.port, 0, m6.s6Addr, 0⟩) ∧
      lookupAnyIPAddress getaddrinfo (Object.iPv6 m6).toString afInet6.toNat type protocol =
        some (.iPv6 ⟨afInet6, m6.port, 0, m6.s6Addr, 0⟩) :=
  ⟨splits_iff clean splits, request_iPv4 m sinZero, request_iPv6 m6,
    fun _ type protocol numeric => lookupAny_iPv6 numeric m6 type protocol⟩

/-- The loopback address without brackets: `getaddrinfo` is asked for a service whose name is the address. -/
theorem request_bare :
    nul ∉ "::1".toList ∧ Splits "::1".toList "::1".toList none ∧
    request "::1".toList = ("::1".toList, some "::1".toList) ∧
    ¬ request "::1".toList = ("::1".toList, none) :=
  ⟨by decide, .bare (by decide) (by decide), by decide, by decide⟩

theorem request_iff_port :
    request "localhost:80".toList = ("localhost".toList, some "80".toList) :=
  (request_iff (by decide) (.service (H := "localhost".toList) (S := "80".toList) (by decide) (by decide) (by decide))
    ⟨afInet, 0, 0⟩ 0 ⟨afInet6, 0, 0, fun _ => 0, 0⟩).1.mpr (.inr (by decide))

end Cool.Address
