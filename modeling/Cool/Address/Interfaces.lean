import Cool.Address.Broadcast
import Cool.Address.Object
import Cool.Config.Registry
import Cool.Foundation.Ones
import Cool.Foundation.OrderedMap
import Mathlib.Data.Char

/-!
# The addresses of the interfaces

`GetInterfaceAddress` goes over the list of `getifaddrs`. The family of an entry is looked at before it is known that
the entry has an address.
-/

namespace Cool.Address

open Foundation

variable {w : Nat}

theorem toNat_and_pred (value : BitVec w) (nonzero : value ≠ 0#w) :
    (value &&& (value - 1#w)).toNat = value.toNat &&& (value.toNat - 1) := by
  have positive : value.toNat ≠ 0 := fun zero => nonzero (BitVec.eq_of_toNat_eq zero)
  have bound := value.isLt
  have one : (1#w).toNat = 1 := by
    rw [BitVec.toNat_ofNat]
    exact Nat.mod_eq_of_lt (by omega)
  rw [BitVec.toNat_and, BitVec.toNat_sub, one,
    show 2 ^ w - 1 + value.toNat = value.toNat - 1 + 2 ^ w by omega, Nat.add_mod_right, Nat.mod_eq_of_lt (by omega)]

/-- The loop of `CountBytes`. -/
def countLoop (value : BitVec w) (result : Nat) : Nat :=
  if value = 0#w then result else countLoop (value &&& (value - 1#w)) (result + 1)
termination_by value.toNat
decreasing_by
  rename_i nonzero
  rw [toNat_and_pred value nonzero]
  exact and_pred_lt fun zero => nonzero (BitVec.eq_of_toNat_eq zero)

def countBytes (value : BitVec w) : Nat := countLoop value 0

/-- An entry of the list. `getifaddrs` leaves the address or the netmask null where an interface has none. -/
structure Ifaddrs where
  name : Text
  addr : Option Sockaddr
  netmask : Option Sockaddr

abbrev Multimap := List (Text × (Object × Nat))

def nameLess (a b : Text) : Bool := decide (a < b)

/-- The bits of the netmask of an IPv6 address. -/
def countMask (s6Addr : Fin 16 → BitVec 8) : Nat :=
  (List.ofFn s6Addr).foldl (fun prefixLen byte => prefixLen + countBytes byte) 0

/-- The first test of the loop, which is `none` where it dereferences a null pointer. -/
def skips (family : Int) (next : Ifaddrs) : Option Bool :=
  if family = afUnspec then some false else next.addr.map fun addr => decide (family ≠ addr.saFamily.toNat)

def switchFamily (addr : Sockaddr) (netmask : Option Sockaddr) : Option (Option (Object × Nat)) :=
  if addr.saFamily = afInet then netmask.map fun mask => some (create addr, countBytes mask.asIn.sAddr)
  else if addr.saFamily = afInet6 then netmask.map fun mask => some (create addr, countMask mask.asIn6.s6Addr)
  else some none

/-- The body of the loop: what is inserted, or `none` where a null pointer is dereferenced. -/
def found (family : Int) (next : Ifaddrs) : Option (Option (Object × Nat)) :=
  match skips family next with
  | none => none
  | some true => some none
  | some false =>
    match next.addr with
    | none => some none
    | some addr => switchFamily addr next.netmask

def interfaceLoop (family : Int) : List Ifaddrs → Multimap → Option Multimap
  | [], res => some res
  | next :: rest, res =>
    match found family next with
    | none => none
    | some none => interfaceLoop family rest res
    | some (some entry) => interfaceLoop family rest (OrderedMap.insert nameLess res next.name entry)

/-- `GetInterfaceAddress(res, family)`, where `getifaddrs` gives a list or fails. -/
def getInterfaceAddress (results : Option (List Ifaddrs)) (family : Int) (res : Multimap) : Option (Bool × Multimap) :=
  match results with
  | none => some (false, res)
  | some entries => (interfaceLoop family entries res).map fun res => (!res.isEmpty, res)

/-! ### Counting bits -/

theorem countLoop_eq (value : BitVec w) (result : Nat) : countLoop value result = result + ones w value.toNat := by
  fun_induction countLoop value result with
  | case1 result =>
    have none : ones w 0 = 0 := by simp [ones]
    rw [BitVec.toNat_zero, none, Nat.add_zero]
  | case2 value result nonzero ih =>
    have positive : value.toNat ≠ 0 := fun zero => nonzero (BitVec.eq_of_toNat_eq zero)
    rw [ih, toNat_and_pred value nonzero, ← ones_and_pred value.isLt positive]
    omega

theorem countBytes_eq (value : BitVec w) : countBytes value = ones w value.toNat := by
  rw [countBytes, countLoop_eq, Nat.zero_add]

theorem foldl_countBytes (bytes : List (BitVec 8)) (prefixLen : Nat) :
    bytes.foldl (fun prefixLen byte => prefixLen + countBytes byte) prefixLen =
      prefixLen + (bytes.map fun byte => ones 8 byte.toNat).sum := by
  induction bytes generalizing prefixLen with
  | nil => rfl
  | cons byte bytes ih => rw [List.foldl_cons, ih, countBytes_eq, List.map_cons, List.sum_cons, Nat.add_assoc]

def ones6 (s6Addr : Fin 16 → BitVec 8) : Nat := ((List.ofFn s6Addr).map fun byte => ones 8 byte.toNat).sum

theorem countMask_eq (s6Addr : Fin 16 → BitVec 8) : countMask s6Addr = ones6 s6Addr := by
  rw [countMask, foldl_countBytes, Nat.zero_add, ones6]

theorem ones_swapped (x : BitVec 32) : ones 32 (byteswapOnLittleEndian x).toNat = ones 32 x.toNat := by
  have octets (y : BitVec 32) :
      ones 32 y.toNat = ((Cool.ByteArray.Typed.memoryOf (n := 4) y).map fun b => ones 8 b.toNat).sum :=
    ones_octets 4 y.toNat
  rw [octets, octets, byteswapOnLittleEndian, Cool.ByteArray.Typed.memoryOf_byteswap, List.map_reverse,
    List.sum_reverse]

theorem ones_msb {c p : Nat} (x : BitVec w) (front : ∀ i < w, x.getMsbD i = decide (c + i < p)) :
    ones w x.toNat = min w (p - c) := by
  apply ones_front
  intro i inside
  rw [← front i inside, BitVec.getMsbD_eq_getLsbD, decide_eq_true inside, Bool.true_and]
  rfl

theorem countBytes_subnetMask {p : Nat} {mask : SockaddrIn} (masked : IPv4Address.subnetMask p = .ok mask) :
    countBytes mask.sAddr = p := by
  obtain ⟨low, high⟩ := IPv4Address.subnetMask_range masked
  obtain ⟨mask', masked', bits⟩ := IPv4Address.subnetMask_bits low high
  obtain rfl := Except.ok.inj (masked.symm.trans masked')
  have counted := ones_msb (c := 0) (p := p) (byteswapOnLittleEndian mask.sAddr) fun i inside => by
    rw [Nat.zero_add]
    exact bits i inside
  rw [countBytes_eq, ← ones_swapped, counted]
  omega

theorem sum_min {p n : Nat} (f : Fin n → Nat) (each : ∀ i, f i = min 8 (p - 8 * i)) :
    (List.ofFn f).sum = min (8 * n) p := by
  induction n with
  | zero => simp
  | succ n ih =>
    have rest := ih (fun i => f i.castSucc) fun i => each i.castSucc
    have last := each (Fin.last n)
    rw [Fin.val_last] at last
    rw [List.ofFn_succ_last, List.sum_append, rest, List.sum_singleton, last]
    omega

theorem countMask_subnetMask {p : Nat} {mask : SockaddrIn6} (masked : IPv6Address.subnetMask p = .ok mask) :
    countMask mask.s6Addr = p := by
  have inside : p / 8 < 16 := by
    by_contra outside
    rw [IPv6Address.subnetMask, if_neg outside] at masked
    cases masked
  obtain ⟨mask', masked', bits⟩ := IPv6Address.subnetMask_bits inside
  obtain rfl := Except.ok.inj (masked.symm.trans masked')
  rw [countMask_eq, ones6, List.map_ofFn, sum_min (p := p)]
  · omega
  · intro byte
    exact ones_msb _ (bits byte)

/-! ### The loop -/

variable {family : Int} {next : Ifaddrs} {entries : List Ifaddrs} {res : Multimap}

namespace Ifaddrs

def Masked (next : Ifaddrs) : Prop :=
  ∀ addr, next.addr = some addr → addr.saFamily = afInet ∨ addr.saFamily = afInet6 → next.netmask ≠ none

/-- What an entry should give: its address and the number of bits set in its netmask. -/
def entry (family : Int) (next : Ifaddrs) : Option (Text × (Object × Nat)) :=
  match next.addr, next.netmask with
  | some addr, some mask =>
    if family = afUnspec ∨ family = addr.saFamily.toNat then
      if addr.saFamily = afInet then some (next.name, create addr, ones 32 mask.asIn.sAddr.toNat)
      else if addr.saFamily = afInet6 then some (next.name, create addr, ones6 mask.asIn6.s6Addr)
      else none
    else none
  | _, _ => none

theorem name_entry {found : Text × (Object × Nat)} (given : next.entry family = some found) : found.1 = next.name := by
  unfold entry at given
  split at given
  · split at given
    · split at given
      · cases given
        rfl
      · split at given
        · cases given
          rfl
        · cases given
    · cases given
  · cases given

end Ifaddrs

theorem switchFamily_eq {addr : Sockaddr} (there : next.addr = some addr) (masked : next.Masked)
    (matching : family = afUnspec ∨ family = addr.saFamily.toNat) :
    switchFamily addr next.netmask = some ((next.entry family).map Prod.snd) := by
  have given := masked addr there
  rw [switchFamily, Ifaddrs.entry, there]
  by_cases inet : addr.saFamily = afInet
  · obtain ⟨mask, held⟩ := Option.ne_none_iff_exists'.mp (given (.inl inet))
    simp only [held, if_pos inet, if_pos matching, Option.map_some, countBytes_eq]
  · by_cases inet6 : addr.saFamily = afInet6
    · obtain ⟨mask, held⟩ := Option.ne_none_iff_exists'.mp (given (.inr inet6))
      simp only [held, if_neg inet, if_pos inet6, if_pos matching, Option.map_some, countMask_eq]
    · cases next.netmask <;> simp [inet, inet6]

theorem found_null (asked : family ≠ afUnspec) (null : next.addr = none) : found family next = none := by
  simp [found, skips, asked, null]

theorem found_eq (safe : family = afUnspec ∨ next.addr ≠ none) (masked : next.Masked) :
    found family next = some ((next.entry family).map Prod.snd) := by
  cases there : next.addr with
  | none =>
    have unspec := safe.resolve_right fun differ => differ there
    simp [found, skips, unspec, there, Ifaddrs.entry]
  | some addr =>
    by_cases matching : family = afUnspec ∨ family = addr.saFamily.toNat
    · have kept : skips family next = some false := by
        rcases matching with unspec | same
        · rw [skips, if_pos unspec]
        · rw [skips, there]
          split
          · rfl
          · simp [← same]
      simp only [found, kept, there]
      exact switchFamily_eq there masked matching
    · obtain ⟨asked, differ⟩ := not_or.mp matching
      have skipped : skips family next = some true := by simp [skips, asked, there, differ]
      have none : next.entry family = none := by
        rw [Ifaddrs.entry, there]
        cases next.netmask <;> simp [matching]
      simp only [found, skipped, none, Option.map_none]

/-- What the call should insert, in the order of the list. -/
def produced (family : Int) (entries : List Ifaddrs) : Multimap := entries.filterMap (Ifaddrs.entry family)

theorem interfaceLoop_null (asked : family ≠ afUnspec) (null : ∃ next ∈ entries, next.addr = none) (res : Multimap) :
    interfaceLoop family entries res = none := by
  induction entries generalizing res with
  | nil =>
    obtain ⟨next, member, _⟩ := null
    cases member
  | cons next entries ih =>
    rw [interfaceLoop]
    cases step : found family next with
    | none => rfl
    | some inserted =>
      have later : ∃ next ∈ entries, next.addr = none := by
        obtain ⟨d, member, empty⟩ := null
        rcases List.mem_cons.mp member with rfl | member
        · rw [found_null asked empty] at step
          cases step
        · exact ⟨d, member, empty⟩
      cases inserted <;> exact ih later _

/-- A loop that dereferences no null pointer inserts what it should, behind what is there. -/
theorem interfaceLoop_spec (safe : family = afUnspec ∨ ∀ next ∈ entries, next.addr ≠ none)
    (masked : ∀ next ∈ entries, next.Masked) (res : Multimap) :
    interfaceLoop family entries res =
      some (OrderedMap.insertAll nameLess res (produced family entries)) := by
  induction entries generalizing res with
  | nil => rfl
  | cons next entries ih =>
    have rest := ih (safe.imp_right fun all d member => all d (List.mem_cons_of_mem _ member))
      fun d member => masked d (List.mem_cons_of_mem _ member)
    have here := found_eq (safe.imp_right fun all => all next List.mem_cons_self) (masked next List.mem_cons_self)
    rw [interfaceLoop, here, produced, List.filterMap_cons]
    cases given : next.entry family with
    | none => exact rest res
    | some found =>
      rw [Option.map_some, OrderedMap.insertAll, List.foldl_cons, next.name_entry given]
      exact rest _

/-- What is expected of a call: no null pointer is dereferenced, one entry is added for each address, and the call
returns whether there is one. -/
def Yields (family : Int) (entries : List Ifaddrs) (res : Multimap) : Prop :=
  ∃ returned after, getInterfaceAddress (some entries) family res = some (returned, after) ∧
    after.Perm (res ++ produced family entries) ∧ (returned = true ↔ produced family entries ≠ [])

theorem yields_iff (masked : ∀ next ∈ entries, next.Masked) :
    Yields family entries res ↔
      (family = afUnspec ∨ ∀ next ∈ entries, next.addr ≠ none) ∧ (res = [] ∨ produced family entries ≠ []) := by
  by_cases safe : family = afUnspec ∨ ∀ next ∈ entries, next.addr ≠ none
  · have ran := interfaceLoop_spec safe masked res
    have perm : (OrderedMap.insertAll nameLess res (produced family entries)).Perm (res ++ produced family entries) :=
      OrderedMap.perm_insertAll res _
    have returned : (!(OrderedMap.insertAll nameLess res (produced family entries)).isEmpty) = true ↔
        ¬ (res = [] ∧ produced family entries = []) := by
      rw [Bool.not_eq_true', ← Bool.not_eq_true, List.isEmpty_iff, OrderedMap.insertAll_eq_nil]
    constructor
    · rintro ⟨value, after, called, _, exact_return⟩
      rw [getInterfaceAddress, ran, Option.map_some] at called
      obtain ⟨rfl, rfl⟩ := Prod.mk.inj (Option.some.inj called)
      rw [returned] at exact_return
      exact ⟨safe, by tauto⟩
    · rintro ⟨-, wanted⟩
      refine ⟨_, _, by rw [getInterfaceAddress, ran, Option.map_some], perm, ?_⟩
      rw [returned]
      tauto
  · obtain ⟨asked, null⟩ := not_or.mp safe
    push Not at null
    refine iff_of_false ?_ fun both => safe both.1
    rintro ⟨value, after, called, -⟩
    rw [getInterfaceAddress, interfaceLoop_null asked null, Option.map_none] at called
    cases called

/-! ### One interface -/

def defaultIPv4 : Object := .iPv4 ⟨afInet, 0, 0⟩ 0

def defaultIPv6 : Object := .iPv6 ⟨afInet6, 0, 0, fun _ => 0, 0⟩

/-- `GetInterfaceAddress(res, iface, family)`. -/
def getInterfaceAddressOf (results : Option (List Ifaddrs)) (iface : Text) (family : Int) (res : List (Object × Nat)) :
    Option (Bool × List (Object × Nat)) :=
  if iface = [] ∨ iface = ['*'] then
    let res := if family = afInet.toNat ∨ family = afUnspec then res ++ [(defaultIPv4, 0)] else res
    let res := if family = afInet6.toNat ∨ family = afUnspec then res ++ [(defaultIPv6, 0)] else res
    some (true, res)
  else
    match getInterfaceAddress results family [] with
    | none => none
    | some (false, _) => some (false, res)
    | some (true, all) => some (true, res ++ (OrderedMap.equalRange nameLess all iface).map Prod.snd)

theorem nameLess_compares : OrderedMap.Compares nameLess (id : Text → Text) := by
  intro a b
  exact decide_eq_true_iff

/-- The addresses of the interface are added in the order of the list, also when there is none. -/
theorem getInterfaceAddressOf_spec {iface : Text} {added : List (Object × Nat)} (named : ¬ (iface = [] ∨ iface = ['*']))
    (safe : family = afUnspec ∨ ∀ next ∈ entries, next.addr ≠ none) (masked : ∀ next ∈ entries, next.Masked)
    (some_found : produced family entries ≠ []) :
    getInterfaceAddressOf (some entries) iface family added =
      some (true, added ++ ((produced family entries).filter fun e => decide (e.1 = iface)).map Prod.snd) := by
  have ran := interfaceLoop_spec safe masked []
  have nonempty : (OrderedMap.insertAll nameLess [] (produced family entries)).isEmpty = false := by
    rw [List.isEmpty_eq_false_iff, ne_eq, OrderedMap.insertAll_eq_nil]
    exact fun both => some_found both.2
  have range : OrderedMap.equalRange nameLess (OrderedMap.insertAll nameLess [] (produced family entries)) iface =
      (produced family entries).filter fun e => decide (e.1 = iface) :=
    OrderedMap.equalRange_insertAll nameLess_compares .nil iface
  simp only [getInterfaceAddressOf, if_neg named, getInterfaceAddress, ran, Option.map_some, nonempty, Bool.not_false,
    range]

/-! ### All interfaces -/

/-- A call does what is expected exactly when it asks for all families or every entry has an address, and when the
map was empty or something is found. The netmask of a prefix counts as that prefix, and the overload for one
interface gives the entries of its name. -/
theorem getInterfaceAddress_iff (masked : ∀ next ∈ entries, next.Masked) :
    (Yields family entries res ↔
      (family = afUnspec ∨ ∀ next ∈ entries, next.addr ≠ none) ∧ (res = [] ∨ produced family entries ≠ [])) ∧
      (∀ p mask, IPv4Address.subnetMask p = .ok mask → countBytes mask.sAddr = p) ∧
      (∀ p mask, IPv6Address.subnetMask p = .ok mask → countMask mask.s6Addr = p) ∧
      ((family = afUnspec ∨ ∀ next ∈ entries, next.addr ≠ none) → produced family entries ≠ [] →
        ∀ iface added, ¬ (iface = [] ∨ iface = ['*']) → getInterfaceAddressOf (some entries) iface family added =
          some (true, added ++ ((produced family entries).filter fun e => decide (e.1 = iface)).map Prod.snd)) :=
  ⟨yields_iff masked, fun _ _ => countBytes_subnetMask, fun _ _ => countMask_subnetMask,
    fun safe some_found _ _ named => getInterfaceAddressOf_spec named safe masked some_found⟩

/-- 127.0.0.1 with the netmask 255.0.0.0. -/
def loopback : Ifaddrs :=
  ⟨"lo".toList, some ⟨2, 0, ⟨2, 0, 0x0100007F⟩, 0, ⟨2, 0, 0, fun _ => 0, 0⟩, rfl, rfl⟩,
    some ⟨2, 0, ⟨2, 0, 0x000000FF⟩, 0, ⟨2, 0, 0, fun _ => 0, 0⟩, rfl, rfl⟩⟩

theorem getInterfaceAddress_iff_loopback :
    Yields 2 [loopback] [] ∧ (produced 2 [loopback]).map (fun e => (e.1, e.2.2)) = [("lo".toList, 8)] := by
  have masked : ∀ next ∈ [loopback], next.Masked := by
    intro next member addr _ _
    obtain rfl := List.mem_singleton.mp member
    exact Option.some_ne_none _
  refine ⟨(getInterfaceAddress_iff masked).1.mpr ⟨.inr fun next member => ?_, .inl rfl⟩, by decide⟩
  obtain rfl := List.mem_singleton.mp member
  exact Option.some_ne_none _

/-- A tunnel without an address, asked for IPv4; and a call that finds nothing with a map that is not empty. -/
theorem getInterfaceAddress_null :
    getInterfaceAddress (some [⟨"tun0".toList, none, none⟩]) 2 [] = none ∧
      (getInterfaceAddress (some []) 2 [("lo".toList, .unknow 1 0, 0)]).map Prod.fst = some true :=
  ⟨rfl, rfl⟩

end Cool.Address
