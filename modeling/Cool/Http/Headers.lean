import Cool.Foundation.OrderedMap
import Cool.Http.Dump
import Mathlib.Data.List.TakeWhile

/-!
# The header map

`CaseInsensitiveLess` compares the names up to their first NUL byte with the letters folded, so the
header map is an ordered map over folded names. What a message adds to its headers when it is printed
can be left out again after they are read.
-/

namespace Cool.Http

open Foundation

/-- What `strcasecmp` sees of a string. -/
def folded (s : List UInt8) : List Nat := (s.takeWhile (· ≠ 0)).map fun c => (tolower c).toNat

theorem tolower_eq_zero {c : UInt8} : tolower c = 0 ↔ c = 0 := by
  unfold tolower
  split
  · rename_i upper
    simp only [Bool.and_eq_true, decide_eq_true_eq, UInt8.le_iff_toNat_le] at upper
    rw [← UInt8.toNat_inj, ← UInt8.toNat_inj, UInt8.toNat_add]
    have low : (65 : UInt8).toNat = 65 := rfl
    have high : (90 : UInt8).toNat = 90 := rfl
    have shift : (32 : UInt8).toNat = 32 := rfl
    have zero : (0 : UInt8).toNat = 0 := rfl
    omega
  · rfl

theorem folded_zero (s : List UInt8) : folded (0 :: s) = [] := rfl

theorem folded_cons {c : UInt8} (visible : c ≠ 0) (s : List UInt8) :
    folded (c :: s) = (tolower c).toNat :: folded s := by
  simp [folded, visible]

theorem strcasecmpLt_iff (a b : List UInt8) : strcasecmpLt a b = true ↔ folded a < folded b := by
  fun_induction strcasecmpLt a b with
  | case1 a => simp [folded]
  | case2 y ys =>
    by_cases zero : y = 0
    · simp [zero, folded]
    · simp [zero, folded]
  | case3 x xs y ys below =>
    have visible : y ≠ 0 := by
      rintro rfl
      exact absurd below (by simp [tolower])
    rw [folded_cons visible]
    by_cases zero : x = 0
    · simp [zero, folded_zero]
    · rw [folded_cons zero, List.cons_lt_cons_iff]
      simp [UInt8.lt_iff_toNat_lt.mp below]
  | case4 x xs y ys notBelow above =>
    have visible : x ≠ 0 := by
      rintro rfl
      exact absurd above (by simp [tolower])
    rw [folded_cons visible]
    by_cases zero : y = 0
    · simp [zero, folded_zero]
    · rw [folded_cons zero, List.cons_lt_cons_iff]
      have := UInt8.lt_iff_toNat_lt.mp above
      simp
      omega
  | case5 x xs y ys notBelow notAbove ih =>
    have same : tolower x = tolower y := UInt8.le_antisymm (UInt8.not_lt.mp notAbove) (UInt8.not_lt.mp notBelow)
    by_cases zero : x = 0
    · have zero' : y = 0 := tolower_eq_zero.mp (same.symm.trans (tolower_eq_zero.mpr zero))
      simp [zero, zero', folded_zero]
    · have visible : y ≠ 0 := fun zero' => zero (tolower_eq_zero.mp (same.trans (tolower_eq_zero.mpr zero')))
      rw [folded_cons zero, folded_cons visible, List.cons_lt_cons_iff, same]
      simp [zero, ih]

theorem takeWhile_visible {t : List UInt8} (visible : 0 ∉ t) : t.takeWhile (· ≠ 0) = t := by
  rw [List.takeWhile_eq_self_iff]
  intro c inside
  refine decide_eq_true ?_
  rintro rfl
  exact visible inside

theorem compares : OrderedMap.Compares strcasecmpLt folded := strcasecmpLt_iff

theorem ordered_nil : OrderedMap.Ordered folded ([] : MapType) := .nil

theorem strcasecmpEq_iff (a b : List UInt8) : strcasecmpEq a b = true ↔ folded a = folded b := by
  exact compares.equal_iff a b

/-! ### What a message adds to its headers -/

/-- The two headers that `dump` writes by itself. -/
def added (name : List UInt8) : Bool :=
  strcasecmpEq name (ascii "Connection") || strcasecmpEq name (ascii "Content-Length")

/-- The `Content-Length` line of a message. -/
def printContent (body : List UInt8) : List UInt8 :=
  if body = [] then [] else ascii "Content-Length: " ++ printNat body.length ++ crlf

def contentEntries (body : List UInt8) : MapType :=
  if body = [] then [] else [(ascii "Content-Length", printNat body.length)]

theorem added_congr {a b : List UInt8} (same : folded a = folded b) : added a = added b := by
  have equal (c : List UInt8) : strcasecmpEq a c = strcasecmpEq b c := by
    rw [Bool.eq_iff_iff, strcasecmpEq_iff, strcasecmpEq_iff, same]
  unfold added
  rw [equal, equal]

/-- The entry of the `Connection` line and that of the `Content-Length` line, if there is one. -/
def addedEntries (close : Bool) (body : List UInt8) : MapType :=
  (ascii "Connection", announced close) :: contentEntries body

section

variable {headers es : MapType} {close : Bool} {body : List UInt8}

theorem apart_added : (addedEntries close body).Pairwise fun e e' => folded e.1 ≠ folded e'.1 := by
  unfold addedEntries contentEntries
  split
  · exact List.pairwise_singleton _ _
  · simp only [List.pairwise_cons, List.mem_singleton, forall_eq, List.not_mem_nil, false_implies, implies_true,
      List.Pairwise.nil, and_true]
    decide

theorem added_of_mem {e : List UInt8 × List UInt8} (member : e ∈ addedEntries close body) : added e.1 = true := by
  unfold addedEntries contentEntries at member
  rcases List.mem_cons.mp member with rfl | member
  · exact (by decide : added (ascii "Connection") = true)
  · split at member
    · cases member
    · rw [List.mem_singleton.mp member]
      exact (by decide : added (ascii "Content-Length") = true)

theorem printBody_eq (body : List UInt8) : printBody body = printContent body ++ (crlf ++ body) := by
  unfold printBody printContent
  split
  · rename_i empty
    simp [empty]
  · simp

theorem printHeaders_eq (colon : List UInt8) (others : ∀ h ∈ headers, added h.1 = false) :
    printHeaders colon headers = headers.flatMap (printHeader colon) := by
  unfold printHeaders
  rw [List.filter_eq_self.mpr]
  intro h member
  have other := others h member
  simp only [added, Bool.or_eq_false_iff] at other
  simp [other.1]

theorem filter_others (others : ∀ h ∈ headers, added h.1 = false) :
    headers.filter (fun h => !added h.1) = headers :=
  List.filter_eq_self.mpr fun h member => by rw [others h member]; rfl

theorem filter_extra (extra : ∀ e ∈ es, added e.1 = true) : es.filter (fun h => !added h.1) = [] :=
  List.filter_eq_nil_iff.mpr fun e member => by rw [extra e member]; exact Bool.false_ne_true

/-- The entries of a printed message, the added ones first or last. -/
structure Entries (headers : MapType) (close : Bool) (body : List UInt8) (es : MapType) : Prop where
  ordered : OrderedMap.Ordered folded headers
  others : ∀ h ∈ headers, added h.1 = false
  perm : es.Perm (headers ++ addedEntries close body)
  kept : es.filter (fun h => !added h.1) = headers

namespace Entries

theorem apart (entries : Entries headers close body es) : OrderedMap.Apart folded [] es := by
  refine ⟨?_, fun _ _ _ inside => by cases inside⟩
  refine (entries.perm.pairwise_iff fun differ => Ne.symm differ).mpr
    (List.pairwise_append.mpr ⟨entries.ordered.imp ne_of_lt, apart_added, ?_⟩)
  intro h member e extra same
  have clash := added_congr same
  rw [entries.others h member, added_of_mem extra] at clash
  cases clash

/-- The headers as they are read, without the added ones. -/
theorem filter_setAll (entries : Entries headers close body es) :
    (OrderedMap.setAll strcasecmpLt [] es).filter (fun h => !added h.1) = headers := by
  rw [OrderedMap.filter_setAll compares .nil entries.apart (fun name => !added name), entries.kept]
  exact OrderedMap.setAll_ordered (m := []) compares entries.ordered

theorem find_content (entries : Entries headers close body es) :
    MapType.find (OrderedMap.setAll strcasecmpLt [] es) (ascii "content-length") =
      if body = [] then none else some (printNat body.length) := by
  have spelled : folded (ascii "Content-Length") = folded (ascii "content-length") := by decide
  have members (e : List UInt8 × List UInt8) :
      e ∈ OrderedMap.setAll strcasecmpLt [] es ↔ e ∈ headers ∨ e ∈ addedEntries close body := by
    rw [OrderedMap.mem_setAll compares entries.apart, entries.perm.mem_iff, List.mem_append]
    simp
  rw [MapType.find]
  split
  · rename_i empty
    refine OrderedMap.find_of_fresh compares fun e member same => ?_
    rcases (members e).mp member with header | extra
    · have clash := added_congr same
      rw [entries.others e header] at clash
      exact absurd clash (by decide)
    · rw [addedEntries, contentEntries, if_pos empty, List.mem_singleton] at extra
      rw [extra] at same
      exact absurd same (by decide : folded (ascii "Connection") ≠ folded (ascii "content-length"))
  · rename_i present
    have entry : (ascii "Content-Length", printNat body.length) ∈ OrderedMap.setAll strcasecmpLt [] es := by
      refine (members _).mpr (.inr ?_)
      rw [addedEntries, contentEntries, if_neg present]
      exact List.mem_cons_of_mem _ (List.mem_singleton_self _)
    exact OrderedMap.find_of_mem compares (OrderedMap.ordered_setAll compares .nil entries.apart) entry spelled

end Entries

end

end Cool.Http
