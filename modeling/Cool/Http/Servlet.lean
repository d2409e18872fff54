import Cool.Foundation.History
import Mathlib.Data.List.Induction
import Mathlib.Data.List.TakeWhile

/-!
# Servlet routing

`ServletDispatch` with its exact routes and its glob routes. A call that reads or writes the routes holds the lock from
its first to its last line, so such calls of any threads are one sequence. `set_default_servlet` takes no lock; here it
comes between two of them. What `get_matched_servlet` returns is stated over the sequence.
-/

namespace Cool.Http

open Foundation.History

/-- What `c_str()` shows of a string. -/
def cStr (s : List UInt8) : List UInt8 := s.takeWhile (· ≠ 0)

/-- A servlet that was passed in, `FunctionServlet` of a callback, or `NotFoundServlet`. -/
inductive Servlet (σ φ : Type) where
  | object (slt : σ)
  | function (cb : φ)
  | notFound
  deriving DecidableEq, Repr

structure ServletDispatch (σ φ : Type) where
  datas : List UInt8 → Option (Servlet σ φ)
  globs : List (List UInt8 × Servlet σ φ)
  default : Servlet σ φ

namespace ServletDispatch

variable {σ φ : Type}

def new : ServletDispatch σ φ := ⟨fun _ => none, [], .notFound⟩

section

variable (d : ServletDispatch σ φ) (uri : List UInt8)

def addServlet (slt : Servlet σ φ) : ServletDispatch σ φ := { d with datas := Function.update d.datas uri (some slt) }

/-- `add_servlet` of a callback. -/
def addServletFunction (cb : φ) : ServletDispatch σ φ := d.addServlet uri (.function cb)

/-- The loop erases the first entry of the pattern. -/
def addGlobServlet (slt : Servlet σ φ) : ServletDispatch σ φ :=
  { d with globs := d.globs.eraseP (fun e => e.1 = uri) ++ [(uri, slt)] }

def addGlobServletFunction (cb : φ) : ServletDispatch σ φ := d.addGlobServlet uri (.function cb)

def delServlet : ServletDispatch σ φ := { d with datas := Function.update d.datas uri none }

def delGlobServlet : ServletDispatch σ φ := { d with globs := d.globs.eraseP fun e => e.1 = uri }

def setDefaultServlet (v : Servlet σ φ) : ServletDispatch σ φ := { d with default := v }

def getMatchedServlet (fnmatch : List UInt8 → List UInt8 → Bool) : Servlet σ φ :=
  match d.datas uri with
  | some slt => slt
  | none =>
    match d.globs.find? fun e => fnmatch (cStr e.1) (cStr uri) with
    | some e => e.2
    | none => d.default

end

/-! ### The calls -/

inductive Call (σ φ : Type) where
  | addServlet (uri : List UInt8) (slt : Servlet σ φ)
  | addServletFunction (uri : List UInt8) (cb : φ)
  | addGlobServlet (uri : List UInt8) (slt : Servlet σ φ)
  | addGlobServletFunction (uri : List UInt8) (cb : φ)
  | delServlet (uri : List UInt8)
  | delGlobServlet (uri : List UInt8)
  | setDefaultServlet (v : Servlet σ φ)

def exec (d : ServletDispatch σ φ) : Call σ φ → ServletDispatch σ φ
  | .addServlet uri slt => d.addServlet uri slt
  | .addServletFunction uri cb => d.addServletFunction uri cb
  | .addGlobServlet uri slt => d.addGlobServlet uri slt
  | .addGlobServletFunction uri cb => d.addGlobServletFunction uri cb
  | .delServlet uri => d.delServlet uri
  | .delGlobServlet uri => d.delGlobServlet uri
  | .setDefaultServlet v => d.setDefaultServlet v

def run (calls : List (Call σ φ)) : ServletDispatch σ φ := calls.foldl exec new

/-- What a call says about an exact route, and `glob` about a pattern. -/
def Call.exact : Call σ φ → Option (List UInt8 × Option (Servlet σ φ))
  | .addServlet uri slt => some (uri, some slt)
  | .addServletFunction uri cb => some (uri, some (.function cb))
  | .delServlet uri => some (uri, none)
  | _ => none

def Call.glob : Call σ φ → Option (List UInt8 × Option (Servlet σ φ))
  | .addGlobServlet uri slt => some (uri, some slt)
  | .addGlobServletFunction uri cb => some (uri, some (.function cb))
  | .delGlobServlet uri => some (uri, none)
  | _ => none

/-- What the sequence of calls says about a uri: the exact route that stands, else the oldest of the glob patterns that
stand and match, else the default servlet. -/
inductive Routed (fnmatch : List UInt8 → List UInt8 → Bool) (calls : List (Call σ φ)) (uri : List UInt8) :
    Servlet σ φ → Prop where
  | exact {t : Nat} {slt : Servlet σ φ} (stands : Stands Call.exact calls t uri slt) : Routed fnmatch calls uri slt
  | glob {t : Nat} {pattern : List UInt8} {slt : Servlet σ φ} (none : ∀ t slt, ¬ Stands Call.exact calls t uri slt)
      (stands : Stands Call.glob calls t pattern slt) (fits : fnmatch (cStr pattern) (cStr uri) = true)
      (oldest : ∀ t' pattern' slt', Stands Call.glob calls t' pattern' slt' →
        fnmatch (cStr pattern') (cStr uri) = true → t ≤ t') : Routed fnmatch calls uri slt
  | default (none : ∀ t slt, ¬ Stands Call.exact calls t uri slt)
      (noGlob : ∀ t pattern slt, Stands Call.glob calls t pattern slt → fnmatch (cStr pattern) (cStr uri) = false) :
      Routed fnmatch calls uri (run calls).default

/-! ### One call and all calls -/

/-- The exact routes are those that stand, and the globs those that stand, in the order of their calls. -/
structure Holds (calls : List (Call σ φ)) (d : ServletDispatch σ φ) : Prop where
  exact : Represents Call.exact calls d.datas
  glob : Listed Call.glob calls d.globs

theorem holds_exec {calls : List (Call σ φ)} {d : ServletDispatch σ φ} (holds : Holds calls d) (call : Call σ φ) :
    Holds (calls ++ [call]) (d.exec call) := by
  cases call with
  | addServlet uri slt => exact ⟨holds.exact.update rfl, holds.glob.keep rfl⟩
  | addServletFunction uri cb => exact ⟨holds.exact.update rfl, holds.glob.keep rfl⟩
  | addGlobServlet uri slt => exact ⟨holds.exact.keep rfl, holds.glob.push rfl⟩
  | addGlobServletFunction uri cb => exact ⟨holds.exact.keep rfl, holds.glob.push rfl⟩
  | delServlet uri => exact ⟨holds.exact.update rfl, holds.glob.keep rfl⟩
  | delGlobServlet uri => exact ⟨holds.exact.keep rfl, holds.glob.erase rfl⟩
  | setDefaultServlet v => exact ⟨holds.exact.keep rfl, holds.glob.keep rfl⟩

theorem holds_run (calls : List (Call σ φ)) : Holds calls (run calls) := by
  induction calls using List.reverseRecOn with
  | nil => exact ⟨represents_nil, listed_nil⟩
  | append_singleton calls call ih =>
    rw [run, List.foldl_append]
    exact holds_exec ih call

/-! ### The servlet of a uri -/

section

variable {fnmatch : List UInt8 → List UInt8 → Bool} {calls : List (Call σ φ)} {uri : List UInt8} {slt slt' : Servlet σ φ}

theorem routed_matched (fnmatch : List UInt8 → List UInt8 → Bool) (calls : List (Call σ φ)) (uri : List UInt8) :
    Routed fnmatch calls uri ((run calls).getMatchedServlet uri fnmatch) := by
  obtain ⟨exact, glob⟩ := holds_run calls
  unfold getMatchedServlet
  split
  · rename_i slt found
    obtain ⟨t, stands⟩ := (exact uri slt).mp found
    exact .exact stands
  · rename_i missing
    have none (t : Nat) (slt : Servlet σ φ) : ¬ Stands Call.exact calls t uri slt := by
      intro stands
      have found := (exact uri slt).mpr ⟨t, stands⟩
      rw [missing] at found
      cases found
    split
    · rename_i e found
      obtain ⟨fits, t, stands, oldest⟩ := glob.find?_some found
      exact .glob none stands fits oldest
    · rename_i missing
      apply Routed.default none
      intro t pattern slt stands
      exact glob.find?_none missing stands

/-- The calls leave no choice. -/
theorem Routed.unique (routed : Routed fnmatch calls uri slt) (routed' : Routed fnmatch calls uri slt') : slt = slt' := by
  cases routed with
  | exact stands =>
    cases routed' with
    | exact stands' =>
      obtain rfl := stands.place stands'
      exact (stands.key stands').2
    | glob none => exact absurd stands (none _ _)
    | default none => exact absurd stands (none _ _)
  | glob none stands fits oldest =>
    cases routed' with
    | exact stands' => exact absurd stands' (none _ _)
    | glob none' stands' fits' oldest' =>
      obtain rfl := Nat.le_antisymm (oldest _ _ _ stands' fits') (oldest' _ _ _ stands fits)
      exact (stands.key stands').2
    | default none' noGlob =>
      rw [noGlob _ _ _ stands] at fits
      cases fits
  | default none noGlob =>
    cases routed' with
    | exact stands' => exact absurd stands' (none _ _)
    | glob none' stands' fits' oldest' =>
      rw [noGlob _ _ _ stands'] at fits'
      cases fits'
    | default => rfl

end

/-- After any calls no pattern is there twice, and the servlet of a uri is the one the calls say. -/
theorem matched_iff (fnmatch : List UInt8 → List UInt8 → Bool) (calls : List (Call σ φ)) (uri : List UInt8) :
    ((run calls).globs.map Prod.fst).Nodup ∧
      ∀ slt, (run calls).getMatchedServlet uri fnmatch = slt ↔ Routed fnmatch calls uri slt := by
  refine ⟨(holds_run calls).glob.nodup, fun slt => ⟨?_, fun routed => ?_⟩⟩
  · rintro rfl
    exact routed_matched fnmatch calls uri
  · exact (routed_matched fnmatch calls uri).unique routed

end ServletDispatch

end Cool.Http
