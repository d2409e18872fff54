import Mathlib.Data.BitVec

/-!
# The functions behind the hooks

One constructor for each function of `HOOK_FUN`, with its arguments, and the system that runs the
original functions. What the system keeps is open: a state, the answers of the originals, and what the
library reads from the memory and the descriptors of the process.
-/

namespace Cool

abbrev Ptr := BitVec 64

/-- The commands `fcntl` tells apart; `other` is every command of its `default:`. -/
inductive Cmd where
  | setfl | getfl
  | dupfd | dupfdCloexec | setfd | setown | setsig | setlease | notify | setpipeSz
  | getfd | getown | getsig | getlease | getpipeSz
  | setlk | setlkw | getlk
  | getownEx | setownEx
  | other (cmd : BitVec 32)
  deriving DecidableEq, Repr

/-- The third argument of `fcntl`. -/
inductive Vararg where
  | absent
  | int (arg : BitVec 32)
  | ptr (arg : Ptr)
  deriving DecidableEq, Repr

/-- The requests `ioctl` tells apart. -/
inductive Request where
  | fionbio
  | other (request : BitVec 64)
  deriving DecidableEq, Repr

/-- The options `setsockopt` tells apart, by level and name. -/
inductive SockOpt where
  | rcvtimeo | sndtimeo
  | other (level optname : BitVec 32)
  deriving DecidableEq, Repr

inductive Origin where
  | sleep (seconds : UInt32)
  | usleep (usec : UInt32)
  | nanosleep (req rem : Ptr)
  | socket (domain type protocol : BitVec 32)
  | connect (sockfd : Int) (addr : Ptr) (addrlen : UInt32)
  | accept (sockfd : Int) (addr addrlen : Ptr)
  | read (fd : Int) (buf : Ptr) (count : UInt64)
  | readv (fd : Int) (iov : Ptr) (iovcnt : BitVec 32)
  | recv (sockfd : Int) (buf : Ptr) (len : UInt64) (flags : BitVec 32)
  | recvfrom (sockfd : Int) (buf : Ptr) (len : UInt64) (flags : BitVec 32) (srcAddr addrlen : Ptr)
  | recvmsg (sockfd : Int) (msg : Ptr) (flags : BitVec 32)
  | write (fd : Int) (buf : Ptr) (count : UInt64)
  | writev (fd : Int) (iov : Ptr) (iovcnt : BitVec 32)
  | send (sockfd : Int) (buf : Ptr) (len : UInt64) (flags : BitVec 32)
  | sendto (sockfd : Int) (buf : Ptr) (len : UInt64) (flags : BitVec 32) (destAddr : Ptr) (addrlen : UInt32)
  | sendmsg (sockfd : Int) (msg : Ptr) (flags : BitVec 32)
  | close (fd : Int)
  | fcntl (fd : Int) (cmd : Cmd) (arg : Vararg)
  | ioctl (fd : Int) (request : Request) (arg : Ptr)
  | getsockopt (sockfd : Int) (optname : SockOpt) (optval optlen : Ptr)
  | setsockopt (sockfd : Int) (optname : SockOpt) (optval : Ptr) (optlen : UInt32)
  deriving DecidableEq, Repr

/-- `F_GETFD` and its like: `fcntl` reads no third argument for them. -/
def Cmd.plain : Cmd → Bool
  | .getfl | .getfd | .getown | .getsig | .getlease | .getpipeSz => true
  | _ => false

/-- `origin` runs a function behind its `_f` pointer and gives the value it returns. `fstat` is
`S_ISSOCK(st_mode)` of an open descriptor; `int`, `timespec` and `timeval` read the memory behind a
pointer, `none` where that faults. `fcntl` returns an `int`, and reads its third argument only for the
commands that have one. -/
structure System (κ : Type) where
  origin : Origin → κ → Int × κ
  errno : κ → Int
  setErrno : Int → κ → κ
  fstat : κ → Int → Option Bool
  int : κ → Ptr → Option (BitVec 32)
  timespec : κ → Ptr → Option (Int × Int)
  timeval : κ → Ptr → Option (Int × Int)
  plain : ∀ fd cmd arg k, cmd.plain = true → origin (.fcntl fd cmd arg) k = origin (.fcntl fd cmd .absent) k
  ints : ∀ fd cmd arg k,
    (BitVec.ofInt 32 (origin (.fcntl fd cmd arg) k).1).toInt = (origin (.fcntl fd cmd arg) k).1

/-! ## The flag -/

def oNonblock : BitVec 32 := 0o4000#32

def hasNonblock (flags : BitVec 32) : Bool := flags &&& oNonblock != 0

def withNonblock (flags : BitVec 32) : BitVec 32 := flags ||| oNonblock

def withoutNonblock (flags : BitVec 32) : BitVec 32 := flags &&& ~~~oNonblock

theorem oNonblock_eq : oNonblock = BitVec.twoPow 32 11 := by decide

theorem hasNonblock_eq (flags : BitVec 32) : hasNonblock flags = flags.getLsbD 11 := by
  rw [hasNonblock, oNonblock_eq, BitVec.and_twoPow]
  cases flags.getLsbD 11 <;> decide

@[simp] theorem hasNonblock_withNonblock (flags : BitVec 32) : hasNonblock (withNonblock flags) = true := by
  rw [hasNonblock_eq, withNonblock, oNonblock_eq, BitVec.getLsbD_or, BitVec.getLsbD_twoPow]
  simp

@[simp] theorem hasNonblock_withoutNonblock (flags : BitVec 32) :
    hasNonblock (withoutNonblock flags) = false := by
  rw [hasNonblock_eq, withoutNonblock, oNonblock_eq, BitVec.getLsbD_and, BitVec.getLsbD_not, BitVec.getLsbD_twoPow]
  simp

/-- To set the flag where it is set changes nothing. -/
theorem withNonblock_of_has {flags : BitVec 32} (there : hasNonblock flags = true) : withNonblock flags = flags := by
  rw [hasNonblock_eq] at there
  apply BitVec.eq_of_getLsbD_eq
  intro i _
  rw [withNonblock, oNonblock_eq, BitVec.getLsbD_or, BitVec.getLsbD_twoPow]
  by_cases here : 11 = i
  · subst here
    rw [there, Bool.true_or]
  · simp [here]

theorem withoutNonblock_of_not {flags : BitVec 32} (clear : hasNonblock flags = false) :
    withoutNonblock flags = flags := by
  rw [hasNonblock_eq] at clear
  apply BitVec.eq_of_getLsbD_eq
  intro i small
  rw [withoutNonblock, oNonblock_eq, BitVec.getLsbD_and, BitVec.getLsbD_not, BitVec.getLsbD_twoPow]
  by_cases here : 11 = i
  · subst here
    rw [clear, Bool.false_and]
  · simp [here, small]

end Cool
