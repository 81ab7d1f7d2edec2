import Pawnee.Foundation.Numerals
import Pawnee.Foundation.Program

/-!
# What the server runs on

The calls a process makes (`Call`), the ways it can end (`Halt`), and the parts
of the machine it looks at without changing them (`Env`).

The configuration files and the file system do not change while one request is
served, so their contents are data of `Env`, and a call such as `stat` is made
only to record that it was made.  The order in which the compiled code reads the
counters for the stats page is data of `Env` too.  What other processes do change,
the shared counters, is read and written by calls with an answer.  `write` answers
with the number of bytes the socket has taken, or with a negative number.

Undefined behaviour of C ends a process with `Halt.fault`.  A pointer that may
be NULL is an option.  `pointee` is the use of such a pointer by a function that
needs a string, and `field` is the read of a struct member that may not have
been written yet.  A `CharBuffer` keeps its string and its size side by side, so
a string that has outgrown its buffer shows there and ends nothing.

The counters are `int`s of 32 bits, and so are the answers of their reads.
-/

namespace Pawnee

open CText Effects

/-! ## The shared counters -/

/-- The members of `web_stats`. -/
inductive Counter where
  | servedConnections
  | servedRequests
  | ok200
  | ko400
  | ko403
  | ko404
  | ko405
deriving DecidableEq, Repr

/-- All counters, in the order of the struct. -/
def Counter.all : List Counter :=
  [.servedConnections, .servedRequests, .ok200, .ko400, .ko403, .ko404, .ko405]

/-- An order in which all counters are read, each of them once. -/
structure ReadOrder where
  counters : List Counter
  perm : counters.Perm Counter.all

/-! ## Requests as the log and the file system see them -/

/-- `enum http_method`. -/
inductive HttpMethod where
  | get
  | head
  | unsupported
deriving DecidableEq, Repr

/-- `struct tm`, as far as the log prints it. -/
structure Tm where
  mday : Int
  mon : Int
  year : Int
  hour : Int
  min : Int
  sec : Int
deriving DecidableEq, Repr

/-- The arguments of the `fprintf` of `write_request`. -/
structure LogEntry where
  /-- `get_actual_time()`. -/
  time : Tm
  clientIp : Str
  httpMajor : Int
  httpMinor : Int
  code : Int
  method : HttpMethod
  target : Str
  /-- The `User-Agent` header, NULL if there is none. -/
  userAgent : Option Str
deriving DecidableEq, Repr

/-- `st_mode`, as far as it is looked at. -/
structure FileStat where
  isReg : Bool
  isDir : Bool
deriving DecidableEq, Repr

/-- A file opened for reading. -/
structure OpenFile where
  content : Str
  /-- `st_mtime`. -/
  mtime : Int
deriving DecidableEq, Repr

/-- An entry of the sites directory. -/
structure DirEntry where
  /-- `d_type == DT_REG`. -/
  isReg : Bool
  /-- The file behind the entry, `none` if `fopen` fails. -/
  content : Option Str
deriving DecidableEq, Repr

/-- The string in the 100 bytes that `time_to_http_format` allocates. -/
structure DateText where
  text : Str
  fits : text.length < 100

/-- What a process can look at while it serves one request. -/
structure Env where
  /-- The entries `readdir` gives for the sites directory, `none` if `opendir` fails. -/
  sites : Option (List DirEntry)
  /-- The content of the file `mimes_file`, `none` if `fopen` fails. -/
  mimes : Option Str
  /-- `access(path, R_OK | W_OK) == 0`. -/
  access : Str → Bool
  /-- `stat(path, ..)`, `none` if it fails. -/
  stat : Str → Option FileStat
  /-- `fopen(path, "r")`, `none` if it fails. -/
  fopen : Str → Option OpenFile
  /-- The global `client_ip`. -/
  clientIp : Str
  /-- `localtime` of the current time. -/
  actualTime : Tm
  /-- `time(NULL)`. -/
  now : Int
  /-- What `strftime` writes for `"%a, %d %b %G %X %Z"`. -/
  strftime : Int → DateText
  /-- The order in which the compiled code evaluates the arguments of the `snprintf`
  of the stats page.  C leaves it open. -/
  statsOrder : ReadOrder

/-- A connection `accept` has returned: the machine its child will see, and the
bytes the client sends, all of them and up to their end, `none` if `fdopen` fails on the
socket. -/
structure Connection where
  env : Env
  flux : Option Str

/-! ## Calls -/

/-- Which `write` of a response it is. -/
inductive Part where
  /-- The status line, with the code it carries. -/
  | status (code : Int)
  /-- The header section. -/
  | header
  /-- A piece of the body. -/
  | body
deriving DecidableEq, Repr

/-- A call of a process. -/
inductive Call where
  | access (path : Str)
  | stat (path : Str)
  | fopen (path : Str)
  /-- One line of the requests log. -/
  | logRequest (entry : LogEntry)
  /-- One line of the errors log. -/
  | logError (error : Str)
  | semWait
  | semPost
  /-- Read a counter in shared memory. -/
  | load (c : Counter)
  /-- Write a counter in shared memory. -/
  | store (c : Counter) (v : Int32)
  /-- Write to the socket of the client. -/
  | write (part : Part) (data : Str)
  | accept
  | getpeername
  /-- `fork`; the child serves the connection. -/
  | fork (conn : Connection)

/-- The answer to a call. -/
abbrev Answer : Call → Type
  | .load _ => Int32
  | .write _ _ => Int
  | .accept => Option Connection
  | .getpeername => Bool
  | .fork _ => Bool
  | _ => Unit

instance : ∀ e : Call, Nonempty (Answer e)
  | .access _ | .stat _ | .fopen _ | .logRequest _ | .logError _ | .semWait | .semPost
  | .store _ _ => ⟨()⟩
  | .load _ => ⟨(0 : Int32)⟩
  | .write _ _ => ⟨(0 : Int)⟩
  | .accept => ⟨(none : Option Connection)⟩
  | .getpeername | .fork _ => ⟨true⟩

/-! ## Ends -/

/-- Undefined behaviour. -/
inductive Fault where
  /-- A NULL pointer is used as a string or a struct. -/
  | nullPointer
  /-- A pointer outside its object is used. -/
  | outOfBounds
  /-- A struct member is read that nothing has written. -/
  | unsetField
deriving DecidableEq, Repr

/-- How a process ends. -/
inductive Halt where
  /-- `exit(EXIT_SUCCESS)`. -/
  | exitSuccess
  /-- `exit(EXIT_FAILURE)`. -/
  | exitFailure
  | fault (f : Fault)
deriving DecidableEq, Repr

/-- Code of the server. -/
abbrev Server (α : Type) := Prog Call Answer Halt α

/-- A call with its answer. -/
abbrev ServerEvent := Event Answer

/-- Make a call. -/
abbrev perform (e : Call) : Server (Answer e) := Prog.call e

/-- `exit(EXIT_SUCCESS)`. -/
def exitSuccess {α : Type} : Server α := .stop .exitSuccess

/-- `exit(EXIT_FAILURE)`. -/
def exitFailure {α : Type} : Server α := .stop .exitFailure

/-- Undefined behaviour. -/
def fault {α : Type} (f : Fault) : Server α := .stop (.fault f)

/-- The use of a pointer that must not be NULL. -/
def pointee {α : Type} : Option α → Server α
  | some a => pure a
  | none => fault .nullPointer

/-- The read of a struct member. -/
def field {α : Type} : Option α → Server α
  | some a => pure a
  | none => fault .unsetField

@[simp] theorem pointee_some {α : Type} (a : α) : pointee (some a) = .ret a := rfl

@[simp] theorem pointee_none {α : Type} : (pointee none : Server α) = fault .nullPointer := rfl

@[simp] theorem field_some {α : Type} (a : α) : field (some a) = .ret a := rfl

@[simp] theorem field_none {α : Type} : (field none : Server α) = fault .unsetField := rfl

@[simp] theorem exitSuccess_bind {α β : Type} (f : α → Server β) :
    (exitSuccess >>= f) = exitSuccess := rfl

@[simp] theorem exitFailure_bind {α β : Type} (f : α → Server β) :
    (exitFailure >>= f) = exitFailure := rfl

@[simp] theorem fault_bind {α β : Type} (x : Fault) (f : α → Server β) :
    (fault x >>= f) = fault x := rfl

/-- A value, or undefined behaviour. -/
def orFault {α : Type} : Except Fault α → Server α
  | .ok a => .ret a
  | .error f => fault f

@[simp] theorem orFault_ok {α : Type} (a : α) : orFault (.ok a) = .ret a := rfl

@[simp] theorem orFault_error {α : Type} (f : Fault) : (orFault (.error f) : Server α) = fault f :=
  rfl

/-- A result that goes on to `ret`. -/
theorem orFault_map_eq_ret_iff {α β : Type} {x : Except Fault α} {f : α → β} {b : β} :
    orFault (x.map f) = .ret b ↔ ∃ a, x = .ok a ∧ f a = b := by
  cases x with
  | error e =>
      constructor
      · intro h
        cases h
      · rintro ⟨a, ha, -⟩
        cases ha
  | ok a =>
      constructor
      · exact fun h => ⟨a, rfl, Prog.ret.inj h⟩
      · rintro ⟨a', ha, rfl⟩
        cases ha
        rfl

/-- `write_error(get_log_errors(), error)`. -/
def writeError (error : String) : Server Unit := perform (.logError error.toList)

/-- A `char` buffer: the string in it and its size. -/
structure CharBuffer where
  /-- The string in the buffer. -/
  text : Str
  /-- The size of the buffer. -/
  capacity : Nat
deriving DecidableEq, Repr

/-- `strdup`: a new block of exactly the bytes of the string and its NUL. -/
def strdup (s : Option Str) : Server CharBuffer := do
  let s ← pointee s
  pure ⟨s, s.length + 1⟩

/-! ## Formatted output -/

/-- `PATH_MAX`. -/
def pathMax : Nat := 4096

/-- `write(fd, buf, n)` where the buffer holds a string and its NUL.  Reading
behind the NUL leaves the buffer. -/
def writeString (part : Part) (text : Str) (n : Int) : Server Int :=
  if 0 ≤ n ∧ n ≤ text.length + 1 then perform (.write part ((text ++ ['\x00']).take n.toNat))
  else fault .outOfBounds

/-- `len = snprintf(buf, size, ..)` and then `write(fd, buf, len)`: `len` counts
the bytes of the whole text, also those that did not fit. -/
def writeFormatted (part : Part) (size : Nat) (text : Str) : Server Int :=
  writeString part (text.take (size - 1)) text.length

/-- A text that is written whole. -/
theorem writeString_length (part : Part) (text : Str) :
    writeString part text text.length = perform (.write part text) := by
  rw [writeString, if_pos ⟨by omega, by omega⟩, Int.toNat_natCast, List.take_left]

/-- A text that fits its buffer is written as it is. -/
theorem writeFormatted_eq {part : Part} {size : Nat} {text : Str} (h : text.length < size) :
    writeFormatted part size text = perform (.write part text) := by
  rw [writeFormatted, List.take_of_length_le (by omega), writeString_length]

end Pawnee
