import Pawnee.Foundation.LockedCounters
import Pawnee.Foundation.Postconditions
import Pawnee.Source.Config
import Pawnee.Source.Main

/-!
# Before the loop (`main`, `socket.c`, `init_signals`, `init_stats`)

Where `init_config` has returned, `main` opens the logs, checks the root it is given,
makes the socket, announces the server, and sets up what the loop needs.  What
`get_config` points to is an argument of `Launch.beforeLoop`.

These calls are made once and are not calls of the loop, so they have a type of their own
(`LaunchCall`), with the calls of the loop among them.

`create_server` does not end the process when it fails.  It returns `-1`, and the end
comes with `listen`.
-/

namespace Pawnee

open CText Effects

/-! ## Calls -/

/-- A call of `main` before its loop. -/
inductive LaunchCall where
  /-- A call that is made in the loop too. -/
  | shared (e : Call)
  /-- `fopen(path, "a")`. -/
  | openLog (path : Str)
  | perror (message : Str)
  | socket
  /-- `setsockopt` with `SO_REUSEADDR`. -/
  | setsockopt (fd : Int)
  /-- `bind`, at the address `inet_addr` finds in a text. -/
  | bind (fd : Int) (address : Str) (port : UInt16)
  | printf (text : Str)
  | listen (fd : Int)
  /-- `signal(SIGPIPE, SIG_IGN)`. -/
  | signal
  /-- `sigaction(SIGCHLD, ..)` with `child_handler` and `SA_RESTART`. -/
  | sigaction
  /-- `sem_init(.., 0, value)`. -/
  | semInit (value : Nat)
  | mmap

/-- The answer to such a call: a descriptor or `-1`, or whether it has succeeded. -/
abbrev LaunchAnswer : LaunchCall → Type
  | .shared e => Answer e
  | .perror _ | .printf _ => Unit
  | .socket => Int
  | _ => Bool

/-- Code before the loop. -/
abbrev Launch (α : Type) := Prog LaunchCall LaunchAnswer Halt α

/-- A call with its answer. -/
abbrev LaunchEvent := Event LaunchAnswer

namespace Launch

variable {α : Type}

/-- Make a call. -/
abbrev ask (e : LaunchCall) : Launch (LaunchAnswer e) := Prog.call e

/-- Code of the loop. -/
def ofServer (p : Server α) : Launch α := p.hoist LaunchCall.shared fun _ r => r

/-- `write_error(get_log_errors(), error)`. -/
def writeError (error : String) : Launch Unit := ask (.shared (.logError error.toList))

/-- Make a call.  If it fails, report that and `exit(EXIT_FAILURE)`. -/
def orExit (call : Launch Bool) (report : Launch Unit) : Launch Unit := do
  let ok ← call
  if !ok then do
    report
    .stop .exitFailure
  else pure ()

/-! ## The logs -/

/-- A log is opened in the directory `log_dir`.  The path is built with `strcat` in a buffer
of `PATH_MAX` bytes. -/
def createLogsFile (name message : String) (logDir : Str) : Launch Unit :=
  if pathMax ≤ (logDir ++ name.toList).length then .stop (.fault .outOfBounds)
  else orExit (ask (.openLog (logDir ++ name.toList)))
    (ask (.perror message.toList))

/-- `create_requests_logs_file`. -/
def createRequestsLogsFile : Str → Launch Unit :=
  createLogsFile "requests.log" "fopen request log error"

/-- `create_errors_logs_file`. -/
def createErrorsLogsFile : Str → Launch Unit :=
  createLogsFile "errors.log" "fopen errors log error "

/-! ## The socket -/

/-- `htons(port)`, as the number of the port. -/
def htons (port : Int) : UInt16 := .ofInt port

/-- `create_server`. -/
def createServer (listenAddr : Str) (port : Int) : Launch Int := do
  let socketServer ← ask .socket
  if socketServer = -1 then do
    writeError "socket_server "
    pure (-1)
  else do
    let reused ← ask (.setsockopt socketServer)
    if !reused then do
      writeError "option SO_REUSEADDR error"
      pure (-1)
    else do
      let bound ← ask (.bind socketServer listenAddr (htons port))
      if !bound then do
        writeError "bind socket_server"
        pure (-1)
      else pure socketServer

/-! ## Signals and shared memory -/

/-- `init_signals`. -/
def initSignals : Launch Unit := do
  orExit (ask .signal) (writeError "signal error")
  orExit (ask .sigaction) (writeError "error sigaction")

/-- `init_stats`: the shared memory after the two `memcpy`.  The `stats` are static, so they
are zero. -/
def initStats : Launch (LockedCounters.Memory Counter Int32) := do
  let stats : Counter → Int32 := fun _ => 0
  orExit (ask (.semInit 1)) (writeError "sem_init error")
  orExit (ask .mmap) (writeError "mmap stats error")
  orExit (ask .mmap) (writeError "mmap semaphore error")
  pure ⟨1, stats⟩

/-! ## `main` -/

/-- The `printf` of `main`. -/
def greeting (config : Settings) : Str :=
  "server running at : http://".toList ++ config.listenAddr ++ ":".toList ++
    formatInt config.port ++ "\n".toList

/-- The global `root`, as far as `strncpy` fills it: `argv[1]` after `check_root`. -/
def rootGiven (env : Env) : Option Str → Launch Str
  | none => pure []
  | some arg => do
      let checked ← ofServer (checkRoot env (argument arg))
      pure (checked.text.take pathMax)

/-- What `main` has when it gets to its loop. -/
structure Ready where
  root : Str
  socketServer : Int
  memory : LockedCounters.Memory Counter Int32

/-- `main` between `init_config` and its loop.  `init_config` is left out: it does not return
where `mmap` succeeds (`initConfig_mapped`). -/
def beforeLoop (config : Settings) (env : Env) (argv1 : Option Str) : Launch Ready := do
  createRequestsLogsFile config.logDir
  createErrorsLogsFile config.logDir
  let root ← rootGiven env argv1
  let socketServer ← createServer config.listenAddr config.port
  ask (.printf (greeting config))
  orExit (ask (.listen socketServer)) (writeError "error socket_server")
  initSignals
  let memory ← initStats
  pure ⟨root, socketServer, memory⟩

end Launch

end Pawnee
