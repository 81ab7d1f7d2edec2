import Pawnee.Source.Respond

/-!
# The parent (`main`)

The body of the loop of `main`.  The fork is part of `respond_client`, and it is
the last thing the parent does in a round.  A failed call ends the server.

Before its loop `main` gives its first argument to `check_root`, in the block the
argument lies in.
-/

namespace Pawnee

open CText Effects

/-- The buffer of `check_root(argv[1])`: the bytes of the argument and its NUL. -/
def argument (arg : Str) : CharBuffer := ⟨arg, arg.length + 1⟩

/-- One round of the loop of `main`: accept a connection, count it, and fork a
child for it. -/
def serveOne : Server Unit := do
  let client ← perform .accept
  match client with
  | none => do
      writeError "accept error"
      exitFailure
  | some conn => do
      let named ← perform .getpeername
      if !named then do
        writeError "getpeername error"
        exitFailure
      else do
        countOne .servedConnections
        let forked ← perform (.fork conn)
        if !forked then do
          writeError "fork error"
          exitFailure
        else pure ()

/-- The calls of a round up to the fork, when the counter holds `v`. -/
def roundEvents (conn : Connection) (v : Int32) : List ServerEvent :=
  ⟨.accept, some conn⟩ :: ⟨.getpeername, true⟩ :: countEvents v (some .servedConnections)

/-- What a round does. -/
inductive RoundRun : List ServerEvent → Except Halt Unit → Prop
  | noClient : RoundRun [⟨.accept, none⟩, ⟨.logError "accept error".toList, ()⟩]
      (.error .exitFailure)
  | noName (conn : Connection) : RoundRun [⟨.accept, some conn⟩, ⟨.getpeername, false⟩,
      ⟨.logError "getpeername error".toList, ()⟩] (.error .exitFailure)
  | noFork (conn : Connection) (v : Int32) : RoundRun (roundEvents conn v ++
      [⟨.fork conn, false⟩, ⟨.logError "fork error".toList, ()⟩]) (.error .exitFailure)
  | forked (conn : Connection) (v : Int32) :
      RoundRun (roundEvents conn v ++ [⟨.fork conn, true⟩]) (.ok ())

/-- Every run of the body of the loop is one of these. -/
theorem runs_serveOne {tr : List ServerEvent} {out : Except Halt Unit}
    (h : Prog.Runs serveOne tr out) : RoundRun tr out := by
  obtain ⟨client, tr₁, rfl, h₁⟩ := Prog.runs_op_iff.mp h
  cases client with
  | none =>
      obtain ⟨_, tr₂, rfl, h₂⟩ := Prog.runs_op_iff.mp h₁
      obtain ⟨rfl, rfl⟩ := Prog.runs_stop_iff.mp h₂
      exact .noClient
  | some conn =>
      obtain ⟨named, tr₂, rfl, h₂⟩ := Prog.runs_op_iff.mp h₁
      cases named with
      | false =>
          obtain ⟨_, tr₃, rfl, h₃⟩ := Prog.runs_op_iff.mp h₂
          obtain ⟨rfl, rfl⟩ := Prog.runs_stop_iff.mp h₃
          exact .noName conn
      | true =>
          have hcount : Prog.Runs (counting (some .servedConnections) _) tr₂ out := h₂
          obtain ⟨v, tr₃, rfl, h₃⟩ := runs_counting hcount
          obtain ⟨forked, tr₄, rfl, h₄⟩ := Prog.runs_op_iff.mp h₃
          cases forked with
          | false =>
              obtain ⟨_, tr₅, rfl, h₅⟩ := Prog.runs_op_iff.mp h₄
              obtain ⟨rfl, rfl⟩ := Prog.runs_stop_iff.mp h₅
              exact .noFork conn v
          | true =>
              obtain ⟨rfl, rfl⟩ := Prog.runs_ret_iff.mp h₄
              exact .forked conn v

end Pawnee
