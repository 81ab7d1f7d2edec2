import Pawnee.Child.Observed

/-!
# HEAD and GET

Two runs are compared: the child that gets a GET request, and the child that
gets the same request with HEAD.  They mirror each other if they write the same
status line and header section and the second one writes no body.

Where a file is sent they do, since the method decides nothing but the body.
The branches that answer with a message do not: for HEAD there is no message,
and its length is taken all the same.  The stats page does not look at the
method.
-/

namespace Pawnee

open CText Effects

/-- The same request with HEAD. -/
def Request.asHead (q : Request) : Request := { q with method := .head }

/-! ## The request line -/

theorem Request.Asks.asHead {q : Request} {r : Str} (h : q.Asks r) : q.asHead.Asks r :=
  ⟨nofun, h.major, h.target, h.not_stats⟩

theorem Request.Finds.asHead {env : Env} {q : Request} {r : Str} {vhost : VhostConfig}
    (h : q.Finds env r vhost) : q.asHead.Finds env r vhost :=
  ⟨h.toAsks.asHead, h.site, h.passes⟩

/-- What a course writes before the body. -/
def Course.head (env : Env) (c : Course) : List Str :=
  c.before.filterMap headPiece ++ (c.ending.lead env).filterMap headPiece

theorem observed_head {env : Env} {c : Course} {tr : List ServerEvent} {out : Except Halt Unit}
    (h : Prog.Runs (c.prog env) tr out) : observed headPiece tr = c.head env :=
  seesWrites_headPiece.observed_course (fun _ _ _ => rfl) h

end Pawnee
