import Pawnee.Child.Observed
import Pawnee.Source.Main

/-!
# The buffer of a root

`check_root` appends its `/` in the buffer of its caller, and `strncat` is told of
`PATH_MAX` bytes of room.  Both callers pass a block that holds the string and its NUL
and nothing more: a string `strdup` has made, and an argument of the process.  So the
buffer is left exactly when the `/` is missing (`staysInBuffer_iff`).
-/

namespace Pawnee

open CText Effects

/-! ## The buffers of the callers -/

/-- The buffers `check_root` is called with. -/
inductive RootUse (env : Env) : CharBuffer → Prop
  /-- `check_root(vhost->root)` of `respond_client`. -/
  | vhost {request : HttpRequest} {tr : List ServerEvent} {vhost : VhostConfig} :
      Prog.Runs (getVhostConfig env request) tr (.ok (some vhost)) → RootUse env vhost.root
  /-- `check_root(argv[1])` of `main`. -/
  | argument (arg : Str) : RootUse env (argument arg)

theorem SiteKeys.vhost_root_capacity {keys : SiteKeys} {vhost : VhostConfig}
    (h : keys.vhost = some vhost) : vhost.root.capacity = vhost.root.text.length + 1 := by
  obtain ⟨hostname, root, logDir⟩ := keys
  cases hostname <;> cases root <;> cases logDir <;> cases h
  rfl

/-- The root of a `vhost_config` comes from `strdup`. -/
theorem runs_getVhostConfig_capacity {env : Env} {request : HttpRequest}
    {tr : List ServerEvent} {vhost : VhostConfig}
    (h : Prog.Runs (getVhostConfig env request) tr (.ok (some vhost))) :
    vhost.root.capacity = vhost.root.text.length + 1 := by
  have hnone : ∀ {error : String} {tr : List ServerEvent},
      ¬ Prog.Runs (writeError error >>= fun _ => (pure none : Server (Option VhostConfig))) tr
        (.ok (some vhost)) := by
    intro error tr hrun
    obtain ⟨_, _, -, hret⟩ := Prog.runs_op_iff.mp hrun
    obtain ⟨-, hout⟩ := Prog.runs_ret_iff.mp hret
    cases hout
  rcases Prog.runs_bind h with ⟨_, _, headers, -, -, h₁⟩ | ⟨_, hout, -⟩
  case inr => cases hout
  rcases Prog.runs_bind h₁ with ⟨_, _, hostHeader, -, -, h₂⟩ | ⟨_, hout, -⟩
  case inr => cases hout
  match hostHeader with
  | none => exact absurd h₂ hnone
  | some [] => exact absurd h₂ hnone
  | some (c :: host) =>
      cases hsites : env.sites with
      | none =>
          simp only [hsites] at h₂
          exact absurd h₂ hnone
      | some entries =>
          simp only [hsites] at h₂
          obtain ⟨keys, -, hvhost⟩ := lookupOutcome_eq_some_iff.mp (runs_findVhost h₂).symm
          exact SiteKeys.vhost_root_capacity hvhost

/-- Every caller passes a block of exactly the string and its NUL. -/
theorem RootUse.capacity_eq {env : Env} {root : CharBuffer} (h : RootUse env root) :
    root.capacity = root.text.length + 1 := by
  cases h with
  | vhost hrun => exact runs_getVhostConfig_capacity hrun
  | argument arg => rfl

/-! ## What is left in the buffer -/

/-- `check_root` returns the root with a `/` at its end, in the buffer it was given, and
the string fits the buffer with its NUL. -/
def StaysInBuffer (env : Env) (root : CharBuffer) : Prop :=
  ∀ tr out, Prog.Runs (checkRoot env root) tr out → ∃ result, out = .ok result ∧
    result.capacity = root.capacity ∧ result.text.length < result.capacity ∧
    result.text = if root.text.getLast? = some '/' then root.text else root.text ++ ['/']

/-- A root that passes is returned with its slash, whatever its buffer. -/
theorem runs_checkRoot {env : Env} {root : CharBuffer} {tr : List ServerEvent}
    {out : Except Halt CharBuffer} (hpass : RootPasses env root.text)
    (h : Prog.Runs (checkRoot env root) tr out) :
    out = .ok ⟨withSlash root.text, root.capacity⟩ := by
  rw [checkRoot_eq, if_pos hpass] at h
  exact (Prog.runs_doing_ret_iff.mp h).2

theorem staysInBuffer_iff_fits {env : Env} {root : CharBuffer} (hpass : RootPasses env root.text) :
    StaysInBuffer env root ↔ (withSlash root.text).length < root.capacity := by
  constructor
  · intro hstays
    obtain ⟨tr, out, hrun⟩ := Prog.exists_runs (checkRoot env root)
    obtain ⟨result, hout, -, hfits, -⟩ := hstays tr out hrun
    rw [runs_checkRoot hpass hrun] at hout
    cases hout
    exact hfits
  · intro hfits tr out hrun
    exact ⟨_, runs_checkRoot hpass hrun, rfl, hfits, rfl⟩

/-- The buffer is not left exactly if the root ends with a `/`. -/
theorem staysInBuffer_iff {env : Env} {root : CharBuffer} (huse : RootUse env root)
    (hpass : RootPasses env root.text) :
    StaysInBuffer env root ↔ root.text.getLast? = some '/' := by
  rw [staysInBuffer_iff_fits hpass, huse.capacity_eq, withSlash]
  split
  · next hslash => exact iff_of_true (by omega) hslash
  · next hno => exact iff_of_false (by simp) hno

/-! ## A root without a slash -/

/-- A machine on which every path is a directory, with a site that has the root `/w`. -/
def slashlessMachine : Env :=
  { machine "hostname=\"a\"\nroot=\"/w\"\nlog_dir=\"/l\"\n" [] with
    stat := fun _ => some ⟨false, true⟩ }

/-- The request parsed from one with a `Host` header. -/
def hostRequest : HttpRequest :=
  Request.filled ⟨.get, 1, 1, "/".toList, [⟨"Host".toList, "a".toList⟩]⟩
    ⟨some [some ⟨"Host".toList, "a".toList⟩], 1, 1⟩

theorem slashless_use : RootUse slashlessMachine ⟨"/w".toList, 3⟩ := by
  have hplay : (Prog.play kindAnswer (getVhostConfig slashlessMachine hostRequest)).2 =
      .ok (some ⟨⟨"a".toList, 2⟩, ⟨"/w".toList, 3⟩, ⟨"/l".toList, 3⟩⟩) := by decide +kernel
  have hrun := Prog.play_runs kindAnswer (getVhostConfig slashlessMachine hostRequest)
  rw [hplay] at hrun
  exact .vhost hrun

theorem slashless_passes : RootPasses slashlessMachine "/w".toList := by decide

theorem staysInBuffer_iff_slashless :
    StaysInBuffer slashlessMachine ⟨"/w".toList, 3⟩ ↔ "/w".toList.getLast? = some '/' :=
  staysInBuffer_iff slashless_use slashless_passes

/-- The string that is left, `/w/` and its NUL, has four bytes, and the buffer three. -/
theorem not_staysInBuffer_slashless :
    RootUse slashlessMachine ⟨"/w".toList, 3⟩ ∧ RootPasses slashlessMachine "/w".toList ∧
      ¬ StaysInBuffer slashlessMachine ⟨"/w".toList, 3⟩ :=
  ⟨slashless_use, slashless_passes, by rw [staysInBuffer_iff_fits slashless_passes]; decide⟩

end Pawnee
