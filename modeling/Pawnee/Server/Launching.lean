import Pawnee.Server.Host
import Pawnee.Source.Launch

/-!
# How the server comes up

Once `init_config` has returned, `main` makes its calls in one order (`launchCalls`).  It
gets to its loop if and only if none of them fails and the paths of the logs fit their
buffers.  Then the memory and the output buffers are those at which `Host` starts
(`launches`).  `init_config` itself is not a part of this (see `beforeLoop`).

If a call fails, `main` reports it and exits.  A socket that cannot be made, set up or
bound is different: `create_server` returns, the server is announced all the same, and
`listen` ends the process.  The announced port is the port that is bound only if it is one.

`listen` is trusted to fail on the descriptor `-1`.
-/

namespace Pawnee

open CText Effects

namespace Launch

/-! ## The plan -/

/-- The path of the errors log. -/
def errorsLog (config : Settings) : Str := config.logDir ++ "errors.log".toList

/-- The calls before the socket. -/
def firstCalls (config : Settings) (argv1 : Option Str) : List LaunchCall :=
  [.openLog (config.logDir ++ "requests.log".toList), .openLog (errorsLog config)] ++
    argv1.toList.flatMap fun arg => [.shared (.access arg), .shared (.stat arg)]

/-- The calls of a start in which nothing fails. -/
def launchCalls (config : Settings) (argv1 : Option Str) (fd : Int) : List LaunchCall :=
  firstCalls config argv1 ++
    [.socket, .setsockopt fd, .bind fd config.listenAddr (htons config.port),
      .printf (greeting config), .listen fd, .signal, .sigaction, .semInit 1, .mmap, .mmap]

/-- The call has done what it was made for. -/
def Succeeds (env : Env) : (e : LaunchCall) → LaunchAnswer e → Prop
  | .shared (.access path), _ => env.access path = true
  | .shared (.stat path), _ => ∃ st, env.stat path = some st ∧ st.isDir = true
  | .shared _, _ | .perror _, _ | .printf _, _ => True
  | .socket, fd => fd ≠ -1
  | .openLog _, ok | .setsockopt _, ok | .bind _ _ _, ok | .listen _, ok | .signal, ok
  | .sigaction, ok | .semInit _, ok | .mmap, ok => ok = true

/-- The call tells the user that something has failed. -/
inductive IsReport : LaunchCall → Prop
  | perror (message : Str) : IsReport (.perror message)
  | writeError (error : Str) : IsReport (.shared (.logError error))

/-- `listen` fails without a socket. -/
def Trusted : (e : LaunchCall) → LaunchAnswer e → Prop
  | .listen fd, ok => fd = -1 → ok = false
  | _, _ => True

instance : (e : LaunchCall) → (r : LaunchAnswer e) → Decidable (Trusted e r)
  | .listen fd, ok => inferInstanceAs (Decidable (fd = -1 → ok = false))
  | .shared _, _ | .perror _, _ | .printf _, _ | .socket, _ | .openLog _, _ | .setsockopt _, _
  | .bind _ _ _, _ | .signal, _ | .sigaction, _ | .semInit _, _ | .mmap, _ => isTrue trivial

/-- The call is one of `create_server`. -/
def makesServer : LaunchCall → Bool
  | .socket | .setsockopt _ | .bind _ _ _ => true
  | _ => false

/-- What follows on the report of a call that has failed. -/
def aftermath (config : Settings) (failed : LaunchCall) : List LaunchCall :=
  if makesServer failed then
    [.printf (greeting config), .listen (-1), .shared (.logError "error socket_server".toList)]
  else []

section

variable (config : Settings) (env : Env) (argv1 : Option Str)

/-- All calls so far are those of `l`, and none has failed. -/
structure OnPlan (l : List LaunchCall) (tr : List LaunchEvent) : Prop where
  calls : Prog.callsOf tr = l
  succeeded : ∀ ev ∈ tr, Succeeds env ev.1 ev.2

/-- After the calls of `good` the call `bad` has failed, and `report` is told. -/
structure FailsAt (good : List LaunchEvent) (bad : LaunchEvent) (report : LaunchCall) : Prop where
  planned : ∃ fd, Prog.callsOf good ++ [bad.1] <+: launchCalls config argv1 fd
  succeeded : ∀ ev ∈ good, Succeeds env ev.1 ev.2
  failed : ¬ Succeeds env bad.1 bad.2
  told : IsReport report
  /-- `write_error` has a file to write to. -/
  logged : .openLog (errorsLog config) ∈ Prog.callsOf good ∨
    (∃ message, report = .perror message) ∧ makesServer bad.1 = false

/-- `create_server` has failed and has returned. -/
def Unserved (tr : List LaunchEvent) : Prop :=
  ∃ good bad rest report, tr = good ++ bad :: rest ∧ FailsAt config env argv1 good bad report ∧
    Prog.callsOf rest = [report] ∧ makesServer bad.1 = true

/-- How the start comes to its end when it does not get to the loop. -/
def Stops : Halt → List LaunchEvent → Prop
  | .exitFailure, tr => ∃ good bad rest report, tr = good ++ bad :: rest ∧
      FailsAt config env argv1 good bad report ∧
      Prog.callsOf rest = report :: aftermath config bad.1
  | .fault .outOfBounds, tr =>
      tr = [] ∧ pathMax ≤ (config.logDir ++ "requests.log".toList).length
  | _, _ => False

end

section

variable {config : Settings} {env : Env} {argv1 : Option Str} {l : List LaunchCall}
  {tr : List LaunchEvent}

theorem OnPlan.snoc (h : OnPlan env l tr) {e : LaunchCall} {r : LaunchAnswer e}
    (hr : Succeeds env e r) : OnPlan env (l ++ [e]) (tr ++ [⟨e, r⟩]) where
  calls := by rw [Prog.callsOf_append, h.calls, Prog.callsOf_cons, Prog.callsOf_nil]
  succeeded := List.forall_mem_append.mpr ⟨h.succeeded, List.forall_mem_singleton.mpr hr⟩

/-- The next call of the plan fails. -/
theorem OnPlan.fails (h : OnPlan env l tr) {fd : Int} {bad : LaunchEvent} {report : LaunchCall}
    (hplan : l ++ [bad.1] <+: launchCalls config argv1 fd) (hbad : ¬ Succeeds env bad.1 bad.2)
    (hreport : IsReport report)
    (hlog : .openLog (errorsLog config) ∈ l ∨
      (∃ message, report = .perror message) ∧ makesServer bad.1 = false) :
    FailsAt config env argv1 tr bad report where
  planned := ⟨fd, h.calls ▸ hplan⟩
  succeeded := h.succeeded
  failed := hbad
  told := hreport
  logged := h.calls ▸ hlog

/-- Calls whose success is known beforehand. -/
theorem OnPlan.append (h : OnPlan env l tr) {known : List LaunchCall} {mid : List LaunchEvent}
    (hmid : Prog.callsOf mid = known) (hknown : ∀ e ∈ known, ∀ r, Succeeds env e r) :
    OnPlan env (l ++ known) (tr ++ mid) where
  calls := by rw [Prog.callsOf_append, h.calls, hmid]
  succeeded := List.forall_mem_append.mpr ⟨h.succeeded, fun ev hev =>
    hknown ev.1 (hmid ▸ List.mem_map_of_mem hev) ev.2⟩

/-- Calls whose success is known beforehand, the last of which ends the process. -/
theorem OnPlan.fails_known (h : OnPlan env l tr) {known : List LaunchCall} {bad report : LaunchCall}
    {mid : List LaunchEvent} (hmid : Prog.callsOf mid = known ++ [bad, report])
    (hknown : ∀ e ∈ known, ∀ r, Succeeds env e r) (hbad : ∀ r, ¬ Succeeds env bad r)
    (hplan : l ++ known ++ [bad] <+: launchCalls config argv1 0) (hserver : makesServer bad = false)
    (hreport : IsReport report) (hlog : .openLog (errorsLog config) ∈ l) :
    Stops config env argv1 .exitFailure (tr ++ mid) := by
  obtain ⟨good, last, rfl, hgood, hlast⟩ := List.map_eq_append_iff.mp hmid
  obtain ⟨⟨_, r⟩, rest, rfl, rfl, hrest⟩ := List.map_eq_cons_iff.mp hlast
  refine ⟨tr ++ good, ⟨_, r⟩, rest, report, (List.append_assoc ..).symm, ?_, ?_⟩
  · exact (h.append hgood hknown).fails hplan (hbad r) hreport
      (.inl (List.mem_append_left _ hlog))
  · rw [aftermath, if_neg (by simp [hserver])]
    exact hrest

theorem orExit_op {e report : LaunchCall} {ok : LaunchAnswer e → Bool}
    {back : LaunchAnswer report → Unit} :
    orExit (.op e fun r => .ret (ok r)) (.op report fun r => .ret (back r)) =
      .op e fun r => if ok r = true then .ret ()
        else .op report fun _ => .stop .exitFailure := by
  simp only [orExit, Prog.op_bind, Prog.ret_bind]
  refine congrArg (Prog.op e) (funext fun r => ?_)
  cases ok r <;> rfl

/-- A call of the plan that ends the process when it fails. -/
theorem ensures_orExit (h : OnPlan env l tr) {l' : List LaunchCall} (fd : Int)
    {e report : LaunchCall} {ok : LaunchAnswer e → Bool} {back : LaunchAnswer report → Unit}
    (hl : l ++ [e] = l') (hplan : l' <+: launchCalls config argv1 fd)
    (hok : ∀ r, Succeeds env e r ↔ ok r = true) (hserver : makesServer e = false)
    (hreport : IsReport report)
    (hlog : .openLog (errorsLog config) ∈ l ∨ ∃ message, report = .perror message) :
    Prog.Ensures Trusted (fun _ => OnPlan env l') (Stops config env argv1)
      (orExit (.op e fun r => .ret (ok r)) (.op report fun r => .ret (back r))) tr := by
  subst hl
  rw [orExit_op]
  intro r _
  show Prog.Ensures _ _ _ (if ok r = true then _ else _) _
  by_cases hr : ok r = true
  · rw [if_pos hr]
    exact h.snoc ((hok r).mpr hr)
  · rw [if_neg hr]
    intro r' _
    refine ⟨tr, ⟨e, r⟩, [⟨report, r'⟩], report, by simp, ?_, ?_⟩
    · exact h.fails hplan (fun hs => hr ((hok r).mp hs)) hreport
        (hlog.imp_right fun hmessage => ⟨hmessage, hserver⟩)
    · simp [aftermath, hserver]

/-! ## The parts of `main` -/

/-- A log is opened. -/
theorem ensures_createLogsFile (h : OnPlan env l tr) {name message : String}
    (hfits : ¬ pathMax ≤ (config.logDir ++ name.toList).length) {l' : List LaunchCall}
    (hl : l ++ [.openLog (config.logDir ++ name.toList)] = l')
    (hplan : l' <+: launchCalls config argv1 0) :
    Prog.Ensures Trusted (fun _ => OnPlan env l') (Stops config env argv1)
      (createLogsFile name message config.logDir) tr := by
  rw [createLogsFile, if_neg hfits]
  exact ensures_orExit h 0 hl hplan (fun _ => .rfl) rfl (.perror _) (.inr ⟨_, rfl⟩)

/-- The root is checked. -/
theorem ensures_rootGiven (h : OnPlan env (firstCalls config none) tr) (argv1 : Option Str) :
    Prog.Ensures Trusted (fun root tr => root = ((argv1.map withSlash).getD []).take pathMax ∧
        OnPlan env (firstCalls config argv1) tr)
      (Stops config env argv1) (rootGiven env argv1) tr := by
  cases argv1 with
  | none => exact ⟨rfl, h⟩
  | some arg =>
      have hchecked : rootGiven env (some arg) = .doing ((rootCalls env arg).map .shared)
          (if RootPasses env arg then .ret ((withSlash arg).take pathMax)
            else .stop .exitFailure) := by
        rw [rootGiven, ofServer, checkRoot_eq, Prog.hoist_doing, Prog.doing_bind]
        by_cases hpasses : RootPasses env arg
        · simp only [argument, hpasses, if_true]
          rfl
        · simp only [argument, hpasses, if_false]
          rfl
      have hfirst : firstCalls config (some arg) =
          firstCalls config none ++ [.shared (.access arg), .shared (.stat arg)] := by
        simp [firstCalls]
      have hlog : .openLog (errorsLog config) ∈ firstCalls config none := by simp [firstCalls]
      rw [hchecked]
      refine Prog.ensures_doing fun mid hmid => ?_
      by_cases haccess : env.access arg = true
      · have haccessed : ∀ e ∈ [LaunchCall.shared (.access arg)], ∀ r, Succeeds env e r :=
          List.forall_mem_singleton.mpr fun _ => haccess
        by_cases hpasses : RootPasses env arg
        · obtain ⟨-, st, hst, hdir⟩ := hpasses
          have hcalls : Prog.callsOf mid =
              [.shared (.access arg)] ++ [.shared (.stat arg)] := by
            rw [hmid, rootCalls, if_pos haccess, hst]
            exact congrArg _ (if_pos hdir)
          rw [if_pos ⟨haccess, st, hst, hdir⟩, hfirst]
          refine ⟨rfl, h.append hcalls (List.forall_mem_append.mpr ⟨haccessed, ?_⟩)⟩
          exact List.forall_mem_singleton.mpr fun _ => ⟨st, hst, hdir⟩
        · have hstat : ∀ r, ¬ Succeeds env (.shared (.stat arg)) r := fun _ hdir =>
            hpasses ⟨haccess, hdir⟩
          obtain ⟨error, hcalls⟩ : ∃ error, Prog.callsOf mid =
              [.shared (.access arg)] ++ [.shared (.stat arg), .shared (.logError error)] := by
            rw [hmid, rootCalls, if_pos haccess]
            cases hst : env.stat arg with
            | none => exact ⟨_, rfl⟩
            | some st =>
                have hdir : ¬ st.isDir = true := fun hdir => hpasses ⟨haccess, st, hst, hdir⟩
                exact ⟨_, congrArg _ (if_neg hdir)⟩
          rw [if_neg hpasses]
          refine h.fails_known hcalls haccessed hstat ?_ rfl (.writeError _) hlog
          simp [launchCalls, hfirst]
      · have hcalls : Prog.callsOf mid = [] ++ [.shared (.access arg),
            .shared (.logError "no access to the root".toList)] := by
          rw [hmid, rootCalls, if_neg haccess]
          rfl
        rw [if_neg fun hpasses : RootPasses env arg => haccess hpasses.1]
        refine h.fails_known hcalls (List.forall_mem_nil _) (fun _ => haccess) ?_ rfl
          (.writeError _) hlog
        simp [launchCalls, hfirst]

/-- A call of `create_server` fails. -/
theorem OnPlan.unserved (h : OnPlan env l tr) {fd : Int} {e : LaunchCall} {r : LaunchAnswer e}
    (hplan : l ++ [e] <+: launchCalls config argv1 fd) (hbad : ¬ Succeeds env e r)
    (hserver : makesServer e = true) (hlog : .openLog (errorsLog config) ∈ l) {error : Str}
    (r' : LaunchAnswer (.shared (.logError error))) :
    Unserved config env argv1 (tr ++ [⟨e, r⟩] ++ [⟨.shared (.logError error), r'⟩]) :=
  ⟨tr, ⟨e, r⟩, [⟨_, r'⟩], _, by simp, h.fails hplan hbad (.writeError _) (.inl hlog), rfl, hserver⟩

/-- The socket is made, or `-1` is returned. -/
theorem ensures_createServer (h : OnPlan env (firstCalls config argv1) tr) :
    Prog.Ensures Trusted (fun fd tr =>
        (fd ≠ -1 ∧ OnPlan env (firstCalls config argv1 ++ [.socket, .setsockopt fd,
          .bind fd config.listenAddr (htons config.port)]) tr) ∨
        (fd = -1 ∧ Unserved config env argv1 tr))
      (Stops config env argv1) (createServer config.listenAddr config.port) tr := by
  have hlog : .openLog (errorsLog config) ∈ firstCalls config argv1 := by simp [firstCalls]
  intro fd _
  show Prog.Ensures _ _ _ (if fd = -1 then _ else _) _
  by_cases hfd : fd = -1
  · rw [if_pos hfd]
    intro r' _
    have hplan : firstCalls config argv1 ++ [.socket] <+: launchCalls config argv1 fd := by
      simp [launchCalls]
    exact .inr ⟨rfl, h.unserved hplan (not_not_intro hfd) rfl hlog r'⟩
  · rw [if_neg hfd]
    have hsocket := h.snoc (e := .socket) (r := fd) hfd
    intro reused _
    cases reused with
    | false =>
        intro r' _
        have hplan : firstCalls config argv1 ++ [.socket] ++ [.setsockopt fd] <+:
            launchCalls config argv1 fd := by simp [launchCalls]
        exact .inr ⟨rfl, hsocket.unserved hplan Bool.false_ne_true rfl
          (List.mem_append_left _ hlog) r'⟩
    | true =>
        have hset := hsocket.snoc (e := .setsockopt fd) (r := true) rfl
        intro bound _
        cases bound with
        | false =>
            intro r' _
            have hplan : firstCalls config argv1 ++ [.socket] ++ [.setsockopt fd] ++
                [.bind fd config.listenAddr (htons config.port)] <+:
                  launchCalls config argv1 fd := by simp [launchCalls]
            exact .inr ⟨rfl, hset.unserved hplan Bool.false_ne_true rfl
              (List.mem_append_left _ (List.mem_append_left _ hlog)) r'⟩
        | true =>
            have hbound := hset.snoc (e := .bind fd config.listenAddr (htons config.port))
              (r := true) rfl
            exact .inl ⟨hfd, by simpa using hbound⟩

/-- The calls up to the announcement. -/
def announcedCalls (config : Settings) (argv1 : Option Str) (fd : Int) : List LaunchCall :=
  firstCalls config argv1 ++ [.socket, .setsockopt fd, .bind fd config.listenAddr
    (htons config.port), .printf (greeting config)]

/-- `main` listens. -/
theorem ensures_listen {fd : Int}
    (h : OnPlan env (announcedCalls config argv1 fd) tr ∨ (fd = -1 ∧ ∃ tr', tr = tr' ++
      [⟨.printf (greeting config), ()⟩] ∧ Unserved config env argv1 tr')) :
    Prog.Ensures Trusted (fun _ => OnPlan env (announcedCalls config argv1 fd ++ [.listen fd]))
      (Stops config env argv1)
      (orExit (ask (.listen fd)) (writeError "error socket_server")) tr := by
  have hlog : .openLog (errorsLog config) ∈ announcedCalls config argv1 fd := by
    simp [announcedCalls, firstCalls]
  rcases h with h | ⟨rfl, tr', rfl, good, bad, rest, report, rfl, hfails, hrest, hserver⟩
  · refine ensures_orExit h fd rfl ?_ (fun _ => .rfl) rfl (.writeError _) (.inl hlog)
    simp [launchCalls, announcedCalls]
  · intro ok hok
    obtain rfl : ok = false := hok rfl
    intro r' _
    refine ⟨good, bad, rest ++ ([⟨.printf (greeting config), ()⟩] ++ ([⟨.listen (-1), false⟩] ++
      [⟨_, r'⟩])), report, by simp, hfails, ?_⟩
    rw [aftermath, if_pos hserver, Prog.callsOf_append, hrest]
    rfl

/-- The signals are set up. -/
theorem ensures_initSignals {fd : Int}
    (h : OnPlan env (announcedCalls config argv1 fd ++ [.listen fd]) tr) :
    Prog.Ensures Trusted
      (fun _ => OnPlan env (announcedCalls config argv1 fd ++ [.listen fd, .signal, .sigaction]))
      (Stops config env argv1) initSignals tr := by
  have hlog : .openLog (errorsLog config) ∈ announcedCalls config argv1 fd := by
    simp [announcedCalls, firstCalls]
  refine (ensures_orExit h fd (List.append_assoc ..) ?_ (fun _ => .rfl) rfl (.writeError _)
      (.inl (List.mem_append_left _ hlog))).bind fun _ _ hsignal =>
    ensures_orExit hsignal fd (List.append_assoc ..) ?_ (fun _ => .rfl) rfl (.writeError _)
      (.inl (List.mem_append_left _ hlog))
  · simp [launchCalls, announcedCalls]
  · simp [launchCalls, announcedCalls]

/-- The semaphore and the counters are set up. -/
theorem ensures_initStats {fd : Int}
    (h : OnPlan env (announcedCalls config argv1 fd ++ [.listen fd, .signal, .sigaction]) tr) :
    Prog.Ensures Trusted
      (fun memory tr => memory = Pawnee.initStats ∧ OnPlan env (launchCalls config argv1 fd) tr)
      (Stops config env argv1) initStats tr := by
  have hlog : .openLog (errorsLog config) ∈ announcedCalls config argv1 fd := by
    simp [announcedCalls, firstCalls]
  refine (ensures_orExit h fd (List.append_assoc ..) ?_ (fun _ => .rfl) rfl (.writeError _)
      (.inl (List.mem_append_left _ hlog))).bind fun _ _ hsem =>
    (ensures_orExit hsem fd (List.append_assoc ..) ?_ (fun _ => .rfl) rfl (.writeError _)
      (.inl (List.mem_append_left _ hlog))).bind fun _ _ hstats =>
    (ensures_orExit hstats fd (List.append_assoc ..) ?_ (fun _ => .rfl) rfl (.writeError _)
      (.inl (List.mem_append_left _ hlog))).bind fun _ _ hmapped => ⟨rfl, ?_⟩
  · simp [launchCalls, announcedCalls]
  · simp [launchCalls, announcedCalls]
  · simp [launchCalls, announcedCalls]
  · simpa [launchCalls, announcedCalls] using hmapped

/-! ## All of it -/

/-- The whole start. -/
theorem ensures_beforeLoop (config : Settings) (env : Env) (argv1 : Option Str) :
    Prog.Ensures Trusted (fun ready tr =>
        ready.root = ((argv1.map withSlash).getD []).take pathMax ∧
        ready.memory = Pawnee.initStats ∧
        (config.logDir ++ "requests.log".toList).length < pathMax ∧
        OnPlan env (launchCalls config argv1 ready.socketServer) tr)
      (Stops config env argv1) (beforeLoop config env argv1) [] := by
  have hstart : OnPlan env [] [] := ⟨rfl, List.forall_mem_nil _⟩
  by_cases hlong : pathMax ≤ (config.logDir ++ "requests.log".toList).length
  · have hstops : createRequestsLogsFile config.logDir = .stop (.fault .outOfBounds) :=
      if_pos hlong
    rw [beforeLoop, hstops]
    exact ⟨rfl, hlong⟩
  have hshort : ¬ pathMax ≤ (config.logDir ++ "errors.log".toList).length := by
    have hnames : "errors.log".toList.length ≤ "requests.log".toList.length := by decide
    rw [List.length_append] at hlong ⊢
    omega
  refine (ensures_createLogsFile hstart hlong rfl ?_).bind fun _ _ hrequests => ?_
  · simp [launchCalls, firstCalls]
  refine (ensures_createLogsFile hrequests hshort rfl ?_).bind fun _ tr herrors => ?_
  · simp [launchCalls, firstCalls, errorsLog]
  have hopened : OnPlan env (firstCalls config none) tr := herrors
  refine (ensures_rootGiven hopened argv1).bind fun root _ ⟨hroot, hgiven⟩ => ?_
  refine (ensures_createServer hgiven).bind fun fd tr hserver => ?_
  intro announced _
  refine (ensures_listen ?_).bind fun _ _ hlisten => ?_
  · refine hserver.imp (fun ⟨_, h⟩ => ?_) fun ⟨hfd, h⟩ => ⟨hfd, tr, rfl, h⟩
    have hprinted := h.snoc (e := .printf (greeting config)) (r := announced) trivial
    simpa [announcedCalls] using hprinted
  refine (ensures_initSignals hlisten).bind fun _ _ hsignals => ?_
  refine (ensures_initStats hsignals).bind fun memory _ ⟨hmemory, hplan⟩ => ?_
  exact ⟨hroot, hmemory, Nat.not_le.mp hlong, hplan⟩

/-! ## What comes of it -/

theorem not_mem_launchCalls {fd : Int} (error : Str) :
    .shared (.logError error) ∉ launchCalls config argv1 fd := by
  simp [launchCalls, firstCalls]

/-- What stands before an entry of a list that is not in its front. -/
theorem front_sublist {α : Type} {front rest pre post : List α} {x : α} (hx : x ∉ front)
    (h : front ++ rest = pre ++ x :: post) : x ∈ rest ∧ front <+: pre := by
  rcases List.append_eq_append_iff.mp h with ⟨mid, rfl, rfl⟩ | ⟨mid, rfl, hmid⟩
  · exact ⟨by simp, List.prefix_append _ _⟩
  · cases mid with
    | nil =>
        obtain rfl : x :: post = rest := hmid
        exact ⟨List.mem_cons_self, by simp⟩
    | cons y mid =>
        cases hmid
        exact absurd (by simp) hx

/-- A run that fails has opened the errors log before it writes there. -/
theorem FailsAt.opened {good pre rest post : List LaunchEvent} {bad : LaunchEvent}
    {report : LaunchCall} (h : FailsAt config env argv1 good bad report)
    (hrest : Prog.callsOf rest = report :: aftermath config bad.1) {error : Str}
    {r : LaunchAnswer (.shared (.logError error))}
    (htr : good ++ bad :: rest = pre ++ ⟨.shared (.logError error), r⟩ :: post) :
    ⟨.openLog (errorsLog config), true⟩ ∈ pre := by
  obtain ⟨fd, hplan⟩ := h.planned
  have hplanned : (⟨.shared (.logError error), r⟩ : LaunchEvent) ∉ good ++ [bad] := fun hmem =>
    not_mem_launchCalls error (hplan.subset
      (Prog.callsOf_append good [bad] ▸ List.mem_map_of_mem hmem))
  obtain ⟨hmem, hfront⟩ := front_sublist hplanned
    (show good ++ [bad] ++ rest = _ by rw [List.append_assoc]; exact htr)
  rcases h.logged with hopen | ⟨⟨message, rfl⟩, hserver⟩
  · obtain ⟨⟨e, ok⟩, hgood, rfl⟩ := List.mem_map.mp hopen
    obtain rfl : ok = true := h.succeeded _ hgood
    exact hfront.subset (List.mem_append_left _ hgood)
  · have hcalled : .shared (.logError error) ∈ Prog.callsOf rest := List.mem_map_of_mem hmem
    rw [hrest, aftermath, if_neg (by simp [hserver])] at hcalled
    simp at hcalled

theorem Stops.opened {halt : Halt} (h : Stops config env argv1 halt tr)
    {pre post : List LaunchEvent} {error : Str} {r : LaunchAnswer (.shared (.logError error))}
    (htr : tr = pre ++ ⟨.shared (.logError error), r⟩ :: post) :
    ⟨.openLog (errorsLog config), true⟩ ∈ pre := by
  match halt, h with
  | .exitFailure, ⟨_, _, _, _, hgood, hfails, hrest⟩ => exact hfails.opened hrest (hgood ▸ htr)
  | .fault .outOfBounds, ⟨hnil, _⟩ => simp [hnil] at htr

/-- A start that stops has a call that has failed, or a path that does not fit. -/
theorem Stops.failed {halt : Halt} (h : Stops config env argv1 halt tr)
    (hfits : (config.logDir ++ "requests.log".toList).length < pathMax)
    (hsucceeded : ∀ ev ∈ tr, Succeeds env ev.1 ev.2) : False := by
  match halt, h with
  | .exitFailure, ⟨_, bad, _, _, hgood, hfails, _⟩ =>
      exact hfails.failed (hsucceeded bad (by simp [hgood]))
  | .fault .outOfBounds, ⟨_, hlong⟩ => omega

/-- The announced port is bound if it is a port. -/
theorem htons_eq_iff {port : Int} :
    ((htons port).toNat : Int) = port ↔ 0 ≤ port ∧ port < 65536 := by
  have hmod : ((htons port).toNat : Int) = port % 65536 := by
    rw [htons, UInt16.ofInt, UInt16.toNat_ofNat']
    omega
  rw [hmod]
  omega

/-- What a call puts into a stream. -/
def callText (time : Tm) : Channel → LaunchCall → Str
  | .stdout, .printf text => text
  | ch, .shared e => e.text time ch
  | _, _ => []

/-- What the start puts into a stream. -/
def printed (time : Tm) (ch : Channel) (tr : List LaunchEvent) : Str :=
  (Prog.callsOf tr).flatMap (callText time ch)

/-- A start in which nothing fails has put nothing but the announcement into a stream. -/
theorem printed_launchCalls {boot : Boot} (hboot : boot.greeting = greeting config) {fd : Int}
    (htr : Prog.callsOf tr = launchCalls config argv1 fd) (ch : Channel) :
    printed boot.time ch tr = boot.initial ch := by
  rw [printed, htr]
  cases ch <;> cases argv1 <;>
    simp [launchCalls, firstCalls, callText, Call.text, Boot.initial, hboot]

end

end Launch

open Launch in
/-- Once `init_config` has returned, `main` gets to its loop if and only if every call
succeeds and the paths of the logs fit.  Then it has made all its calls in order, and the
host starts with the memory and the output buffers that are there.  The port it has
announced is bound if it is one.

Otherwise it stops as `Launch.Stops` says: it reports the call that has failed and exits,
and nothing is written to the errors log before that is open. -/
theorem launches {config : Settings} {env : Env} {argv1 : Option Str} {tr : List LaunchEvent}
    {out : Except Halt Ready} (h : Prog.Runs (beforeLoop config env argv1) tr out)
    (htrusted : ∀ ev ∈ tr, Trusted ev.1 ev.2) :
    ((∃ ready, out = .ok ready) ↔ (config.logDir ++ "requests.log".toList).length < pathMax ∧
        ∀ ev ∈ tr, Succeeds env ev.1 ev.2) ∧
      (∀ ready, out = .ok ready →
        Prog.callsOf tr = launchCalls config argv1 ready.socketServer ∧
        ready.root = ((argv1.map withSlash).getD []).take pathMax ∧
        (∀ boot : Boot, boot.greeting = greeting config → Host.start boot =
          ⟨⟨ready.memory, [], serveOne, []⟩,
            .start .parent fun ch => printed boot.time ch tr, .start⟩) ∧
        (((htons config.port).toNat : Int) = config.port ↔
          0 ≤ config.port ∧ config.port < 65536)) ∧
      (∀ halt, out = .error halt → Stops config env argv1 halt tr) ∧
      ∀ pre post error r, tr = pre ++ ⟨.shared (.logError error), r⟩ :: post →
        ⟨.openLog (errorsLog config), true⟩ ∈ pre := by
  have hensures := ensures_beforeLoop config env argv1
  cases out with
  | ok ready =>
      obtain ⟨hroot, hmemory, hfits, hcalls, hsucceeded⟩ := hensures.returned h htrusted
      refine ⟨⟨fun _ => ⟨hfits, hsucceeded⟩, fun _ => ⟨_, rfl⟩⟩, ?_, nofun, ?_⟩
      · intro _ hready
        cases hready
        refine ⟨hcalls, hroot, fun boot hboot => ?_, htons_eq_iff⟩
        rw [hmemory, funext (printed_launchCalls hboot hcalls)]
        rfl
      · rintro pre post error r rfl
        have hmem : .shared (.logError error) ∈ launchCalls config argv1 ready.socketServer := by
          rw [← hcalls]
          simp
        exact (not_mem_launchCalls error hmem).elim
  | error halt =>
      have hstops := hensures.stopped h htrusted
      refine ⟨⟨nofun, fun ⟨hfits, hsucceeded⟩ => ?_⟩, nofun, fun _ hhalt => ?_, ?_⟩
      · exact (hstops.failed hfits hsucceeded).elim
      · cases hhalt
        exact hstops
      · rintro pre post error r rfl
        exact hstops.opened rfl

/-! ## A start in which nothing fails -/

namespace Launch

/-- Every call succeeds. -/
def okAnswer : (e : LaunchCall) → LaunchAnswer e
  | .shared e => kindAnswer e
  | .perror _ | .printf _ => ()
  | .socket => (3 : Int)
  | .openLog _ | .setsockopt _ | .bind _ _ _ | .listen _ | .signal | .sigaction | .semInit _
  | .mmap => true

/-- The run with the default settings and a root. -/
def defaultStart : List LaunchEvent :=
  (Prog.play okAnswer (beforeLoop .default pageConnection.env (some "/w/".toList))).1

theorem defaultStart_runs :
    Prog.Runs (beforeLoop .default pageConnection.env (some "/w/".toList)) defaultStart
      (.ok ⟨"/w/".toList, 3, Pawnee.initStats⟩) :=
  Prog.play_runs okAnswer (beforeLoop .default pageConnection.env (some "/w/".toList))

end Launch

open Launch in
theorem launches_default :
    Prog.callsOf defaultStart = launchCalls .default (some "/w/".toList) 3 ∧
      ((htons 8080).toNat : Int) = 8080 := by
  obtain ⟨hcalls, -, -, hport⟩ :=
    (launches defaultStart_runs (by decide +kernel)).2.1 _ rfl
  exact ⟨hcalls, hport.mpr (by decide)⟩

end Pawnee
