import Pawnee.Child.Answers
import Pawnee.Server.Counters

/-!
# Accounts of the responses

A response should be logged, counted for its code and counted as a request.
`Accounts` says so of a state: of each child that has ended, and of the sums
when all of them have.  Of a child that has run into undefined behaviour nothing
can be said, so accounts do not agree then.

Nothing ever increments `served_requests`, so accounts agree only while nothing
is sent.  `Silent` names the connections whose child exits without having sent
or counted a response, and `accounts_iff_silent` says that these are the only
ones a server with agreeing accounts has served.
-/

namespace Pawnee

open CText Effects LockedCounters

/-! ## Accounts -/

/-- The counter of a response code. -/
def counterOf : Int → Option Counter
  | 200 => some .ok200
  | 400 => some .ko400
  | 403 => some .ko403
  | 404 => some .ko404
  | 405 => some .ko405
  | _ => none

/-- The counters of the responses. -/
def responseCounters : List Counter := [.ok200, .ko400, .ko403, .ko404, .ko405]

/-- The response counters a child has incremented. -/
def Child.responseStores (c : Child) : List Counter :=
  (observed storedCounter c.done).filter (· ∈ responseCounters)

/-- A response with this code is logged once, counted once, and counted as a
request. -/
structure Child.AccountsFor (c : Child) (code : Int) : Prop where
  logged : observed loggedCode c.done = [code]
  counted : ∃ k, counterOf code = some k ∧ c.responseStores = [k]
  request : increments .servedRequests c.done = 1

/-- The responses all children have sent. -/
def Sys.responses (s : Sys) : Nat := (observed sentCode (s.children.flatMap Child.done)).length

/-- No child is at work and no process holds the lock. -/
structure Sys.Quiescent (s : Sys) : Prop where
  ended : ∀ c ∈ s.children, c.Ended
  free : s.memory.sem = 1

/-- The accounts agree with what has been sent. -/
structure Sys.Accounts (s : Sys) : Prop where
  defined : ∀ c ∈ s.children, ∀ f, c.prog ≠ .stop (.fault f)
  child : ∀ c ∈ s.children, c.Ended → ∀ code ∈ observed sentCode c.done, c.AccountsFor code
  requests : s.Quiescent → s.read .servedRequests = s.responses
  counters : s.Quiescent →
    s.read .ok200 + s.read .ko400 + s.read .ko403 + s.read .ko404 + s.read .ko405 = s.responses

/-! ## Silent connections -/

/-- The child of the request exits without a response. -/
inductive Request.Silent (env : Env) (q : Request) : Prop
  /-- The target cannot be rewritten. -/
  | target : (q.method = .unsupported ∨ ¬ 1 < q.major) → rewritten q.target = none → Silent env q
  /-- The root of the site does not pass. -/
  | badRoot {r : Str} {keys : SiteKeys} {vhost : VhostConfig} : q.Asks r →
      selectedSite env q.headers = some keys → keys.vhost = some vhost →
      ¬ RootPasses env vhost.root.text → Silent env q

/-- The child of the connection exits without a response. -/
inductive Connection.Silent (conn : Connection) : Prop
  /-- `fdopen` fails. -/
  | noStream : conn.flux = none → Silent conn
  /-- There is no request line. -/
  | noLine {stream : Str} : conn.flux = some stream → readRequest stream = none → Silent conn
  | parsed {stream requestLine headersBlock unread : Str} {q : Request} :
      conn.flux = some stream → readRequest stream = some (requestLine, headersBlock, unread) →
      parseRequest requestLine headersBlock = some q → q.Silent conn.env → Silent conn

/-- The course neither sends nor counts a response, and comes to an exit. -/
structure Course.Quiet (env : Env) (c : Course) : Prop where
  sent : (c.ending.lead env).filterMap sentCode = []
  counter : c.counter = none
  defined : ∀ f, c.ending.halt ≠ .fault f

theorem Request.silent_iff {env : Env} {q : Request} : q.Silent env ↔ (q.course env).Quiet env := by
  constructor
  · intro h
    cases h with
    | target hlow hr => rw [(Branch.target hlow hr).course_eq]; exact ⟨rfl, rfl, nofun⟩
    | badRoot hasks hsite hvhost hpass =>
        rw [(Branch.badRoot hasks hsite hvhost hpass).course_eq]
        exact ⟨rfl, rfl, nofun⟩
  · have hbranch := q.branch env
    generalize q.course env = c at hbranch
    rintro ⟨hsent, hcounter, hdefined⟩
    cases hbranch with
    | version hm hv =>
        -- a 505 is sent, or its message is NULL
        rw [sent_messageEnding] at hsent
        split at hsent
        · next hhead =>
          rw [messageEnding_halt, if_pos hhead] at hdefined
          exact absurd rfl (hdefined .nullPointer)
        · cases hsent
    | target hlow hr => exact .target hlow hr
    | brokenSite hasks hsite hvhost => exact absurd rfl (hdefined .nullPointer)
    | badRoot hasks hsite hvhost hpass => exact .badRoot hasks hsite hvhost hpass
    | method hm hr => cases hcounter
    | stats hm hv hr => cases hcounter
    | noSite hasks hsite => cases hcounter
    | missing hfinds hfile => cases hcounter
    | file hfinds hfile => cases hcounter

theorem Connection.silent_iff {conn : Connection} :
    conn.Silent ↔ (course conn.env conn.flux).Quiet conn.env := by
  obtain ⟨env, flux⟩ := conn
  have hcourse := course_from env flux
  generalize course env flux = c at hcourse
  cases hcourse with
  | noStream => exact iff_of_true (.noStream rfl) ⟨rfl, rfl, nofun⟩
  | noLine hread => exact iff_of_true (.noLine rfl hread) ⟨rfl, rfl, nofun⟩
  | rejected hread hq =>
      refine iff_of_false ?_ fun h => h.defined .unsetField rfl
      rintro (hflux | ⟨⟨⟩, hnone⟩ | ⟨⟨⟩, hline, hparse, -⟩)
      · cases hflux
      · cases hread.symm.trans hnone
      · cases hread.symm.trans hline
        cases hq.symm.trans hparse
  | parsed hread hq =>
      rw [← Request.silent_iff]
      refine ⟨?_, fun h => .parsed rfl hread hq h⟩
      rintro (hflux | ⟨⟨⟩, hnone⟩ | ⟨⟨⟩, hline, hparse, h⟩)
      · cases hflux
      · cases hread.symm.trans hnone
      · cases hread.symm.trans hline
        cases hq.symm.trans hparse
        exact h

/-! ## What a child has done -/

/-- The child of a silent connection sends and counts nothing at any point, and comes to
no fault. -/
theorem Child.Sound.of_silent {c : Child} (h : c.Sound) (hc : c.conn.Silent) :
    observed sentCode c.done = [] ∧ observed storedCounter c.done = [] ∧
      ∀ f, c.prog ≠ .stop (.fault f) := by
  obtain ⟨hsent, hcounter, hdefined⟩ := Connection.silent_iff.mp hc
  refine ⟨?_, ?_, fun f hstop => ?_⟩
  · obtain ⟨tr, out, hruns⟩ := Prog.Steps.complete h
    have hall := seesWrites_sentCode.observed_respondClient (fun _ => rfl) hruns
    rw [hsent, observed, Prog.callsOf_append, List.filterMap_append] at hall
    exact (List.append_eq_nil_iff.mp hall).1
  · have hprefix := h.history.2
    rw [hcounter] at hprefix
    exact List.prefix_nil.mp hprefix
  · have hends := h.prog_eq ⟨_, hstop⟩
    rw [hstop] at hends
    injection hends with hhalt
    exact hdefined f hhalt.symm

/-- A child that has come to an exit and has sent and counted nothing served a silent
connection. -/
theorem Child.Sound.silent {c : Child} (h : c.Sound) (hended : c.Ended)
    (hdefined : ∀ f, c.prog ≠ .stop (.fault f))
    (hsent : observed sentCode c.done = []) (hstored : observed storedCounter c.done = []) :
    c.conn.Silent := by
  obtain ⟨halt, hruns⟩ := h.runs hended
  refine Connection.silent_iff.mpr ⟨?_, ?_, fun f hhalt => ?_⟩
  · rw [← seesWrites_sentCode.observed_respondClient (fun _ => rfl) hruns, hsent]
  · rw [respondClient_eq] at hruns
    have hcounter := ((course_private _ _).history hruns).2
    rw [hstored] at hcounter
    exact Option.toList_eq_nil_iff.mp hcounter.symm
  · exact hdefined f (hhalt ▸ h.prog_eq hended)

/-- Nothing increments the requests. -/
theorem Child.Sound.no_requests {c : Child} (h : c.Sound) :
    increments .servedRequests c.done = 0 := by
  rcases h.stored with hnil | ⟨k, hk, hone⟩
  · rw [increments, hnil]
    rfl
  · have hne : ∀ k ∈ branchCounters, [k].count .servedRequests = 0 := by decide
    rw [increments, hone, hne k hk]

/-! ## When the accounts agree -/

theorem responses_eq_zero {s : Sys} (h : ∀ c ∈ s.children, observed sentCode c.done = []) :
    s.responses = 0 := by
  have hnil : ∀ l : List Child, (∀ c ∈ l, observed sentCode c.done = []) →
      observed sentCode (l.flatMap Child.done) = [] := by
    intro l hl
    induction l with
    | nil => rfl
    | cons c l ih =>
        rw [List.flatMap_cons, observed_append, hl c List.mem_cons_self,
          ih fun x hx => hl x (List.mem_cons_of_mem _ hx), List.append_nil]
  rw [Sys.responses, hnil s.children h, List.length_nil]

/-- While only silent connections are served, nothing is sent and all counters
of children stay zero. -/
theorem Reachable.accounts_of_silent {s : Sys} (hs : Reachable s)
    (hsilent : ∀ c ∈ s.children, c.conn.Silent) : s.Accounts := by
  have hsent : ∀ c ∈ s.children, observed sentCode c.done = [] := fun c hc =>
    ((hs.sound.child c hc).of_silent (hsilent c hc)).1
  have hread : ∀ k, k ≠ .servedConnections → s.read k = 0 := by
    intro k hk
    have htotal : s.total k = 0 := by
      rw [hs.sound.total_responses hk]
      refine List.countP_eq_zero.mpr fun c hc => ?_
      simp [Child.counted, ((hs.sound.child c hc).of_silent (hsilent c hc)).2.1]
    rw [hs.read_eq (by omega), htotal]
    rfl
  have hresponses : s.responses = 0 := responses_eq_zero hsent
  refine ⟨fun c hc => ((hs.sound.child c hc).of_silent (hsilent c hc)).2.2,
    fun c hc _ code hcode => ?_, fun _ => ?_, fun _ => ?_⟩
  · rw [hsent c hc] at hcode
    cases hcode
  · rw [hread _ (by decide), hresponses]
    rfl
  · rw [hread .ok200 (by decide), hread .ko400 (by decide), hread .ko403 (by decide),
      hread .ko404 (by decide), hread .ko405 (by decide), hresponses]
    rfl

/-- A child that has counted a response keeps the counters from being zero. -/
theorem Reachable.counters_pos {s : Sys} (hs : Reachable s)
    (hlt : (accepted s.done).length < 2147483648) {c : Child} (hc : c ∈ s.children)
    (hstored : observed storedCounter c.done ≠ []) :
    0 < s.read .ok200 + s.read .ko400 + s.read .ko403 + s.read .ko404 + s.read .ko405 := by
  have hread : ∀ k, s.read k = s.total k := fun k => hs.read_eq (hs.total_lt hlt k)
  obtain ⟨k, hk, hone⟩ := (hs.sound.child c hc).stored.resolve_left hstored
  have hpos : 0 < s.total k := by
    have hne : ∀ k ∈ branchCounters, k ≠ .servedConnections := by decide
    rw [hs.sound.total_responses (hne k hk)]
    exact List.countP_pos_iff.mpr ⟨c, hc, by simp [Child.counted, hone]⟩
  simp only [hread]
  simp only [branchCounters, List.mem_cons, List.not_mem_nil, or_false] at hk
  rcases hk with rfl | rfl | rfl | rfl <;> omega

/-- In every run that serves only silent connections the accounts agree, and in
a quiescent state they agree for no other. -/
theorem accounts_iff_silent {s : Sys} (hs : Reachable s) :
    ((∀ c ∈ s.children, c.conn.Silent) → s.Accounts) ∧
      (s.Quiescent → (accepted s.done).length < 2147483648 → s.Accounts →
        ∀ c ∈ s.children, c.conn.Silent) := by
  refine ⟨hs.accounts_of_silent, fun hquiet hlt haccounts c hc => ?_⟩
  have hsound := hs.sound.child c hc
  have hsent : ∀ c ∈ s.children, observed sentCode c.done = [] := by
    intro c hc
    refine List.eq_nil_iff_forall_not_mem.mpr fun code hcode => ?_
    have hone := (haccounts.child c hc (hquiet.ended c hc) code hcode).request
    rw [(hs.sound.child c hc).no_requests] at hone
    cases hone
  refine hsound.silent (hquiet.ended c hc) (haccounts.defined c hc) (hsent c hc) ?_
  by_contra hstored
  have hpos := hs.counters_pos hlt hc hstored
  have hresponses : s.responses = 0 := responses_eq_zero hsent
  rw [haccounts.counters hquiet, hresponses] at hpos
  exact absurd hpos (by decide)

/-- A connection without a request. -/
theorem accounts_iff_silent_none :
    ((∀ c ∈ (Sys.served ⟨machine siteFile [], none⟩).children, c.conn.Silent) →
        (Sys.served ⟨machine siteFile [], none⟩).Accounts) ∧
      ((Sys.served ⟨machine siteFile [], none⟩).Quiescent →
        (accepted (Sys.served ⟨machine siteFile [], none⟩).done).length < 2147483648 →
          (Sys.served ⟨machine siteFile [], none⟩).Accounts →
            ∀ c ∈ (Sys.served ⟨machine siteFile [], none⟩).children, c.conn.Silent) :=
  accounts_iff_silent (reachable_served (by decide +kernel))

/-- One page: the response is sent, and no request is counted. -/
theorem not_accounts_page : ¬ ∀ s, Reachable s → s.Accounts := by
  intro hall
  have hchild := (hall _ reachable_served_page).child _ List.mem_cons_self ⟨.exitSuccess, rfl⟩ 200
    (by decide +kernel)
  exact absurd hchild.request (by decide +kernel)

end Pawnee
