import Pawnee.Child.Answers
import Pawnee.Child.Head
import Pawnee.Child.Pipeline
import Pawnee.Child.StatsPage
import Pawnee.Server.Histories

/-!
# Connections that are kept

`send_response` announces `Connection: keep-alive` to every client of HTTP/1.1,
and `respond_client` closes the connection behind its first response.  A client
may have sent more requests by then, and nobody answers them
(`second_page_unanswered`).  `honours_iff_first` says which connections are
honoured.
-/

namespace Pawnee

open CText Effects Framing

/-! ## Header sections -/

/-- The header section says that the connection is kept. -/
def KeepsAlive (head : Str) : Prop := "Connection: keep-alive".toList ∈ splitLines head

instance (head : Str) : Decidable (KeepsAlive head) := inferInstanceAs (Decidable (_ ∈ _))

/-- The responses of `send_response` to HTTP/1.1 do. -/
theorem keepsAlive_leading {env : Env} (hd : DatesOk env) {q : Request}
    (hversion : q.major = 1 ∧ q.minor = 1) (s : Str) : KeepsAlive (leadingLines env q ++ s) := by
  have hlines : ∀ l ∈ (leadingFields env q).map fieldLine, '\r' ∉ l := by
    intro l hl
    obtain ⟨f, hf, rfl⟩ := List.mem_map.mp hl
    exact (leadingFields_ok hd q f hf).noBreak.1
  rw [KeepsAlive, leadingLines_eq, splitLines_joinLines hlines]
  refine List.mem_append_left _ ?_
  simp [leadingFields, hversion, fieldLine]

/-- The stats page does not say so. -/
theorem not_keepsAlive_stats {env : Env} (hd : DatesOk env) : ¬ KeepsAlive (statsHeader env) := by
  have hlines : ∀ l ∈ (statsFields env).map fieldLine, '\r' ∉ l := by
    intro l hl
    obtain ⟨f, hf, rfl⟩ := List.mem_map.mp hl
    exact (statsFields_ok hd f hf).noBreak.1
  rw [KeepsAlive, statsHeader_eq, splitLines_joinLines hlines]
  simp [statsFields, fieldLine, crlf, splitLines]

/-! ## The header sections of a request -/

/-- The header sections of an ending. -/
def Ending.sections (env : Env) (e : Ending) : List Str := (e.lead env).filterMap headerSection

/-- The ending sends one status line and ends with success. -/
structure Ending.Replies (env : Env) (e : Ending) : Prop where
  halt : e.halt = .exitSuccess
  status : ((e.lead env).filterMap sentCode).length = 1

/-- A reply has one header section, any other ending has none. -/
def Ending.Whole (env : Env) (e : Ending) : Prop :=
  (e.Replies env ∧ ∃ head, e.sections env = [head]) ∨ (¬ e.Replies env ∧ e.sections env = [])

theorem whole_messageEnding (env : Env) (q : Request) (code : Int)
    (reasonPhrase errorMessage : String) :
    (q.messageEnding env code reasonPhrase errorMessage).Whole env := by
  have hhalt := messageEnding_halt env q code reasonPhrase errorMessage
  have hsent := sent_messageEnding env q code reasonPhrase errorMessage
  unfold Ending.Whole Ending.sections
  rw [messageEnding_lead]
  split at hhalt
  · next hm =>
    rw [if_pos hm]
    refine .inr ⟨fun h => ?_, rfl⟩
    rw [h.halt] at hhalt
    cases hhalt
  · next hm =>
    rw [if_neg hm] at hsent ⊢
    exact .inl ⟨⟨hhalt, by rw [hsent]; rfl⟩, _, rfl⟩

theorem whole_fileEnding (env : Env) (q : Request) (r path : Str) (file : OpenFile) :
    (q.fileEnding env r path file).Whole env := by
  have hsent := sent_fileEnding env q r path file
  have hok : headerSection q.okStatus = none := rfl
  have hmime := filterMap_mimeCalls seesWrites_headerSection.ignoresLookups env
  have hreopen := filterMap_reopenCalls seesWrites_headerSection.ignoresLookups env q path
  unfold Request.fileEnding at hsent ⊢
  split
  · refine .inr ⟨fun h => ?_, ?_⟩
    · cases h.halt
    · rw [Ending.sections, Ending.lead, List.filterMap_cons_none hok, hmime]
  · next mime hm =>
    simp only [hm] at hsent
    split
    · next hfits =>
      rw [if_pos hfits] at hsent
      refine .inl ⟨⟨rfl, by rw [hsent]; rfl⟩, fileHead env q file (getFileSize file) mime, ?_⟩
      rw [Ending.sections, Ending.lead, List.cons_append, List.filterMap_cons_none hok,
        List.filterMap_append, hreopen, filterMap_fileCalls fun _ => rfl]
      rfl
    · refine .inr ⟨fun h => ?_, ?_⟩
      · cases h.halt
      · rw [Ending.sections, Ending.lead, List.filterMap_cons_none hok, hreopen]

theorem Course.dies_whole (env : Env) (l : List Call) (halt : Halt) (h : halt ≠ .exitSuccess) :
    (Course.dies l halt).ending.Whole env := .inr ⟨fun hreply => h hreply.halt, rfl⟩

theorem Request.whole (env : Env) (q : Request) : (q.course env).ending.Whole env := by
  have hbranch := q.branch env
  generalize q.course env = c at hbranch
  cases hbranch with
  | version | method | noSite | missing => exact whole_messageEnding _ _ _ _ _
  | target | brokenSite | badRoot => exact Course.dies_whole _ _ _ (by decide)
  | stats hm hv hr => exact .inl ⟨⟨rfl, rfl⟩, _, rfl⟩
  | file hfinds hfile => exact whole_fileEnding _ _ _ _ _

/-- Requests that are replied to are those that are served. -/
theorem replies_iff_served {env : Env} {q : Request}
    (hroots : ∀ r, q.Asks r → RootsPass env q.headers) :
    (q.course env).ending.Replies env ↔ q.Served env :=
  ⟨fun h => (served_iff hroots).mp ⟨h.halt, h.status⟩, fun h =>
    have hserved := (served_iff hroots).mpr h
    ⟨hserved.1, hserved.2⟩⟩

/-- The request is one for the stats page. -/
structure Request.AsksStats (q : Request) : Prop where
  method : q.method ≠ .unsupported
  major : ¬ 1 < q.major
  target : rewritten q.target = some statsTarget

/-- Only the stats page closes a connection of HTTP/1.1. -/
theorem Request.keepsAlive {env : Env} (hd : DatesOk env) {q : Request}
    (hversion : q.major = 1 ∧ q.minor = 1) (hstats : ¬ q.AsksStats) :
    ∀ head ∈ (q.course env).ending.sections env, KeepsAlive head := by
  have hmessage : ∀ (code : Int) (reasonPhrase errorMessage : String),
      ∀ head ∈ (q.messageEnding env code reasonPhrase errorMessage).sections env,
        KeepsAlive head := by
    intro code reasonPhrase errorMessage head hhead
    rw [Ending.sections, messageEnding_lead] at hhead
    split at hhead
    · cases hhead
    · obtain rfl := List.mem_singleton.mp hhead
      rw [messageHead, messageLines, List.append_assoc]
      exact keepsAlive_leading hd hversion _
  have hbranch := q.branch env
  generalize q.course env = c at hbranch
  cases hbranch with
  | version hm hv =>
      rw [hversion.1] at hv
      exact absurd hv (by decide)
  | method | noSite | missing => exact hmessage _ _ _
  | target | brokenSite | badRoot => simp [Ending.sections, Course.dies, Ending.lead]
  | stats hm hv hr => exact absurd ⟨hm, hv, hr⟩ hstats
  | @file r vhost file hfinds hfile =>
      intro head hhead
      obtain ⟨e, he, hsection⟩ := List.mem_filterMap.mp hhead
      rcases mem_fileEnding he with rfl | hlookup | ⟨mime, rfl⟩ | ⟨data, rfl⟩
      · cases hsection
      · rw [seesWrites_headerSection.ignoresLookups e hlookup] at hsection
        cases hsection
      · cases hsection
        have hlen := leadingLines_length_le env q
        have hfits : (leadingLines env q).length ≤ headerSize - 1 := hlen.trans (by decide)
        simp only [fileHead, fileLines, List.append_assoc]
        rw [List.take_append, List.take_of_length_le hfits]
        exact keepsAlive_leading hd hversion _
      · cases hsection

/-! ## What a child shows of its requests -/

/-- The header sections a child has sent. -/
def Child.sections (c : Child) : List Str := observed headerSection c.done

theorem Child.Sound.head_part {c : Child} (h : c.Sound) :
    observed headPiece c.done <+: (course c.conn.env c.conn.flux).head c.conn.env := by
  obtain ⟨tr, out, hruns⟩ := Prog.Steps.complete h
  rw [respondClient_eq] at hruns
  rw [← observed_head hruns, observed_append]
  exact List.prefix_append _ _

/-- A child that has ended has sent the header sections of its course. -/
theorem Child.Sound.sections_eq {c : Child} (h : c.Sound) (hended : c.Ended) :
    c.sections = (course c.conn.env c.conn.flux).ending.sections c.conn.env := by
  obtain ⟨halt, hruns⟩ := h.runs hended
  exact seesWrites_headerSection.observed_respondClient (fun _ => rfl) hruns

/-! ## Connections that are honoured -/

/-- The child honours the connection of these requests.  Its responses come in the
order of the requests.  When it has ended and each of its responses has kept the
connection, there is a response to every request. -/
structure Child.Honours (c : Child) (requests : List SentRequest) : Prop where
  order : observed headPiece c.done <+:
    requests.flatMap fun r => (r.alone c.conn.env).head c.conn.env
  kept : c.Ended → (∀ head ∈ c.sections, KeepsAlive head) → requests.length ≤ c.sections.length

/-- The first request is one for the stats page, or it is the only one and is
served. -/
def FirstSuffices (env : Env) (r : SentRequest) (rest : List SentRequest) : Prop :=
  ∃ q, r.parsed = some q ∧ (q.AsksStats ∨
    (rest = [] ∧ q.Served env ∧ ∀ target, q.Asks target → RootsPass env q.headers))

section

variable {c : Child} {r : SentRequest} {rest : List SentRequest}

/-- The child does what it does for the first request alone. -/
theorem course_requests (hflux : c.conn.flux = some ((r :: rest).flatMap SentRequest.text)) :
    course c.conn.env c.conn.flux = r.alone c.conn.env := by
  rw [hflux, List.flatMap_cons]
  exact r.course_text c.conn.env _

theorem Child.Sound.order (h : c.Sound)
    (hflux : c.conn.flux = some ((r :: rest).flatMap SentRequest.text)) :
    observed headPiece c.done <+:
      (r :: rest).flatMap fun r => (r.alone c.conn.env).head c.conn.env := by
  have hpart := h.head_part
  rw [course_requests hflux] at hpart
  rw [List.flatMap_cons]
  exact hpart.trans (List.prefix_append _ _)

/-- If the first request suffices, a child that has ended and kept the connection
has replied to all requests. -/
theorem Child.Sound.kept (h : c.Sound)
    (hflux : c.conn.flux = some ((r :: rest).flatMap SentRequest.text))
    (hdates : DatesOk c.conn.env) (hfirst : FirstSuffices c.conn.env r rest) (hended : c.Ended)
    (hkept : ∀ head ∈ c.sections, KeepsAlive head) : (r :: rest).length ≤ c.sections.length := by
  obtain ⟨q, hq, hfirst⟩ := hfirst
  rw [h.sections_eq hended, course_requests hflux, SentRequest.alone_of_parsed hq] at hkept ⊢
  rcases hfirst with hstats | ⟨rfl, hserved, hroots⟩
  · rw [(Request.Branch.stats hstats.method hstats.major hstats.target).course_eq] at hkept
    exact absurd (hkept (statsHeader c.conn.env) List.mem_cons_self) (not_keepsAlive_stats hdates)
  · rcases q.whole c.conn.env with ⟨-, head, hsections⟩ | ⟨hno, -⟩
    · rw [hsections]
      exact le_rfl
    · exact absurd ((replies_iff_served hroots).mpr hserved) hno

/-- A child that has replied to all requests of a kept connection has served the
only one, or closed the connection with the stats page. -/
theorem Child.Sound.firstSuffices (h : c.Sound)
    (hflux : c.conn.flux = some ((r :: rest).flatMap SentRequest.text))
    (hdates : DatesOk c.conn.env) (hended : c.Ended)
    (hkept : (∀ head ∈ c.sections, KeepsAlive head) → (r :: rest).length ≤ c.sections.length) :
    FirstSuffices c.conn.env r rest := by
  rw [h.sections_eq hended, course_requests hflux] at hkept
  cases hq : r.parsed with
  | none =>
      rw [SentRequest.alone_of_rejected hq] at hkept
      exact absurd (hkept (by simp [Ending.sections, Course.dies, Ending.lead])) (by
        simp [Ending.sections, Course.dies, Ending.lead])
  | some q =>
      refine ⟨q, hq, ?_⟩
      by_cases hstats : q.AsksStats
      · exact .inl hstats
      · right
        rw [SentRequest.alone_of_parsed hq] at hkept
        have hle := hkept (q.keepsAlive hdates (SentRequest.parsed_version hq) hstats)
        rcases q.whole c.conn.env with ⟨hreplies, head, hsections⟩ | ⟨-, hnone⟩
        · have hroots : ∀ target, q.Asks target → RootsPass c.conn.env q.headers := by
            intro target hasks keys vhost hsite hvhost
            by_contra hpass
            have hbad := (Request.Branch.badRoot hasks hsite hvhost hpass).course_eq
            rw [hbad] at hsections
            cases hsections
          rw [hsections] at hle
          have hrest : rest = [] := List.length_eq_zero_iff.mp (by simpa using hle)
          exact ⟨hrest, (replies_iff_served hroots).mp hreplies, hroots⟩
        · rw [hnone] at hle
          exact absurd hle (by simp)

end

/-- In every run, a child honours the connection of any number of requests if the
first of them is one for the stats page, or is the only one and is served.  A
child that has ended has honoured no other connection. -/
theorem honours_iff_first {s : Sys} (hs : Reachable s) {c : Child} (hc : c ∈ s.children)
    {r : SentRequest} {rest : List SentRequest}
    (hflux : c.conn.flux = some ((r :: rest).flatMap SentRequest.text))
    (hdates : DatesOk c.conn.env) :
    (FirstSuffices c.conn.env r rest → c.Honours (r :: rest)) ∧
      (c.Ended → c.Honours (r :: rest) → FirstSuffices c.conn.env r rest) := by
  have hsound := hs.sound.child c hc
  refine ⟨fun hfirst => ⟨hsound.order hflux, hsound.kept hflux hdates hfirst⟩, ?_⟩
  exact fun hended hhonours => hsound.firstSuffices hflux hdates hended (hhonours.kept hended)

/-! ## One page and two pages -/

/-- A request for a page. -/
def pageRequest : SentRequest where
  method := "GET".toList
  target := "/x.html".toList
  lines := ["Host: a\r\n".toList]
  isToken_method := ⟨by decide, by decide, by decide, by decide⟩
  isToken_target := ⟨by decide, by decide, by decide, by decide⟩
  isLine := by
    intro l hl
    obtain rfl := List.mem_singleton.mp hl
    exact ⟨"Host: a\r".toList, by decide, rfl⟩
  not_empty := by
    intro l hl
    obtain rfl := List.mem_singleton.mp hl
    decide

/-- A connection of one request. -/
theorem honours_iff_first_page :
    ∃ c ∈ (Sys.served pageConnection).children,
      (FirstSuffices c.conn.env pageRequest [] → c.Honours [pageRequest]) ∧
        (c.Ended → c.Honours [pageRequest] → FirstSuffices c.conn.env pageRequest []) :=
  ⟨_, List.mem_cons_self, honours_iff_first reachable_served_page List.mem_cons_self
    (by decide +kernel) (datesOk_machine _ _)⟩

/-- A connection of two requests for the page. -/
def twoPages : Connection where
  env := machine siteFile [("/w/x.html", "hi")]
  flux := some ([pageRequest, pageRequest].flatMap SentRequest.text)

/-- The child that serves it has ended, has said that the connection is kept, and
has not answered the second request. -/
theorem second_page_unanswered :
    ∃ s c, Reachable s ∧ c ∈ s.children ∧
      c.conn.flux = some ([pageRequest, pageRequest].flatMap SentRequest.text) ∧
      ¬ c.Honours [pageRequest, pageRequest] := by
  refine ⟨.served twoPages, _, reachable_served (by decide +kernel), List.mem_cons_self, rfl, ?_⟩
  intro h
  have hkept := h.kept ⟨.exitSuccess, rfl⟩ (by decide +kernel)
  exact absurd hkept (by decide +kernel)

end Pawnee
