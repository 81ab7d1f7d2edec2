import Pawnee.Child.ClientRequest
import Pawnee.Child.FileHead
import Pawnee.Child.MimeTable
import Pawnee.Child.ResponseFraming
import Pawnee.Child.VhostLookup

/-!
# The answers of a website

A website is what its operator writes: the site files, the mime file, and the files
under the roots (`Website`).  It answers a request with a page or refuses it
(`Website.answer`).  Nothing in this speaks of the server.

`Website.Hosted` says that a machine has the website on its disks, and `ClientRequest`
is a request as a client writes it.  The child for such a request takes the branch of the
answer and sends the message of the answer (`Website.Hosted.sends`).  A HEAD gets the head
of the message for GET.  A HEAD that is refused gets nothing, and its child crashes.
-/

namespace Pawnee

open CText Effects Framing Entries

/-! ## Websites -/

/-- What the operator writes. -/
structure Website where
  sites : List SiteText
  rows : List MimeRow
  /-- The files that can be served, by their paths. -/
  file : Str → Option OpenFile
  types_ok : ∀ r ∈ rows, r.type.getLast? ≠ some ' ' ∧ '\r' ∉ r.type ∧ r.type.length ≤ 1024
  file_size : ∀ path f, file path = some f → f.content.length < 2147483648

/-- Why a request gets no page. -/
inductive Refusal where
  /-- The method is neither GET nor HEAD. -/
  | notAllowed
  /-- The major version is above 1. -/
  | badVersion
  /-- There is no site with the host name. -/
  | noSite
  /-- The site has no such file. -/
  | notFound
deriving DecidableEq, Repr

/-- An answer of a website. -/
inductive Reply where
  /-- The file, and its type. -/
  | page (file : OpenFile) (type : Str)
  | refused (why : Refusal)

/-- The answer to a host and a resource: the file of that name under the root of the
first site with that host name, with the type of its extension. -/
def Website.find (w : Website) (host : Option Str) (resource : Str) : Reply :=
  match host.bind fun name => firstText name w.sites with
  | none => .refused .noSite
  | some t =>
      match w.file (t.root ++ resource) with
      | none => .refused .notFound
      | some file => .page file (typeOf w.rows (lastPart resource))

/-- The answer to a request.  The method is looked at first, then the version. -/
def Website.answer (w : Website) (method : HttpMethod) (major : Nat) (host : Option Str)
    (resource : Str) : Reply :=
  if method = .unsupported then .refused .notAllowed
  else if 1 < major then .refused .badVersion
  else w.find host resource

/-- The code of a refusal. -/
def Refusal.code : Refusal → Int
  | .notAllowed => 405
  | .badVersion => 505
  | .noSite => 400
  | .notFound => 404

/-- The reason phrase of a refusal. -/
def Refusal.reasonPhrase : Refusal → String
  | .notAllowed => "Method Not Allowed"
  | .badVersion => "HTTP Version Not Supported"
  | .noSite => "Bad Request"
  | .notFound => "Not Found"

/-- The body of a refusal. -/
def Refusal.text : Refusal → String
  | .notAllowed => "Method Not Allowed\r\n"
  | .badVersion => "HTTP Version Not Supported\r\n"
  | .noSite => "Bad request\r\n"
  | .notFound => "Not Found\r\n"

/-- The counter of a refusal.  A version that is too high is not counted, and not logged. -/
def Refusal.counter : Refusal → Option Counter
  | .notAllowed => some .ko405
  | .badVersion => none
  | .noSite => some .ko400
  | .notFound => some .ko404

/-- The request as the message of a refusal sees it. -/
def Refusal.seen (why : Refusal) (q : Request) : Request :=
  if why = .badVersion then { q with major := 1, minor := 1 } else q

/-- The message of a refusal. -/
def Refusal.message (env : Env) (q : Request) (why : Refusal) : Message where
  start := startLine (why.seen q) why.code why.reasonPhrase.toList
  fields := leadingFields env (why.seen q) ++ messageFields why.code why.text.toList.length
  body := why.text.toList

/-- The code of an answer. -/
def Reply.code : Reply → Int
  | .page _ _ => 200
  | .refused why => why.code

/-- The counter of an answer. -/
def Reply.counter : Reply → Option Counter
  | .page _ _ => some .ok200
  | .refused why => why.counter

/-- The codes of the lines in the requests log. -/
def Reply.logged (reply : Reply) : List Int := reply.counter.toList.map fun _ => reply.code

/-- The message of an answer.  A HEAD that is refused gets none. -/
def Reply.message (env : Env) (q : Request) : Reply → Option Message
  | .page file type => some
      { start := startLine q 200 "OK".toList
        fields := leadingFields env q ++ fileFields env file file.content.length type
        body := if q.method = .head then [] else file.content }
  | .refused why => if q.method = .head then none else some (why.message env q)

/-- The bytes of an answer. -/
def Reply.sent (env : Env) (q : Request) (reply : Reply) : Str :=
  ((reply.message env q).map render).getD []

/-- How the child of an answer ends. -/
def Reply.halt (q : Request) : Reply → Halt
  | .page _ _ => .exitSuccess
  | .refused _ => if q.method = .head then .fault .nullPointer else .exitSuccess

/-! ## The machine -/

/-- The machine has the website on its disks. -/
structure Website.Hosted (w : Website) (env : Env) : Prop where
  sites : ∃ entries, env.sites = some entries ∧
    readableSites entries = w.sites.map fun t => t.content
  mimes : env.mimes = some (mimeFile w.rows true)
  file : ∀ path, openResult env path = w.file path
  roots : ∀ t ∈ w.sites, RootPasses env t.root
  /-- A slash that is missing would be written behind the block of the root. -/
  slashes : ∀ t ∈ w.sites, t.root.getLast? = some '/'
  dates : DatesOk env

/-- The server answers the request as the website does. -/
structure Website.Takes (w : Website) (r : ClientRequest) : Prop where
  /-- A colon in front of the host name would be cut off with the port. -/
  host_ok : ∀ h, lookupHeader r.headers "Host".toList = some h → h.head? ≠ some ':'
  /-- This name is the server's own. -/
  not_stats : r.resource ≠ statsTarget
  /-- The type of a page is looked up by its extension. -/
  dotted : ∀ file type, w.find r.host r.resource = .page file type → '.' ∈ r.resource

/-- The answer of a website to a request as it is written. -/
def Website.reply (w : Website) (r : ClientRequest) : Reply :=
  w.answer (methodOf r.method) r.major r.host r.resource

section

variable {w : Website} {env : Env}

/-- The site of the request is the first site with its host name. -/
theorem Website.Hosted.selectedSite_eq (hw : w.Hosted env) (r : ClientRequest)
    (hcolon : ∀ h, lookupHeader r.headers "Host".toList = some h → h.head? ≠ some ':') :
    selectedSite env r.headers =
      (r.host.bind fun name => firstText name w.sites).map fun t => scanSite t.content := by
  obtain ⟨entries, hsites, hfiles⟩ := hw.sites
  unfold ClientRequest.host
  cases hhost : lookupHeader r.headers "Host".toList with
  | none => simp only [selectedSite, hhost, Option.map_none, Option.bind_none]
  | some h =>
      cases h with
      | nil =>
          have hempty : firstText [] w.sites = none := by
            refine List.find?_eq_none.mpr fun t _ ht => ?_
            exact (lastValue_bounded t.fits (of_decide_eq_true ht)).1 rfl
          simp only [selectedSite, hhost, Option.map_some, Option.bind_some, List.takeWhile_nil,
            hempty, Option.map_none]
      | cons c h =>
          simp only [selectedSite, hhost, hsites, strtokBuffer_host (hcolon _ hhost),
            Option.map_some, Option.bind_some]
          exact findSite_files hfiles _

/-- A page or a missing page is looked for in the site of the request. -/
theorem Website.Hosted.finds (hw : w.Hosted env) (r : ClientRequest)
    (hcolon : ∀ h, lookupHeader r.headers "Host".toList = some h → h.head? ≠ some ':')
    (hasks : r.request.Asks r.resource) {t : SiteText}
    (ht : (r.host.bind fun name => firstText name w.sites) = some t) :
    ∃ vhost, r.request.Finds env r.resource vhost ∧
      vhost.path r.resource = t.root ++ r.resource := by
  obtain ⟨name, -, hname⟩ := Option.bind_eq_some_iff.mp ht
  have hfirst := List.find?_some hname
  obtain ⟨vhost, hvhost, hstrings⟩ := vhost_content t (of_decide_eq_true hfirst)
  have hsite : selectedSite env r.request.headers = some (scanSite t.content) := by
    rw [ClientRequest.request, hw.selectedSite_eq r hcolon, ht, Option.map_some]
  have hroot : vhost.root.text = t.root := congrArg (fun x => x.2.1) hstrings
  have hmem := List.mem_of_find?_eq_some hname
  refine ⟨vhost, ⟨hasks, ⟨_, hsite, hvhost⟩, hroot ▸ hw.roots t hmem⟩, ?_⟩
  rw [VhostConfig.path, hroot, withSlash, if_pos (hw.slashes t hmem)]

/-! ## The course of an answer -/

/-- The course sends the message of the answer, logs its code and counts it, and ends
as the answer says. -/
structure Course.Sends (env : Env) (c : Course) (q : Request) (reply : Reply) : Prop where
  bytes : ((c.ending.lead env).filterMap writtenData).flatten = reply.sent env q
  halt : c.ending.halt = reply.halt q
  logged : c.before.filterMap loggedCode = reply.logged
  counter : c.counter = reply.counter
  not_stats : ∀ q', c.ending ≠ .statsPage q'

/-- The code of the line a course writes behind its lookups. -/
theorem loggedCode_before {l : List Call} (hl : ∀ e ∈ l, IsLookup e) (entry : LogEntry) :
    (l ++ [Call.logRequest entry]).filterMap loggedCode = [entry.code] := by
  have hnone : l.filterMap loggedCode = [] := filterMap_ignored fun e he => by
    have hlookup := hl e he
    cases e with
    | logRequest entry => exact hlookup.elim
    | _ => rfl
  rw [List.filterMap_append, hnone]
  rfl

/-- The bytes of a message do not depend on the method, unless it is HEAD. -/
theorem written_messageEnding (env : Env) (q : Request) (code : Int)
    (reasonPhrase errorMessage : String) :
    (((q.messageEnding env code reasonPhrase errorMessage).lead env).filterMap
        writtenData).flatten =
      if q.method = .head then []
      else render ⟨startLine q code reasonPhrase.toList,
        leadingFields env q ++ messageFields code errorMessage.toList.length,
        errorMessage.toList⟩ := by
  have hget := @written_message env { q with method := .get } rfl code reasonPhrase.toList
    errorMessage.toList
  rw [messageEnding_lead]
  split
  · rfl
  · exact hget

/-- An ending with the message of a refusal. -/
def Refusal.ending (env : Env) (q : Request) (why : Refusal) : Ending :=
  (why.seen q).messageEnding env why.code why.reasonPhrase why.text

@[simp] theorem Refusal.seen_method (why : Refusal) (q : Request) :
    (why.seen q).method = q.method := by
  unfold Refusal.seen
  split <;> rfl

/-- A course that ends with the message of a refusal. -/
theorem Course.sends_refusal (env : Env) (q : Request) {before : List Call} {why : Refusal}
    (hlogged : before.filterMap loggedCode = (Reply.refused why).logged) :
    Course.Sends env ⟨before, why.counter, why.ending env q⟩ q (.refused why) := by
  refine ⟨?_, ?_, hlogged, rfl, fun q' h => absurd h Request.messageEnding_ne_stats⟩
  · rw [Refusal.ending, written_messageEnding, Refusal.seen_method, Reply.sent, Reply.message]
    split <;> rfl
  · rw [Refusal.ending, messageEnding_halt, Refusal.seen_method]
    rfl

/-- A course that looks up, writes a line, counts and refuses. -/
theorem Course.sends_logged_refusal (env : Env) (q : Request) {l : List Call}
    (hl : ∀ e ∈ l, IsLookup e) {entry : LogEntry} {why : Refusal} {k : Counter}
    (hcode : entry.code = why.code) (hcounter : why.counter = some k) :
    Course.Sends env ⟨l ++ [.logRequest entry], some k, why.ending env q⟩ q (.refused why) := by
  have hlogged : (l ++ [Call.logRequest entry]).filterMap loggedCode =
      (Reply.refused why).logged := by
    rw [loggedCode_before hl, Reply.logged, Reply.counter, hcounter, hcode]
    rfl
  rw [← hcounter]
  exact Course.sends_refusal env q hlogged

/-- The type of a page is short and has no line end. -/
theorem Website.typeOf_ok (w : Website) (ext : Str) :
    NoBreak (typeOf w.rows ext) ∧ (typeOf w.rows ext).length ≤ 1024 := by
  unfold typeOf
  cases hfind : w.rows.find? (·.ext = ext) with
  | none => exact ⟨by decide, Nat.zero_le _⟩
  | some row =>
      obtain ⟨-, hcr, hlen⟩ := w.types_ok row (List.mem_of_find?_eq_some hfind)
      exact ⟨⟨hcr, row.type_ok.no_lineFeed⟩, hlen⟩

/-- A HEAD gets the head of the response to GET. -/
theorem written_file_head {env : Env} {q : Request} (hhead : q.method = .head) {mime path : Str}
    {file : OpenFile}
    (hfits : (fileLines env q file file.content.length mime).length + 3 ≤ headerSize) :
    ((q.okStatus :: (reopenCalls env q path ++
        fileCalls env q file file.content.length mime)).filterMap writtenData).flatten =
      render ⟨startLine q 200 "OK".toList,
        leadingFields env q ++ fileFields env file file.content.length mime, []⟩ := by
  have hget := @written_file env { q with method := .get } rfl "OK".toList mime file path hfits
  have hne : ({ q with method := .get } : Request).method ≠ .head := by simp
  refine (List.append_left_inj file.content).mp ?_
  rw [render, List.append_nil]
  refine Eq.trans ?_ hget
  simp only [fileCalls, if_pos hhead, if_neg hne, List.filterMap_cons, List.filterMap_append,
    List.flatten_cons, List.flatten_append, writtenData,
    flatten_blocks (f := writtenData) fun _ => rfl]
  simp [Request.okStatus, writtenData]
  rfl

/-- A page is sent with its type and its length. -/
theorem Website.written_fileEnding (w : Website) {q : Request} (hmethod : q.method ≠ .unsupported)
    {r : Str} (path : Str) {file : OpenFile} (hsize : file.content.length < 2147483648)
    (hmime : mimeType env r = .ok (typeOf w.rows (lastPart r))) :
    (((q.fileEnding env r path file).lead env).filterMap writtenData).flatten =
        (Reply.page file (typeOf w.rows (lastPart r))).sent env q ∧
      (q.fileEnding env r path file).halt = .exitSuccess := by
  obtain ⟨-, hshort⟩ := w.typeOf_ok (lastPart r)
  have hint : IsInt32 file.content.length := ⟨by omega, by omega⟩
  have hlen : getFileSize file = file.content.length := toInt32_natCast_eq_iff.mpr hsize
  have hlines := fileLines_length_le env q file hint (typeOf w.rows (lastPart r))
  have htype := contentTypeHeader_length (typeOf w.rows (lastPart r))
  have hfits : (fileLines env q file file.content.length
      (typeOf w.rows (lastPart r))).length + 3 ≤ headerSize := by
    simp only [headerSize]
    split at htype <;> omega
  have hending : q.fileEnding env r path file = .calls (q.okStatus :: reopenCalls env q path ++
      fileCalls env q file file.content.length (typeOf w.rows (lastPart r))) .exitSuccess := by
    rw [Request.fileEnding, hmime, hlen]
    exact if_pos (Nat.le_of_add_right_le hfits)
  rw [hending]
  refine ⟨?_, rfl⟩
  rw [Reply.sent, Reply.message, Option.map_some, Option.getD_some]
  cases hm : q.method with
  | get =>
      rw [if_neg (by decide)]
      exact written_file hm hfits
  | head =>
      rw [if_pos rfl]
      exact written_file_head hm hfits
  | unsupported => exact absurd hm hmethod

/-- The child for a request that asks for a page does what the website finds. -/
theorem Website.Hosted.sends_found (hw : w.Hosted env) {r : ClientRequest} (htakes : w.Takes r)
    (hasks : r.request.Asks r.resource) :
    (r.request.course env).Sends env r.request (w.find r.host r.resource) := by
  obtain ⟨hcolon, -, hdot⟩ := htakes
  have hlookup : ∀ e ∈ lookupCalls env r.request.headers, IsLookup e := fun e he =>
    (lookupCalls_isLogError e he).isLookup
  have hopened : ∀ vhost : VhostConfig, ∀ e ∈ lookupCalls env r.request.headers ++
      rootCalls env vhost.root.text ++ openCalls env (vhost.path r.resource), IsLookup e :=
    fun vhost => lookups_append (lookups_append hlookup rootCalls_isLookup) openCalls_isLookup
  unfold Website.find at hdot ⊢
  cases ht : r.host.bind fun name => firstText name w.sites with
  | none =>
      have hsite : selectedSite env r.request.headers = none := by
        rw [ClientRequest.request, hw.selectedSite_eq r hcolon, ht, Option.map_none]
      have hbranch : r.request.Branch env _ := .noSite hasks hsite
      have herror : ∀ e ∈ [Call.logError "vhost root error".toList], IsLookup e := by
        simp [IsLookup]
      have hsends := Course.sends_logged_refusal env r.request (lookups_append hlookup herror)
        (show (logEntry env r.request r.resource 400).code = Refusal.noSite.code from rfl) rfl
      rw [hbranch.course_eq]
      rwa [List.append_assoc] at hsends
  | some t =>
      obtain ⟨vhost, hfinds, hpath⟩ := hw.finds r hcolon hasks ht
      have hopen := hw.file (vhost.path r.resource)
      rw [hpath] at hopen
      rw [ht] at hdot
      simp only at hdot ⊢
      cases hfile : w.file (t.root ++ r.resource) with
      | none =>
          have hbranch : r.request.Branch env _ :=
            .missing hfinds (hpath ▸ hopen.trans hfile)
          rw [hbranch.course_eq]
          exact Course.sends_logged_refusal env r.request (hopened vhost)
            (show (logEntry env r.request r.resource 404).code = Refusal.notFound.code from rfl) rfl
      | some file =>
          rw [hfile] at hdot
          have hmime : mimeType env r.resource = .ok (typeOf w.rows (lastPart r.resource)) :=
            mimeType_trimmed (hdot _ _ rfl) hw.mimes fun row hrow => (w.types_ok row hrow).1
          have hbranch : r.request.Branch env _ :=
            .file hfinds (hpath ▸ hopen.trans hfile)
          obtain ⟨hbytes, hhalt⟩ := w.written_fileEnding hasks.method (vhost.path r.resource)
            (w.file_size _ _ hfile) hmime
          rw [hbranch.course_eq]
          exact
            { bytes := hbytes
              halt := hhalt
              logged := loggedCode_before (hopened vhost) _
              counter := rfl
              not_stats := fun _ h => absurd h Request.fileEnding_ne_stats }

/-- The child for a request does what the answer of the website says. -/
theorem Website.Hosted.sends (hw : w.Hosted env) {r : ClientRequest} (htakes : w.Takes r) :
    (r.request.course env).Sends env r.request (w.reply r) := by
  have hmajor : 1 < r.request.major ↔ 1 < r.major := by
    simp only [ClientRequest.request]
    omega
  unfold Website.reply Website.answer
  by_cases hmethod : methodOf r.method = .unsupported
  · rw [if_pos hmethod]
    have hbranch : r.request.Branch env _ := .method hmethod r.rewritten_target
    rw [hbranch.course_eq]
    have hsends : Course.Sends env ⟨[] ++ [.logRequest (logEntry env r.request r.resource 405)],
        some .ko405, Refusal.notAllowed.ending env r.request⟩ r.request (.refused .notAllowed) :=
      Course.sends_logged_refusal env r.request (by simp) rfl rfl
    exact hsends
  · rw [if_neg hmethod]
    by_cases hversion : 1 < r.major
    · rw [if_pos hversion]
      have hbranch : r.request.Branch env _ := .version hmethod (hmajor.mpr hversion)
      rw [hbranch.course_eq]
      have hsends : Course.Sends env ⟨[], Refusal.badVersion.counter,
          Refusal.badVersion.ending env r.request⟩ r.request (.refused .badVersion) :=
        Course.sends_refusal env r.request rfl
      exact hsends
    · rw [if_neg hversion]
      exact hw.sends_found htakes
        ⟨hmethod, hmajor.not.mpr hversion, r.rewritten_target, htakes.not_stats⟩

/-! ## The message is well formed -/

end

end Pawnee
