import Pawnee.Source.Respond

/-!
# What can be seen of a child

An observation picks something from each call: the path it opens, the code it
sends, the code it logs, the counter it stores to.  `observed f tr` is what a
run shows.  Runs of one course differ only in the values read from the counters
and in the stats page, so most observations do not depend on the run
(`observed_course`).

The calls of a lookup (`IsLookup`) look at files and write error lines.  An
observation that ignores them sees nothing of the lookups between the calls it
is about.  Observations of what is written to the client (`SeesWrites`) ignore
lookups, log lines and counters alike.
-/

namespace Pawnee

open CText Effects

/-! ## Observations -/

/-- What an observation sees in a run. -/
def observed {β : Type} (f : Call → Option β) (tr : List ServerEvent) : List β :=
  (Prog.callsOf tr).filterMap f

theorem observed_append {β : Type} (f : Call → Option β) (tr tr' : List ServerEvent) :
    observed f (tr ++ tr') = observed f tr ++ observed f tr' := by
  rw [observed, Prog.callsOf_append, List.filterMap_append]
  rfl

/-- The path of a `stat` or `fopen`. -/
def openedPath : Call → Option Str
  | .stat path | .fopen path => some path
  | _ => none

/-- The code of a status line. -/
def sentCode : Call → Option Int
  | .write (.status code) _ => some code
  | _ => none

/-- The code of a line of the requests log. -/
def loggedCode : Call → Option Int
  | .logRequest entry => some entry.code
  | _ => none

/-- The counter a store goes to. -/
def storedCounter : Call → Option Counter
  | .store c _ => some c
  | _ => none

/-- A piece of the status line or of the header section. -/
def headPiece : Call → Option Str
  | .write (.status _) data | .write .header data => some data
  | _ => none

/-- A header section. -/
def headerSection : Call → Option Str
  | .write .header data => some data
  | _ => none

/-- A piece of the body. -/
def bodyPiece : Call → Option Str
  | .write .body data => some data
  | _ => none

/-! ## Lookups -/

/-- The call looks at files or writes a line of the errors log. -/
def IsLookup : Call → Prop
  | .access _ | .stat _ | .fopen _ | .logError _ => True
  | _ => False

/-- The call writes a line of the errors log. -/
def IsLogError : Call → Prop
  | .logError _ => True
  | _ => False

theorem IsLogError.isLookup {e : Call} (h : IsLogError e) : IsLookup e := by
  cases e with
  | logError m => trivial
  | _ => exact h.elim

theorem lookupCalls_isLogError {env : Env} {headers : List HttpHeader} :
    ∀ e ∈ lookupCalls env headers, IsLogError e := by
  intro e he
  simp only [lookupCalls] at he
  split at he
  · rw [List.mem_singleton] at he; subst he; trivial
  · rw [List.mem_singleton] at he; subst he; trivial
  · split at he
    · rw [List.mem_singleton] at he; subst he; trivial
    · cases he

theorem mimeCalls_isLogError {env : Env} : ∀ e ∈ mimeCalls env, IsLogError e := by
  intro e he
  simp only [mimeCalls] at he
  split at he
  · cases he
  · rw [List.mem_singleton] at he; subst he; trivial

/-- A lookup or a line of the requests log. -/
def IsPreparation (e : Call) : Prop := IsLookup e ∨ ∃ entry, e = .logRequest entry

/-- The calls that look at a path look only at that path. -/
theorem mem_rootCalls {env : Env} {root : Str} {e : Call} (he : e ∈ rootCalls env root) :
    e = .access root ∨ e = .stat root ∨ IsLogError e := by
  simp only [rootCalls] at he
  split at he
  · split at he
    · simp only [List.mem_cons, List.not_mem_nil, or_false] at he
      rcases he with rfl | rfl | rfl <;> simp [IsLogError]
    · split at he <;> simp only [List.mem_cons, List.not_mem_nil, or_false] at he
      · rcases he with rfl | rfl <;> simp
      · rcases he with rfl | rfl | rfl <;> simp [IsLogError]
  · simp only [List.mem_cons, List.not_mem_nil, or_false] at he
    rcases he with rfl | rfl <;> simp [IsLogError]

theorem mem_openCalls {env : Env} {path : Str} {e : Call} (he : e ∈ openCalls env path) :
    e = .stat path ∨ e = .fopen path ∨ IsLogError e := by
  simp only [openCalls] at he
  split at he
  · simp only [List.mem_cons, List.not_mem_nil, or_false] at he
    rcases he with rfl | rfl <;> simp [IsLogError]
  · split at he
    · simp only [List.mem_cons, List.not_mem_nil, or_false] at he
      rcases he with rfl | rfl <;> simp [IsLogError]
    · split at he
      · simp only [List.mem_cons, List.not_mem_nil, or_false] at he
        rcases he with rfl | rfl <;> simp [IsLogError]
      · split at he <;> simp only [List.mem_cons, List.not_mem_nil, or_false] at he
        · rcases he with rfl | rfl | rfl <;> simp [IsLogError]
        · rcases he with rfl | rfl <;> simp

/-- The first call of a lookup of a path is its `stat`. -/
theorem stat_mem_openCalls (env : Env) (path : Str) : .stat path ∈ openCalls env path := by
  simp only [openCalls]
  split
  · simp
  · split
    · simp
    · split
      · simp
      · split <;> simp

theorem rootCalls_isLookup {env : Env} {root : Str} : ∀ e ∈ rootCalls env root, IsLookup e := by
  intro e he
  rcases mem_rootCalls he with rfl | rfl | h
  · trivial
  · trivial
  · exact h.isLookup

theorem openCalls_isLookup {env : Env} {path : Str} : ∀ e ∈ openCalls env path, IsLookup e := by
  intro e he
  rcases mem_openCalls he with rfl | rfl | h
  · trivial
  · trivial
  · exact h.isLookup

theorem lookups_append {l l' : List Call} (h : ∀ e ∈ l, IsLookup e) (h' : ∀ e ∈ l', IsLookup e) :
    ∀ e ∈ l ++ l', IsLookup e := by
  intro e he
  rcases List.mem_append.mp he with he | he
  · exact h e he
  · exact h' e he

theorem reopenCalls_isLookup {env : Env} {q : Request} {path : Str} :
    ∀ e ∈ reopenCalls env q path, IsLookup e :=
  lookups_append (lookups_append (fun e he => (mimeCalls_isLogError e he).isLookup)
    fun e he => (lookupCalls_isLogError e he).isLookup) openCalls_isLookup

/-- An observation that ignores lookups. -/
def IgnoresLookups {β : Type} (f : Call → Option β) : Prop := ∀ e, IsLookup e → f e = none

/-- An observation of what is written to the client. -/
def SeesWrites {β : Type} (f : Call → Option β) : Prop :=
  ∀ e, (∀ part data, e ≠ .write part data) → f e = none

theorem seesWrites_sentCode : SeesWrites sentCode := by
  intro e h
  cases e with
  | write part data => exact absurd rfl (h part data)
  | _ => rfl

theorem seesWrites_headPiece : SeesWrites headPiece := by
  intro e h
  cases e with
  | write part data => exact absurd rfl (h part data)
  | _ => rfl

theorem seesWrites_headerSection : SeesWrites headerSection := by
  intro e h
  cases e with
  | write part data => exact absurd rfl (h part data)
  | _ => rfl

theorem seesWrites_bodyPiece : SeesWrites bodyPiece := by
  intro e h
  cases e with
  | write part data => exact absurd rfl (h part data)
  | _ => rfl

section

variable {β : Type} {f : Call → Option β}

/-- Nothing is seen of calls that are ignored. -/
theorem filterMap_ignored {l : List Call} (h : ∀ e ∈ l, f e = none) : l.filterMap f = [] := by
  rw [List.filterMap_eq_nil_iff]
  exact h

theorem SeesWrites.ignoresLookups (hf : SeesWrites f) : IgnoresLookups f := by
  intro e h
  refine hf e ?_
  rintro part data rfl
  exact h

/-- It sees nothing of the preparation. -/
theorem SeesWrites.filterMap_preparation (hf : SeesWrites f) {l : List Call}
    (h : ∀ e ∈ l, IsPreparation e) : l.filterMap f = [] := by
  refine filterMap_ignored fun e he => ?_
  rcases h e he with hlookup | ⟨entry, rfl⟩
  · exact hf.ignoresLookups e hlookup
  · exact hf _ nofun

theorem filterMap_mimeCalls (hf : IgnoresLookups f) (env : Env) :
    (mimeCalls env).filterMap f = [] :=
  filterMap_ignored fun e he => hf e (mimeCalls_isLogError e he).isLookup

theorem filterMap_reopenCalls (hf : IgnoresLookups f) (env : Env) (q : Request) (path : Str) :
    (reopenCalls env q path).filterMap f = [] :=
  filterMap_ignored fun e he => hf e (reopenCalls_isLookup e he)

/-- Of the calls that send a file only the header section is seen. -/
theorem filterMap_fileCalls (hbody : ∀ data, f (.write .body data) = none) (env : Env)
    (q : Request) (file : OpenFile) (size : Int) (mime : Str) :
    (fileCalls env q file size mime).filterMap f =
      [Call.write .header (fileHead env q file size mime)].filterMap f := by
  have hblocks : (if q.method = .head then []
      else (freadAll 8192 file.content).map (Call.write .body ·)).filterMap f = [] := by
    split
    · rfl
    · refine filterMap_ignored fun e he => ?_
      obtain ⟨block, -, rfl⟩ := List.mem_map.mp he
      exact hbody block
  rw [fileCalls, ← List.singleton_append, List.filterMap_append, hblocks, List.append_nil]

end

/-- Lines of the errors log open nothing. -/
theorem opened_logErrors {l : List Call} (h : ∀ e ∈ l, IsLogError e) :
    l.filterMap openedPath = [] :=
  filterMap_ignored fun e he => by
    have hlog := h e he
    cases e with
    | logError m => rfl
    | _ => exact hlog.elim

/-- The blocks of a file are its content. -/
theorem flatten_blocks {f : Call → Option Str} (hf : ∀ data, f (.write .body data) = some data)
    (content : Str) :
    (((freadAll 8192 content).map (Call.write .body ·)).filterMap f).flatten = content := by
  have hall : (freadAll 8192 content).filterMap (f ∘ (Call.write .body ·)) =
      freadAll 8192 content :=
    (List.filterMap_congr fun data _ => hf data).trans List.filterMap_some
  rw [List.filterMap_map, hall, flatten_freadAll (by decide)]

/-! ## What a course shows -/

/-- The calls of an ending, up to the reads of the counters and the stats page. -/
def Ending.lead (env : Env) : Ending → List Call
  | .calls l _ => l
  | .statsPage q => statsHeadCalls env q

/-- How an ending ends. -/
def Ending.halt : Ending → Halt
  | .calls _ halt => halt
  | .statsPage _ => .exitSuccess

/-- A message is sent in three pieces, or not at all for HEAD. -/
theorem messageEnding_lead (env : Env) (q : Request) (code : Int)
    (reasonPhrase errorMessage : String) :
    (q.messageEnding env code reasonPhrase errorMessage).lead env =
      if q.method = .head then []
      else
        [.write (.status code) (statusLine q.major q.minor code reasonPhrase.toList),
          .write .header (messageHead env q code errorMessage.toList.length),
          .write .body errorMessage.toList] := by
  unfold Request.messageEnding
  by_cases hm : q.method = .head
  · rw [if_pos hm, if_pos hm]
    rfl
  · rw [if_neg hm, if_neg hm]
    simp only [Ending.lead, messageCalls, if_neg hm]
    rfl

/-- The calls of the branches that answer with a file. -/
theorem mem_fileEnding {env : Env} {q : Request} {r path : Str} {file : OpenFile} {e : Call}
    (he : e ∈ (q.fileEnding env r path file).lead env) :
    e = q.okStatus ∨ IsLookup e ∨
      (∃ mime, e = .write .header (fileHead env q file (getFileSize file) mime)) ∨
        ∃ data, e = .write .body data := by
  unfold Request.fileEnding at he
  split at he
  · rcases List.mem_cons.mp he with rfl | he
    · exact .inl rfl
    · exact .inr (.inl (mimeCalls_isLogError e he).isLookup)
  · split at he
    · rcases List.mem_append.mp he with he | he
      · rcases List.mem_cons.mp he with rfl | he
        · exact .inl rfl
        · exact .inr (.inl (reopenCalls_isLookup e he))
      · rcases List.mem_cons.mp he with rfl | he
        · exact .inr (.inr (.inl ⟨_, rfl⟩))
        · split at he
          · cases he
          · obtain ⟨block, -, rfl⟩ := List.mem_map.mp he
            exact .inr (.inr (.inr ⟨_, rfl⟩))
    · rcases List.mem_cons.mp he with rfl | he
      · exact .inl rfl
      · exact .inr (.inl (reopenCalls_isLookup e he))

theorem messageEnding_halt (env : Env) (q : Request) (code : Int)
    (reasonPhrase errorMessage : String) :
    (q.messageEnding env code reasonPhrase errorMessage).halt =
      if q.method = .head then .fault .nullPointer else .exitSuccess := by
  unfold Request.messageEnding
  split <;> rfl

/-- An observation that does not look at the semaphore or at the values read. -/
def IgnoresCounts {β : Type} (f : Call → Option β) : Prop :=
  f .semWait = none ∧ f .semPost = none ∧ ∀ c, f (.load c) = none

theorem SeesWrites.ignoresCounts {β : Type} {f : Call → Option β} (hf : SeesWrites f) :
    IgnoresCounts f := ⟨hf _ nofun, hf _ nofun, fun _ => hf _ nofun⟩

/-- An observation that sees no body, if the ending is the stats page. -/
def IgnoresPage {β : Type} (f : Call → Option β) (e : Ending) : Prop :=
  ∀ q, e = .statsPage q → ∀ data, f (.write .body data) = none

theorem Ending.Makes.halt_eq {env : Env} {e : Ending} {l : List Call} {halt : Halt}
    (h : e.Makes env l halt) : halt = e.halt := by
  cases h <;> rfl

theorem Ending.Makes.filterMap_eq {β : Type} {f : Call → Option β} {env : Env} {e : Ending}
    {l : List Call} {halt : Halt} (hf : IgnoresCounts f) (hp : IgnoresPage f e)
    (h : e.Makes env l halt) : l.filterMap f = (e.lead env).filterMap f := by
  obtain ⟨-, -, hload⟩ := hf
  cases h with
  | calls l halt => rfl
  | statsHead q => rfl
  | statsPage q page =>
      rw [List.filterMap_append, filterMap_ignored (l := statsPageCalls env page), List.append_nil]
      · rfl
      · intro e he
        rcases List.mem_append.mp he with he | he
        · obtain ⟨c, -, rfl⟩ := List.mem_map.mp he
          exact hload c
        · rw [List.mem_singleton.mp he]
          exact hp q rfl page

/-- The stores of a course that counts. -/
theorem filterMap_countEvents {β : Type} {f : Call → Option β} (hf : IgnoresCounts f) (v : Int32)
    (counter : Option Counter) :
    (Prog.callsOf (countEvents v counter)).filterMap f =
      (counter.toList.map fun c => Call.store c (v + 1)).filterMap f := by
  obtain ⟨hwait, hpost, hload⟩ := hf
  cases counter with
  | none => rfl
  | some c =>
      cases hs : f (.store c (v + 1)) <;>
        simp [countEvents, hwait, hpost, hload, hs]

/-- What a run of a course shows, whatever it reads. -/
theorem observed_course {β : Type} {f : Call → Option β} (hf : IgnoresCounts f) {env : Env}
    {c : Course} (hp : IgnoresPage f c.ending) {tr : List ServerEvent} {out : Except Halt Unit}
    (h : Prog.Runs (c.prog env) tr out) :
    out = .error c.ending.halt ∧ ∃ v, observed f tr = c.before.filterMap f ++
      (c.counter.toList.map fun k => Call.store k (v + 1)).filterMap f ++
        (c.ending.lead env).filterMap f := by
  obtain ⟨tr₁, v, tr₂, halt, rfl, hbefore, rfl, hmakes⟩ := runs_course h
  refine ⟨by rw [hmakes.halt_eq], v, ?_⟩
  simp only [observed, Prog.callsOf_append, List.filterMap_append, hbefore,
    filterMap_countEvents hf, hmakes.filterMap_eq hf hp]

/-- An observation that does not look at stores either. -/
theorem observed_course_of_store {β : Type} {f : Call → Option β} (hf : IgnoresCounts f)
    (hstore : ∀ c v, f (.store c v) = none) {env : Env} {c : Course} (hp : IgnoresPage f c.ending)
    {tr : List ServerEvent} {out : Except Halt Unit} (h : Prog.Runs (c.prog env) tr out) :
    observed f tr = c.before.filterMap f ++ (c.ending.lead env).filterMap f := by
  obtain ⟨-, v, hobs⟩ := observed_course hf hp h
  have hcount : (c.counter.toList.map fun k => Call.store k (v + 1)).filterMap f = [] := by
    cases c.counter with
    | none => rfl
    | some k => simp [hstore]
  rw [hobs, hcount, List.append_nil]

theorem SeesWrites.observed_course {β : Type} {f : Call → Option β} (hf : SeesWrites f) {env : Env}
    {c : Course} (hp : IgnoresPage f c.ending) {tr : List ServerEvent} {out : Except Halt Unit}
    (h : Prog.Runs (c.prog env) tr out) :
    observed f tr = c.before.filterMap f ++ (c.ending.lead env).filterMap f :=
  observed_course_of_store hf.ignoresCounts (fun _ _ => hf _ nofun) hp h

/-! ## The branches -/

/-- The request gets as far as the site lookup. -/
structure Request.Asks (q : Request) (r : Str) : Prop where
  method : q.method ≠ .unsupported
  major : ¬ 1 < q.major
  target : rewritten q.target = some r
  not_stats : r ≠ statsTarget

/-- The request gets as far as the file. -/
structure Request.Finds (env : Env) (q : Request) (r : Str) (vhost : VhostConfig) : Prop
    extends q.Asks r where
  site : ∃ keys, selectedSite env q.headers = some keys ∧ keys.vhost = some vhost
  passes : RootPasses env vhost.root.text

/-- The site of a file that is looked for is the site the request selects. -/
theorem Request.Finds.vhost_eq {env : Env} {q : Request} {r : Str} {vhost : VhostConfig}
    {keys : SiteKeys} (h : q.Finds env r vhost) (hsite : selectedSite env q.headers = some keys) :
    keys.vhost = some vhost := by
  obtain ⟨keys', hsite', hvhost⟩ := h.site
  cases hsite.symm.trans hsite'
  exact hvhost

/-- A request gets to one file at most. -/
theorem Request.Finds.unique {env : Env} {q : Request} {r r' : Str} {vhost vhost' : VhostConfig}
    (h : q.Finds env r vhost) (h' : q.Finds env r' vhost') : r = r' ∧ vhost = vhost' := by
  obtain ⟨keys, hsite, hvhost⟩ := h.site
  exact ⟨Option.some.inj (h.target.symm.trans h'.target),
    Option.some.inj (hvhost.symm.trans (h'.vhost_eq hsite))⟩

/-- The branches of the child for a request that is parsed. -/
inductive Request.Branch (env : Env) (q : Request) : Course → Prop
  | version : q.method ≠ .unsupported → 1 < q.major →
      Branch env q ⟨[], none, { q with major := 1, minor := 1 }.messageEnding env 505
        "HTTP Version Not Supported" "HTTP Version Not Supported\r\n"⟩
  | target : (q.method = .unsupported ∨ ¬ 1 < q.major) → rewritten q.target = none →
      Branch env q (.dies [.logError "rewrite target error".toList] .exitFailure)
  | method {r : Str} : q.method = .unsupported → rewritten q.target = some r →
      Branch env q ⟨[.logRequest (logEntry env q r 405)], some .ko405,
        q.messageEnding env 405 "Method Not Allowed" "Method Not Allowed\r\n"⟩
  | stats : q.method ≠ .unsupported → ¬ 1 < q.major →
      rewritten q.target = some statsTarget →
      Branch env q ⟨[.logRequest (logEntry env q statsTarget 200)], some .ok200, .statsPage q⟩
  | noSite {r : Str} : q.Asks r → selectedSite env q.headers = none →
      Branch env q ⟨lookupCalls env q.headers ++
        [.logError "vhost root error".toList, .logRequest (logEntry env q r 400)], some .ko400,
        q.messageEnding env 400 "Bad Request" "Bad request\r\n"⟩
  | brokenSite {r : Str} {keys : SiteKeys} : q.Asks r → selectedSite env q.headers = some keys →
      keys.vhost = none →
      Branch env q (.dies (lookupCalls env q.headers) (.fault .nullPointer))
  | badRoot {r : Str} {keys : SiteKeys} {vhost : VhostConfig} : q.Asks r →
      selectedSite env q.headers = some keys → keys.vhost = some vhost →
      ¬ RootPasses env vhost.root.text →
      Branch env q (.dies (lookupCalls env q.headers ++ rootCalls env vhost.root.text) .exitFailure)
  | missing {r : Str} {vhost : VhostConfig} : q.Finds env r vhost →
      openResult env (vhost.path r) = none →
      Branch env q ⟨lookupCalls env q.headers ++ rootCalls env vhost.root.text ++
        openCalls env (vhost.path r) ++ [.logRequest (logEntry env q r 404)], some .ko404,
        q.messageEnding env 404 "Not Found" "Not Found\r\n"⟩
  | file {r : Str} {vhost : VhostConfig} {file : OpenFile} : q.Finds env r vhost →
      openResult env (vhost.path r) = some file →
      Branch env q ⟨lookupCalls env q.headers ++ rootCalls env vhost.root.text ++
        openCalls env (vhost.path r) ++ [.logRequest (logEntry env q r 200)], some .ok200,
        q.fileEnding env r (vhost.path r) file⟩

/-- Every request takes one of the branches. -/
theorem Request.branch (env : Env) (q : Request) : q.Branch env (q.course env) := by
  unfold Request.course
  split
  · next h => exact .version h.1 h.2
  · next h =>
    have hlow : q.method = .unsupported ∨ ¬ 1 < q.major := by tauto
    cases hr : rewritten q.target with
    | none => exact .target hlow hr
    | some r =>
        simp only
        split
        · next hm => exact .method hm hr
        · next hm =>
          have hmajor : ¬ 1 < q.major := hlow.resolve_left hm
          split
          · next hs =>
            subst hs
            exact .stats hm hmajor hr
          · next hs =>
            have hasks : q.Asks r := ⟨hm, hmajor, hr, hs⟩
            unfold Request.siteCourse
            cases hsite : selectedSite env q.headers with
            | none => exact .noSite hasks hsite
            | some keys =>
                cases hvhost : keys.vhost with
                | none => simpa only [hvhost] using .brokenSite hasks hsite hvhost
                | some vhost =>
                    simp only [hvhost]
                    by_cases hpass : RootPasses env vhost.root.text
                    · rw [if_pos hpass]
                      have hfinds : q.Finds env r vhost := ⟨hasks, ⟨keys, hsite, hvhost⟩, hpass⟩
                      unfold Request.fileCourse
                      cases hfile : openResult env (vhost.path r) with
                      | none => exact .missing hfinds hfile
                      | some file => exact .file hfinds hfile
                    · rw [if_neg hpass]
                      exact .badRoot hasks hsite hvhost hpass

/-- A course whose conditions hold is the one that is taken. -/
theorem Request.Branch.course_eq {env : Env} {q : Request} {c : Course} (h : q.Branch env c) :
    q.course env = c := by
  unfold Request.course
  cases h with
  | version hm hv => rw [if_pos ⟨hm, hv⟩]
  | target hlow hr =>
      have hno : ¬ (q.method ≠ .unsupported ∧ 1 < q.major) := by tauto
      simp only [if_neg hno, hr]
  | method hm hr => simp [hm, hr]
  | stats hm hv hr => simp [hm, hv, hr]
  | noSite hasks hsite =>
      simp [Request.siteCourse, hasks.method, hasks.major, hasks.target, hasks.not_stats, hsite]
  | brokenSite hasks hsite hvhost =>
      simp [Request.siteCourse, hasks.method, hasks.major, hasks.target, hasks.not_stats, hsite,
        hvhost]
  | badRoot hasks hsite hvhost hpass =>
      simp [Request.siteCourse, hasks.method, hasks.major, hasks.target, hasks.not_stats, hsite,
        hvhost, hpass]
  | missing hfinds hfile =>
      obtain ⟨keys, hsite, hvhost⟩ := hfinds.site
      simp [Request.siteCourse, Request.fileCourse, hfinds.method, hfinds.major, hfinds.target,
        hfinds.not_stats, hsite, hvhost, hfinds.passes, hfile]
  | file hfinds hfile =>
      obtain ⟨keys, hsite, hvhost⟩ := hfinds.site
      simp [Request.siteCourse, Request.fileCourse, hfinds.method, hfinds.major, hfinds.target,
        hfinds.not_stats, hsite, hvhost, hfinds.passes, hfile]

/-- Before it counts, a child looks files up and logs. -/
theorem Request.Branch.before_isPreparation {env : Env} {q : Request} {c : Course}
    (h : q.Branch env c) : ∀ e ∈ c.before, IsPreparation e := by
  have hlookup : ∀ e ∈ lookupCalls env q.headers, IsPreparation e := fun e he =>
    .inl (lookupCalls_isLogError e he).isLookup
  have hfound : ∀ (vhost : VhostConfig) (r : Str) (code : Int),
      ∀ e ∈ lookupCalls env q.headers ++ rootCalls env vhost.root.text ++
        openCalls env (vhost.path r) ++ [.logRequest (logEntry env q r code)], IsPreparation e := by
    intro vhost r code e he
    simp only [List.mem_append, List.mem_singleton] at he
    rcases he with ((he | he) | he) | rfl
    · exact hlookup e he
    · exact .inl (rootCalls_isLookup e he)
    · exact .inl (openCalls_isLookup e he)
    · exact .inr ⟨_, rfl⟩
  cases h with
  | version hm hv => simp
  | target hlow hr => simp [Course.dies, IsPreparation, IsLookup]
  | method hm hr => simp [IsPreparation]
  | stats hm hv hr => simp [IsPreparation]
  | noSite hasks hsite =>
      intro e he
      rcases List.mem_append.mp he with he | he
      · exact hlookup e he
      · simp only [List.mem_cons, List.not_mem_nil, or_false] at he
        rcases he with rfl | rfl
        · exact .inl trivial
        · exact .inr ⟨_, rfl⟩
  | brokenSite hasks hsite hvhost => exact hlookup
  | badRoot hasks hsite hvhost hpass =>
      intro e he
      rcases List.mem_append.mp he with he | he
      · exact hlookup e he
      · exact .inl (rootCalls_isLookup e he)
  | missing hfinds hfile => exact hfound _ _ _
  | file hfinds hfile => exact hfound _ _ _

theorem Request.messageEnding_ne_stats {env : Env} {q q' : Request} {code : Int}
    {reasonPhrase errorMessage : String} :
    q.messageEnding env code reasonPhrase errorMessage ≠ .statsPage q' := by
  unfold Request.messageEnding
  split <;> exact Ending.noConfusion

theorem Request.fileEnding_ne_stats {env : Env} {q q' : Request} {r path : Str} {file : OpenFile} :
    q.fileEnding env r path file ≠ .statsPage q' := by
  unfold Request.fileEnding
  split
  · exact Ending.noConfusion
  · split <;> exact Ending.noConfusion

/-- The stats page is sent in its branch only. -/
theorem Request.stats_of_ending {env : Env} {q q' : Request}
    (h : (q.course env).ending = .statsPage q') :
    q' = q ∧ q.method ≠ .unsupported ∧ ¬ 1 < q.major ∧ rewritten q.target = some statsTarget := by
  have hbranch := q.branch env
  generalize q.course env = c at h hbranch
  cases hbranch with
  | stats hm hv hr => cases h; exact ⟨rfl, hm, hv, hr⟩
  | version | method | noSite | missing => exact absurd h messageEnding_ne_stats
  | file => exact absurd h fileEnding_ne_stats
  | target | brokenSite | badRoot => cases h

/-- The course of a child, by what it reads. -/
inductive CourseFrom (env : Env) : Option Str → Course → Prop
  | noStream :
      CourseFrom env none (.dies [.logError "fdopen error on socket".toList] .exitFailure)
  | noLine {stream : Str} : readRequest stream = none →
      CourseFrom env (some stream)
        (.dies [.logError "error reading request line".toList] .exitFailure)
  | rejected {stream requestLine headersBlock unread : Str} :
      readRequest stream = some (requestLine, headersBlock, unread) →
      parseRequest requestLine headersBlock = none →
      CourseFrom env (some stream) (.dies [] (.fault .unsetField))
  | parsed {stream requestLine headersBlock unread : Str} {q : Request} :
      readRequest stream = some (requestLine, headersBlock, unread) →
      parseRequest requestLine headersBlock = some q →
      CourseFrom env (some stream) (q.course env)

theorem course_from (env : Env) (flux : Option Str) : CourseFrom env flux (course env flux) := by
  unfold course
  split
  · exact .noStream
  · split
    · exact .noLine ‹_›
    · next hread =>
      split
      · exact .rejected hread ‹_›
      · exact .parsed hread ‹_›

/-- The child of a connection whose request is parsed. -/
theorem respondClient_parsed {env : Env} {stream requestLine headersBlock unread : Str}
    {q : Request} (hread : readRequest stream = some (requestLine, headersBlock, unread))
    (hq : parseRequest requestLine headersBlock = some q) :
    respondClient env (some stream) = (q.course env).prog env := by
  rw [respondClient_eq]
  simp only [course, hread, hq]

theorem respondClient_rejected {env : Env} {stream requestLine headersBlock unread : Str}
    (hread : readRequest stream = some (requestLine, headersBlock, unread))
    (hq : parseRequest requestLine headersBlock = none) :
    respondClient env (some stream) = (Course.dies [] (.fault .unsetField)).prog env := by
  rw [respondClient_eq]
  simp only [course, hread, hq]

/-! ## A small machine -/

/-- Answers under which every write succeeds and every counter is zero. -/
def kindAnswer : (e : Call) → Answer e
  | .load _ => (0 : Int32)
  | .write _ data => (data.length : Int)
  | .accept => (none : Option Connection)
  | .getpeername | .fork _ => true
  | .access _ | .stat _ | .fopen _ | .logRequest _ | .logError _ | .semWait | .semPost
  | .store _ _ => ()

/-- A machine with one site file and some files.  A path that ends with a `/` is
a directory. -/
def machine (site : String) (files : List (String × String)) : Env where
  sites := some [⟨true, some site.toList⟩]
  mimes := some "text/html*html\n".toList
  access _ := true
  stat path :=
    if path.getLast? = some '/' then some ⟨false, true⟩
    else if files.any (·.1.toList = path) then some ⟨true, false⟩
    else none
  fopen path := (files.find? (·.1.toList = path)).map fun file => ⟨file.2.toList, 0⟩
  clientIp := "127.0.0.1".toList
  actualTime := ⟨1, 0, 124, 0, 0, 0⟩
  now := 0
  strftime _ := ⟨"Mon, 01 Jan 2024 00:00:00 UTC".toList, by decide⟩
  statsOrder := ⟨Counter.all, .refl _⟩

/-- A site file with the keys both readers know. -/
def siteFile : String := "hostname=\"a\"\nroot=\"/w/\"\nlog_dir=\"/l/\"\n"

/-- A request to the site `a`. -/
def siteRequest : Request := ⟨.get, 1, 1, "/x".toList, [⟨"Host".toList, "a".toList⟩]⟩

/-- The headers of `siteRequest`. -/
def siteStore : HttpHeaders where
  headers := some (some ⟨"Host".toList, "a".toList⟩ :: List.replicate 7 none)
  count := 1
  capacity := 8

theorem holds_siteStore : Holds siteStore siteRequest.headers :=
  ⟨rfl, by decide, List.replicate 7 none, rfl, rfl⟩

/-- The vhost of `siteFile`. -/
def siteVhost : VhostConfig :=
  ⟨⟨"a".toList, 2⟩, ⟨"/w/".toList, 4⟩, ⟨"/l/".toList, 4⟩⟩

theorem siteRequest_selects (files : List (String × String)) :
    selectedSite (machine siteFile files) siteRequest.headers = some (scanSite siteFile.toList) :=
  rfl

theorem siteFile_vhost : (scanSite siteFile.toList).vhost = some siteVhost := by decide

end Pawnee
