import Pawnee.Child.Observed
import Pawnee.Foundation.PathWalk

/-!
# Which files a child opens

`check_and_open` joins the root of the site and the rewritten target and looks
at no component of either.  So the paths a child opens stay inside the root
exactly if the target is balanced: no front part of it has more `..` than names.
-/

namespace Pawnee

open CText Effects PathWalk

/-- The path of a target stays inside the root exactly if the target is balanced. -/
theorem inside_path_iff (vhost : VhostConfig) (r : Str) :
    Inside vhost.root.text (vhost.path r) ↔ Balanced (components r) := by
  rw [VhostConfig.path, withSlash, ← walk_isSome_iff]
  by_cases hlast : vhost.root.text.getLast? = some '/'
  · rw [if_pos hlast, inside_append_iff]
    simp [hlast]
  · rw [if_neg hlast, List.append_assoc, List.singleton_append, inside_append_iff, walk_slash]
    simp

theorem ignoresCounts_openedPath : IgnoresCounts openedPath := ⟨rfl, rfl, fun _ => rfl⟩

theorem mem_opened_rootCalls {env : Env} {root p : Str}
    (h : p ∈ (rootCalls env root).filterMap openedPath) : p = root := by
  obtain ⟨e, he, hp⟩ := List.mem_filterMap.mp h
  rcases mem_rootCalls he with rfl | rfl | hlog
  · cases hp
  · cases hp; rfl
  · cases e with
    | logError m => cases hp
    | _ => exact hlog.elim

theorem mem_opened_openCalls {env : Env} {path p : Str}
    (h : p ∈ (openCalls env path).filterMap openedPath) : p = path := by
  obtain ⟨e, he, hp⟩ := List.mem_filterMap.mp h
  rcases mem_openCalls he with rfl | rfl | hlog
  · cases hp; rfl
  · cases hp; rfl
  · cases e with
    | logError m => cases hp
    | _ => exact hlog.elim

theorem opened_messageEnding (env : Env) (q : Request) (code : Int)
    (reasonPhrase errorMessage : String) :
    ((q.messageEnding env code reasonPhrase errorMessage).lead env).filterMap openedPath = [] := by
  rw [messageEnding_lead]
  split <;> rfl

/-- The response opens the path of the target and no other. -/
theorem mem_opened_fileEnding {env : Env} {q : Request} {r path p : Str} {file : OpenFile}
    (h : p ∈ ((q.fileEnding env r path file).lead env).filterMap openedPath) : p = path := by
  have hreopen : ∀ {p}, p ∈ (reopenCalls env q path).filterMap openedPath → p = path := by
    intro p hp
    simp only [reopenCalls, List.filterMap_append, opened_logErrors mimeCalls_isLogError,
      opened_logErrors lookupCalls_isLogError, List.nil_append] at hp
    exact mem_opened_openCalls hp
  have hfile : ∀ mime, (fileCalls env q file (getFileSize file) mime).filterMap openedPath = [] :=
    filterMap_fileCalls (fun _ => rfl) env q file (getFileSize file)
  unfold Request.fileEnding at h
  split at h
  · simp only [Ending.lead, List.filterMap_cons, Request.okStatus, openedPath,
      opened_logErrors mimeCalls_isLogError, List.not_mem_nil] at h
  · split at h
    · simp only [Ending.lead, List.cons_append, List.filterMap_cons, Request.okStatus, openedPath,
        List.filterMap_append, hfile, List.append_nil] at h
      exact hreopen h
    · simp only [Ending.lead, List.filterMap_cons, Request.okStatus, openedPath] at h
      exact hreopen h

/-- A child opens the root of its site and the path of its target. -/
theorem mem_opened_course {env : Env} {q : Request} {p : Str} {tr : List ServerEvent}
    {out : Except Halt Unit} (h : Prog.Runs ((q.course env).prog env) tr out)
    (hp : p ∈ observed openedPath tr) :
    ∃ keys vhost, selectedSite env q.headers = some keys ∧ keys.vhost = some vhost ∧
      (p = vhost.root.text ∨ ∃ r, q.Finds env r vhost ∧ p = vhost.path r) := by
  rw [observed_course_of_store ignoresCounts_openedPath (fun _ _ => rfl) (fun _ _ _ => rfl) h,
    List.mem_append] at hp
  have hbranch := q.branch env
  generalize q.course env = c at hbranch hp
  cases hbranch with
  | version hm hv => simp [opened_messageEnding] at hp
  | target hm hr => simp [Course.dies, Ending.lead, openedPath] at hp
  | method hm hr => simp [opened_messageEnding, openedPath] at hp
  | stats hm hv hr => simp [openedPath, Ending.lead, statsHeadCalls] at hp
  | noSite hasks hsite =>
      simp [opened_messageEnding, openedPath, opened_logErrors lookupCalls_isLogError] at hp
  | brokenSite hasks hsite hvhost =>
      simp [Course.dies, Ending.lead, opened_logErrors lookupCalls_isLogError] at hp
  | @badRoot r keys vhost hasks hsite hvhost hpass =>
      simp only [Course.dies, Ending.lead, List.filterMap_append,
        opened_logErrors lookupCalls_isLogError, List.filterMap_nil, List.nil_append,
        List.not_mem_nil, or_false] at hp
      exact ⟨keys, vhost, hsite, hvhost, .inl (mem_opened_rootCalls hp)⟩
  | @missing r vhost hfinds hfile =>
      obtain ⟨keys, hsite, hvhost⟩ := hfinds.site
      refine ⟨keys, vhost, hsite, hvhost, ?_⟩
      simp only [List.filterMap_append, opened_logErrors lookupCalls_isLogError, List.nil_append,
        List.mem_append, opened_messageEnding, List.not_mem_nil, or_false] at hp
      rcases hp with (hp | hp) | hp
      · exact .inl (mem_opened_rootCalls hp)
      · exact .inr ⟨r, hfinds, mem_opened_openCalls hp⟩
      · simp [openedPath] at hp
  | @file r vhost file hfinds hfile =>
      obtain ⟨keys, hsite, hvhost⟩ := hfinds.site
      refine ⟨keys, vhost, hsite, hvhost, ?_⟩
      simp only [List.filterMap_append, opened_logErrors lookupCalls_isLogError, List.nil_append,
        List.mem_append] at hp
      rcases hp with ((hp | hp) | hp) | hp
      · exact .inl (mem_opened_rootCalls hp)
      · exact .inr ⟨r, hfinds, mem_opened_openCalls hp⟩
      · simp [openedPath] at hp
      · exact .inr ⟨r, hfinds, mem_opened_fileEnding hp⟩

/-- A child that gets as far as the file opens its path in every run. -/
theorem path_mem_opened {env : Env} {q : Request} {r : Str} {vhost : VhostConfig}
    {tr : List ServerEvent} {out : Except Halt Unit} (hfinds : q.Finds env r vhost)
    (h : Prog.Runs ((q.course env).prog env) tr out) : vhost.path r ∈ observed openedPath tr := by
  have hopen : vhost.path r ∈ (openCalls env (vhost.path r)).filterMap openedPath :=
    List.mem_filterMap.mpr ⟨.stat (vhost.path r), stat_mem_openCalls env _, rfl⟩
  have hbefore : vhost.path r ∈ (q.course env).before.filterMap openedPath := by
    cases hfile : openResult env (vhost.path r) with
    | none =>
        rw [(Request.Branch.missing hfinds hfile).course_eq]
        simp [hopen]
    | some file =>
        rw [(Request.Branch.file hfinds hfile).course_eq]
        simp [hopen]
  rw [observed_course_of_store ignoresCounts_openedPath (fun _ _ => rfl) (fun _ _ _ => rfl) h]
  exact List.mem_append_left _ hbefore

/-- Every path the child opens, in any run, is inside the root of its site. -/
def Confined (env : Env) (stream : Str) (headers : List HttpHeader) : Prop :=
  ∀ tr out, Prog.Runs (respondClient env (some stream)) tr out →
    ∀ keys vhost, selectedSite env headers = some keys → keys.vhost = some vhost →
      ∀ p ∈ observed openedPath tr, Inside vhost.root.text p

/-- A child is confined exactly if the rewritten target is balanced, or the child
does not get as far as the file. -/
theorem confined_iff {env : Env} {stream requestLine headersBlock unread : Str} {q : Request}
    (hread : readRequest stream = some (requestLine, headersBlock, unread))
    (hq : parseRequest requestLine headersBlock = some q) :
    Confined env stream q.headers ↔ ∀ r vhost, q.Finds env r vhost → Balanced (components r) := by
  unfold Confined
  rw [respondClient_parsed hread hq]
  constructor
  · intro hconfined r vhost hfinds
    obtain ⟨tr, out, hruns⟩ := Prog.exists_runs ((q.course env).prog env)
    obtain ⟨keys, hsite, hvhost⟩ := hfinds.site
    exact (inside_path_iff vhost r).mp
      (hconfined tr out hruns keys vhost hsite hvhost _ (path_mem_opened hfinds hruns))
  · intro hbalanced tr out hruns keys vhost hsite hvhost p hp
    obtain ⟨keys', vhost', hsite', hvhost', hcases⟩ := mem_opened_course hruns hp
    cases hsite.symm.trans hsite'
    cases hvhost.symm.trans hvhost'
    rcases hcases with rfl | ⟨r, hfinds, rfl⟩
    · exact inside_self _
    · exact (inside_path_iff vhost r).mpr (hbalanced r vhost hfinds)

/-- A request for a file below the root, and what is read of it. -/
theorem confined_iff_page :
    Confined (machine siteFile []) "GET /x/../y HTTP/1.1\r\nHost: a\r\n\r\n".toList
        [⟨"Host".toList, "a".toList⟩] ↔
      ∀ r vhost, (⟨.get, 1, 1, "/x/../y".toList, [⟨"Host".toList, "a".toList⟩]⟩ : Request).Finds
        (machine siteFile []) r vhost → Balanced (components r) :=
  confined_iff (q := ⟨.get, 1, 1, "/x/../y".toList, [⟨"Host".toList, "a".toList⟩]⟩)
    (show readRequest _ = some ("GET /x/../y HTTP/1.1\r\n".toList, "Host: a\r\n".toList, [])
      by decide +kernel)
    (by decide +kernel)

/-- A target with more `..` than names opens a file outside the root. -/
theorem not_confined_parent :
    ¬ ∀ (env : Env) (stream requestLine headersBlock unread : Str) (q : Request),
      readRequest stream = some (requestLine, headersBlock, unread) →
      parseRequest requestLine headersBlock = some q → Confined env stream q.headers := by
  intro hall
  have hconfined := hall (machine siteFile []) "GET /../x HTTP/1.1\r\nHost: a\r\n\r\n".toList
    "GET /../x HTTP/1.1\r\n".toList "Host: a\r\n".toList []
    ⟨.get, 1, 1, "/../x".toList, [⟨"Host".toList, "a".toList⟩]⟩ (by decide +kernel)
    (by decide +kernel)
  have hinside := hconfined _ _ (Prog.play_runs kindAnswer _)
    ⟨some "a".toList, some "/w/".toList, some "/l/".toList⟩
    ⟨⟨"a".toList, 2⟩, ⟨"/w/".toList, 4⟩, ⟨"/l/".toList, 4⟩⟩ (by decide +kernel) (by decide +kernel)
    ("/w/".toList ++ "../x".toList) (by decide +kernel)
  have hwalk := (inside_append_iff.mp hinside).2
  exact absurd hwalk (by decide +kernel)

end Pawnee
