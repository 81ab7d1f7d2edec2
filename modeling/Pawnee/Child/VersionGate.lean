import Pawnee.Child.Observed
import Pawnee.Child.RequestLine

/-!
# The version gate (`check_http_version`)

The version of a request line is two texts of digits, read by `%d` of `sscanf`
into an `int` each.  The gate compares the first `int` with 1, and every status
line but that of a 505 prints both.

`GateNumeric` says that the gate and the status lines follow the numbers that
are written.  `gateNumeric_iff` says for which texts that is so: the numbers are
cut to 64 bits and then to 32.
-/

namespace Pawnee

open CText Effects

/-! ## Status lines -/

/-- A status line with its code. -/
def sentStatus : Call → Option (Int × Str)
  | .write (.status code) line => some (code, line)
  | _ => none

theorem seesWrites_sentStatus : SeesWrites sentStatus := by
  intro e h
  cases e with
  | write part data => exact absurd rfl (h part data)
  | _ => rfl

/-- The front of a status line of this version. -/
def versionStart (major minor : Nat) : Str :=
  "HTTP/".toList ++ (decimal major ++ '.' :: (decimal minor ++ [' ']))

/-- A status line is a version, and more behind a space. -/
theorem statusLine_version (major minor code : Int) (reasonPhrase : Str) :
    ∃ rest, statusLine major minor code reasonPhrase =
      "HTTP/".toList ++ (formatInt major ++ '.' :: (formatInt minor ++ ' ' :: rest)) := by
  have hsplit : ∀ name major minor code reason : Str,
      name ++ major ++ ".".toList ++ minor ++ " ".toList ++ code ++ " ".toList ++ reason ++
          "\r\n".toList =
        name ++ (major ++ '.' :: (minor ++ ' ' :: (code ++ " ".toList ++ reason ++
          "\r\n".toList))) := by
    intro name major minor code reason
    simp
  exact ⟨_, hsplit _ _ _ _ _⟩

/-- Status lines of a version start with its numbers. -/
theorem versionStart_isPrefix (major minor : Nat) (code : Int) (reasonPhrase : Str) :
    versionStart major minor <+: statusLine major minor code reasonPhrase := by
  obtain ⟨rest, hrest⟩ := statusLine_version major minor code reasonPhrase
  refine ⟨rest, ?_⟩
  rw [hrest, versionStart]
  simp only [formatInt_natCast, List.append_assoc, List.cons_append, List.nil_append]

/-- The minor number of a status line is read up to the next space. -/
theorem minor_eq_of_isPrefix {major n : Nat} {minor code : Int} {reasonPhrase : Str}
    (h : versionStart major n <+: statusLine major minor code reasonPhrase) : minor = n := by
  obtain ⟨rest, hrest⟩ := h
  obtain ⟨rest', hline⟩ := statusLine_version major minor code reasonPhrase
  have hcut : decimal n ++ ' ' :: rest = formatInt minor ++ ' ' :: rest' := by
    rw [hline, versionStart] at hrest
    simpa only [formatInt_natCast, List.append_assoc, List.cons_append, List.nil_append,
      List.append_cancel_left_eq, List.cons.injEq, true_and] using hrest
  have hnumber := (cut_unique (notMem_decimal (by decide))
    (notMem_formatInt (by decide) (by decide)) hcut).1
  exact formatInt_injective hnumber.symm

/-! ## The status lines of a course -/

/-- If the call writes a status line, it is one of the request's own version, and
no 505. -/
def KeepsVersion (q : Request) (e : Call) : Prop :=
  ∀ code line, e = .write (.status code) line →
    code ≠ 505 ∧ ∃ reasonPhrase, line = statusLine q.major q.minor code reasonPhrase

theorem IsLookup.keepsVersion {q : Request} {e : Call} (h : IsLookup e) : KeepsVersion q e := by
  rintro code line rfl
  exact h.elim

theorem keepsVersion_messageEnding {env : Env} {q : Request} {code : Int} (hcode : code ≠ 505)
    (reasonPhrase errorMessage : String) :
    ∀ e ∈ (q.messageEnding env code reasonPhrase errorMessage).lead env, KeepsVersion q e := by
  intro e he code' line heq
  subst heq
  rw [messageEnding_lead] at he
  split at he
  · cases he
  · simp only [List.mem_cons, List.not_mem_nil, or_false, Call.write.injEq, Part.status.injEq,
      reduceCtorEq, false_and] at he
    obtain ⟨rfl, rfl⟩ := he
    exact ⟨hcode, _, rfl⟩

theorem keepsVersion_okStatus (q : Request) : KeepsVersion q q.okStatus := by
  rintro code line ⟨⟩
  exact ⟨by decide, _, rfl⟩

theorem keepsVersion_fileEnding (env : Env) (q : Request) (r path : Str) (file : OpenFile) :
    ∀ e ∈ (q.fileEnding env r path file).lead env, KeepsVersion q e := by
  intro e he
  rcases mem_fileEnding he with rfl | h | ⟨mime, rfl⟩ | ⟨data, rfl⟩
  · exact keepsVersion_okStatus q
  · exact h.keepsVersion
  · rintro code line ⟨⟩
  · rintro code line ⟨⟩

theorem IsPreparation.keepsVersion {q : Request} {e : Call} (h : IsPreparation e) :
    KeepsVersion q e := by
  rcases h with h | ⟨entry, rfl⟩
  · exact h.keepsVersion
  · rintro code line ⟨⟩

/-- A request that passes the gate gets status lines of its own version only. -/
theorem Request.course_keepsVersion (env : Env) {q : Request}
    (hlow : ¬ (q.method ≠ .unsupported ∧ 1 < q.major)) :
    ∀ e ∈ (q.course env).before ++ (q.course env).ending.lead env, KeepsVersion q e := by
  have hbranch := q.branch env
  generalize q.course env = c at hbranch
  intro e he
  rcases List.mem_append.mp he with he | he
  · exact (hbranch.before_isPreparation e he).keepsVersion
  · cases hbranch with
    | version hm hv => exact absurd ⟨hm, hv⟩ hlow
    | method | noSite | missing => exact keepsVersion_messageEnding (by decide) _ _ e he
    | stats hm hv hr =>
        rcases List.mem_cons.mp he with rfl | he
        · exact keepsVersion_okStatus q
        · rw [List.mem_singleton.mp he]
          rintro code line ⟨⟩
    | file hfinds hfile => exact keepsVersion_fileEnding _ _ _ _ _ e he
    | target | brokenSite | badRoot => cases he

/-- The status lines a run shows are those of its course. -/
theorem mem_observed_sentStatus {env : Env} {c : Course} {tr : List ServerEvent}
    {out : Except Halt Unit} (h : Prog.Runs (c.prog env) tr out) {code : Int} {line : Str} :
    (code, line) ∈ observed sentStatus tr ↔
      Call.write (.status code) line ∈ c.before ++ c.ending.lead env := by
  rw [seesWrites_sentStatus.observed_course (fun _ _ _ => rfl) h, ← List.filterMap_append,
    List.mem_filterMap]
  constructor
  · rintro ⟨e, he, hsent⟩
    cases e with
    | write part data =>
        cases part with
        | status code' => cases hsent; exact he
        | _ => cases hsent
    | _ => cases hsent
  · exact fun he => ⟨_, he, rfl⟩

/-- A request that passes the gate gets no 505. -/
theorem not_sent_505 {env : Env} {q : Request} (hv : ¬ 1 < q.major) {tr : List ServerEvent}
    {out : Except Halt Unit} (h : Prog.Runs ((q.course env).prog env) tr out) :
    ¬ ∃ line, (505, line) ∈ observed sentStatus tr := by
  rintro ⟨line, hmem⟩
  have hkeeps := Request.course_keepsVersion env fun h => hv h.2
  exact (hkeeps _ ((mem_observed_sentStatus h).mp hmem) _ _ rfl).1 rfl

/-! ## The gate -/

/-- The number a text of digits writes. -/
def digitsNat (digits : Str) : Nat := Nat.ofDigitChars 10 digits 0

/-- In every run of the child, a 505 is sent if and only if the major number is
greater than 1, and every other status line starts with the numbers. -/
def GateNumeric (stream : Str) (major minor : Nat) : Prop :=
  ∀ env tr out, Prog.Runs (respondClient env (some stream)) tr out →
    ((∃ line, (505, line) ∈ observed sentStatus tr) ↔ 1 < major) ∧
      ∀ code line, (code, line) ∈ observed sentStatus tr → code ≠ 505 →
        versionStart major minor <+: line

/-- A machine without sites. -/
def siteless : Env := { machine "" [] with sites := none }

theorem selectedSite_siteless (headers : List HttpHeader) :
    selectedSite siteless headers = none := by
  unfold selectedSite
  split <;> rfl

/-- A GET that passes the gate with a target that can be rewritten is answered
there. -/
theorem exists_status {q : Request} (hget : q.method = .get) (hlow : ¬ 1 < q.major) {r : Str}
    (hr : rewritten q.target = some r) :
    ∃ code reasonPhrase, code ≠ 505 ∧
      Call.write (.status code) (statusLine q.major q.minor code reasonPhrase) ∈
        (q.course siteless).before ++ (q.course siteless).ending.lead siteless := by
  have hmethod : q.method ≠ .unsupported := by rw [hget]; decide
  have hhead : q.method ≠ .head := by rw [hget]; decide
  by_cases hstats : r = statsTarget
  · subst hstats
    refine ⟨200, "OK".toList, by decide, ?_⟩
    rw [(Request.Branch.stats hmethod hlow hr).course_eq]
    exact List.mem_append_right _ List.mem_cons_self
  · have hasks : q.Asks r := ⟨hmethod, hlow, hr, hstats⟩
    refine ⟨400, "Bad Request".toList, by decide, ?_⟩
    rw [(Request.Branch.noSite hasks (selectedSite_siteless _)).course_eq, messageEnding_lead,
      if_neg hhead]
    exact List.mem_append_right _ List.mem_cons_self

/-- A GET with a major number above 1 gets a 505 and nothing else. -/
theorem version_status {env : Env} {q : Request} (hget : q.method = .get) (hv : 1 < q.major)
    {code : Int} {line : Str} :
    Call.write (.status code) line ∈ (q.course env).before ++ (q.course env).ending.lead env ↔
      code = 505 ∧ line = statusLine 1 1 505 "HTTP Version Not Supported".toList := by
  have hmethod : q.method ≠ .unsupported := by rw [hget]; decide
  have hhead : q.method ≠ .head := by rw [hget]; decide
  rw [(Request.Branch.version hmethod hv).course_eq, messageEnding_lead, if_neg hhead]
  simp only [List.nil_append, List.mem_cons, Call.write.injEq, Part.status.injEq, reduceCtorEq,
    false_and, List.not_mem_nil, or_false]

/-- The request behind a strict GET line. -/
theorem parseRequest_strict {stream requestLine headersBlock unread target major minor : Str}
    (hread : readRequest stream = some (requestLine, headersBlock, unread))
    (hline : StrictRequestLine requestLine "GET".toList target major minor) :
    ∃ q, parseRequest requestLine headersBlock = some q ∧ q.method = .get ∧ q.target = target ∧
      q.major = toInt32 (saturate64 (digitsNat major)) ∧
      q.minor = toInt32 (saturate64 (digitsNat minor)) :=
  (exists_parseRequest_iff hread).mpr ⟨_, hline.isRequestLine, rfl⟩

section

variable {stream : Str} {q : Request} {major minor : Nat}

/-- A GET whose gate and status lines are numeric has a major number of at most 1
and stores its minor number, unless its target cannot be rewritten; or it stores
a major number above 1. -/
theorem GateNumeric.stores
    (hprog : ∀ env, respondClient env (some stream) = (q.course env).prog env)
    (hget : q.method = .get) (hmajor : q.major = toInt32 (saturate64 major))
    (h : GateNumeric stream major minor) :
    (major ≤ 1 ∧ (q.minor = minor ∨ rewritten q.target = none)) ∨ 1 < q.major := by
  by_cases hv : 1 < q.major
  · exact .inr hv
  · obtain ⟨tr, out, hruns⟩ := Prog.exists_runs ((q.course siteless).prog siteless)
    obtain ⟨hnumeric, hcarries⟩ := h siteless tr out (hprog siteless ▸ hruns)
    have hlow : ¬ 1 < major := mt hnumeric.mpr (not_sent_505 hv hruns)
    have hsame : q.major = major := hmajor.trans (toInt32_saturate64_eq_iff.mpr (by omega))
    refine .inl ⟨by omega, ?_⟩
    cases hr : rewritten q.target with
    | none => exact .inr rfl
    | some r =>
        obtain ⟨code, reasonPhrase, hcode, hmem⟩ := exists_status hget hv hr
        have hstart := hcarries _ _ ((mem_observed_sentStatus hruns).mpr hmem) hcode
        rw [hsame] at hstart
        exact .inl (minor_eq_of_isPrefix hstart)

/-- A request that stores a major number of at most 1, and its minor number if its
target can be rewritten. -/
theorem gateNumeric_of_low
    (hprog : ∀ env, respondClient env (some stream) = (q.course env).prog env)
    (hlow : major ≤ 1) (hmajor : q.major = major)
    (hshow : q.minor = minor ∨ rewritten q.target = none) : GateNumeric stream major minor := by
  intro env tr out hruns
  have hv : ¬ 1 < q.major := by omega
  have hkeeps := Request.course_keepsVersion env fun h => hv h.2
  rw [hprog] at hruns
  refine ⟨iff_of_false (not_sent_505 hv hruns) (by omega), fun code line hmem hcode => ?_⟩
  have hcall := (mem_observed_sentStatus hruns).mp hmem
  rcases hshow with hminor | hr
  · obtain ⟨-, reasonPhrase, rfl⟩ := hkeeps _ hcall _ _ rfl
    rw [hmajor, hminor]
    exact versionStart_isPrefix _ _ _ _
  · rw [(Request.Branch.target (.inr hv) hr).course_eq] at hcall
    simp [Course.dies, Ending.lead] at hcall

/-- A GET that stores a major number above 1. -/
theorem gateNumeric_of_high
    (hprog : ∀ env, respondClient env (some stream) = (q.course env).prog env)
    (hget : q.method = .get) (hhigh : 1 < major) (hv : 1 < q.major) :
    GateNumeric stream major minor := by
  intro env tr out hruns
  rw [hprog] at hruns
  have hsent := (mem_observed_sentStatus hruns).mpr ((version_status hget hv).mpr ⟨rfl, rfl⟩)
  refine ⟨iff_of_true ⟨_, hsent⟩ hhigh, fun code line hmem hcode => ?_⟩
  exact absurd ((version_status hget hv).mp ((mem_observed_sentStatus hruns).mp hmem)).1 hcode

end

/-- The gate and the status lines of a GET are numeric if and only if the major
number is at most 1 and the minor number is below 2^31, or the target cannot be
rewritten, so that nothing is sent; or the major number is below 2^63 and its low
32 bits are between 2 and 2^31. -/
theorem gateNumeric_iff {stream requestLine headersBlock unread target major minor : Str}
    (hread : readRequest stream = some (requestLine, headersBlock, unread))
    (hline : StrictRequestLine requestLine "GET".toList target major minor) :
    GateNumeric stream (digitsNat major) (digitsNat minor) ↔
      (digitsNat major ≤ 1 ∧ (digitsNat minor < 2147483648 ∨ ∀ c ∈ target, c = '?')) ∨
        (digitsNat major < 9223372036854775808 ∧ 2 ≤ digitsNat major % 4294967296 ∧
          digitsNat major % 4294967296 < 2147483648) := by
  obtain ⟨q, hq, hget, rfl, hmajor, hminor⟩ := parseRequest_strict hread hline
  have hprog : ∀ env, respondClient env (some stream) = (q.course env).prog env := fun env =>
    respondClient_parsed hread hq
  have hgate : 1 < q.major ↔ _ := hmajor ▸ one_lt_toInt32_saturate64
  have hsame : q.minor = digitsNat minor ↔ _ := hminor ▸ toInt32_saturate64_eq_iff
  constructor
  · intro h
    rcases h.stores hprog hget hmajor with ⟨hlow, hshow⟩ | hv
    · exact .inl ⟨hlow, hshow.imp hsame.mp rewritten_eq_none_iff.mp⟩
    · exact .inr (hgate.mp hv)
  · rintro (⟨hlow, hshow⟩ | hhigh)
    · exact gateNumeric_of_low hprog hlow
        (hmajor.trans (toInt32_saturate64_eq_iff.mpr (by omega)))
        (hshow.imp hsame.mpr rewritten_eq_none_iff.mpr)
    · have hmany : 1 < digitsNat major := by
        obtain ⟨-, hlarge, -⟩ := hhigh
        by_contra hle
        omega
      exact gateNumeric_of_high hprog hget hmany (hgate.mpr hhigh)

/-- The gate is numeric for HTTP/2.0. -/
theorem gateNumeric_two :
    GateNumeric "GET / HTTP/2.0\r\n".toList (digitsNat "2".toList) (digitsNat "0".toList) := by
  have hread : readRequest "GET / HTTP/2.0\r\n".toList =
      some ("GET / HTTP/2.0\r\n".toList, [], []) := by decide
  have hline : StrictRequestLine "GET / HTTP/2.0\r\n".toList "GET".toList "/".toList "2".toList
      "0".toList :=
    ⟨"\r\n".toList, rfl, by decide, by decide, by simp [IsDigits], by simp [IsDigits], .inl rfl⟩
  exact (gateNumeric_iff hread hline).mpr (.inr (by decide))

/-- The major number 4294967297 is stored as 1 and passes the gate. -/
theorem not_gateNumeric_wrap :
    StrictRequestLine "GET / HTTP/4294967297.1\r\n".toList "GET".toList "/".toList
        "4294967297".toList "1".toList ∧
      ¬ GateNumeric "GET / HTTP/4294967297.1\r\n".toList (digitsNat "4294967297".toList)
        (digitsNat "1".toList) := by
  refine ⟨⟨"\r\n".toList, rfl, by decide, by decide, by simp [IsDigits], by simp [IsDigits],
    .inl rfl⟩, fun h => ?_⟩
  have hread : readRequest "GET / HTTP/4294967297.1\r\n".toList =
      some ("GET / HTTP/4294967297.1\r\n".toList, [], []) := by decide
  have hq : parseRequest "GET / HTTP/4294967297.1\r\n".toList [] =
      some ⟨.get, 1, 1, "/".toList, []⟩ := by decide
  obtain ⟨tr, out, hruns⟩ := Prog.exists_runs (respondClient siteless
    (some "GET / HTTP/4294967297.1\r\n".toList))
  have hsent := (h siteless tr out hruns).1.mpr (by decide)
  rw [respondClient_parsed hread hq] at hruns
  exact not_sent_505 (by decide) hruns hsent

end Pawnee
