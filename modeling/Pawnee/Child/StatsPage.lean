import Pawnee.Child.ResponseFraming

/-!
# The stats page as a message

`send_stats` announces 381 bytes whatever it prints.  The page is 374 bytes and
the digits of seven numbers, so the announced length is the length of the page if
and only if every number has one digit (`statsFramed_iff`).
-/

namespace Pawnee

open CText Effects Framing

/-- The fields of the stats page. -/
def statsFields (env : Env) : List (Str × Str) :=
  [("Content-Length".toList, decimal 381), ("Content-Type".toList, "text/html".toList),
    ("Server".toList, "Pawnee".toList), ("Connection".toList, "close".toList),
    ("Accept-Ranges".toList, "bytes".toList),
    ("Date".toList, "Date: ".toList ++ timeToHttpFormat env env.now)]

/-- The line of the date fits its buffer, and ends the header section with its
second line end. -/
theorem statsHeader_eq (env : Env) :
    statsHeader env = joinLines ((statsFields env).map fieldLine) ++ crlf := by
  have hdate : ("Date: ".toList ++ timeToHttpFormat env env.now ++ "\r\n".toList).take 127 =
      "Date: ".toList ++ timeToHttpFormat env env.now ++ "\r\n".toList := by
    have hlen := (env.strftime env.now).fits
    refine List.take_of_length_le ?_
    simp only [timeToHttpFormat, List.length_append, String.reduceToList, List.length_cons,
      List.length_nil]
    omega
  have hsize : formatInt 381 = decimal 381 := rfl
  unfold statsHeader statsFields joinLines fieldLine crlf
  rw [hdate, hsize]
  simp

theorem statsFields_ok {env : Env} (hd : DatesOk env) : ∀ f ∈ statsFields env, FieldOk f := by
  intro f hf
  simp only [statsFields, List.mem_cons, List.not_mem_nil, or_false] at hf
  rcases hf with rfl | rfl | rfl | rfl | rfl | rfl
  · exact fieldOk_of_value (by decide) (by decide)
  · exact fieldOk_of_value (by decide) (by decide)
  · exact fieldOk_of_value (by decide) (by decide)
  · exact fieldOk_of_value (by decide) (by decide)
  · exact fieldOk_of_value (by decide) (by decide)
  · exact fieldOk_of_value (by decide) (NoBreak.append (by decide) (hd _))

/-- The message of the stats page. -/
def statsMessage (env : Env) (q : Request) (page : Str) : Message :=
  ⟨startLine q 200 "OK".toList, statsFields env, page⟩

theorem parse_statsMessage {env : Env} (hd : DatesOk env) (q : Request) (page : Str) :
    parse (render (statsMessage env q page)) = some (statsMessage env q page) :=
  parse_render (noBreak_startLine q 200 (by decide)) (statsFields_ok hd)

/-! ## The length of the page -/

/-- The page is 374 bytes and its numbers. -/
theorem statsPage_length (values : Counter → Int32) :
    (statsPage values).length = 374 +
      ((formatInt (values .servedConnections).toInt).length +
        (formatInt (values .servedRequests).toInt).length +
        (formatInt (values .ok200).toInt).length + (formatInt (values .ko400).toInt).length +
        (formatInt (values .ko403).toInt).length + (formatInt (values .ko404).toInt).length +
        (formatInt (values .ko405).toInt).length) :=
  statsBody_length _ _ _ _ _ _ _

/-- A number that is not negative has one digit if and only if it is below 10. -/
theorem formatInt_length_eq_one {i : Int} (h : 0 ≤ i) :
    1 ≤ (formatInt i).length ∧ ((formatInt i).length = 1 ↔ i < 10) := by
  obtain ⟨n, rfl⟩ := Int.eq_ofNat_of_zero_le h
  have hpos := List.length_pos_of_ne_nil (decimal_ne_nil n)
  have hle : (decimal n).length ≤ 1 ↔ n < 10 :=
    Nat.length_toDigits_le_iff (by decide) (by decide)
  rw [formatInt_natCast]
  omega

/-- The page has the length that is announced if and only if every number has
one digit. -/
theorem statsPage_length_eq_iff {values : Counter → Int32} (hpos : ∀ c, 0 ≤ (values c).toInt) :
    (statsPage values).length = 381 ↔ ∀ c, (values c).toInt < 10 := by
  have hone := fun c => formatInt_length_eq_one (hpos c)
  rw [statsPage_length]
  constructor
  · intro h c
    have h₁ := hone .servedConnections
    have h₂ := hone .servedRequests
    have h₃ := hone .ok200
    have h₄ := hone .ko400
    have h₅ := hone .ko403
    have h₆ := hone .ko404
    have h₇ := hone .ko405
    rw [← (hone c).2]
    cases c <;> omega
  · intro h
    simp only [(hone _).2.mpr (h _)]

/-- A number ends where a tag follows. -/
theorem formatInt_append_inj {i j : Int} {s x y : Str} (hs : s.head? = some '<')
    (h : formatInt i ++ (s ++ x) = formatInt j ++ (s ++ y)) : i = j ∧ x = y := by
  obtain ⟨t, rfl⟩ := List.head?_eq_some_iff.mp hs
  have hnot : ∀ i, '<' ∉ formatInt i := fun i => notMem_formatInt (by decide) (by decide)
  obtain ⟨hi, hrest⟩ := cut_unique (hnot i) (hnot j) h
  exact ⟨formatInt_injective hi, List.append_cancel_left hrest⟩

/-- The page shows the values of all counters. -/
theorem statsPage_injective : Function.Injective statsPage := by
  intro values values' h
  unfold statsPage statsBody at h
  simp only [List.append_assoc] at h
  simp only [List.append_cancel_left_eq] at h
  obtain ⟨hconnections, h⟩ := formatInt_append_inj rfl h
  obtain ⟨hrequests, h⟩ := formatInt_append_inj rfl h
  obtain ⟨hok200, h⟩ := formatInt_append_inj rfl h
  obtain ⟨hko400, h⟩ := formatInt_append_inj rfl h
  obtain ⟨hko403, h⟩ := formatInt_append_inj rfl h
  obtain ⟨hko404, h⟩ := formatInt_append_inj rfl h
  have hko405 := formatInt_injective (List.append_cancel_right h)
  funext c
  refine Int32.toInt_inj.mp ?_
  cases c with
  | servedConnections => exact hconnections
  | servedRequests => exact hrequests
  | ok200 => exact hok200
  | ko400 => exact hko400
  | ko403 => exact hko403
  | ko404 => exact hko404
  | ko405 => exact hko405

/-! ## The page as it is written -/

/-- The run reads these values, and every `write` takes all its bytes. -/
structure Undisturbed (values : Counter → Int32) (tr : List ServerEvent) : Prop where
  loads : ∀ c v, (⟨.load c, v⟩ : ServerEvent) ∈ tr → v = values c
  writes : ∀ part data n, (⟨.write part data, n⟩ : ServerEvent) ∈ tr → n = (data.length : Int)

/-- A reader of messages finds in the stats page of these values the status line,
the page, and one `Content-Length` with its length. -/
def StatsFramed (env : Env) (q : Request) (store : HttpHeaders) (values : Counter → Int32) : Prop :=
  ∀ tr out, Prog.Runs (sendStats env (q.filled store)) tr out → Undisturbed values tr →
    ∃ m, parse (written tr) = some m ∧ m.start = startLine q 200 "OK".toList ∧
      m.body = statsPage values ∧
      contentLengths m.fields = [("Content-Length".toList, decimal m.body.length)]

/-- Answers that show these values of the counters. -/
def pageAnswer (values : Counter → Int32) : (e : Call) → Answer e
  | .load c => values c
  | e => kindAnswer e

theorem undisturbed_play (values : Counter → Int32) (p : Server Unit) :
    Undisturbed values (Prog.play (pageAnswer values) p).1 :=
  ⟨fun _ _ h => Prog.answer_of_mem_play h, fun _ _ _ h => Prog.answer_of_mem_play h⟩

/-- What `send_stats` writes is the message of its page. -/
theorem written_sendStats {env : Env} {q : Request} {store : HttpHeaders}
    {values : Counter → Int32}
    (hstatus : (statusLine q.major q.minor 200 "OK".toList).length < statusLineSize)
    {tr : List ServerEvent} {out : Except Halt Unit}
    (h : Prog.Runs (sendStats env (q.filled store)) tr out) (hu : Undisturbed values tr) :
    written tr = render (statsMessage env q (statsPage values)) := by
  rw [sendStats_eq env store hstatus] at h
  obtain ⟨tr₁, tr₂, rfl, hcalls, h₁⟩ := Prog.runs_doing_iff.mp h
  obtain ⟨n, tr₃, rfl, h₂⟩ := Prog.runs_op_iff.mp h₁
  have hn : n = ((statsHeader env).length : Int) := hu.writes _ _ _ (by simp)
  have hwritten : ¬ (n : Int) < 0 := by
    rw [hn]
    exact Int.not_lt.mpr (Int.natCast_nonneg _)
  rw [if_neg hwritten] at h₂
  obtain ⟨-, values', n', rfl⟩ := runs_sendStatsBody h₂
  have hvalues : values' = values := by
    funext c
    refine hu.loads c _ ?_
    simp only [List.mem_append, List.mem_cons, List.mem_map]
    exact .inr (.inr (.inl ⟨c, env.statsOrder.mem c, rfl⟩))
  subst hvalues
  have hloads : (env.statsOrder.counters.map Call.load).filterMap writtenData = [] := by
    refine filterMap_ignored fun e he => ?_
    obtain ⟨c, -, rfl⟩ := List.mem_map.mp he
    rfl
  have hhead : (statsHeadCalls env q).filterMap writtenData =
      [startLine q 200 "OK".toList ++ crlf,
        joinLines ((statsFields env).map fieldLine) ++ crlf] := by
    rw [← statsHeader_eq, ← statusLine_eq]
    rfl
  have hpage : [Call.write .body (statsPage values')].filterMap writtenData =
      [statsPage values'] := rfl
  have hall : Prog.callsOf (tr₁ ++ ⟨.write .header (statsHeader env), n⟩ ::
      (env.statsOrder.counters.map (fun c => (⟨.load c, values' c⟩ : ServerEvent)) ++
        [⟨.write .body (statsPage values'), n'⟩])) =
      statsHeadCalls env q ++ statsPageCalls env (statsPage values') := by
    simp [hcalls, statsHeadCalls, statsPageCalls]
  rw [written, observed, hall, List.filterMap_append, statsPageCalls, List.filterMap_append, hloads,
    hhead, hpage]
  simp only [render, statsMessage, List.nil_append, List.cons_append, List.flatten_cons,
    List.flatten_nil, List.append_nil, List.append_assoc]

/-- A page that is framed has the length that is announced. -/
theorem StatsFramed.length_eq {env : Env} {q : Request} {store : HttpHeaders}
    {values : Counter → Int32}
    (hstatus : (statusLine q.major q.minor 200 "OK".toList).length < statusLineSize)
    (hdates : DatesOk env) (h : StatsFramed env q store values) :
    (statsPage values).length = 381 := by
  have hruns := Prog.play_runs (pageAnswer values) (sendStats env (q.filled store))
  have hu := undisturbed_play values (sendStats env (q.filled store))
  obtain ⟨m, hparse, -, -, hlength⟩ := h _ _ hruns hu
  rw [written_sendStats hstatus hruns hu, parse_statsMessage hdates] at hparse
  cases hparse
  have hannounced : contentLengths (statsFields env) =
      [("Content-Length".toList, decimal 381)] := rfl
  simp only [statsMessage, hannounced, List.cons.injEq, Prod.mk.injEq, true_and,
    and_true] at hlength
  have hsize := decimal_injective hlength
  omega

/-- For counters that are not negative, the stats page is framed if and only if
every counter is below 10. -/
theorem statsFramed_iff {env : Env} {q : Request} {values : Counter → Int32} (store : HttpHeaders)
    (hmajor : IsInt32 q.major) (hminor : IsInt32 q.minor) (hdates : DatesOk env)
    (hpos : ∀ c, 0 ≤ (values c).toInt) :
    StatsFramed env q store values ↔ ∀ c, (values c).toInt < 10 := by
  have hcode : IsInt32 200 := ⟨by decide, by decide⟩
  have hstatus : (statusLine q.major q.minor 200 "OK".toList).length < statusLineSize :=
    statusLine_length_lt hmajor hminor hcode (by decide)
  rw [← statsPage_length_eq_iff hpos]
  refine ⟨StatsFramed.length_eq hstatus hdates, fun hlength tr out hruns hu => ?_⟩
  refine ⟨statsMessage env q (statsPage values), ?_, rfl, rfl, ?_⟩
  · rw [written_sendStats hstatus hruns hu, parse_statsMessage hdates]
  · rw [statsMessage, hlength]
    rfl

/-- The counters behind some connections, one after the other. -/
def countersBehind (env : Env) (streams : List Str) (k : Counter) : Int32 :=
  if k = .servedConnections then .ofNat streams.length
  else .ofNat ((streams.filterMap fun stream => (course env (some stream)).counter).count k)

/-- A page, one that is not there, and the stats page. -/
def threeStreams : List Str :=
  ["GET /x.html HTTP/1.1\r\nHost: a\r\n\r\n".toList,
    "GET /y.html HTTP/1.1\r\nHost: a\r\n\r\n".toList, "GET /stats HTTP/1.1\r\n\r\n".toList]

/-- The stats page of the third connection. -/
theorem statsFramed_third :
    StatsFramed (machine siteFile [("/w/x.html", "hi")]) ⟨.get, 1, 1, "/stats".toList, []⟩
      initHeaders (countersBehind (machine siteFile [("/w/x.html", "hi")]) threeStreams) := by
  have hcounted : (threeStreams.filterMap fun stream =>
      (course (machine siteFile [("/w/x.html", "hi")]) (some stream)).counter) =
        [.ok200, .ko404, .ok200] := by decide +kernel
  have hsmall : ∀ c, 0 ≤ (countersBehind (machine siteFile [("/w/x.html", "hi")]) threeStreams
      c).toInt ∧ (countersBehind (machine siteFile [("/w/x.html", "hi")]) threeStreams
        c).toInt < 10 := by
    intro c
    rw [countersBehind, hcounted]
    cases c <;> decide
  exact (statsFramed_iff initHeaders ⟨by decide, by decide⟩ ⟨by decide, by decide⟩
    (datesOk_machine _ _) fun c => (hsmall c).1).mpr fun c => (hsmall c).2

/-- With ten connections the page is one byte longer than announced. -/
theorem not_statsFramed_ten :
    ¬ StatsFramed (machine siteFile []) ⟨.get, 1, 1, "/stats".toList, []⟩ initHeaders
      fun c => if c = .servedConnections then 10 else 0 := by
  intro h
  have hlength := h.length_eq (by decide) (datesOk_machine _ _)
  rw [statsPage_length] at hlength
  exact absurd hlength (by decide)

end Pawnee
