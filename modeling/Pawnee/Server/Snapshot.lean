import Pawnee.Child.StatsPage
import Pawnee.Foundation.Snapshots
import Pawnee.Server.Counters
import Mathlib.Data.Int.Order.Basic

/-!
# The stats page as a snapshot

`send_stats` reads the counters one by one and does not take the semaphore, so
other processes can count between its reads.  For each child a run of the server
is a run of a reader of the counters (`Run.history`).  So its page shows the
counters of one moment if no counter changes that is still to be read, once one
has changed that has been read (`showsMoment_iff_untorn`).  A page that is torn
can show more responses than connections (`torn_page`).
-/

namespace Pawnee

open CText Effects LockedCounters Snapshots

/-! ## What a child reads for its page -/

/-- The `write` of a header section. -/
def isHeader : ServerEvent → Bool
  | ⟨.write .header _, _⟩ => true
  | _ => false

/-- A counter and the value that was read. -/
def loadedValue : ServerEvent → Option (Counter × Int)
  | ⟨.load c, v⟩ => some (c, Int32.toInt v)
  | _ => none

/-- The reads behind the header section.  They are those for the stats page. -/
def pageReads (tr : List ServerEvent) : List (Counter × Int) :=
  (tr.dropWhile fun ev => !isHeader ev).filterMap loadedValue

theorem pageReads_of_before {tr tr' : List ServerEvent} (h : ∀ ev ∈ tr, isHeader ev = false) :
    pageReads (tr ++ tr') = pageReads tr' := by
  rw [pageReads, List.dropWhile_append_of_pos fun ev hev => by rw [h ev hev]; rfl]
  rfl

theorem pageReads_append (tr tr' : List ServerEvent) :
    (pageReads tr = [] ∧ pageReads (tr ++ tr') = pageReads tr') ∨
      pageReads (tr ++ tr') = pageReads tr ++ tr'.filterMap loadedValue := by
  unfold pageReads
  rw [List.dropWhile_append]
  cases hdrop : tr.dropWhile fun ev => !isHeader ev with
  | nil => exact .inl ⟨rfl, rfl⟩
  | cons ev rest => exact .inr List.filterMap_append

theorem loadedValue_header {ev : ServerEvent} (h : isHeader ev = true) : loadedValue ev = none := by
  obtain ⟨e, r⟩ := ev
  cases e with
  | load c => cases h
  | _ => rfl

/-- One more call is one more read at most. -/
theorem pageReads_snoc (tr : List ServerEvent) (ev : ServerEvent) :
    pageReads (tr ++ [ev]) = pageReads tr ∨
      ∃ p, loadedValue ev = some p ∧ pageReads (tr ++ [ev]) = pageReads tr ++ [p] := by
  have hone : pageReads [ev] = [] := by
    cases hev : isHeader ev with
    | false => simp [pageReads, hev]
    | true => simp [pageReads, hev, loadedValue_header hev]
  rcases pageReads_append tr [ev] with ⟨hnil, happend⟩ | happend
  · left
    rw [happend, hnil, hone]
  · cases hload : loadedValue ev with
    | none => exact .inl (by simpa [hload] using happend)
    | some p => exact .inr ⟨p, rfl, by simpa [hload] using happend⟩

theorem pageReads_of_prefixed {tr tr' : List ServerEvent} (h : tr <+: tr') :
    pageReads tr <+: pageReads tr' := by
  obtain ⟨rest, rfl⟩ := h
  rcases pageReads_append tr rest with ⟨hnil, -⟩ | happend
  · rw [hnil]
    exact List.nil_prefix
  · rw [happend]
    exact List.prefix_append _ _

theorem pageReads_private {tr : List ServerEvent} (h : ∀ e ∈ Prog.callsOf tr, IsPrivate e) :
    pageReads tr = [] := by
  refine List.filterMap_eq_nil_iff.mpr fun ev hev => ?_
  have hprivate := h ev.1 (List.mem_map_of_mem ((List.dropWhile_sublist _).subset hev))
  obtain ⟨e, r⟩ := ev
  cases e with
  | load c => exact hprivate.elim
  | _ => rfl

/-- Nothing is read for a page before the header section. -/
theorem isHeader_before {env : Env} {c : Course} (hc : c.Private env) {tr : List ServerEvent}
    {v : Int32} (hcalls : Prog.callsOf tr = c.before) :
    ∀ ev ∈ tr ++ countEvents v c.counter, isHeader ev = false := by
  intro ev hev
  rcases List.mem_append.mp hev with hev | hev
  · have hprep := hc.before ev.1 (hcalls ▸ List.mem_map_of_mem hev)
    obtain ⟨e, r⟩ := ev
    cases e with
    | write part data => simp [IsPreparation, IsLookup] at hprep
    | _ => rfl
  · cases hcounter : c.counter with
    | none => simp [hcounter, countEvents] at hev
    | some k =>
        simp only [hcounter, countEvents, List.mem_cons, List.not_mem_nil, or_false] at hev
        rcases hev with rfl | rfl | rfl | rfl <;> rfl

theorem pageReads_head (env : Env) (q : Request) (started written : Int) (tr : List ServerEvent) :
    pageReads (statsHeadEvents env q started written ++ tr) = tr.filterMap loadedValue := rfl

theorem loadedValue_page (env : Env) (values : Counter → Int32) (n : Int) :
    ((env.statsOrder.counters.map fun c => (⟨.load c, values c⟩ : ServerEvent)) ++
      [(⟨.write .body (statsPage values), n⟩ : ServerEvent)]).filterMap loadedValue =
        env.statsOrder.counters.map fun c => (c, (values c).toInt) := by
  have hloads : ∀ c, loadedValue ⟨.load c, values c⟩ = some (c, (values c).toInt) := fun _ => rfl
  have hpage : [(⟨.write .body (statsPage values), n⟩ : ServerEvent)].filterMap loadedValue = [] :=
    rfl
  rw [List.filterMap_append, List.filterMap_map, hpage, List.append_nil]
  simp only [Function.comp_def, hloads, List.filterMap_eq_map']

/-- The reads of the child for its page are a part of the reads of all counters. -/
theorem runs_pageReads {env : Env} {flux : Option Str} {tr : List ServerEvent}
    {out : Except Halt Unit} (h : Prog.Runs (respondClient env flux) tr out) :
    ∃ values : Counter → Int32,
      pageReads tr <+: env.statsOrder.counters.map fun c => (c, (values c).toInt) := by
  rw [respondClient_eq] at h
  have hprivate := course_private env flux
  generalize course env flux = course at h hprivate
  obtain ⟨tr₁, v, tr₂, rfl, hcalls, h₂⟩ := runs_course_split h
  rw [pageReads_of_before (isHeader_before hprivate hcalls)]
  have hlead := hprivate.lead
  generalize course.ending = ending at h₂ hlead
  cases ending with
  | calls l halt =>
      obtain ⟨_, -, hmakes⟩ := runs_ending h₂
      generalize hl : Prog.callsOf tr₂ = l' at hmakes
      cases hmakes
      have hnil : pageReads tr₂ = [] := pageReads_private fun e he => hlead e (hl ▸ he)
      exact ⟨fun _ => 0, hnil ▸ List.nil_prefix⟩
  | statsPage q =>
      obtain ⟨-, started, written, tr', rfl, rfl | ⟨values, n, rfl⟩⟩ := runs_statsEnding h₂
      · exact ⟨fun _ => 0, List.nil_prefix⟩
      · refine ⟨values, ?_⟩
        rw [pageReads_head, loadedValue_page]

theorem Child.Sound.nodup_pageReads {c : Child} (h : c.Sound) :
    ((pageReads c.done).map Prod.fst).Nodup := by
  obtain ⟨tr, out, hruns⟩ := Prog.Steps.complete h
  obtain ⟨values, hreads⟩ := runs_pageReads hruns
  have hdone := (pageReads_of_prefixed (List.prefix_append c.done tr)).trans hreads
  have hsub := (hdone.map Prod.fst).sublist
  rw [List.map_map] at hsub
  exact hsub.nodup (by simpa [Function.comp_def] using c.conn.env.statsOrder.nodup)

theorem observed_bodyPiece_loads (counters : List Counter) (values : Counter → Int32) :
    observed bodyPiece (counters.map fun c => (⟨.load c, values c⟩ : ServerEvent)) = [] := by
  rw [observed, callsOf_loads]
  refine filterMap_ignored fun e he => ?_
  obtain ⟨c, -, rfl⟩ := List.mem_map.mp he
  rfl

/-- No body is sent before the reads for the page. -/
theorem observed_bodyPiece_before {env : Env} {c : Course} (hc : c.Private env) {q : Request}
    {tr : List ServerEvent} (hcalls : Prog.callsOf tr = c.before) (v : Int32)
    (started written : Int) :
    observed bodyPiece (tr ++ countEvents v c.counter ++ statsHeadEvents env q started written) =
      [] := by
  have hbefore : observed bodyPiece tr = [] := by
    rw [observed, hcalls]
    exact seesWrites_bodyPiece.filterMap_preparation hc.before
  have hcount : observed bodyPiece (countEvents v c.counter) = [] := by
    cases c.counter <;> rfl
  have hhead : observed bodyPiece (statsHeadEvents env q started written) = [] := rfl
  rw [observed_append, observed_append, hbefore, hcount, hhead, List.append_nil, List.append_nil]

/-- A child that has sent its page has read all counters for it. -/
theorem Child.Sound.page_eq {c : Child} (h : c.Sound) {q : Request}
    (hq : (course c.conn.env c.conn.flux).ending = .statsPage q) {page : Str}
    (hpage : page ∈ observed bodyPiece c.done) :
    ∃ values : Counter → Int32, page = statsPage values ∧
      pageReads c.done = c.conn.env.statsOrder.counters.map fun k => (k, (values k).toInt) := by
  have hsub : ∀ tr, c.done <+: tr → observed bodyPiece tr ≠ [] := by
    rintro tr ⟨rest, rfl⟩ hnil
    rw [observed_append] at hnil
    rw [(List.append_eq_nil_iff.mp hnil).1] at hpage
    cases hpage
  obtain ⟨tr, out, hruns⟩ := Prog.Steps.complete h
  have hprivate := course_private c.conn.env c.conn.flux
  rw [respondClient_eq] at hruns
  generalize course c.conn.env c.conn.flux = course at hruns hprivate hq
  obtain ⟨tr₁, v, tr₂, htr, hcalls, h₂⟩ := runs_course_split hruns
  rw [hq] at h₂
  obtain ⟨-, started, written, tr', rfl, htr'⟩ := runs_statsEnding h₂
  have hbefore := observed_bodyPiece_before (q := q) hprivate hcalls v started written
  have hdone : c.done <+: tr₁ ++ countEvents v course.counter ++
      statsHeadEvents c.conn.env q started written ++ tr' :=
    ⟨tr, htr.trans (List.append_assoc _ _ _).symm⟩
  rcases htr' with rfl | ⟨values, n, rfl⟩
  · rw [List.append_nil] at hdone
    exact absurd hbefore (hsub _ hdone)
  · have hloads := observed_bodyPiece_loads c.conn.env.statsOrder.counters values
    rw [← List.append_assoc, List.prefix_concat_iff] at hdone
    rcases hdone with hwhole | hpart
    · rw [hwhole, observed_append, observed_append, hbefore, hloads, List.nil_append] at hpage
      refine ⟨values, List.mem_singleton.mp hpage, ?_⟩
      rw [hwhole]
      simp only [List.append_assoc]
      rw [← List.append_assoc, pageReads_of_before (isHeader_before hprivate hcalls),
        pageReads_head, loadedValue_page]
    · -- before the page is sent there is no body
      refine absurd ?_ (hsub _ hpart)
      rw [observed_append, hbefore, hloads, List.append_nil]

/-! ## The run as a run of a reader -/

/-- The calls of a child, none before its fork. -/
def Sys.historyOf (s : Sys) (i : Nat) : List ServerEvent := (s.children[i]?.map Child.done).getD []

/-- The counters, and what a child has read of them for its page. -/
def Sys.view (i : Nat) (s : Sys) : View Counter Int := ⟨s.read, pageReads (s.historyOf i)⟩

/-- A step adds at most one call to the history of a child. -/
theorem Step.historyOf {s s' : Sys} (h : Step s s') (i : Nat) :
    s'.historyOf i = s.historyOf i ∨
      ∃ ev, touch s.memory ev = some s'.memory ∧ s'.historyOf i = s.historyOf i ++ [ev] := by
  cases h with
  | @parent m m' done e k children r ht =>
      left
      rcases Nat.lt_or_ge i children.length with hlt | hge
      · simp only [Sys.historyOf, List.getElem?_append_left hlt]
      · -- a child that has just been forked has done nothing
        simp only [Sys.historyOf, List.getElem?_append_right hge, List.getElem?_eq_none hge]
        unfold started
        split
        · cases i - children.length <;> simp [Child.start]
        · simp
  | again => exact .inl rfl
  | @child m m' done done' parent e k conn pre post r ht =>
      rcases Nat.lt_trichotomy i pre.length with hlt | rfl | hgt
      · left
        simp only [Sys.historyOf, List.getElem?_append_left hlt]
      · right
        exact ⟨⟨e, r⟩, ht, by simp [Sys.historyOf]⟩
      · left
        have hrest : i - pre.length = i - pre.length - 1 + 1 := by omega
        simp only [Sys.historyOf, List.getElem?_append_right hgt.le]
        rw [hrest, List.getElem?_cons_succ, List.getElem?_cons_succ]

/-- A call changes one counter at most. -/
theorem touch_cell {m m' : SharedMemory} {ev : ServerEvent} (h : touch m ev = some m') :
    ∃ c, ∀ c', c' ≠ c → m'.cell c' = m.cell c' := by
  unfold touch at h
  split at h
  · cases h
    exact ⟨.servedConnections, fun _ _ => rfl⟩
  · rcases Memory.perform_cell h with hcell | ⟨c, v, -, hcell⟩
    · exact ⟨.servedConnections, fun _ _ => by rw [hcell]⟩
    · exact ⟨c, fun c' hne => by rw [hcell, Function.update_of_ne hne]⟩

/-- A read finds the value that is there and changes nothing. -/
theorem touch_load {m m' : SharedMemory} {ev : ServerEvent} (h : touch m ev = some m')
    {p : Counter × Int} (hp : loadedValue ev = some p) :
    m' = m ∧ p = (p.1, (m.cell p.1).toInt) := by
  obtain ⟨e, r⟩ := ev
  cases e with
  | load c =>
      cases hp
      obtain ⟨hm, hvalue⟩ := Memory.perform_load_iff.mp h
      exact ⟨hm, by rw [hvalue]⟩
  | _ => cases hp

theorem Step.cell {s s' : Sys} (h : Step s s') : ∃ c, ∀ c', c' ≠ c → s'.read c' = s.read c' := by
  have htouch : ∀ {m m' : SharedMemory} {ev : ServerEvent}, touch m ev = some m' →
      ∃ c, ∀ c', c' ≠ c → (m'.cell c').toInt = (m.cell c').toInt := by
    intro m m' ev ht
    obtain ⟨c, hc⟩ := touch_cell ht
    exact ⟨c, fun c' hne => congrArg Int32.toInt (hc c' hne)⟩
  cases h with
  | parent r ht => exact htouch ht
  | again => exact ⟨.servedConnections, fun _ _ => rfl⟩
  | child r ht => exact htouch ht

theorem Reachable.nodup_pageReads {s : Sys} (hs : Reachable s) (i : Nat) :
    ((pageReads (s.historyOf i)).map Prod.fst).Nodup := by
  unfold Sys.historyOf
  cases hc : s.children[i]? with
  | none => exact List.nodup_nil
  | some c => exact (hs.sound.child c (List.mem_of_getElem? hc)).nodup_pageReads

/-- For each child, a step of the server is a step of a reader. -/
theorem Step.move {s s' : Sys} (h : Step s s') (hs' : Reachable s') (i : Nat) :
    Move (s.view i) (s'.view i) := by
  obtain ⟨c, hc⟩ := h.cell
  have hwrite : (s'.view i).reads = (s.view i).reads → Move (s.view i) (s'.view i) := by
    intro heq
    have hmove : Move (s.view i) ⟨s'.read, (s.view i).reads⟩ := .write c hc
    rwa [← heq] at hmove
  rcases h.historyOf i with heq | ⟨ev, ht, heq⟩
  · exact hwrite (congrArg pageReads heq)
  · rcases pageReads_snoc (s.historyOf i) ev with hsame | ⟨p, hp, hread⟩
    · exact hwrite ((congrArg pageReads heq).trans hsame)
    · obtain ⟨hm, hvalue⟩ := touch_load ht hp
      have hview : s'.view i = ⟨s.read, pageReads (s.historyOf i) ++ [(p.1, s.read p.1)]⟩ := by
        have hreads := (congrArg pageReads heq).trans hread
        rw [hvalue] at hreads
        rw [Sys.view, hreads, show s'.read = s.read by unfold Sys.read; rw [hm]]
        rfl
      have hnew : ¬ (s.view i).HasRead p.1 := by
        rintro ⟨v, hold⟩
        have hnodup := hs'.nodup_pageReads i
        rw [heq, hread, List.map_append, List.nodup_append] at hnodup
        exact hnodup.2.2 p.1 (List.mem_map.mpr ⟨_, hold, rfl⟩) p.1 (List.mem_singleton.mpr rfl) rfl
      rw [hview]
      exact .read hnew

/-- For each child, a run of the server is a run of a reader. -/
theorem Run.history {l : List Sys} (h : Run l) (i : Nat) : History (l.map (Sys.view i)) := by
  induction h with
  | start => exact .start _
  | step h hstep ih =>
      have hreach := (h.step hstep).reachable _ List.mem_cons_self
      exact ih.move (hstep.move hreach i)

/-! ## Counters grow -/

theorem Step.done_grows {s s' : Sys} (h : Step s s') : s.done <+: s'.done := by
  cases h with
  | parent r ht => exact List.prefix_append _ _
  | again => exact List.prefix_rfl
  | child r ht => exact List.prefix_rfl

theorem Step.total_le {s s' : Sys} (h : Step s s') (k : Counter) : s.total k ≤ s'.total k := by
  cases h with
  | parent r ht =>
      simp only [Sys.total_eq, List.flatMap_append, increments_append]
      omega
  | again => exact Nat.le_refl _
  | child r ht =>
      simp only [Sys.total_eq, List.flatMap_append, List.flatMap_cons, increments_append]
      omega

/-- The connections accepted before are accepted at the end of the run. -/
theorem Run.accepted_le {s : Sys} {l : List Sys} (h : Run (s :: l)) :
    ∀ m ∈ s :: l, (accepted m.done).length ≤ (accepted s.done).length := by
  generalize hstates : s :: l = states at h
  induction h generalizing s l with
  | start =>
      cases hstates
      intro m hm
      rw [List.mem_singleton.mp hm]
  | @step x x' l' h hstep ih =>
      cases hstates
      have hle : (accepted x.done).length ≤ (accepted x'.done).length := by
        obtain ⟨rest, hrest⟩ := hstep.done_grows
        rw [← hrest, accepted_append, List.length_append]
        exact Nat.le_add_right _ _
      intro m hm
      rcases List.mem_cons.mp hm with rfl | hm
      · exact le_rfl
      · exact (ih rfl m hm).trans hle

theorem Run.isChain_step {l : List Sys} (h : Run l) : l.IsChain fun s' s => Step s s' := by
  induction h with
  | start => exact List.isChain_singleton _
  | step h hstep ih => exact List.isChain_cons_cons.mpr ⟨hstep, ih⟩

/-- With fewer than `2 ^ 31` connections no counter shrinks. -/
theorem Run.grows {s : Sys} {l : List Sys} (h : Run (s :: l))
    (hlt : (accepted s.done).length < 2147483648) (i : Nat) :
    ((s :: l).map (Sys.view i)).IsChain fun w' w => Grows w w' := by
  have hread : ∀ m ∈ s :: l, ∀ k, m.read k = m.total k := by
    intro m hm k
    have hreach := h.reachable m hm
    exact hreach.read_eq (hreach.total_lt ((h.accepted_le m hm).trans_lt hlt) k)
  refine (List.isChain_map _).mpr (h.isChain_step.imp_of_mem_imp fun s' s hs' hs hstep k => ?_)
  have hle := hstep.total_le k
  simp only [Sys.view, hread s' hs', hread s hs]
  exact Int.ofNat_le.mpr hle

/-! ## When the page is a snapshot -/

/-- The page shows the counters as they were at one moment of the run. -/
def ShowsMoment (l : List Sys) (page : Str) : Prop := ∃ m ∈ l, page = statsPage m.memory.cell

/-- In no step of the run does a counter change that the child has still to read for
its page, while one that it has read has changed since. -/
def Untorn (i : Nat) (l : List Sys) : Prop := l.IsChain fun s' s => Careful (s.view i) (s'.view i)

/-- The page of a snapshot. -/
theorem showsMoment_iff (l : List Sys) (i : Nat) (values : Counter → Int32) (order : ReadOrder) :
    ShowsMoment l (statsPage values) ↔
      IsSnapshot (l.map (Sys.view i)) (order.counters.map fun k => (k, (values k).toInt)) := by
  constructor
  · rintro ⟨m, hm, hpage⟩
    refine ⟨m.view i, List.mem_map_of_mem hm, fun k v hread => ?_⟩
    obtain ⟨k', -, heq⟩ := List.mem_map.mp hread
    obtain ⟨rfl, rfl⟩ := Prod.mk.inj heq
    rw [statsPage_injective hpage]
    rfl
  · rintro ⟨w, hw, hheld⟩
    obtain ⟨m, hm, rfl⟩ := List.mem_map.mp hw
    refine ⟨m, hm, congrArg statsPage (funext fun k => ?_)⟩
    have hk := hheld k _ (List.mem_map.mpr ⟨k, order.mem k, rfl⟩)
    exact (Int32.toInt_inj.mp hk).symm

/-- The numbers of the responses on a page add up to no more than the connections. -/
def AddsUp (page : Str) : Prop :=
  ∀ values : Counter → Int32, page = statsPage values →
    (values .ok200).toInt + (values .ko400).toInt + (values .ko403).toInt +
      (values .ko404).toInt + (values .ko405).toInt ≤ (values .servedConnections).toInt

theorem Reachable.addsUp {s : Sys} (hs : Reachable s)
    (hlt : (accepted s.done).length < 2147483648) : AddsUp (statsPage s.memory.cell) := by
  intro values hpage
  rw [← statsPage_injective hpage]
  exact hs.responses_le hlt

/-- In every run in which no counter changes that a child has still to read for its
page, once one has changed that it has read, the page shows the counters as they
were at one moment.  With fewer than `2 ^ 31` connections there is no other such
run, and the numbers on the page add up. -/
theorem showsMoment_iff_untorn {s : Sys} {l : List Sys} (h : Run (s :: l)) {i : Nat} {c : Child}
    (hc : s.children[i]? = some c) {q : Request}
    (hq : (course c.conn.env c.conn.flux).ending = .statsPage q) {page : Str}
    (hpage : page ∈ observed bodyPiece c.done) :
    (Untorn i (s :: l) → ShowsMoment (s :: l) page) ∧
      ((accepted s.done).length < 2147483648 →
        ShowsMoment (s :: l) page → Untorn i (s :: l) ∧ AddsUp page) := by
  have hsound := (h.reachable s List.mem_cons_self).sound.child c (List.mem_of_getElem? hc)
  obtain ⟨values, rfl, hreads⟩ := hsound.page_eq hq hpage
  have hhistory := h.history i
  have hview : (s.view i).reads =
      c.conn.env.statsOrder.counters.map fun k => (k, (values k).toInt) := by
    rw [← hreads, Sys.view, Sys.historyOf, hc]
    rfl
  have huntorn : Untorn i (s :: l) ↔
      ((s :: l).map (Sys.view i)).IsChain fun w' w => Careful w w' :=
    (List.isChain_map (R := fun w' w => Careful w w') (Sys.view i)).symm
  have hshows := showsMoment_iff (s :: l) i values c.conn.env.statsOrder
  refine ⟨fun hcareful => ?_, fun hlt hmoment => ⟨?_, ?_⟩⟩
  · rw [hshows, ← hview]
    exact hhistory.isSnapshot (huntorn.mp hcareful)
  · rw [hshows, ← hview] at hmoment
    refine huntorn.mpr (hhistory.careful (h.grows hlt i) (fun k => ?_) hmoment)
    exact ⟨(values k).toInt, hview ▸ List.mem_map.mpr ⟨k, c.conn.env.statsOrder.mem k, rfl⟩⟩
  · obtain ⟨m, hm, hshown⟩ := hmoment
    rw [hshown]
    exact (h.reachable m hm).addsUp ((h.accepted_le m hm).trans_lt hlt)

/-! ## A page alone and a torn page -/

/-- A connection that asks for the stats page. -/
def statsConnection : Connection where
  env := machine siteFile []
  flux := some "GET /stats HTTP/1.1\r\n\r\n".toList

/-- Its request. -/
def statsRequest : Request := ⟨.get, 1, 1, "/stats".toList, []⟩

/-- Its line in the requests log. -/
def statsEntry : LogEntry := logEntry statsConnection.env statsRequest statsTarget 200

theorem course_statsConnection : course statsConnection.env statsConnection.flux =
    ⟨[.logRequest statsEntry], some .ok200, .statsPage statsRequest⟩ := by
  have hread : readRequest "GET /stats HTTP/1.1\r\n\r\n".toList =
      some ("GET /stats HTTP/1.1\r\n".toList, [], []) := by decide +kernel
  have hq : parseRequest "GET /stats HTTP/1.1\r\n".toList [] = some statsRequest := by
    decide +kernel
  have hbranch : statsRequest.Branch statsConnection.env _ :=
    .stats (by decide) (by decide) (by decide +kernel)
  have hcourse : course statsConnection.env statsConnection.flux =
      statsRequest.course statsConnection.env := by
    simp only [course, statsConnection, hread, hq]
  rw [hcourse, hbranch.course_eq]
  rfl

/-- The calls of its child up to the head of the page, when `ok_200` holds `v`. -/
def statsLead (v : Int32) : List ServerEvent :=
  [⟨.logRequest statsEntry, ()⟩] ++ countEvents v (some .ok200) ++
    statsHeadEvents statsConnection.env statsRequest 0 0

/-- The calls behind, when the counters hold these values. -/
def pageEvents (values : Counter → Int32) : List ServerEvent :=
  (Counter.all.map fun c => ⟨.load c, values c⟩) ++ [⟨.write .body (statsPage values), (0 : Int)⟩]

theorem steps_statsConnection (v : Int32) (values : Counter → Int32) :
    Prog.Steps (respondClient statsConnection.env statsConnection.flux)
      (statsLead v ++ pageEvents values) (.stop .exitSuccess) := by
  have hpage := exists_statsEnding statsConnection.env statsRequest 0 (Int.le_refl 0) values 0
  have hlog : Prog.callsOf [(⟨.logRequest statsEntry, ()⟩ : ServerEvent)] =
      [.logRequest statsEntry] := rfl
  have hruns := runs_course_of_ending
    ⟨[.logRequest statsEntry], some .ok200, .statsPage statsRequest⟩ v hpage hlog
  rw [respondClient_eq, course_statsConnection]
  rw [← List.append_assoc] at hruns
  exact hruns.steps

theorem statsPage_mem_pageEvents (tr : List ServerEvent) (values : Counter → Int32) :
    statsPage values ∈ observed bodyPiece (tr ++ pageEvents values) := by
  rw [observed_append, pageEvents, observed_append]
  exact List.mem_append_right _ (List.mem_append_right _ List.mem_cons_self)

/-- The values when these connections and pages have been counted. -/
def shown (connections ok200 : Int32) : Counter → Int32
  | .servedConnections => connections
  | .ok200 => ok200
  | _ => 0

/-- A child that sends its page while nobody else counts. -/
theorem showsMoment_iff_untorn_alone : ∃ s l, Run (s :: l) ∧
    (Untorn 0 (s :: l) → ShowsMoment (s :: l) (statsPage (shown 1 1))) ∧
      ((accepted s.done).length < 2147483648 →
        ShowsMoment (s :: l) (statsPage (shown 1 1)) →
          Untorn 0 (s :: l) ∧ AddsUp (statsPage (shown 1 1))) := by
  have hstart : Reachable ⟨servedOnce, firstRound statsConnection, .ret (),
      [] ++ ⟨statsConnection, [], respondClient statsConnection.env statsConnection.flux⟩ :: []⟩ :=
    reachable_firstRound statsConnection
  have hchild := hstart.child (steps_statsConnection 0 (shown 1 1)) rfl
  obtain ⟨l, hrun⟩ := hchild.exists_run
  exact ⟨_, l, hrun, showsMoment_iff_untorn hrun rfl
    (congrArg Course.ending course_statsConnection) (statsPage_mem_pageEvents _ _)⟩

/-- The child reads the connections, another connection is accepted and its page
counted, and then the child reads the pages: it shows one connection and two pages. -/
theorem torn_page : ∃ s l c, Run (s :: l) ∧ s.children[0]? = some c ∧
    (course c.conn.env c.conn.flux).ending = .statsPage statsRequest ∧
      statsPage (shown 1 2) ∈ observed bodyPiece c.done ∧
        ¬ ShowsMoment (s :: l) (statsPage (shown 1 2)) ∧ ¬ AddsUp (statsPage (shown 1 2)) := by
  have htorn : ¬ AddsUp (statsPage (shown 1 2)) := by
    intro h
    exact absurd (h _ rfl) (by decide)
  -- the child reads the connections
  obtain ⟨p, hbefore, hbehind⟩ := Prog.Steps.split
    (show Prog.Steps _ ((statsLead 0 ++ [⟨.load .servedConnections, (1 : Int32)⟩]) ++
      (pageEvents (shown 1 2)).tail) _ from steps_statsConnection 0 (shown 1 2))
  have hstart : Reachable ⟨servedOnce, firstRound statsConnection, .ret (),
      [] ++ ⟨statsConnection, [], respondClient statsConnection.env statsConnection.flux⟩ :: []⟩ :=
    reachable_firstRound statsConnection
  have hread := hstart.child hbefore rfl
  -- another connection is accepted
  have hround : Prog.Steps serveOne (roundEvents statsConnection 1 ++
      [⟨.fork statsConnection, true⟩]) (.ret ()) :=
    .cons (.cons (.cons (.cons (.cons (.cons (.cons (.nil _)))))))
  have hforked : Reachable ⟨_, firstRound statsConnection ++
      (roundEvents statsConnection 1 ++ [⟨.fork statsConnection, true⟩]), _,
      [_] ++ ⟨statsConnection, [], respondClient statsConnection.env statsConnection.flux⟩ :: []⟩ :=
    (hread.step .again).parent hround rfl
  -- its child counts a page
  obtain ⟨p', hcount, -⟩ := Prog.Steps.split
    (show Prog.Steps _ (([⟨.logRequest statsEntry, ()⟩] ++ countEvents 1 (some .ok200)) ++ _) _ from
      steps_statsConnection 1 fun _ => 0)
  have hcounted := hforked.child hcount rfl
  -- the first child reads the pages
  have hshown := (show Reachable ⟨_, _, _, [] ++ ⟨statsConnection, _, p⟩ :: [_]⟩ from
    hcounted).child hbehind rfl
  obtain ⟨l, hrun⟩ := hshown.exists_run
  refine ⟨_, l, _, hrun, rfl, congrArg Course.ending course_statsConnection,
    statsPage_mem_pageEvents (statsLead 0) (shown 1 2), ?_, htorn⟩
  rintro ⟨m, hm, hpage⟩
  have hlt : (accepted m.done).length < 2147483648 :=
    (hrun.accepted_le m hm).trans_lt (show (2 : Nat) < 2147483648 by decide)
  refine htorn ?_
  rw [hpage]
  exact (hrun.reachable m hm).addsUp hlt

end Pawnee
