import Pawnee.Server.Progress
import Pawnee.Server.Snapshot

/-!
# Stats pages in time

A stats page may be torn, but it is not old.  Each number on it has been in its
counter at some moment of its child (`Run.read_moment`), so it is no less than what
the counter held before the child was forked and no more than what it holds now.  A
page counts the connection that asks for it and its own response (`page_bounds`),
and no number on a page is smaller than on a page that was sent before the
connection of the other was accepted (`pages_in_order`).
-/

namespace Pawnee

open CText Effects LockedCounters Snapshots

/-! ## When a child reads for its page -/

/-- The stats page is counted as a 200. -/
theorem course_counter_stats {env : Env} {flux : Option Str} {q : Request}
    (h : (course env flux).ending = .statsPage q) : (course env flux).counter = some .ok200 := by
  have hcourse := course_from env flux
  generalize course env flux = c at h hcourse
  cases hcourse with
  | noStream | noLine | rejected => cases h
  | parsed hread hq =>
      obtain ⟨rfl, hm, hv, hr⟩ := Request.stats_of_ending h
      rw [(Request.Branch.stats hm hv hr).course_eq]

/-- A child that has begun to read has counted its response. -/
theorem Child.Sound.stored_of_reads {c : Child} (h : c.Sound) (hreads : pageReads c.done ≠ []) :
    observed storedCounter c.done = [.ok200] := by
  have hprefix := h.history.2
  obtain ⟨tr, out, hruns⟩ := Prog.Steps.complete h
  rw [respondClient_eq] at hruns
  have hprivate := course_private c.conn.env c.conn.flux
  obtain ⟨tr₁, v, tr₂, htr, hcalls, hending⟩ := runs_course_split hruns
  have hbefore := isHeader_before (v := v) hprivate hcalls
  have hdone : pageReads c.done <+: pageReads tr₂ := by
    have hall : pageReads (c.done ++ tr) = pageReads tr₂ := by
      rw [htr]
      exact pageReads_of_before hbefore
    rw [← hall]
    exact pageReads_of_prefixed (List.prefix_append _ _)
  cases hcourse : (course c.conn.env c.conn.flux).ending with
  | calls l halt =>
      rw [hcourse] at hending
      obtain ⟨_, -, hmakes⟩ := runs_ending hending
      have hlead := hprivate.lead
      rw [hcourse] at hlead
      generalize hl : Prog.callsOf tr₂ = l' at hmakes
      cases hmakes
      rw [pageReads_private fun e he => hlead e (hl ▸ he)] at hdone
      exact absurd (List.prefix_nil.mp hdone) hreads
  | statsPage q =>
      have hcounter := course_counter_stats hcourse
      rw [hcounter] at hprefix htr hbefore
      rcases List.prefix_or_prefix_of_prefix (List.prefix_append c.done tr)
        (htr ▸ List.prefix_append _ tr₂) with ⟨rest, hrest⟩ | ⟨rest, hrest⟩
      · -- nothing is read before the header section
        have hnone : pageReads (c.done ++ []) = pageReads [] := pageReads_of_before fun ev hev =>
          hbefore ev (hrest ▸ List.mem_append_left rest hev)
        rw [List.append_nil] at hnone
        exact absurd hnone hreads
      · have hcount : observed storedCounter (countEvents v (some .ok200)) = [.ok200] := rfl
        rw [← hrest, observed_append, observed_append, hcount] at hprefix ⊢
        have hlen := hprefix.length_le
        simp only [List.length_append, List.length_cons, List.length_nil, Option.toList_some]
          at hlen
        rw [List.length_eq_zero_iff.mp
            (show (observed storedCounter tr₁).length = 0 by omega),
          List.length_eq_zero_iff.mp (show (observed storedCounter rest).length = 0 by omega)]
        rfl

/-- A child that has read for its page is there and has counted its response. -/
theorem Reachable.counted_of_reads {s : Sys} (hs : Reachable s) {j : Nat}
    (hreads : pageReads (s.historyOf j) ≠ []) :
    j < s.children.length ∧ observed storedCounter (s.historyOf j) = [.ok200] := by
  unfold Sys.historyOf at hreads ⊢
  cases hc : s.children[j]? with
  | none =>
      rw [hc] at hreads
      exact absurd rfl hreads
  | some c =>
      rw [hc] at hreads
      obtain ⟨hj, -⟩ := List.getElem?_eq_some_iff.mp hc
      exact ⟨hj, (hs.sound.child c (List.mem_of_getElem? hc)).stored_of_reads hreads⟩

/-- Each value that has been read for a page was in its counter at some moment at
which the child was there and had counted its response. -/
theorem Run.read_moment {l : List Sys} (h : Run l) {j : Nat} {s : Sys} (hs : s ∈ l) {k : Counter}
    {v : Int} (hread : (k, v) ∈ pageReads (s.historyOf j)) :
    ∃ m ∈ l, v = m.read k ∧ j < m.children.length ∧
      observed storedCounter (m.historyOf j) = [.ok200] := by
  induction h generalizing s v with
  | start =>
      rw [List.mem_singleton.mp hs] at hread
      cases hread
  | @step s₁ s₂ l h hstep ih =>
      have hold : ∀ {x : Sys}, x ∈ s₁ :: l → (k, v) ∈ pageReads (x.historyOf j) →
          ∃ m ∈ s₂ :: s₁ :: l, v = m.read k ∧ j < m.children.length ∧
            observed storedCounter (m.historyOf j) = [.ok200] := by
        intro x hx hreadx
        obtain ⟨m, hm, hmoment⟩ := ih hx hreadx
        exact ⟨m, List.mem_cons_of_mem _ hm, hmoment⟩
      rcases List.mem_cons.mp hs with rfl | hs
      · rcases hstep.historyOf j with heq | ⟨ev, ht, heq⟩
        · exact hold List.mem_cons_self (heq ▸ hread)
        · rcases pageReads_snoc (s₁.historyOf j) ev with hsame | ⟨p, hp, hnew⟩
          · rw [heq, hsame] at hread
            exact hold List.mem_cons_self hread
          · have hmem := hread
            rw [heq, hnew] at hmem
            rcases List.mem_append.mp hmem with hmem | hmem
            · exact hold List.mem_cons_self hmem
            · -- the value that is read now is still there
              obtain ⟨hm, hvalue⟩ := touch_load ht hp
              rw [List.mem_singleton] at hmem
              rw [← hmem] at hvalue
              have hv : v = (s₁.memory.cell k).toInt := congrArg Prod.snd hvalue
              refine ⟨s, List.mem_cons_self, by rw [hv, Sys.read, hm], ?_⟩
              exact ((h.step hstep).reachable s List.mem_cons_self).counted_of_reads
                (List.ne_nil_of_mem hread)
      · exact hold hs hread

/-! ## How old a page can be -/

/-- What has been read for a page was not more in an earlier state in which the child
was not there yet. -/
theorem Run.read_le_of_unforked {s : Sys} {l : List Sys} (h : Run (s :: l))
    (hlt : (accepted s.done).length < 2147483648) {j : Nat} {m : Sys} (hm : m ∈ s :: l)
    (hj : m.children.length ≤ j) {k : Counter} {v : Int}
    (hread : (k, v) ∈ pageReads (s.historyOf j)) : m.read k ≤ v := by
  have hunread : ¬ (m.view j).HasRead k := by
    rintro ⟨v', hv'⟩
    simp [Sys.view, Sys.historyOf, List.getElem?_eq_none hj, pageReads] at hv'
  exact History.le_reads (h.history j) (h.grows hlt j)
    (show m.view j ∈ (s :: l).map (Sys.view j) from List.mem_map_of_mem hm) hunread hread

/-- What has been read for a page is not more than what is there now. -/
theorem Run.le_read {s : Sys} {l : List Sys} (h : Run (s :: l))
    (hlt : (accepted s.done).length < 2147483648) {j : Nat} {m : Sys} (hm : m ∈ s :: l)
    {k : Counter} {v : Int} (hread : (k, v) ∈ pageReads (m.historyOf j)) : v ≤ m.read k :=
  History.reads_le (h.history j) (h.grows hlt j) (m.view j) (List.mem_map_of_mem hm) k v hread

/-- The connections of the children that are there have been counted. -/
theorem Reachable.length_children_le_read {s : Sys} (hs : Reachable s)
    (hlt : (accepted s.done).length < 2147483648) :
    (s.children.length : Int) ≤ s.read .servedConnections := by
  rw [hs.read_eq (hs.total_lt hlt _), hs.sound.total_connections]
  exact Int.ofNat_le.mpr hs.length_children_le

/-- The response of a child that has counted is in its counter. -/
theorem Reachable.one_le_read {s : Sys} (hs : Reachable s)
    (hlt : (accepted s.done).length < 2147483648) {j : Nat} {k : Counter}
    (hk : k ≠ .servedConnections) (hstored : observed storedCounter (s.historyOf j) = [k]) :
    1 ≤ s.read k := by
  have hchild : ∃ c ∈ s.children, c.counted k = true := by
    unfold Sys.historyOf at hstored
    cases hc : s.children[j]? with
    | none =>
        rw [hc] at hstored
        cases hstored
    | some c =>
        rw [hc] at hstored
        exact ⟨c, List.mem_of_getElem? hc, by
          simp [Child.counted, show observed storedCounter c.done = [k] from hstored]⟩
  rw [hs.read_eq (hs.total_lt hlt _), hs.sound.total_responses hk]
  exact Int.ofNat_le.mpr (List.countP_pos_iff.mpr hchild)

/-- The page of a child, and what the child has read for it. -/
theorem Reachable.page_reads {s : Sys} (hs : Reachable s) {j : Nat} {c : Child}
    (hc : s.children[j]? = some c) {q : Request}
    (hq : (course c.conn.env c.conn.flux).ending = .statsPage q) {page : Str}
    (hpage : page ∈ observed bodyPiece c.done) :
    ∃ values : Counter → Int32, page = statsPage values ∧
      ∀ k, (k, (values k).toInt) ∈ pageReads (s.historyOf j) := by
  obtain ⟨values, hvalues, hreads⟩ :=
    (hs.sound.child c (List.mem_of_getElem? hc)).page_eq hq hpage
  refine ⟨values, hvalues, fun k => ?_⟩
  have hhistory : s.historyOf j = c.done := by rw [Sys.historyOf, hc]; rfl
  rw [hhistory, hreads]
  exact List.mem_map.mpr ⟨k, c.conn.env.statsOrder.mem k, rfl⟩

/-- With fewer than `2 ^ 31` connections, each number on a stats page was in its
counter at a moment at which the child had counted its response.  It is no less than
what the counter held before the child was forked and no more than what it holds now,
and the page counts its own connection, those of all earlier children, and its own
response. -/
theorem page_bounds {s : Sys} {l : List Sys} (h : Run (s :: l))
    (hlt : (accepted s.done).length < 2147483648) {j : Nat} {c : Child}
    (hc : s.children[j]? = some c) {q : Request}
    (hq : (course c.conn.env c.conn.flux).ending = .statsPage q) {page : Str}
    (hpage : page ∈ observed bodyPiece c.done) :
    ∃ values : Counter → Int32, page = statsPage values ∧
      (∀ k, ∃ m ∈ s :: l, (values k).toInt = m.read k ∧
        observed storedCounter (m.historyOf j) = [.ok200]) ∧
      (∀ m ∈ s :: l, m.children.length ≤ j → ∀ k, m.read k ≤ (values k).toInt) ∧
      (∀ k, (values k).toInt ≤ s.read k) ∧
      (j : Int) + 1 ≤ (values .servedConnections).toInt ∧ 1 ≤ (values .ok200).toInt := by
  have hs := h.reachable s List.mem_cons_self
  obtain ⟨values, hvalues, hreads⟩ := hs.page_reads hc hq hpage
  have hmoment : ∀ k, ∃ m ∈ s :: l, (values k).toInt = m.read k ∧ j < m.children.length ∧
      observed storedCounter (m.historyOf j) = [.ok200] := fun k =>
    h.read_moment List.mem_cons_self (hreads k)
  have hbound : ∀ m ∈ s :: l, (accepted m.done).length < 2147483648 := fun m hm =>
    (h.accepted_le m hm).trans_lt hlt
  refine ⟨values, hvalues, fun k => ?_, fun m hm hj k => ?_, fun k => ?_, ?_, ?_⟩
  · obtain ⟨m, hm, hread, -, hstored⟩ := hmoment k
    exact ⟨m, hm, hread, hstored⟩
  · exact h.read_le_of_unforked hlt hm hj (hreads k)
  · exact h.le_read hlt List.mem_cons_self (hreads k)
  · obtain ⟨m, hm, hread, hj, -⟩ := hmoment .servedConnections
    have hle := (h.reachable m hm).length_children_le_read (hbound m hm)
    omega
  · obtain ⟨m, hm, hread, -, hstored⟩ := hmoment .ok200
    rw [hread]
    exact (h.reachable m hm).one_le_read (hbound m hm) (by decide) hstored

/-! ## Two pages -/

/-- The numbers on a page that was sent before the child of another was forked are no
larger than those on the other. -/
theorem pages_in_order {s m : Sys} {l : List Sys} (h : Run (s :: l))
    (hlt : (accepted s.done).length < 2147483648) (hm : m ∈ s :: l) {i j : Nat} {c c' : Child}
    (hc : m.children[i]? = some c) (hc' : s.children[j]? = some c') (hj : m.children.length ≤ j)
    {q q' : Request} (hq : (course c.conn.env c.conn.flux).ending = .statsPage q)
    (hq' : (course c'.conn.env c'.conn.flux).ending = .statsPage q') {page page' : Str}
    (hpage : page ∈ observed bodyPiece c.done) (hpage' : page' ∈ observed bodyPiece c'.done) :
    ∃ values values' : Counter → Int32, page = statsPage values ∧ page' = statsPage values' ∧
      ∀ k, (values k).toInt ≤ (values' k).toInt := by
  obtain ⟨values, hvalues, hreads⟩ := (h.reachable m hm).page_reads hc hq hpage
  obtain ⟨values', hvalues', hreads'⟩ :=
    (h.reachable s List.mem_cons_self).page_reads hc' hq' hpage'
  exact ⟨values, values', hvalues, hvalues', fun k =>
    (h.le_read hlt hm (hreads k)).trans (h.read_le_of_unforked hlt hm hj (hreads' k))⟩

/-! ## One page behind the other -/

/-- A run can go on. -/
theorem Run.extend {m s : Sys} {l : List Sys} (h : Run (m :: l)) (hleads : Leads m s) :
    ∃ l', Run (s :: l') ∧ m ∈ s :: l' := by
  induction hleads with
  | refl => exact ⟨l, h, List.mem_cons_self⟩
  | tail _ hstep ih =>
      obtain ⟨l', hrun, hmem⟩ := ih
      exact ⟨_, hrun.step hstep, List.mem_cons_of_mem _ hmem⟩

/-- The child of a stats page that has sent it, when `ok_200` held `v`. -/
def statsChild (v : Int32) (values : Counter → Int32) : Child :=
  ⟨statsConnection, statsLead v ++ pageEvents values, .stop .exitSuccess⟩

/-- The server after one stats page. -/
def afterPage : Sys :=
  ⟨⟨1, Function.update (Function.update (fun _ => 0) .servedConnections 1) .ok200 1⟩,
    firstRound statsConnection, .ret (), [statsChild 0 (shown 1 1)]⟩

theorem reachable_afterPage : Reachable afterPage := by
  have hstart : Reachable ⟨servedOnce, firstRound statsConnection, .ret (),
      [] ++ ⟨statsConnection, [], respondClient statsConnection.env statsConnection.flux⟩ :: []⟩ :=
    reachable_firstRound statsConnection
  exact hstart.child (steps_statsConnection 0 (shown 1 1)) rfl

/-- The server after two. -/
def afterPages : Sys :=
  ⟨⟨1, Function.update (Function.update afterPage.memory.cell .servedConnections 2) .ok200 2⟩,
    afterPage.done ++ (roundEvents statsConnection 1 ++ [⟨.fork statsConnection, true⟩]), .ret (),
    [statsChild 0 (shown 1 1), statsChild 1 (shown 2 2)]⟩

theorem afterPage_leads : Leads afterPage afterPages := by
  have hround : Prog.Steps serveOne (roundEvents statsConnection 1 ++
      [⟨.fork statsConnection, true⟩]) (.ret ()) :=
    .cons (.cons (.cons (.cons (.cons (.cons (.cons (.nil _)))))))
  have hforked : Leads ⟨afterPage.memory, afterPage.done, serveOne, afterPage.children⟩
      ⟨⟨1, Function.update afterPage.memory.cell .servedConnections 2⟩, afterPages.done, .ret (),
        [statsChild 0 (shown 1 1), .start statsConnection]⟩ := Leads.parent hround rfl
  have hchild : Leads ⟨⟨1, Function.update afterPage.memory.cell .servedConnections 2⟩,
      afterPages.done, .ret (), [statsChild 0 (shown 1 1)] ++ .start statsConnection :: []⟩
      afterPages := Leads.child (steps_statsConnection 1 (shown 2 2)) rfl
  exact .head .again (hforked.trans hchild)

/-- A page behind another. -/
theorem page_bounds_second : ∃ l, Run (afterPages :: l) ∧
    ∃ values : Counter → Int32, statsPage (shown 2 2) = statsPage values ∧
      (∀ k, ∃ m ∈ afterPages :: l, (values k).toInt = m.read k ∧
        observed storedCounter (m.historyOf 1) = [.ok200]) ∧
      (∀ m ∈ afterPages :: l, m.children.length ≤ 1 → ∀ k, m.read k ≤ (values k).toInt) ∧
      (∀ k, (values k).toInt ≤ afterPages.read k) ∧
      ((1 : Nat) : Int) + 1 ≤ (values .servedConnections).toInt ∧ 1 ≤ (values .ok200).toInt := by
  obtain ⟨l, hrun⟩ := (reachable_afterPage.leads afterPage_leads).exists_run
  exact ⟨l, hrun, page_bounds hrun (show (2 : Nat) < 2147483648 by decide) rfl
    (congrArg Course.ending course_statsConnection) (statsPage_mem_pageEvents _ _)⟩

/-- The two pages are in order. -/
theorem pages_in_order_two : ∃ values values' : Counter → Int32,
    statsPage (shown 1 1) = statsPage values ∧ statsPage (shown 2 2) = statsPage values' ∧
      ∀ k, (values k).toInt ≤ (values' k).toInt := by
  obtain ⟨l, hrun⟩ := reachable_afterPage.exists_run
  obtain ⟨l', hrun', hmem⟩ := hrun.extend afterPage_leads
  have hq := congrArg Course.ending course_statsConnection
  exact pages_in_order hrun' (show (2 : Nat) < 2147483648 by decide) hmem
    (show afterPage.children[0]? = some (statsChild 0 (shown 1 1)) from rfl)
    (show afterPages.children[1]? = some (statsChild 1 (shown 2 2)) from rfl) (Nat.le_refl 1) hq hq
    (statsPage_mem_pageEvents _ _) (statsPage_mem_pageEvents _ _)

end Pawnee
