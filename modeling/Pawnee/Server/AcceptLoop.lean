import Pawnee.Server.Histories

/-!
# The loop of the parent

A failed `accept` or `getpeername` is the end of the server: the parent logs it
and exits.  Nothing else takes the parent out of its loop if the forks succeed,
whatever the children do (`parent_loop`).
-/

namespace Pawnee

open CText Effects

/-! ## Where the parent is -/

/-- The call of the loop that the parent is about to make, or the end of a round. -/
inductive InLoop : Server Unit → Prop
  | accept {k : Answer .accept → Server Unit} : InLoop (.op .accept k)
  | getpeername {k : Answer .getpeername → Server Unit} : InLoop (.op .getpeername k)
  | semWait {k : Answer .semWait → Server Unit} : InLoop (.op .semWait k)
  | load {c : Counter} {k : Answer (.load c) → Server Unit} : InLoop (.op (.load c) k)
  | store {c : Counter} {v : Int32} {k : Answer (.store c v) → Server Unit} :
      InLoop (.op (.store c v) k)
  | semPost {k : Answer .semPost → Server Unit} : InLoop (.op .semPost k)
  | fork {conn : Connection} {k : Answer (.fork conn) → Server Unit} : InLoop (.op (.fork conn) k)
  | finished : InLoop (.ret ())

/-- The parent has left the loop: it writes its last log line and exits. -/
inductive Leaving : Server Unit → Prop
  | logError {m : Str} : Leaving (.op (.logError m) fun _ => exitFailure)
  | exited : Leaving exitFailure

theorem Leaving.not_inLoop {p : Server Unit} (h : Leaving p) : ¬ InLoop p := by
  intro hin
  cases h <;> cases hin

/-- A connection fails: `accept` does, or the peer is gone when its name is asked
for. -/
def ConnectionFails (ev : ServerEvent) : Prop :=
  ev = ⟨.accept, (none : Option Connection)⟩ ∨ ev = ⟨.getpeername, false⟩

/-- The forks of these calls succeed. -/
def ForksSucceed (tr : List ServerEvent) : Prop :=
  ∀ conn, (⟨.fork conn, false⟩ : ServerEvent) ∉ tr

/-- The calls of a round so far, and where the parent is. -/
theorem steps_serveOne {tr : List ServerEvent} {p : Server Unit} (h : Prog.Steps serveOne tr p)
    (hfork : ForksSucceed tr) :
    (InLoop p ∧ ∀ ev ∈ tr, ¬ ConnectionFails ev) ∨ (Leaving p ∧ ∃ ev ∈ tr, ConnectionFails ev) := by
  have hexit : ∀ {m : Str} {tr : List ServerEvent} {p : Server Unit},
      Prog.Steps (.op (.logError m) fun _ => exitFailure) tr p → Leaving p := by
    intro m tr p h
    rcases Prog.steps_op_iff.mp h with ⟨rfl, rfl⟩ | ⟨r, tr, rfl, hrest⟩
    · exact .logError
    · obtain ⟨rfl, rfl⟩ := Prog.steps_stop_iff.mp hrest
      exact .exited
  rcases Prog.steps_op_iff.mp h with ⟨rfl, rfl⟩ | ⟨client, tr₁, rfl, h₁⟩
  · exact .inl ⟨.accept, by simp⟩
  cases client with
  | none => exact .inr ⟨hexit h₁, _, List.mem_cons_self, .inl rfl⟩
  | some conn =>
      rcases Prog.steps_op_iff.mp h₁ with ⟨rfl, rfl⟩ | ⟨named, tr₂, rfl, h₂⟩
      · exact .inl ⟨.getpeername, by simp [ConnectionFails]⟩
      cases named with
      | false => exact .inr ⟨hexit h₂, _, List.mem_cons_of_mem _ List.mem_cons_self, .inr rfl⟩
      | true =>
          rcases Prog.steps_op_iff.mp h₂ with ⟨rfl, rfl⟩ | ⟨_, tr₃, rfl, h₃⟩
          · exact .inl ⟨.semWait, by simp [ConnectionFails]⟩
          rcases Prog.steps_op_iff.mp h₃ with ⟨rfl, rfl⟩ | ⟨v, tr₄, rfl, h₄⟩
          · exact .inl ⟨.load, by simp [ConnectionFails]⟩
          rcases Prog.steps_op_iff.mp h₄ with ⟨rfl, rfl⟩ | ⟨_, tr₅, rfl, h₅⟩
          · exact .inl ⟨.store, by simp [ConnectionFails]⟩
          rcases Prog.steps_op_iff.mp h₅ with ⟨rfl, rfl⟩ | ⟨_, tr₆, rfl, h₆⟩
          · exact .inl ⟨.semPost, by simp [ConnectionFails]⟩
          rcases Prog.steps_op_iff.mp h₆ with ⟨rfl, rfl⟩ | ⟨forked, tr₇, rfl, h₇⟩
          · exact .inl ⟨.fork, by simp [ConnectionFails]⟩
          cases forked with
          | false => exact absurd (by simp) (hfork conn)
          | true =>
              obtain ⟨rfl, rfl⟩ := Prog.steps_ret_iff.mp h₇
              exact .inl ⟨.finished, by simp [ConnectionFails]⟩

/-! ## Every run -/

/-- A round that has ended well had no failure. -/
theorem not_connectionFails_of_round {tr : List ServerEvent} {a : Unit}
    (h : Prog.Runs serveOne tr (.ok a)) : ∀ ev ∈ tr, ¬ ConnectionFails ev := by
  cases runs_serveOne h with
  | forked conn v => simp [roundEvents, countEvents, ConnectionFails]

/-- While the forks succeed, the parent leaves its loop exactly when a connection
fails. -/
theorem rounds_loop {tr : List ServerEvent} {p : Server Unit} (h : Prog.Rounds serveOne tr p)
    (hfork : ForksSucceed tr) :
    (InLoop p ∧ ∀ ev ∈ tr, ¬ ConnectionFails ev) ∨ (Leaving p ∧ ∃ ev ∈ tr, ConnectionFails ev) := by
  obtain ⟨done, cur, rfl, hdone, hcur⟩ := h.split
  have hbefore : ∀ ev ∈ done.flatten, ¬ ConnectionFails ev := by
    intro ev hev
    obtain ⟨round, hround, hev⟩ := List.mem_flatten.mp hev
    obtain ⟨a, hruns⟩ := hdone round hround
    exact not_connectionFails_of_round hruns ev hev
  rcases steps_serveOne hcur fun conn hc => hfork conn (List.mem_append_right _ hc) with
    ⟨hin, hcalm⟩ | ⟨hleaving, ev, hev, hfails⟩
  · refine .inl ⟨hin, fun ev hev => ?_⟩
    rcases List.mem_append.mp hev with hev | hev
    · exact hbefore ev hev
    · exact hcalm ev hev
  · exact .inr ⟨hleaving, ev, List.mem_append_right _ hev, hfails⟩

/-- In every run of the server and its children in which no fork fails, the
parent is in its loop if and only if no connection has failed so far, and it is on
its way out if one has.  At the end of a round it goes on with the next `accept`,
whatever the children do. -/
theorem parent_loop {s : Sys} (hs : Reachable s) (hfork : ForksSucceed s.done) :
    (InLoop s.parent ↔ ∀ ev ∈ s.done, ¬ ConnectionFails ev) ∧
      (Leaving s.parent ↔ ∃ ev ∈ s.done, ConnectionFails ev) ∧
      (s.parent = .ret () → ∀ s', Step s s' →
        s'.parent = .ret () ∨ ∃ k : Answer .accept → Server Unit, s'.parent = .op .accept k) := by
  refine ⟨?_, ?_, fun hend s' hstep => ?_⟩
  · rcases rounds_loop hs.sound.parent hfork with ⟨hin, hcalm⟩ | ⟨hleaving, ev, hev, hfails⟩
    · exact iff_of_true hin hcalm
    · exact iff_of_false hleaving.not_inLoop fun hcalm => hcalm ev hev hfails
  · rcases rounds_loop hs.sound.parent hfork with ⟨hin, hcalm⟩ | ⟨hleaving, hfails⟩
    · exact iff_of_false (fun hleaving => hleaving.not_inLoop hin)
        fun ⟨ev, hev, hfails⟩ => hcalm ev hev hfails
    · exact iff_of_true hleaving hfails
  · cases hstep with
    | parent r ht => cases hend
    | again => exact .inr ⟨_, rfl⟩
    | child r ht => exact .inl hend

/-- The parent after a page has been served. -/
theorem parent_loop_page :
    (InLoop (Sys.served pageConnection).parent ↔
        ∀ ev ∈ (Sys.served pageConnection).done, ¬ ConnectionFails ev) ∧
      (Leaving (Sys.served pageConnection).parent ↔
        ∃ ev ∈ (Sys.served pageConnection).done, ConnectionFails ev) ∧
      ((Sys.served pageConnection).parent = .ret () → ∀ s', Step (Sys.served pageConnection) s' →
        s'.parent = .ret () ∨ ∃ k : Answer .accept → Server Unit, s'.parent = .op .accept k) :=
  parent_loop reachable_served_page
    (by simp [ForksSucceed, Sys.served, firstRound, roundEvents, countEvents])

/-- A peer that resets its connection before its name is asked for ends the server. -/
theorem peer_reset_ends_server :
    ∃ s, Reachable s ∧ ForksSucceed s.done ∧ s.parent = exitFailure ∧ ¬ InLoop s.parent := by
  have hround : Prog.Runs serveOne [⟨.accept, some pageConnection⟩, ⟨.getpeername, false⟩,
      ⟨.logError "getpeername error".toList, ()⟩] (.error .exitFailure) :=
    .op (.op (.op (.stop _)))
  refine ⟨_, Reachable.start.parent hround.steps rfl, ?_, rfl, Leaving.exited.not_inLoop⟩
  simp [ForksSucceed]

end Pawnee
