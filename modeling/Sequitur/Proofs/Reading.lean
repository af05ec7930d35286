import Sequitur.Proofs.Machine
import Sequitur.Proofs.Replay

/-! # What a run owes to its lines

A run reads its lines from the front and stops at the one that closes the
goal. It is settled by the lines up to there: what follows them does not
matter, and with fewer of them the goal stays open. Among the lines that are
read, those that fail do not matter either. They can be left out, and others
can be put in wherever they fail, without a change to the end of the run. A
session reads its goal and then what the run needs, and no line beyond.
-/

namespace Sequitur

/-- The tactic on a line fails. -/
def Sequent.Refuses (sequent : Sequent) (line : String) : Prop :=
  ∃ error, sequent.performLine (Text.chomp line) = .error error

namespace Elaboration

/-! ## Lines that settle a run -/

/-- A run that is over does not look at further lines. -/
theorem run_append_of_proved {sequent : Sequent} {front : List String} {term : Term}
    (hproved : (run sequent front).ending = .proved term) (back : List String) :
    run sequent (front ++ back) = run sequent front := by
  induction front generalizing sequent term with
  | nil => cases hproved
  | cons line rest ih =>
      rw [List.cons_append]
      rcases hstep : sequent.performLine (Text.chomp line) with error | (closing | ⟨sub, frame⟩)
      · rw [run_of_error hstep] at hproved
        rw [run_of_error hstep, run_of_error hstep, ih hproved]
      · rw [run_of_closed hstep, run_of_closed hstep]
      · rw [run_of_subgoal hstep] at hproved
        obtain ⟨inner, hinner, -⟩ := Ending.fill_eq_proved.mp hproved
        rw [run_of_subgoal hstep, run_of_subgoal hstep, ih hinner]

/-- The lines that a run has read are enough for it. -/
theorem run_take_linesRead (sequent : Sequent) (lines : List String) :
    run sequent (lines.take (run sequent lines).linesRead.length) = run sequent lines := by
  fun_induction run sequent lines with
  | case1 sequent => rfl
  | case2 sequent line rest command error hstep ih =>
      rw [linesRead_after, List.length_cons, List.take_succ_cons, run_of_error hstep, ih]
  | case3 sequent line rest command term hstep =>
      exact run_of_closed hstep _
  | case4 sequent line rest command sub frame hstep ih =>
      rw [linesRead_after, linesRead_within, List.length_cons, List.take_succ_cons,
        run_of_subgoal hstep, ih]

/-- Two lists of lines make up the same run if they agree on the lines that one of them needs to
find a term. -/
theorem run_eq_of_take_eq {sequent : Sequent} {lines others : List String} {term : Term}
    (hproved : (run sequent lines).ending = .proved term)
    (hagree : others.take (run sequent lines).linesRead.length =
      lines.take (run sequent lines).linesRead.length) :
    run sequent others = run sequent lines := by
  let count := (run sequent lines).linesRead.length
  have hfront : run sequent (others.take count) = run sequent lines := by
    rw [hagree]
    exact run_take_linesRead sequent lines
  have hover : (run sequent (others.take count)).ending = .proved term := by
    rw [hfront, hproved]
  calc run sequent others
      = run sequent (others.take count ++ others.drop count) := by rw [List.take_append_drop]
    _ = run sequent (others.take count) := run_append_of_proved hover _
    _ = run sequent lines := hfront

/-- With fewer lines than it reads, a run comes to no end. -/
theorem exists_exhausted_of_lt {sequent : Sequent} {lines : List String} {count : Nat}
    (hcount : count < (run sequent lines).linesRead.length) :
    ∃ unproved, (run sequent (lines.take count)).ending = .exhausted unproved := by
  cases hending : (run sequent (lines.take count)).ending with
  | exhausted unproved => exact ⟨unproved, rfl⟩
  | proved term =>
      -- A run that is over after so few lines would not have read more of them.
      have hsame : run sequent lines = run sequent (lines.take count) := by
        conv_lhs => rw [← List.take_append_drop count lines]
        exact run_append_of_proved hending _
      have hread := linesRead_length_le sequent (lines.take count)
      rw [← hsame] at hread
      have htake : (lines.take count).length ≤ count := List.length_take_le count lines
      omega

theorem linesRead_eq_map_take (sequent : Sequent) (lines : List String) :
    (run sequent lines).linesRead =
      (lines.take (run sequent lines).linesRead.length).map Text.chomp := by
  rw [List.map_take]
  exact List.prefix_iff_eq_take.mp (linesRead_front sequent lines)

/-- Whatever it starts from and however it is shown, a run reads some of its lines from the front.
It logs just these, each without its end and with a line feed behind it. It has read all lines if
it ends without a term. If it finds a term, every list of lines that agrees on the lines read makes
up the same run, with the same term, log, display and number of lines, and with fewer of these lines
no term is found. -/
theorem run_settled_by_lines_read (display : Display) (context : Context) (goal : Proposition)
    (lines : List String) :
    let elaboration := run ⟨context, goal⟩ lines
    let count := elaboration.linesRead.length
    count ≤ lines.length ∧
      elaboration.transcript =
        String.join ((lines.take count).map fun line => Text.chomp line ++ "\n") ∧
      (∀ unproved, elaboration.ending = .exhausted unproved → count = lines.length) ∧
      ∀ term, elaboration.ending = .proved term →
        (∀ others : List String, others.take count = lines.take count →
          let other := run ⟨context, goal⟩ others
          other.ending = .proved term ∧ other.transcript = elaboration.transcript ∧
            display.elaboration other = display.elaboration elaboration ∧
            other.linesRead.length = count) ∧
        ∀ fewer < count, ∃ unproved,
          (run ⟨context, goal⟩ (lines.take fewer)).ending = .exhausted unproved := by
  intro elaboration count
  refine ⟨linesRead_length_le _ lines, ?_, ?_, ?_⟩
  · have hread : elaboration.linesRead = (lines.take count).map Text.chomp :=
      linesRead_eq_map_take _ lines
    rw [transcript, hread, Text.unlines, List.map_map]
    rfl
  · intro unproved hexhausted
    have hread : elaboration.linesRead = lines.map Text.chomp :=
      linesRead_of_exhausted hexhausted
    simp only [count, hread, List.length_map]
  · intro term hproved
    constructor
    · intro others hagree other
      have hsame : other = elaboration := run_eq_of_take_eq hproved hagree
      rw [hsame]
      exact ⟨hproved, rfl, rfl, rfl⟩
    · intro fewer hfewer
      exact exists_exhausted_of_lt hfewer

/-- A run that reads three of its five lines, one of them in vain. -/
theorem run_settled_by_lines_read_three :
    (run ⟨.empty, .implies .truth .truth⟩
        ["cut", "intro x\r\n", "exact x", "intro y", ""]).ending =
      .proved (.lam "x" .truth (.var "x")) ∧
    (run ⟨.empty, .implies .truth .truth⟩
        ["cut", "intro x\r\n", "exact x", "intro y", ""]).linesRead.length = 3 ∧
    (run ⟨.empty, .implies .truth .truth⟩
        ["cut", "intro x\r\n", "exact x", "exact (", "elim x"]).ending =
      .proved (.lam "x" .truth (.var "x")) ∧
    ∃ unproved, (run ⟨.empty, .implies .truth .truth⟩
        (["cut", "intro x\r\n", "exact x", "intro y", ""].take 2)).ending =
      .exhausted unproved := by
  have hproved : (run ⟨.empty, .implies .truth .truth⟩
      ["cut", "intro x\r\n", "exact x", "intro y", ""]).ending =
        .proved (.lam "x" .truth (.var "x")) := by
    decide +kernel
  have hcount : (run ⟨.empty, .implies .truth .truth⟩
      ["cut", "intro x\r\n", "exact x", "intro y", ""]).linesRead.length = 3 := by
    decide +kernel
  obtain ⟨-, -, -, hterm⟩ := run_settled_by_lines_read ⟨true, "? ", false, .ascii⟩ .empty
    (.implies .truth .truth) ["cut", "intro x\r\n", "exact x", "intro y", ""]
  obtain ⟨hothers, hfewer⟩ := hterm _ hproved
  refine ⟨hproved, hcount, ?_, ?_⟩
  · exact (hothers ["cut", "intro x\r\n", "exact x", "exact (", "elim x"] (by rw [hcount]; rfl)).1
  · exact hfewer 2 (by rw [hcount]; decide)

/-! ## Lines that fail -/

/-- The sequent that an ending leaves open. -/
def Ending.unproved? : Ending → Option Sequent
  | .proved _ => none
  | .exhausted sequent => some sequent

/-- The sequents that were worked on, in order: one at each line that was read, and the one that is
left open in the end. -/
def sequents (elaboration : Elaboration) : List Sequent :=
  elaboration.exchanges.map (·.sequent) ++ elaboration.ending.unproved?.toList

theorem sequents_after (exchange : Exchange) (rest : Elaboration) :
    (after exchange rest).sequents = exchange.sequent :: rest.sequents :=
  rfl

theorem sequents_within (frame : Frame) (sub : Elaboration) :
    (within frame sub).sequents = sub.sequents := by
  have hunproved : (sub.ending.fill frame).unproved? = sub.ending.unproved? := by
    cases sub.ending with
    | proved term => rfl
    | exhausted unproved => rfl
  rw [sequents, exchanges_within, ending_within, hunproved, sequents]

theorem sequents_head? (sequent : Sequent) (lines : List String) :
    (run sequent lines).sequents.head? = some sequent := by
  fun_cases run sequent lines with
  | case1 => rfl
  | case2 => rfl
  | case3 => rfl
  | case4 => rfl

/-- Lines that fail lead nowhere. -/
theorem ending_append_of_refuses {sequent : Sequent} {front : List String}
    (hfront : ∀ line ∈ front, sequent.Refuses line) (back : List String) :
    (run sequent (front ++ back)).ending = (run sequent back).ending := by
  induction front with
  | nil => rfl
  | cons line front ih =>
      obtain ⟨⟨error, hstep⟩, hrest⟩ := List.forall_mem_cons.mp hfront
      rw [List.cons_append, run_cons_ending, hstep]
      exact ih hrest

/-- The given lines without those at which the run with them reported a failure. -/
def withoutFailures (sequent : Sequent) (lines : List String) : List String :=
  let exchanges := (run sequent lines).exchanges
  ((lines.zip exchanges).filter fun (_, exchange) => exchange.failure.isNone).map Prod.fst ++
    lines.drop exchanges.length

/-- Without the lines that failed, a run goes through the remaining exchanges to the same end. -/
theorem run_withoutFailures (sequent : Sequent) (lines : List String) :
    run sequent (withoutFailures sequent lines) =
      ⟨(run sequent lines).exchanges.filter (·.failure.isNone), (run sequent lines).ending⟩ := by
  unfold withoutFailures
  fun_induction run sequent lines with
  | case1 sequent => rfl
  | case2 sequent line rest command error hstep ih => exact ih
  | case3 sequent line rest command term hstep => exact run_of_closed hstep _
  | case4 sequent line rest command sub frame hstep ih =>
      exact (run_of_subgoal hstep _).trans (congrArg (fun sub => after _ (within frame sub)) ih)

/-- Lines with further lines in between: at each point those that are given for it, in front of the
line that stands there or behind the last line. -/
def interleave (noise : Nat → List String) : List String → List String
  | [] => noise 0
  | line :: rest => noise 0 ++ line :: interleave (fun point => noise (point + 1)) rest

/-- Each of the lines fails for the sequent that is worked on at the point for which it is given. -/
def Refuses (elaboration : Elaboration) (noise : Nat → List String) : Prop :=
  ∀ point, ∀ line ∈ noise point, ∃ current ∈ elaboration.sequents[point]?, current.Refuses line

theorem Refuses.first {sequent : Sequent} {lines : List String} {noise : Nat → List String}
    (hnoise : (run sequent lines).Refuses noise) : ∀ line ∈ noise 0, sequent.Refuses line := by
  intro line hline
  obtain ⟨current, hcurrent, hrefuses⟩ := hnoise 0 line hline
  rw [← List.head?_eq_getElem?, sequents_head?] at hcurrent
  obtain rfl := Option.some.inj hcurrent
  exact hrefuses

theorem Refuses.of_after {exchange : Exchange} {rest : Elaboration} {noise : Nat → List String}
    (hnoise : (after exchange rest).Refuses noise) :
    rest.Refuses fun point => noise (point + 1) := by
  intro point
  exact hnoise (point + 1)

theorem Refuses.of_within {frame : Frame} {sub : Elaboration} {noise : Nat → List String}
    (hnoise : (within frame sub).Refuses noise) : sub.Refuses noise := by
  rwa [Refuses, sequents_within] at hnoise

/-- Lines that fail where they are put in do not change the end of a run. -/
theorem ending_interleave {sequent : Sequent} {lines : List String} {noise : Nat → List String}
    (hnoise : (run sequent lines).Refuses noise) :
    (run sequent (interleave noise lines)).ending = (run sequent lines).ending := by
  induction lines generalizing sequent noise with
  | nil =>
      have hnone := ending_append_of_refuses hnoise.first []
      rwa [List.append_nil] at hnone
  | cons line rest ih =>
      rw [interleave, ending_append_of_refuses hnoise.first]
      rcases hstep : sequent.performLine (Text.chomp line) with error | (closing | ⟨sub, frame⟩)
      · rw [run_of_error hstep] at hnoise
        rw [run_of_error hstep, run_of_error hstep, ending_after, ending_after, ih hnoise.of_after]
      · rw [run_of_closed hstep, run_of_closed hstep]
      · rw [run_of_subgoal hstep] at hnoise
        rw [run_of_subgoal hstep, run_of_subgoal hstep, ending_after, ending_after, ending_within,
          ending_within, ih hnoise.of_after.of_within]

/-- Whatever a run starts from, failures do not count. Without the lines at which it reported one,
the run comes to the same end and reports none. And it comes to the same end if further lines are
put in, at any points, that fail for the sequents which it works on at these points. -/
theorem failed_lines_are_inert (context : Context) (goal : Proposition) (lines : List String) :
    let elaboration := run ⟨context, goal⟩ lines
    let cleared := run ⟨context, goal⟩ (withoutFailures ⟨context, goal⟩ lines)
    cleared.ending = elaboration.ending ∧
      (∀ exchange ∈ cleared.exchanges, exchange.failure = none) ∧
      ∀ noise : Nat → List String, elaboration.Refuses noise →
        (run ⟨context, goal⟩ (interleave noise lines)).ending = elaboration.ending := by
  intro elaboration cleared
  have hcleared : cleared =
      ⟨elaboration.exchanges.filter (·.failure.isNone), elaboration.ending⟩ :=
    run_withoutFailures ⟨context, goal⟩ lines
  refine ⟨?_, ?_, ?_⟩
  · rw [hcleared]
  · intro exchange hexchange
    rw [hcleared] at hexchange
    exact Option.isNone_iff_eq_none.mp (List.mem_filter.mp hexchange).2
  · intro noise hnoise
    exact ending_interleave hnoise

/-- A run with two failures. The lines that are put in fail because the hypothesis they need is
introduced under another name. -/
theorem failed_lines_are_inert_in_between :
    withoutFailures ⟨.empty, .implies .truth .truth⟩ ["cut", "intro x", "exact y", "exact x", ""] =
      ["intro x", "exact x", ""] ∧
    (run ⟨.empty, .implies .truth .truth⟩ ["intro x", "exact x", ""]).ending =
      .proved (.lam "x" .truth (.var "x")) ∧
    interleave (fun point => if point = 2 then ["elim y\r\n", "exact y"] else [])
        ["cut", "intro x", "exact y", "exact x", ""] =
      ["cut", "intro x", "elim y\r\n", "exact y", "exact y", "exact x", ""] ∧
    (run ⟨.empty, .implies .truth .truth⟩
        ["cut", "intro x", "elim y\r\n", "exact y", "exact y", "exact x", ""]).ending =
      .proved (.lam "x" .truth (.var "x")) := by
  have hproved : (run ⟨.empty, .implies .truth .truth⟩
      ["cut", "intro x", "exact y", "exact x", ""]).ending =
        .proved (.lam "x" .truth (.var "x")) := by
    decide +kernel
  have hcleared : withoutFailures ⟨.empty, .implies .truth .truth⟩
      ["cut", "intro x", "exact y", "exact x", ""] = ["intro x", "exact x", ""] := by
    decide +kernel
  have hcurrent : (run ⟨.empty, .implies .truth .truth⟩
      ["cut", "intro x", "exact y", "exact x", ""]).sequents[2]? =
        some ⟨.ofList [("x", .truth)], .truth⟩ := by
    decide +kernel
  have hnoise : (run ⟨.empty, .implies .truth .truth⟩
      ["cut", "intro x", "exact y", "exact x", ""]).Refuses
        fun point => if point = 2 then ["elim y\r\n", "exact y"] else [] := by
    intro point line hline
    by_cases hpoint : point = 2
    · subst hpoint
      refine ⟨_, hcurrent, ?_⟩
      simp only [if_true, List.mem_cons, List.not_mem_nil, or_false] at hline
      rcases hline with rfl | rfl
      · exact ⟨.unknownHypothesis "y", by decide +kernel⟩
      · exact ⟨.wrongTerm (.unbound "y"), by decide +kernel⟩
    · simp [hpoint] at hline
  obtain ⟨hwithout, -, hwith⟩ := failed_lines_are_inert .empty (.implies .truth .truth)
    ["cut", "intro x", "exact y", "exact x", ""]
  rw [hcleared, hproved] at hwithout
  exact ⟨hcleared, hwithout, rfl, (hwith _ hnoise).trans hproved⟩

end Elaboration

/-! ## Sessions -/

namespace Session

/-- The lines that a session has read are enough for it. -/
theorem run_take_linesRead (lines : List String) :
    run (lines.take (run lines).linesRead.length) = run lines := by
  cases lines with
  | nil => rfl
  | cons first rest =>
      cases hgoal : Proposition.parse (Text.chomp first) with
      | error error =>
          rw [run_cons_of_error hgoal, linesRead_unreadableGoal]
          exact run_cons_of_error hgoal []
      | ok goal =>
          rw [run_cons_of_ok hgoal, linesRead_worked, List.length_cons, List.take_succ_cons,
            run_cons_of_ok hgoal, Elaboration.run_take_linesRead]

/-- A session that is over does not look at further lines. -/
theorem run_append_of_over {front : List String}
    (hover : (run front).result ≠ .error .endOfInput) (back : List String) :
    run (front ++ back) = run front := by
  cases front with
  | nil => exact absurd rfl hover
  | cons first rest =>
      rw [List.cons_append]
      cases hgoal : Proposition.parse (Text.chomp first) with
      | error error => rw [run_cons_of_error hgoal, run_cons_of_error hgoal]
      | ok goal =>
          rw [run_cons_of_ok hgoal] at hover ⊢
          rw [run_cons_of_ok hgoal]
          cases hending : (Elaboration.run ⟨.empty, goal⟩ rest).ending with
          | exhausted unproved =>
              rw [result_worked, hending] at hover
              exact absurd rfl hover
          | proved term => rw [Elaboration.run_append_of_proved hending]

/-- With fewer lines than it reads, a session comes to the end of its input. -/
theorem result_take_of_lt {lines : List String} {count : Nat}
    (hcount : count < (run lines).linesRead.length) :
    (run (lines.take count)).result = .error .endOfInput := by
  cases lines with
  | nil => cases hcount
  | cons first rest =>
      cases count with
      | zero => rfl
      | succ count =>
          rw [List.take_succ_cons]
          cases hgoal : Proposition.parse (Text.chomp first) with
          | error error =>
              rw [run_cons_of_error hgoal, linesRead_unreadableGoal,
                List.length_singleton] at hcount
              omega
          | ok goal =>
              rw [run_cons_of_ok hgoal, linesRead_worked, List.length_cons] at hcount
              obtain ⟨unproved, hending⟩ :=
                Elaboration.exists_exhausted_of_lt (Nat.lt_of_succ_lt_succ hcount)
              rw [run_cons_of_ok hgoal, result_worked, hending]

/-- How many lines a session needs: with fewer it would come to the end of its input, and these are
all the lines there are, or they settle the session whatever follows them. -/
structure Needs (lines : List String) (count : Nat) : Prop where
  available : count ≤ lines.length
  fewer : ∀ fewer < count, (run (lines.take fewer)).result = .error .endOfInput
  enough : count = lines.length ∨ ∀ further, run (lines.take count ++ further) = run lines

/-- A session reads as many lines as it needs. -/
theorem needs_linesRead (lines : List String) : Needs lines (run lines).linesRead.length where
  available := by
    have hlength := (linesRead_front lines).length_le
    rwa [List.length_map] at hlength
  fewer := by
    intro fewer hfewer
    exact result_take_of_lt hfewer
  enough := by
    by_cases hresult : (run lines).result = .error .endOfInput
    · left
      rw [linesRead_of_endOfInput hresult, List.length_map]
    · right
      intro further
      have hover : (run (lines.take (run lines).linesRead.length)).result ≠ .error .endOfInput := by
        rwa [run_take_linesRead]
      rw [run_append_of_over hover, run_take_linesRead]

end Session

end Sequitur
