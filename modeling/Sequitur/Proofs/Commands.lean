import Sequitur.Proofs.Elaboration
import Sequitur.Proofs.RoundTrip

/-! # Commands on lines

A line names a tactic up to its first space, and gives it what stands behind
without the blanks at the ends. So every argument that neither begins nor ends
with a blank can be given, with any blanks around it, and no other argument
arrives. Printed terms are of this kind: the exact tactic reads them back as
they were, and what it says about them is what the checker says.
-/

namespace Sequitur

namespace Text

theorem dropWhile_eq_self {test : Char → Bool} {chars : List Char} {c : Char}
    (hhead : c ∈ chars.head?) (hc : test c = false) : chars.dropWhile test = chars := by
  cases chars with
  | nil => cases hhead
  | cons first rest =>
      obtain rfl := Option.some.inj hhead
      exact List.dropWhile_cons_of_neg (by simp [hc])

theorem dropEndWhile_eq_self {test : Char → Bool} {chars : List Char} {c : Char}
    (hlast : c ∈ chars.getLast?) (hc : test c = false) : dropEndWhile test chars = chars := by
  rw [← List.head?_reverse] at hlast
  rw [dropEndWhile, dropWhile_eq_self hlast hc, List.reverse_reverse]

theorem dropEndWhile_append {test : Char → Bool} {back : List Char}
    (hback : ∀ c ∈ back, test c = true) (front : List Char) :
    dropEndWhile test (front ++ back) = dropEndWhile test front := by
  have hreverse : ∀ c ∈ back.reverse, test c = true := by
    intro c hc
    exact hback c (List.mem_reverse.mp hc)
  rw [dropEndWhile, List.reverse_append, List.dropWhile_append_of_pos hreverse, dropEndWhile]

theorem chomp_eq_self {text : String} (hends : EndsSolid text) : chomp text = text := by
  obtain ⟨c, hlast, hblank⟩ := hends
  have hlineEnd : isLineEnd c = false := by
    rw [Bool.eq_false_iff]
    intro hend
    simp only [isLineEnd, Bool.or_eq_true, beq_iff_eq] at hend
    rcases hend with rfl | rfl <;> exact absurd hblank (by decide)
  rw [chomp, dropEndWhile_eq_self hlast hlineEnd, String.ofList_toList]

/-- Trimming takes off the blanks around a text, and nothing else. -/
theorem trim_padded {before text after : String} (hbefore : ∀ c ∈ before.toList, isBlank c = true)
    (hafter : ∀ c ∈ after.toList, isBlank c = true) (hbegins : BeginsSolid text)
    (hends : EndsSolid text) : trim (before ++ text ++ after) = text := by
  obtain ⟨first, hfirst, hfirstBlank⟩ := hbegins.append after
  obtain ⟨last, hlast, hlastBlank⟩ := hends
  rw [trim, String.append_assoc, String.toList_append, List.dropWhile_append_of_pos hbefore,
    dropWhile_eq_self hfirst hfirstBlank, String.toList_append, dropEndWhile_append hafter,
    dropEndWhile_eq_self hlast hlastBlank, String.ofList_toList]

theorem trim_eq_self {text : String} (hbegins : BeginsSolid text) (hends : EndsSolid text) :
    trim text = text := by
  have hpadded := @trim_padded "" text "" (List.forall_mem_nil _) (List.forall_mem_nil _)
    hbegins hends
  rwa [String.empty_append, String.append_empty] at hpadded

/-- What trimming leaves of a text has no blanks at its ends. -/
theorem solid_of_trim_ne_empty {text : String} (hne : trim text ≠ "") :
    BeginsSolid (trim text) ∧ EndsSolid (trim text) := by
  let chars := text.toList.dropWhile isBlank
  have hchars : (trim text).toList = dropEndWhile isBlank chars := String.toList_ofList
  have hleft : dropEndWhile isBlank chars ≠ [] := by
    intro hnil
    exact hne (String.toList_eq_nil_iff.mp (hchars.trans hnil))
  have hfront : dropEndWhile isBlank chars <+: chars := List.rdropWhile_prefix isBlank chars
  have hsome : chars ≠ [] := hfront.ne_nil hleft
  refine ⟨⟨chars.head hsome, ?_, List.head_dropWhile_not isBlank hsome⟩,
    ⟨(dropEndWhile isBlank chars).getLast hleft, ?_, ?_⟩⟩
  · rw [hchars, Option.mem_def, List.head?_eq_some_head hleft, hfront.head hleft]
  · rw [hchars, Option.mem_def, List.getLast?_eq_some_getLast hleft]
  · exact Bool.eq_false_iff.mpr (List.rdropWhile_last_not isBlank chars hleft)

end Text

namespace Command

/-- A line with the name of a tactic, a space and a text is split at that space. -/
theorem ofLine_named {name : String} (hname : name.toList.all isNamePart = true)
    (text : String) : ofLine (name ++ " " ++ text) = ⟨name, Text.trim text⟩ := by
  have hline : (name ++ " " ++ text).toList = name.toList ++ ' ' :: text.toList := by
    simp
  have hparts : ∀ c ∈ name.toList, isNamePart c = true := List.all_eq_true.mp hname
  have hspace : ¬ isNamePart ' ' = true := Bool.false_ne_true
  rw [ofLine, hline, List.takeWhile_append_of_pos hparts, List.dropWhile_append_of_pos hparts,
    List.takeWhile_cons_of_neg hspace, List.dropWhile_cons_of_neg hspace, List.append_nil,
    List.drop_one, List.tail_cons, String.ofList_toList, String.ofList_toList]

end Command

theorem TypingError.kind_ne_syntaxError (error : TypingError) : error.kind ≠ .syntaxError := by
  cases error <;> exact ErrorKind.noConfusion

namespace Sequent

theorem performLine_intro (sequent : Sequent) (text : String) :
    sequent.performLine ("intro " ++ text) = sequent.intro (Text.trim text) := by
  have hcommand : Command.ofLine ("intro " ++ text) = ⟨"intro", Text.trim text⟩ :=
    @Command.ofLine_named "intro" rfl text
  rw [performLine, hcommand]
  rfl

/-- An identifier gets through the trimming of its line, and an implication takes any. -/
theorem performLine_intro_identifier {sequent : Sequent} {a b : Proposition} {name : String}
    (hgoal : sequent.goal = .implies a b) (hname : isIdentifier name = true) :
    sequent.performLine ("intro " ++ name) =
      .ok (.subgoal ⟨sequent.context.extend name a, b⟩ (.lam name a)) := by
  have hwrites := Writes.of_isIdentifier hname
  rw [performLine_intro, Text.trim_eq_self hwrites.begins hwrites.ends]
  exact intro_eq_ok_iff.mpr ⟨a, b, hgoal, hname, rfl⟩

theorem performLine_elim (sequent : Sequent) (text : String) :
    sequent.performLine ("elim " ++ text) = sequent.elim (Text.trim text) := by
  have hcommand : Command.ofLine ("elim " ++ text) = ⟨"elim", Text.trim text⟩ :=
    @Command.ofLine_named "elim" rfl text
  rw [performLine, hcommand]
  rfl

theorem performLine_exact (sequent : Sequent) (text : String) :
    sequent.performLine ("exact " ++ text) = sequent.exact (Text.trim text) := by
  have hcommand : Command.ofLine ("exact " ++ text) = ⟨"exact", Text.trim text⟩ :=
    @Command.ofLine_named "exact" rfl text
  rw [performLine, hcommand]
  rfl

/-! ## Exact lines -/

theorem exact_eq_of_parse {sequent : Sequent} {text : String} {term : Term}
    (hparse : Term.parse text = .ok term) :
    sequent.exact text =
      match term.check sequent.context sequent.goal with
      | .error error => .error (.wrongTerm error)
      | .ok () => .ok (.closed term) := by
  cases hcheck : term.check sequent.context sequent.goal with
  | error error => simp only [exact, hparse, hcheck]
  | ok _ => simp only [exact, hparse, hcheck]

/-- The exact tactic says of a printed term, with any blanks around it, what the checker says. -/
theorem performLine_exact_format (sequent : Sequent) {term : Term} (hterm : term.Writable)
    (charset : Charset) {before after : String}
    (hbefore : ∀ c ∈ before.toList, Text.isBlank c = true)
    (hafter : ∀ c ∈ after.toList, Text.isBlank c = true) :
    sequent.performLine ("exact " ++ before ++ term.format charset ++ after) =
      match term.check sequent.context sequent.goal with
      | .error error => .error (.wrongTerm error)
      | .ok () => .ok (.closed term) := by
  have hwrites := Term.writes_render charset hterm false
  have hline : "exact " ++ before ++ term.format charset ++ after =
      "exact " ++ (before ++ term.format charset ++ after) := by
    simp only [String.append_assoc]
  have htrim : Text.trim (before ++ term.format charset ++ after) = term.format charset :=
    Text.trim_padded hbefore hafter hwrites.begins hwrites.ends
  rw [hline, performLine_exact, htrim, exact_eq_of_parse (Term.parse_format hterm charset)]

/-- Whatever the context and the goal are, a term whose names are identifiers can be given to the
exact tactic as it is printed, in either charset and with any blanks around it. If it proves the
goal, the tactic closes the goal with just this term. Otherwise the tactic fails with the error of
the checker, and with its kind, never because the term could not be read. -/
theorem exact_takes_written_terms (context : Context) (goal : Proposition) (charset : Charset)
    (term : Term) (hterm : ∀ name ∈ term.names, isIdentifier name = true) (before after : String)
    (hbefore : ∀ c ∈ before.toList, Text.isBlank c = true)
    (hafter : ∀ c ∈ after.toList, Text.isBlank c = true) :
    let outcome := performLine ⟨context, goal⟩
      ("exact " ++ before ++ term.format charset ++ after)
    (term.infer context = .ok goal → outcome = .ok (.closed term)) ∧
      (term.infer context ≠ .ok goal →
        ∃ error : TypingError, term.check context goal = .error error ∧
          outcome = .error (.wrongTerm error) ∧
          (TacticError.wrongTerm error).kind = error.kind ∧ error.kind ≠ .syntaxError) := by
  intro outcome
  have hchecked := (Term.check_eq_ok_iff context term goal).trans
    (Term.infer_eq_ok_iff context term goal).symm
  have houtcome := performLine_exact_format ⟨context, goal⟩ hterm charset hbefore hafter
  cases hcheck : term.check context goal with
  | ok _ =>
      rw [hcheck] at houtcome
      exact ⟨fun _ => houtcome, fun hinfer => absurd (hchecked.mp hcheck) hinfer⟩
  | error error =>
      rw [hcheck] at houtcome hchecked
      refine ⟨fun hinfer => ?_, fun _ => ?_⟩
      · exact absurd (hchecked.mpr hinfer) nofun
      · exact ⟨error, rfl, houtcome, rfl, error.kind_ne_syntaxError⟩

/-- A projection out of the newer of two hypotheses `p`, with a no-break space and a tab in front and
an ideographic space behind it. It proves `A`; for the goal `B` the tactic reports a mismatch. -/
theorem exact_takes_written_terms_padded :
    (Term.fst (.var "p")).infer
        (.ofList [("p", .truth), ("p", .and (.atom "A") (.atom "B"))]) = .ok (.atom "A") ∧
    performLine ⟨.ofList [("p", .truth), ("p", .and (.atom "A") (.atom "B"))], .atom "A"⟩
        ("exact " ++ "\u00a0\t" ++ (Term.fst (.var "p")).format .ascii ++ "\u3000") =
      .ok (.closed (.fst (.var "p"))) ∧
    performLine ⟨.ofList [("p", .truth), ("p", .and (.atom "A") (.atom "B"))], .atom "B"⟩
        ("exact " ++ "\u00a0\t" ++ (Term.fst (.var "p")).format .ascii ++ "\u3000") =
      .error (.wrongTerm (.mismatch (.fst (.var "p")) (.atom "A") (.atom "B"))) := by
  have hnames : ∀ name ∈ (Term.fst (.var "p")).names, isIdentifier name = true := by
    decide
  have hbefore : ∀ c ∈ "\u00a0\t".toList, Text.isBlank c = true :=
    List.all_eq_true.mp rfl
  have hafter : ∀ c ∈ "\u3000".toList, Text.isBlank c = true :=
    List.all_eq_true.mp rfl
  have hcloses := exact_takes_written_terms
    (.ofList [("p", .truth), ("p", .and (.atom "A") (.atom "B"))]) (.atom "A") .ascii
    (.fst (.var "p")) hnames "\u00a0\t" "\u3000" hbefore hafter
  have hfails := exact_takes_written_terms
    (.ofList [("p", .truth), ("p", .and (.atom "A") (.atom "B"))]) (.atom "B") .ascii
    (.fst (.var "p")) hnames "\u00a0\t" "\u3000" hbefore hafter
  refine ⟨rfl, hcloses.1 rfl, ?_⟩
  obtain ⟨error, hcheck, houtcome, -, -⟩ := hfails.2 (by decide)
  obtain rfl := Except.error.inj hcheck
  exact houtcome

end Sequent

end Sequitur
