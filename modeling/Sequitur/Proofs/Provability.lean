import Sequitur.Proofs.Commands
import Sequitur.Proofs.NaturalDeduction
import Sequitur.Proofs.Session

/-! # Provable goals

A deduction without hypotheses is carried out by a writable term, and a
session can be given that term in a single line: it prints to a line from
which the exact tactic reads it back. So sessions prove just what can be
deduced.
-/

namespace Sequitur

/-! ## Exact lines -/

/-- The line that closes a goal with a term. -/
def Term.exactLine (charset : Charset) (t : Term) : String :=
  "exact " ++ t.format charset

/-- A writable term of the goal closes it when its line is given. -/
theorem Elaboration.run_exactLine {sequent : Sequent} {term : Term} (hterm : term.Writable)
    (htyping : Typing sequent.context term sequent.goal) (charset : Charset) :
    (run sequent [term.exactLine charset]).ending = .proved term := by
  have hwrites := Term.writes_render charset hterm false
  have hline : Text.chomp (term.exactLine charset) = "exact " ++ term.format charset :=
    Text.chomp_eq_self (hwrites.ends.append "exact ")
  have htrim : Text.trim (term.format charset) = term.format charset :=
    Text.trim_eq_self hwrites.begins hwrites.ends
  have hcheck : term.check sequent.context sequent.goal = .ok () :=
    (Term.check_eq_ok_iff _ _ _).mpr htyping
  have hstep : sequent.performLine ("exact " ++ term.format charset) = .ok (.closed term) := by
    rw [Sequent.performLine_exact, htrim,
      Sequent.exact_eq_of_parse (Term.parse_format hterm charset), hcheck]
  rw [run_cons_ending, hline, hstep]

/-- A session in which the goal and a term for it are written down ends with that proof. -/
theorem Session.result_run_exactLine {p : Proposition} {term : Term} (hp : p.Writable)
    (hterm : term.Writable) (htyping : Typing .empty term p) (charset : Charset) :
    (run [p.format charset, term.exactLine charset]).result = .ok ⟨p, term⟩ := by
  have hchomp : Text.chomp (p.format charset) = p.format charset :=
    Text.chomp_eq_self (Proposition.writes_render charset hp false).ends
  have hgoal : Proposition.parse (Text.chomp (p.format charset)) = .ok p := by
    rw [hchomp, Proposition.parse_format hp charset]
  have hending : (Elaboration.run ⟨.empty, p⟩ [term.exactLine charset]).ending = .proved term :=
    Elaboration.run_exactLine hterm htyping charset
  have hcheck : term.check .empty p = .ok () := (Term.check_eq_ok_iff _ _ _).mpr htyping
  rw [run_cons_of_ok hgoal, result_worked, hending]
  simp only [hcheck]

/-! ## Provability is deducibility -/

/-- A goal that can be written is proved by some session, given as a text in either charset, exactly
if it can be deduced without hypotheses. -/
theorem provable_iff_entails (p : Proposition) (hp : ∀ name ∈ p.atoms, isIdentifier name = true)
    (charset : Charset) :
    (∃ (lines : List String) (proof : Proof),
      (Session.run (p.format charset :: lines)).result = .ok proof ∧ proof.goal = p) ↔
      Entails [] p := by
  constructor
  · rintro ⟨lines, proof, hresult, rfl⟩
    exact (Session.typing_of_result hresult).entails
  · intro hentails
    obtain ⟨term, hterm, htyping⟩ := hentails.exists_writable_term
    -- Respelling may change what the deduction passes through, but not a goal that can be written.
    rw [Proposition.respell_of_writable hp] at htyping
    exact ⟨[term.exactLine charset], ⟨p, term⟩,
      Session.result_run_exactLine hp hterm htyping charset, rfl⟩

/-- The law of excluded middle for an atom. -/
def Proposition.excludedMiddle (name : String) : Proposition :=
  .or (.atom name) (Proposition.atom name).negation

theorem Entails.not_not_excludedMiddle (name : String) :
    Entails [] (Proposition.excludedMiddle name).negation.negation := by
  refine .impliesIntro (.impliesElim (.hypothesis List.mem_cons_self) (.orRight ?_))
  refine .impliesIntro (.impliesElim (a := .excludedMiddle name) (.hypothesis ?_) ?_)
  · simp [Proposition.negation]
  · exact .orLeft (.hypothesis List.mem_cons_self)

/-- Some session proves that excluded middle is not refuted. -/
theorem provable_iff_entails_excludedMiddle :
    (∀ name ∈ (Proposition.excludedMiddle "A").negation.negation.atoms,
      isIdentifier name = true) ∧
    Entails [] (Proposition.excludedMiddle "A").negation.negation ∧
    ∃ (lines : List String) (proof : Proof),
      (Session.run ((Proposition.excludedMiddle "A").negation.negation.format .ascii ::
        lines)).result = .ok proof ∧
      proof.goal = (Proposition.excludedMiddle "A").negation.negation := by
  have hnames : ∀ name ∈ (Proposition.excludedMiddle "A").negation.negation.atoms,
      isIdentifier name = true := by
    decide
  have hentails := Entails.not_not_excludedMiddle "A"
  exact ⟨hnames, hentails, (provable_iff_entails _ hnames .ascii).mpr hentails⟩

end Sequitur
