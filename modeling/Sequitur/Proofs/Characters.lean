import Sequitur.Printer
import Sequitur.Proofs.Lexing
import Sequitur.Proofs.Lines
import Sequitur.Proofs.Names

/-! # Characters of printed texts

What is printed of a writable proposition or term consists of characters of
words and of a few marks. No mark ends a line, so every printed text is a
single line, and the colon is a mark of terms but not of propositions.
-/

namespace Sequitur

namespace Text

/-- Every character of the text can stand in a word or is one of the marks. -/
def madeOf (marks : List Char) (text : String) : Bool :=
  text.toList.all fun c => isWordPart c || marks.contains c

@[simp]
theorem madeOf_append (marks : List Char) (front back : String) :
    madeOf marks (front ++ back) = (madeOf marks front && madeOf marks back) := by
  simp [madeOf, String.toList_append, List.all_append]

@[simp]
theorem madeOf_enclose {marks : List Char} (hopening : '(' ∈ marks) (hclosing : ')' ∈ marks)
    (nested : Bool) (text : String) :
    madeOf marks (enclose nested text) = madeOf marks text := by
  have hparen : madeOf marks "(" = true ∧ madeOf marks ")" = true := by
    simp [madeOf, hopening, hclosing]
  cases nested <;> simp [enclose, hparen]

theorem madeOf_of_isIdentifier {name : String} (hname : isIdentifier name = true)
    (marks : List Char) : madeOf marks name = true := by
  rw [madeOf, List.all_eq_true]
  intro c hc
  rw [Lexer.isWordPart_of_mem (isWord_of_isIdentifier hname) hc, Bool.true_or]

theorem madeOf_append_marks {marks : List Char} {text : String} (hmade : madeOf marks text = true)
    (more : List Char) : madeOf (marks ++ more) text = true := by
  rw [madeOf, List.all_eq_true] at hmade ⊢
  intro c hc
  have hkind := hmade c hc
  simp only [Bool.or_eq_true, List.contains_iff_mem, List.mem_append] at hkind ⊢
  exact hkind.imp_right Or.inl

theorem not_mem_of_madeOf {marks : List Char} {text : String} (hmade : madeOf marks text = true)
    {c : Char} (hword : isWordPart c = false) (hmark : c ∉ marks) : c ∉ text.toList := by
  intro hc
  rw [madeOf, List.all_eq_true] at hmade
  have hkind := hmade c hc
  simp [hword, hmark] at hkind

theorem oneLine_of_madeOf {marks : List Char} {text : String} (hmade : madeOf marks text = true)
    (hreturn : '\r' ∉ marks) (hfeed : '\n' ∉ marks) : OneLine text.toList := by
  intro c hc
  by_contra hend
  simp only [isLineEnd, Bool.not_eq_false, Bool.or_eq_true, beq_iff_eq] at hend
  rcases hend with rfl | rfl
  · exact not_mem_of_madeOf hmade (by decide) hreturn hc
  · exact not_mem_of_madeOf hmade (by decide) hfeed hc

end Text

open Text

/-- The characters of printed propositions that stand in no word. -/
def Proposition.marks : List Char :=
  [' ', '(', ')', '=', '>', '/', '\\', '⇒', '∧', '∨', '⊤', '⊥']

/-- The characters of printed terms that stand in no word. -/
def Term.marks : List Char :=
  Proposition.marks ++ [',', ':', '|', '-', 'λ', '→']

theorem Proposition.madeOf_render (charset : Charset) {p : Proposition} (hp : p.Writable)
    (nested : Bool) : madeOf marks (p.render charset.glyphs nested) = true := by
  induction p generalizing nested with
  | atom name => exact madeOf_of_isIdentifier ((writable_atom name).mp hp) marks
  | truth =>
      rw [render]
      cases charset <;> decide
  | falsity =>
      rw [render]
      cases charset <;> decide
  | implies a b iha ihb =>
      obtain ⟨ha, hb⟩ := (writable_implies a b).mp hp
      have hglyph : madeOf marks charset.glyphs.implies = true := by cases charset <;> decide
      simp +decide [render, iha ha, hglyph, ihb hb]
  | and a b iha ihb =>
      obtain ⟨ha, hb⟩ := (writable_and a b).mp hp
      have hglyph : madeOf marks charset.glyphs.and = true := by cases charset <;> decide
      simp +decide [render, iha ha, hglyph, ihb hb]
  | or a b iha ihb =>
      obtain ⟨ha, hb⟩ := (writable_or a b).mp hp
      have hglyph : madeOf marks charset.glyphs.or = true := by cases charset <;> decide
      simp +decide [render, iha ha, hglyph, ihb hb]

theorem Term.madeOf_render (charset : Charset) {t : Term} (ht : t.Writable) (nested : Bool) :
    madeOf marks (t.render charset.glyphs nested) = true := by
  have hlambda : madeOf marks charset.glyphs.lambda = true := by cases charset <;> decide
  have harrow : madeOf marks charset.glyphs.arrow = true := by cases charset <;> decide
  have hproposition : ∀ {p : Proposition}, p.Writable →
      madeOf marks (p.render charset.glyphs false) = true := by
    intro p hp
    exact madeOf_append_marks (Proposition.madeOf_render charset hp false) _
  induction t generalizing nested with
  | var name => exact madeOf_of_isIdentifier ((writable_var name).mp ht) marks
  | unit =>
      rw [render]
      decide
  | lam name domain body ih =>
      obtain ⟨hname, hdomain, hbody⟩ := (writable_lam name domain body).mp ht
      have hname := madeOf_of_isIdentifier hname marks
      simp +decide [render, hlambda, hname, hproposition hdomain, harrow, ih hbody]
  | app f x ihf ihx =>
      obtain ⟨hf, hx⟩ := (writable_app f x).mp ht
      simp +decide [render, ihf hf, ihx hx]
  | cases t x u y v iht ihu ihv =>
      obtain ⟨ht, hx, hu, hy, hv⟩ := (writable_cases t x u y v).mp ht
      have hx := madeOf_of_isIdentifier hx marks
      have hy := madeOf_of_isIdentifier hy marks
      simp +decide [render, iht ht, hx, harrow, ihu hu, hy, ihv hv]
  | pair l r ihl ihr =>
      obtain ⟨hl, hr⟩ := (writable_pair l r).mp ht
      simp +decide [render, ihl hl, ihr hr]
  | fst t ih => simp +decide [render, ih ht]
  | snd t ih => simp +decide [render, ih ht]
  | inl t other ih =>
      obtain ⟨ht, hother⟩ := (writable_inl t other).mp ht
      simp +decide [render, ih ht, hproposition hother]
  | inr other t ih =>
      obtain ⟨hother, ht⟩ := (writable_inr other t).mp ht
      simp +decide [render, hproposition hother, ih ht]
  | absurd t target ih =>
      obtain ⟨ht, htarget⟩ := (writable_absurd t target).mp ht
      simp +decide [render, ih ht, hproposition htarget]

end Sequitur
