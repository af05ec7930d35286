import Sequitur.Proofs.Certificate

/-! # Displayed sequents

The text of a sequent tells everything about it. No name and no proposition
holds a comma, a colon or a turnstile, so that each of these marks has one place
where the text can be divided: the turnstile stands between the hypotheses and
the goal, commas between the hypotheses, and a space behind each name. What is
left are names and printed propositions, and those can be read back.
-/

namespace Sequitur

namespace Text

/-! ## Dividing a text at its marks -/

theorem takeWhile_append_mark {mark : Char} {front back : List Char} (hfront : mark ∉ front)
    (hback : ∀ c ∈ back.head?, c = mark) : (front ++ back).takeWhile (· != mark) = front := by
  have hall : ∀ c ∈ front, (c != mark) = true := by
    intro c hc
    exact bne_iff_ne.mpr fun heq => hfront (heq ▸ hc)
  rw [List.takeWhile_append_of_pos hall]
  cases back with
  | nil => simp
  | cons c back => simp [hback c rfl]

/-- A text is divided in one way in front of the first mark. -/
theorem append_inj_of_mark {mark : Char} {a a' b b' : List Char} (ha : mark ∉ a) (ha' : mark ∉ a')
    (hb : ∀ c ∈ b.head?, c = mark) (hb' : ∀ c ∈ b'.head?, c = mark) (heq : a ++ b = a' ++ b') :
    a = a' ∧ b = b' := by
  have hfront : a = a' := by
    rw [← takeWhile_append_mark ha hb, heq, takeWhile_append_mark ha' hb']
  subst hfront
  exact ⟨rfl, List.append_cancel_left heq⟩

/-- Trimming on the left takes off the blanks in front of a text, and nothing else. -/
theorem trimLeft_append {blanks text : String} (hblanks : ∀ c ∈ blanks.toList, isBlank c = true)
    (hbegins : BeginsSolid text) : trimLeft (blanks ++ text) = text := by
  obtain ⟨c, hhead, hsolid⟩ := hbegins
  rw [trimLeft, String.toList_append, List.dropWhile_append_of_pos hblanks,
    dropWhile_eq_self hhead hsolid, String.ofList_toList]

end Text

open Text

/-! ## Hypotheses -/

theorem Proposition.format_inj {p q : Proposition} (hp : p.Writable) (hq : q.Writable)
    {charset : Charset} (heq : p.format charset = q.format charset) : p = q := by
  have hread := Proposition.parse_format hp charset
  rw [heq, Proposition.parse_format hq charset] at hread
  exact (Except.ok.inj hread).symm

/-- A hypothesis that can be written. -/
def WritableBinding (binding : String × Proposition) : Prop :=
  isIdentifier binding.1 = true ∧ binding.2.Writable

theorem madeOf_formatBinding (charset : Charset) {binding : String × Proposition}
    (hbinding : WritableBinding binding) :
    madeOf (Proposition.marks ++ [':']) (formatBinding charset binding) = true := by
  have hcolon : madeOf (Proposition.marks ++ [':']) " : " = true := by decide
  have hproposition := madeOf_append_marks
    (Proposition.madeOf_render charset hbinding.2 false) [':']
  simp [formatBinding, Proposition.format, madeOf_of_isIdentifier hbinding.1, hcolon, hproposition]

theorem formatBinding_inj {charset : Charset} {binding other : String × Proposition}
    (hbinding : WritableBinding binding) (hother : WritableBinding other)
    (heq : formatBinding charset binding = formatBinding charset other) : binding = other := by
  -- The name ends in front of the first space.
  have hspace : ∀ {binding : String × Proposition}, WritableBinding binding →
      ' ' ∉ binding.1.toList := by
    intro binding hbinding
    exact not_mem_of_madeOf (madeOf_of_isIdentifier hbinding.1 []) (by decide) (by simp)
  have hhead : ∀ (text : String), ∀ c ∈ (" : ".toList ++ text.toList).head?, c = ' ' := by
    intro text c hc
    exact (Option.some.inj hc).symm
  have hchars := congrArg String.toList heq
  simp only [formatBinding, String.append_assoc, String.toList_append] at hchars
  obtain ⟨hname, hrest⟩ := append_inj_of_mark (hspace hbinding) (hspace hother) (hhead _)
    (hhead _) hchars
  have hformat := String.toList_inj.mp (List.append_cancel_left hrest)
  exact Prod.ext (String.toList_inj.mp hname)
    (Proposition.format_inj hbinding.2 hother.2 hformat)

/-- The texts of hypotheses, each behind a comma and a space. -/
def commaLed (charset : Charset) (bindings : List (String × Proposition)) : List Char :=
  bindings.flatMap fun binding => ", ".toList ++ (formatBinding charset binding).toList

theorem commaLed_cons (charset : Charset) (binding : String × Proposition)
    (rest : List (String × Proposition)) :
    commaLed charset (binding :: rest) =
      ", ".toList ++ ((formatBinding charset binding).toList ++ commaLed charset rest) :=
  List.append_assoc _ _ _

theorem head?_commaLed (charset : Charset) (bindings : List (String × Proposition)) :
    ∀ c ∈ (commaLed charset bindings).head?, c = ',' := by
  cases bindings with
  | nil => simp [commaLed]
  | cons binding rest =>
      intro c hc
      exact (Option.some.inj hc).symm

/-- Each hypothesis ends in front of the first comma, or at the end. -/
theorem commaLed_inj {charset : Charset} {bindings others : List (String × Proposition)}
    (hbindings : ∀ binding ∈ bindings, WritableBinding binding)
    (hothers : ∀ other ∈ others, WritableBinding other)
    (heq : commaLed charset bindings = commaLed charset others) : bindings = others := by
  have hcomma : ∀ {binding : String × Proposition}, WritableBinding binding →
      ',' ∉ (formatBinding charset binding).toList := by
    intro binding hbinding
    exact not_mem_of_madeOf (madeOf_formatBinding charset hbinding) (by decide) (by decide)
  induction bindings generalizing others with
  | nil =>
      cases others with
      | nil => rfl
      | cons other others => cases heq
  | cons binding rest ih =>
      cases others with
      | nil => cases heq
      | cons other others =>
          obtain ⟨hbinding, hrest⟩ := List.forall_mem_cons.mp hbindings
          obtain ⟨hother, hothers⟩ := List.forall_mem_cons.mp hothers
          rw [commaLed_cons, commaLed_cons] at heq
          obtain ⟨hfirst, hafter⟩ := append_inj_of_mark (hcomma hbinding) (hcomma hother)
            (head?_commaLed charset rest) (head?_commaLed charset others)
            (List.append_cancel_left heq)
          rw [formatBinding_inj hbinding hother (String.toList_inj.mp hfirst),
            ih hrest hothers hafter]

theorem intercalate_formatBinding (charset : Charset) (binding : String × Proposition)
    (rest : List (String × Proposition)) :
    ", ".intercalate ((binding :: rest).map (formatBinding charset)) =
      formatBinding charset binding ++ String.ofList (commaLed charset rest) := by
  induction rest generalizing binding with
  | nil => simp [commaLed]
  | cons next rest ih =>
      rw [List.map_cons, List.map_cons, String.intercalate_cons_cons, ← List.map_cons, ih,
        commaLed_cons, String.ofList_append, String.ofList_append, String.ofList_toList,
        String.ofList_toList, String.append_assoc]

namespace Context

/-- What stands in front of the turnstile. -/
def heading (charset : Charset) (context : Context) : String :=
  if context.bindings = [] then "" else context.format charset ++ " "

/-- The text of some hypotheses begins with the first of them. -/
theorem exists_format_eq (charset : Charset) {context : Context} (hne : context.bindings ≠ []) :
    ∃ binding rest, context.toList = binding :: rest ∧
      context.format charset =
        formatBinding charset binding ++ String.ofList (commaLed charset rest) := by
  obtain ⟨binding, rest, hlist⟩ := List.exists_cons_of_ne_nil (List.reverse_ne_nil_iff.mpr hne)
  refine ⟨binding, rest, hlist, ?_⟩
  rw [format, toList, hlist]
  exact intercalate_formatBinding charset binding rest

theorem comma_format (charset : Charset) {context : Context} (hne : context.bindings ≠ []) :
    ", ".toList ++ (context.format charset).toList = commaLed charset context.toList := by
  obtain ⟨binding, rest, hlist, hformat⟩ := exists_format_eq charset hne
  rw [hlist, hformat, commaLed_cons, String.toList_append,
    @String.toList_ofList (commaLed charset rest)]

theorem Writable.of_mem_toList {context : Context} (hcontext : context.Writable) :
    ∀ binding ∈ context.toList, WritableBinding binding := by
  intro binding hbinding
  exact hcontext binding (List.mem_reverse.mp hbinding)

theorem format_inj {charset : Charset} {context other : Context} (hcontext : context.Writable)
    (hother : other.Writable) (hne : context.bindings ≠ []) (hne' : other.bindings ≠ [])
    (heq : context.format charset = other.format charset) : context.bindings = other.bindings := by
  apply List.reverse_injective
  apply commaLed_inj hcontext.of_mem_toList hother.of_mem_toList
  rw [← comma_format charset hne, heq, comma_format charset hne']

theorem heading_eq_empty_iff {charset : Charset} {context : Context} :
    context.heading charset = "" ↔ context.bindings = [] := by
  rw [heading]
  split
  next hnil => simp [hnil]
  next hne => simp [hne]

/-- The hypotheses and their order can be told from what stands in front of the turnstile. -/
theorem heading_inj {charset : Charset} {context other : Context} (hcontext : context.Writable)
    (hother : other.Writable) (heq : context.heading charset = other.heading charset) :
    context.bindings = other.bindings := by
  have hempty : context.bindings = [] ↔ other.bindings = [] := by
    rw [← @heading_eq_empty_iff charset, heq, heading_eq_empty_iff]
  by_cases hnil : context.bindings = []
  · rw [hnil, hempty.mp hnil]
  · have hnil' : other.bindings ≠ [] := fun hother => hnil (hempty.mpr hother)
    rw [heading, if_neg hnil, heading, if_neg hnil'] at heq
    have hchars := congrArg String.toList heq
    rw [String.toList_append, String.toList_append] at hchars
    exact format_inj hcontext hother hnil hnil'
      (String.toList_inj.mp (List.append_cancel_right hchars))

/-- In front of the turnstile stand only hypotheses, and commas and spaces between them. -/
theorem not_mem_heading {charset : Charset} {context : Context} {c : Char}
    (hcontext : context.Writable) (hword : isWordPart c = false)
    (hmark : c ∉ Proposition.marks ++ [':']) (hcomma : c ∉ ", ".toList) :
    c ∉ (context.heading charset).toList := by
  rw [heading]
  split
  next => simp
  next hne =>
    rw [String.toList_append, List.mem_append, not_or]
    refine ⟨?_, fun hspace => hcomma (List.mem_cons_of_mem ',' hspace)⟩
    intro hc
    have hled : c ∈ commaLed charset context.toList := by
      rw [← comma_format charset hne]
      exact List.mem_append_right _ hc
    obtain ⟨binding, hbinding, hmem⟩ := List.mem_flatMap.mp hled
    rcases List.mem_append.mp hmem with hseparator | htext
    · exact hcomma hseparator
    · have hmade := madeOf_formatBinding charset (hcontext.of_mem_toList binding hbinding)
      exact not_mem_of_madeOf hmade hword hmark htext

theorem beginsSolid_format (charset : Charset) {context : Context} (hcontext : context.Writable)
    (hne : context.bindings ≠ []) : BeginsSolid (context.format charset) := by
  obtain ⟨binding, rest, hlist, hformat⟩ := exists_format_eq charset hne
  have hbinding : WritableBinding binding := by
    apply hcontext.of_mem_toList
    rw [hlist]
    exact List.mem_cons_self
  rw [hformat]
  exact (((Writes.of_isIdentifier hbinding.1).begins.append _).append _).append _

end Context

/-! ## Sequents -/

/-- The first character of a turnstile. -/
def Charset.turnstileMark : Charset → Char
  | .ascii => '|'
  | .unicode => '⊢'

theorem Charset.head?_turnstile (charset : Charset) (rest : List Char) :
    ∀ c ∈ (charset.glyphs.turnstile.toList ++ rest).head?, c = charset.turnstileMark := by
  intro c hc
  cases charset <;> exact (Option.some.inj hc).symm

namespace Sequent

/-- The turnstile stands between the hypotheses and the goal. -/
theorem format_eq (charset : Charset) {sequent : Sequent} (hcontext : sequent.context.Writable) :
    sequent.format charset = sequent.context.heading charset ++
      (charset.glyphs.turnstile ++ (" " ++ sequent.goal.format charset)) := by
  rw [format, Context.heading]
  split
  next hnil =>
    have hempty : sequent.context.format charset = "" := by
      rw [Context.format, Context.toList, hnil]
      rfl
    have hturnstile : BeginsSolid charset.glyphs.turnstile := by cases charset <;> decide
    rw [hempty, String.empty_append, String.append_assoc, String.append_assoc, String.empty_append]
    exact trimLeft_append (List.all_eq_true.mp rfl) (hturnstile.append _)
  next hne =>
    have hbegins := Context.beginsSolid_format charset hcontext hne
    have htrim := @trimLeft_append "" _ (List.forall_mem_nil _)
      (hbegins.append (" " ++ (charset.glyphs.turnstile ++ (" " ++ sequent.goal.format charset))))
    rw [String.empty_append] at htrim
    simpa only [String.append_assoc] using htrim

/-- A displayed sequent determines the state. Two sequents whose names are all identifiers and that
are displayed alike, in one charset, have the same hypotheses in the same order, hidden ones
included, and the same goal. -/
theorem display_determines_sequent (charset : Charset) (s t : Sequent) (hs : s.Writable)
    (ht : t.Writable) (heq : s.format charset = t.format charset) :
    s.context = t.context ∧ s.goal = t.goal := by
  have hmark : ∀ {sequent : Sequent}, sequent.Writable →
      charset.turnstileMark ∉ (sequent.context.heading charset).toList := by
    intro sequent hsequent
    cases charset <;>
      exact Context.not_mem_heading hsequent.context (by decide) (by decide) (by decide)
  have hchars := congrArg String.toList heq
  rw [format_eq charset hs.context, format_eq charset ht.context] at hchars
  simp only [String.toList_append] at hchars
  obtain ⟨hheading, hrest⟩ := append_inj_of_mark (hmark hs) (hmark ht)
    (charset.head?_turnstile _) (charset.head?_turnstile _) hchars
  have hgoal := List.append_cancel_left (List.append_cancel_left hrest)
  have hbindings := Context.heading_inj hs.context ht.context (String.toList_inj.mp hheading)
  exact ⟨congrArg Context.mk hbindings,
    Proposition.format_inj hs.goal ht.goal (String.toList_inj.mp hgoal)⟩

/-- A sequent with a hidden hypothesis, which is displayed like every other one. -/
theorem display_determines_sequent_hidden :
    Sequent.Writable ⟨.ofList [("x", .atom "A"), ("x", .implies (.atom "A") .truth)], .atom "A"⟩ ∧
    Sequent.format .unicode
        ⟨.ofList [("x", .atom "A"), ("x", .implies (.atom "A") .truth)], .atom "A"⟩ =
      "x : A, x : A ⇒ ⊤ ⊢ A" ∧
    Context.ofList [("x", .atom "A"), ("x", .implies (.atom "A") .truth)] =
      (Context.empty.extend "x" (.atom "A")).extend "x" (.implies (.atom "A") .truth) := by
  have hwritable : Sequent.Writable
      ⟨.ofList [("x", .atom "A"), ("x", .implies (.atom "A") .truth)], .atom "A"⟩ :=
    ⟨by unfold Context.Writable; decide, by decide⟩
  have hother : Sequent.Writable
      ⟨(Context.empty.extend "x" (.atom "A")).extend "x" (.implies (.atom "A") .truth),
        .atom "A"⟩ :=
    ⟨by unfold Context.Writable; decide, by decide⟩
  exact ⟨hwritable, by decide +kernel,
    (display_determines_sequent .unicode _ _ hwritable hother (by decide +kernel)).1⟩

end Sequent

end Sequitur
