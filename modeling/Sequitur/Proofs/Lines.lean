import Sequitur.Proofs.Failure
import Sequitur.Text.Line

/-! # Lines and separators

A text in which every line is ended can be continued without touching its
lines, and a text without line ends is a line of its own. A text is split at
the last place where a separator stands: the separator does not begin again
behind that place.
-/

namespace Sequitur.Text

/-! ## Lines -/

/-- The last character, if there is one, is a line feed. -/
def Ended (chars : List Char) : Prop :=
  ∀ c ∈ chars.getLast?, c = '\n'

theorem ended_nil : Ended [] := by
  simp [Ended]

theorem ended_of_getLast? {chars : List Char} (hlast : chars.getLast? = some '\n') :
    Ended chars := by
  intro c hc
  rw [hlast] at hc
  exact (Option.some.inj hc).symm

theorem ended_append_newline (chars : List Char) : Ended (chars ++ ['\n']) := by
  simp [Ended]

theorem Ended.append {front back : List Char} (hfront : Ended front) (hback : Ended back) :
    Ended (front ++ back) := by
  intro c hc
  rw [List.getLast?_append] at hc
  cases hlast : back.getLast? with
  | none =>
      rw [hlast, Option.none_or] at hc
      exact hfront c hc
  | some last =>
      rw [hlast, Option.some_or] at hc
      exact hback c (hlast.trans hc)

theorem Ended.of_cons {c : Char} {rest : List Char} (hended : Ended (c :: rest)) :
    Ended rest := by
  intro last hlast
  apply hended last
  rw [List.getLast?_cons, Option.mem_def.mp hlast]
  rfl

theorem ended_join {texts : List String} (hended : ∀ text ∈ texts, Ended text.toList) :
    Ended (String.join texts).toList := by
  induction texts with
  | nil => exact ended_nil
  | cons text texts ih =>
      obtain ⟨htext, htexts⟩ := List.forall_mem_cons.mp hended
      rw [String.join_cons, String.toList_append]
      exact htext.append (ih htexts)

/-- No character ends a line. -/
def OneLine (chars : List Char) : Prop :=
  ∀ c ∈ chars, isLineEnd c = false

theorem OneLine.append {front back : List Char} (hfront : OneLine front) (hback : OneLine back) :
    OneLine (front ++ back) :=
  List.forall_mem_append.mpr ⟨hfront, hback⟩

theorem charLines_cons {c : Char} (hc : isLineEnd c = false) (rest : List Char) :
    charLines (c :: rest) = consFirst c (charLines rest) := by
  rw [charLines.eq_3, hc]
  · simp
  · rintro _ rfl
    contradiction

theorem charLines_ne_nil {chars : List Char} (hne : chars ≠ []) : charLines chars ≠ [] := by
  fun_cases charLines chars with
  | case1 => contradiction
  | case2 rest => simp
  | case3 c rest _ hend => simp
  | case4 c rest _ hend => cases charLines rest <;> simp [consFirst]

theorem consFirst_append {lines : List (List Char)} (c : Char) (hne : lines ≠ [])
    (more : List (List Char)) : consFirst c (lines ++ more) = consFirst c lines ++ more := by
  cases lines with
  | nil => contradiction
  | cons line lines => rfl

/-- Behind ended lines begins a new one. -/
theorem charLines_append {front : List Char} (hended : Ended front) (back : List Char) :
    charLines (front ++ back) = charLines front ++ charLines back := by
  fun_induction charLines front with
  | case1 => rfl
  | case2 rest ih =>
      rw [List.cons_append, List.cons_append, charLines, ih hended.of_cons.of_cons]
      rfl
  | case3 c rest hpair hend ih =>
      have hapart : ∀ more, c = '\r' → rest ++ back = '\n' :: more → False := by
        intro more hc happend
        cases rest with
        | nil =>
            -- The front is a carriage return alone, so it is not ended.
            have hlast : c = '\n' := hended c rfl
            rw [hc] at hlast
            contradiction
        | cons d rest =>
            obtain ⟨rfl, -⟩ := List.cons_eq_cons.mp happend
            exact hpair rest hc rfl
      rw [List.cons_append, charLines.eq_3 _ _ hapart, if_pos hend, ih hended.of_cons]
      rfl
  | case4 c rest hpair hend ih =>
      have hne : rest ≠ [] := by
        rintro rfl
        have hlast : c = '\n' := hended c rfl
        rw [hlast] at hend
        contradiction
      rw [List.cons_append, charLines_cons (by simpa using hend), ih hended.of_cons,
        consFirst_append c (charLines_ne_nil hne)]

theorem charLines_line {chars : List Char} (hline : OneLine chars) :
    charLines (chars ++ ['\n']) = [chars] := by
  induction chars with
  | nil => rfl
  | cons c rest ih =>
      obtain ⟨hc, hrest⟩ := List.forall_mem_cons.mp hline
      rw [List.cons_append, charLines_cons hc, ih hrest]
      rfl

/-- A line that is ended behind ended lines is the last one. -/
theorem getLast?_lines {shown line : String} (hshown : Ended shown.toList)
    (hline : OneLine line.toList) :
    (lines (shown ++ (line ++ "\n"))).getLast? = some line := by
  have hlines : lines (shown ++ (line ++ "\n")) = lines shown ++ [line] := by
    have hchars : (line ++ "\n").toList = line.toList ++ ['\n'] := String.toList_append
    rw [lines, String.toList_append, charLines_append hshown, hchars, charLines_line hline,
      List.map_append, List.map_singleton, String.ofList_toList]
    rfl
  rw [hlines, List.getLast?_concat]

@[simp]
theorem unlines_nil : unlines [] = "" :=
  rfl

theorem unlines_cons (line : String) (rest : List String) :
    unlines (line :: rest) = line ++ "\n" ++ unlines rest := by
  rw [unlines, List.map_cons, String.join_cons]
  rfl

theorem oneLine_iff {chars : List Char} : OneLine chars ↔ '\r' ∉ chars ∧ '\n' ∉ chars := by
  simp only [OneLine, isLineEnd, Bool.or_eq_false_iff, beq_eq_false_iff_ne]
  grind

/-- A character that is put in front of the first line, whether or not there is one already, joins
the characters of the lines. -/
theorem forall_mem_consFirst {p : Char → Prop} {c : Char} {lines : List (List Char)} (hc : p c)
    (hlines : ∀ line ∈ lines, ∀ d ∈ line, p d) :
    ∀ line ∈ consFirst c lines, ∀ d ∈ line, p d := by
  cases lines with
  | nil => simpa [consFirst] using hc
  | cons first others =>
      obtain ⟨hfirst, hothers⟩ := List.forall_mem_cons.mp hlines
      exact List.forall_mem_cons.mpr ⟨List.forall_mem_cons.mpr ⟨hc, hfirst⟩, hothers⟩

theorem oneLine_of_mem_charLines {chars line : List Char} (hline : line ∈ charLines chars) :
    OneLine line := by
  fun_induction charLines chars generalizing line with
  | case1 => simp at hline
  | case2 rest ih =>
      rcases List.mem_cons.mp hline with rfl | hrest
      · simp [OneLine]
      · exact ih hrest
  | case3 c rest _ hend ih =>
      rcases List.mem_cons.mp hline with rfl | hrest
      · simp [OneLine]
      · exact ih hrest
  | case4 c rest _ hend ih =>
      have hc : isLineEnd c = false := by simpa using hend
      exact forall_mem_consFirst hc (fun line hline => ih hline) line hline

theorem oneLine_of_mem_lines {text line : String} (hline : line ∈ lines text) :
    OneLine line.toList := by
  obtain ⟨chars, hchars, rfl⟩ := List.mem_map.mp hline
  rw [String.toList_ofList]
  exact oneLine_of_mem_charLines hchars

theorem newline_not_mem_of_mem_charInputLines {chars line : List Char}
    (hline : line ∈ charInputLines chars) : '\n' ∉ line := by
  fun_induction charInputLines chars generalizing line with
  | case1 => simp at hline
  | case2 c rest hfeed ih =>
      rcases List.mem_cons.mp hline with rfl | hrest
      · simp
      · exact ih hrest
  | case3 c rest hfeed ih =>
      have hc : c ≠ '\n' := by simpa using hfeed
      have hall : ∀ line ∈ consFirst c (charInputLines rest), ∀ d ∈ line, d ≠ '\n' := by
        apply forall_mem_consFirst (p := (· ≠ '\n')) hc
        rintro line hline d hd rfl
        exact ih hline hd
      intro hnewline
      exact hall line hline '\n' hnewline rfl

/-- No line of standard input holds a line feed. -/
theorem newline_not_mem_of_mem_inputLines {text line : String} (hline : line ∈ inputLines text) :
    '\n' ∉ line.toList := by
  obtain ⟨chars, hchars, rfl⟩ := List.mem_map.mp hline
  rw [String.toList_ofList]
  exact newline_not_mem_of_mem_charInputLines hchars

theorem lines_unlines {texts : List String} (hone : ∀ line ∈ texts, OneLine line.toList) :
    lines (unlines texts) = texts := by
  induction texts with
  | nil => rfl
  | cons line rest ih =>
      obtain ⟨hline, hrest⟩ := List.forall_mem_cons.mp hone
      have hchars : (line ++ "\n" ++ unlines rest).toList =
          (line.toList ++ ['\n']) ++ (unlines rest).toList := by
        rw [String.toList_append, String.toList_append]
        rfl
      have htail : (charLines (unlines rest).toList).map String.ofList = rest := ih hrest
      rw [unlines_cons, lines, hchars, charLines_append (ended_append_newline _),
        charLines_line hline, List.map_append, htail, List.map_singleton, String.ofList_toList]
      rfl

/-- Ended lines are found again in their text exactly if no line end stands within one of them. -/
theorem lines_unlines_iff (texts : List String) :
    lines (unlines texts) = texts ↔ ∀ line ∈ texts, OneLine line.toList := by
  constructor
  · intro hlines line hline
    rw [← hlines] at hline
    exact oneLine_of_mem_lines hline
  · exact lines_unlines

/-! ## Separators -/

/-- The characters in front of the last place where the separator stands, and those behind it. -/
def splitLastChars? (separator : List Char) : List Char → Option (List Char × List Char)
  | [] => none
  | c :: rest =>
      match splitLastChars? separator rest with
      | some (front, back) => some (c :: front, back)
      | none => (separator.isPrefixOf? (c :: rest)).map fun back => ([], back)

theorem splitLastChars?_eq_none_iff {separator : List Char} (hne : separator ≠ [])
    (chars : List Char) :
    splitLastChars? separator chars = none ↔ ¬ separator <:+: chars := by
  induction chars with
  | nil => simp [splitLastChars?, hne]
  | cons c rest ih =>
      rw [splitLastChars?, List.infix_cons_iff]
      cases hrest : splitLastChars? separator rest with
      | some parts =>
          have hinside : separator <:+: rest := by
            by_contra hnot
            rw [ih.mpr hnot] at hrest
            contradiction
          simp [hinside]
      | none =>
          have hnot : ¬ separator <:+: rest := ih.mp hrest
          simp [hnot, Option.eq_none_iff_forall_ne_some, List.IsPrefix]

/-- The parts are those around a separator behind whose first character no other one begins. -/
theorem splitLastChars?_eq_some_iff {d : Char} {tail chars front back : List Char} :
    splitLastChars? (d :: tail) chars = some (front, back) ↔
      chars = front ++ d :: (tail ++ back) ∧ ¬ (d :: tail) <:+: tail ++ back := by
  induction chars generalizing front with
  | nil => simp [splitLastChars?]
  | cons c rest ih =>
      have hinside := splitLastChars?_eq_none_iff (List.cons_ne_nil d tail) rest
      rw [splitLastChars?]
      cases hrest : splitLastChars? (d :: tail) rest with
      | some parts =>
          simp only [hrest, reduceCtorEq, false_iff, not_not] at ih hinside
          cases front with
          | nil =>
              -- The rest holds a separator, so the last one does not stand at the front.
              simp only [Option.some.injEq, Prod.mk.injEq, reduceCtorEq, false_and, false_iff,
                List.nil_append, List.cons_eq_cons]
              rintro ⟨⟨-, rfl⟩, hlast⟩
              exact hlast hinside
          | cons e front =>
              simp only [List.cons_append, List.cons_eq_cons, and_assoc, ← ih, Option.some.injEq,
                Prod.ext_iff]
      | none =>
          have hnot : ¬ (d :: tail) <:+: rest := hinside.mp hrest
          cases front with
          | nil =>
              simp only [Option.map_eq_some_iff, Prod.mk.injEq, true_and, exists_eq_right,
                List.isPrefixOf?_eq_some_iff_append_eq, List.nil_append]
              constructor
              · intro hchars
                obtain ⟨rfl, hback⟩ : d = c ∧ tail ++ back = rest := List.cons_eq_cons.mp hchars
                rw [hback]
                exact ⟨rfl, hnot⟩
              · rintro ⟨hchars, -⟩
                exact hchars.symm
          | cons e front =>
              simp only [Option.map_eq_some_iff, Prod.mk.injEq, reduceCtorEq, false_and, and_false,
                exists_false, false_iff, List.cons_append, List.cons_eq_cons]
              rintro ⟨⟨-, rfl⟩, -⟩
              exact hnot ⟨front, back, by simp⟩

/-- The parts of a text in front of and behind the last place where the separator stands. -/
def splitLast? (separator text : String) : Option (String × String) :=
  (splitLastChars? separator.toList text.toList).map fun parts =>
    (String.ofList parts.1, String.ofList parts.2)

/-- Behind the last colon with spaces around it there is no colon. -/
theorem splitLast?_colon (front : String) {back : String} (hback : ':' ∉ back.toList) :
    splitLast? " : " (front ++ " : " ++ back) = some (front, back) := by
  have hchars : (front ++ " : " ++ back).toList =
      front.toList ++ ' ' :: ([':', ' '] ++ back.toList) := by
    simp [String.toList_append]
  have hlast : ¬ [' ', ':', ' '] <:+: [':', ' '] ++ back.toList := by
    intro hinside
    rcases List.infix_cons_iff.mp hinside with hstart | hrest
    · simp at hstart
    · have hcolon : ':' ∈ ' ' :: back.toList := hrest.subset (by simp)
      simp [hback] at hcolon
  have hsplit : splitLastChars? " : ".toList (front ++ " : " ++ back).toList =
      some (front.toList, back.toList) :=
    splitLastChars?_eq_some_iff.mpr ⟨hchars, hlast⟩
  rw [splitLast?, hsplit]
  simp

end Sequitur.Text
