import Mathlib.Computability.Language
import Sequitur.Proofs.Lexing

/-! # Spellings

A text spells a language of tokens if, at whatever column it stands, its cut
belongs to the language. Texts that are put together spell the product of
their languages, as long as no word runs into the text behind it. A text that
moreover has no blanks at its ends survives being written on a line of its
own.
-/

namespace Sequitur

namespace Lexer

/-- Characters at whose end no word stands. -/
def Closed (chars : List Char) : Prop :=
  ∀ c ∈ chars.getLast?, isWordPart c = false

instance (chars : List Char) : Decidable (Detached chars) :=
  decidable_of_iff (chars.head?.all (!isWordPart ·) = true)
    (by simp [Detached, Option.all_eq_true])

instance (chars : List Char) : Decidable (Closed chars) :=
  decidable_of_iff (chars.getLast?.all (!isWordPart ·) = true)
    (by simp [Closed, Option.all_eq_true])

/-- No word at the end of the front is continued by the back. -/
def Apart (front back : List Char) : Prop :=
  Closed front ∨ Detached back

theorem Apart.of_append (front : List Char) {middle back : List Char}
    (hapart : Apart (front ++ middle) back) : Apart middle back := by
  refine hapart.imp_left ?_
  intro hlast c hc
  apply hlast c
  rw [List.getLast?_append, Option.mem_def.mp hc, Option.some_or, Option.mem_some]

/-- Behind a word stands no word part, even if nothing stands between the word and the back. -/
theorem Detached.append {word rest back : List Char} (hword : isWord word = true)
    (hdetached : Detached rest) (hapart : Apart (word ++ rest) back) :
    Detached (rest ++ back) := by
  cases rest with
  | cons c rest => exact hdetached
  | nil =>
      -- The word reaches to the back, and its last character is a word part.
      rcases hapart with hlast | hback
      · have hne := ne_nil_of_isWord hword
        have hpart := isWordPart_of_mem hword (List.getLast_mem hne)
        rw [List.append_nil, Closed, List.getLast?_eq_some_getLast hne] at hlast
        rw [hlast _ rfl] at hpart
        contradiction
      · exact hback

/-- Cuts of two texts make up a cut of both together. -/
theorem Cut.append {column : Nat} {front back : List Char} {tokens more : List Token}
    (hfront : Cut column front tokens) (hback : Cut (column + front.length) back more)
    (hapart : Apart front back) : Cut column (front ++ back) (tokens ++ more) := by
  induction hfront with
  | nil column => exact hback
  | @blank column c rest tokens hblank _ ih =>
      rw [List.length_cons, Nat.add_comm rest.length, ← Nat.add_assoc] at hback
      exact .blank hblank (ih hback (hapart.of_append [c]))
  | @word column chars rest tokens hword hdetached _ ih =>
      rw [List.length_append, ← Nat.add_assoc] at hback
      rw [List.append_assoc]
      exact .word hword (hdetached.append hword hapart) (ih hback (hapart.of_append chars))
  | @symbol column c kind rest tokens hsymbol _ ih =>
      rw [List.length_cons, Nat.add_comm rest.length, ← Nat.add_assoc] at hback
      exact .symbol hsymbol (ih hback (hapart.of_append [c]))
  | @symbolPair column first second kind rest tokens hpair _ ih =>
      have hlength : column + (first :: second :: rest).length = column + 2 + rest.length := by
        simp only [List.length_cons]
        omega
      rw [hlength] at hback
      exact .symbolPair hpair (ih hback (hapart.of_append [first, second]))

/-- A text that is cut at one column is cut at every other one, into tokens of the same kinds. -/
theorem Cut.exists_at {column : Nat} {chars : List Char} {tokens : List Token}
    (hcut : Cut column chars tokens) (other : Nat) :
    ∃ moved, moved.map Token.kind = tokens.map Token.kind ∧ Cut other chars moved := by
  induction hcut generalizing other with
  | nil column => exact ⟨[], rfl, .nil other⟩
  | blank hblank _ ih =>
      obtain ⟨moved, hkinds, hmoved⟩ := ih (other + 1)
      exact ⟨moved, hkinds, .blank hblank hmoved⟩
  | @word column chars rest tokens hword hdetached _ ih =>
      obtain ⟨moved, hkinds, hmoved⟩ := ih (other + chars.length)
      refine ⟨.word (String.ofList chars) other :: moved, ?_, .word hword hdetached hmoved⟩
      rw [List.map_cons, List.map_cons, hkinds]
      rfl
  | @symbol column c kind rest tokens hsymbol _ ih =>
      obtain ⟨moved, hkinds, hmoved⟩ := ih (other + 1)
      refine ⟨⟨kind, String.ofList [c], other⟩ :: moved, ?_, .symbol hsymbol hmoved⟩
      rw [List.map_cons, List.map_cons, hkinds]
  | @symbolPair column first second kind rest tokens hpair _ ih =>
      obtain ⟨moved, hkinds, hmoved⟩ := ih (other + 2)
      refine ⟨⟨kind, String.ofList [first, second], other⟩ :: moved, ?_,
        .symbolPair hpair hmoved⟩
      rw [List.map_cons, List.map_cons, hkinds]

end Lexer

namespace Text

/-- A text that begins with a character other than a blank. -/
def BeginsSolid (text : String) : Prop :=
  ∃ c ∈ text.toList.head?, isBlank c = false

/-- A text that ends with a character other than a blank. -/
def EndsSolid (text : String) : Prop :=
  ∃ c ∈ text.toList.getLast?, isBlank c = false

instance (text : String) : Decidable (BeginsSolid text) :=
  decidable_of_iff (text.toList.head?.any (!isBlank ·) = true)
    (by simp [BeginsSolid, Option.any_eq_true])

instance (text : String) : Decidable (EndsSolid text) :=
  decidable_of_iff (text.toList.getLast?.any (!isBlank ·) = true)
    (by simp [EndsSolid, Option.any_eq_true])

theorem BeginsSolid.append {front : String} (hfront : BeginsSolid front) (back : String) :
    BeginsSolid (front ++ back) := by
  obtain ⟨c, hc, hblank⟩ := hfront
  refine ⟨c, ?_, hblank⟩
  rw [String.toList_append, List.head?_append, Option.mem_def.mp hc, Option.some_or,
    Option.mem_some]

theorem EndsSolid.append {back : String} (hback : EndsSolid back) (front : String) :
    EndsSolid (front ++ back) := by
  obtain ⟨c, hc, hblank⟩ := hback
  refine ⟨c, ?_, hblank⟩
  rw [String.toList_append, List.getLast?_append, Option.mem_def.mp hc, Option.some_or,
    Option.mem_some]

end Text

open Lexer Text

/-! ## Languages of tokens -/

/-- The tokens of the given kinds, one after the other. -/
def ofKinds (kinds : List Token.Kind) : Language Token :=
  {tokens | tokens.map Token.kind = kinds}

/-- An identifier with the given name. -/
def ofIdentifier (name : String) : Language Token :=
  {tokens | ∃ token : Token, token.kind = .ident ∧ token.text = name ∧ tokens = [token]}

theorem mem_ofKinds_nil {tokens : List Token} : tokens ∈ ofKinds [] ↔ tokens = [] :=
  List.map_eq_nil_iff

theorem mem_ofKinds_singleton {kind : Token.Kind} {tokens : List Token} :
    tokens ∈ ofKinds [kind] ↔ ∃ token : Token, token.kind = kind ∧ tokens = [token] := by
  change tokens.map Token.kind = [kind] ↔ _
  rw [List.map_eq_singleton_iff]
  simp only [and_comm]

theorem mem_ofKinds_pair {first second : Token.Kind} {tokens : List Token} :
    tokens ∈ ofKinds [first, second] ↔
      ∃ a b : Token, a.kind = first ∧ b.kind = second ∧ tokens = [a, b] := by
  change tokens.map Token.kind = [first, second] ↔ _
  rw [List.map_eq_cons_iff]
  simp only [List.map_eq_singleton_iff]
  constructor
  · rintro ⟨a, _, rfl, ha, b, rfl, hb⟩
    exact ⟨a, b, ha, hb, rfl⟩
  · rintro ⟨a, b, ha, hb, rfl⟩
    exact ⟨a, [b], rfl, ha, b, rfl, hb⟩

theorem mem_ofIdentifier {name : String} {tokens : List Token} :
    tokens ∈ ofIdentifier name ↔
      ∃ token : Token, token.kind = .ident ∧ token.text = name ∧ tokens = [token] :=
  Iff.rfl

/-! ## Spelling them -/

/-- At whatever column the text stands, its tokens belong to the language. -/
def Spells (text : String) (language : Language Token) : Prop :=
  ∀ column, ∃ tokens ∈ language, Cut column text.toList tokens

theorem Spells.append {front back : String} {language other : Language Token}
    (hfront : Spells front language) (hback : Spells back other)
    (hapart : Apart front.toList back.toList) : Spells (front ++ back) (language * other) := by
  intro column
  obtain ⟨tokens, htokens, hcut⟩ := hfront column
  obtain ⟨more, hmore, hcutMore⟩ := hback (column + front.toList.length)
  refine ⟨tokens ++ more, Language.append_mem_mul htokens hmore, ?_⟩
  rw [String.toList_append]
  exact hcut.append hcutMore hapart

/-- A fixed text spells the kinds of tokens that the lexer finds in it. -/
theorem Spells.of_ofText {text : String} {kinds : List Token.Kind}
    (hread : (TokenStream.ofText text).map (fun stream => stream.tokens.map Token.kind) =
      .ok kinds) : Spells text (ofKinds kinds) := by
  intro column
  cases hstream : TokenStream.ofText text with
  | error error =>
      rw [hstream] at hread
      cases hread
  | ok stream =>
      rw [hstream] at hread
      obtain ⟨hcut, -⟩ := (TokenStream.ofText_eq_ok_iff text stream).mp hstream
      obtain ⟨tokens, hkinds, hmoved⟩ := hcut.exists_at column
      exact ⟨tokens, hkinds.trans (Except.ok.inj hread), hmoved⟩

/-- A fixed text in front of another one: no word runs across its end. -/
structure Mark (text : String) (kinds : List Token.Kind) : Prop where
  kinds_eq : (TokenStream.ofText text).map (fun stream => stream.tokens.map Token.kind) = .ok kinds
  closed : Closed text.toList
  begins : BeginsSolid text

/-- A fixed text between two others: no word runs across its ends. -/
structure Glue (text : String) (kinds : List Token.Kind) : Prop where
  kinds_eq : (TokenStream.ofText text).map (fun stream => stream.tokens.map Token.kind) = .ok kinds
  closed : Closed text.toList
  detached : Detached text.toList
  ne_nil : text.toList ≠ []

/-- A text that spells a language and has no blanks at its ends. -/
structure Writes (text : String) (language : Language Token) : Prop where
  spells : Spells text language
  begins : BeginsSolid text
  ends : EndsSolid text

namespace Writes

theorem mono {text : String} {language other : Language Token} (hwrites : Writes text language)
    (hsubset : ∀ tokens ∈ language, tokens ∈ other) : Writes text other := by
  refine ⟨?_, hwrites.begins, hwrites.ends⟩
  intro column
  obtain ⟨tokens, htokens, hcut⟩ := hwrites.spells column
  exact ⟨tokens, hsubset tokens htokens, hcut⟩

theorem of_isIdentifier {name : String} (hname : isIdentifier name = true) :
    Writes name (ofIdentifier name) := by
  have hword := isWord_of_isIdentifier hname
  have hne := ne_nil_of_isWord hword
  have hsolid : ∀ c ∈ name.toList, isBlank c = false := by
    intro c hc
    exact not_isBlank_of_isWordPart (isWordPart_of_mem hword hc)
  refine ⟨?_, ⟨_, List.head?_eq_some_head hne, hsolid _ (List.head_mem hne)⟩,
    ⟨_, List.getLast?_eq_some_getLast hne, hsolid _ (List.getLast_mem hne)⟩⟩
  intro column
  exact ⟨_, ⟨_, rfl, rfl, rfl⟩, .of_isIdentifier hname column⟩

theorem after_mark {mark text : String} {kinds : List Token.Kind} {language : Language Token}
    (hmark : Mark mark kinds) (hwrites : Writes text language) :
    Writes (mark ++ text) (ofKinds kinds * language) where
  spells := (Spells.of_ofText hmark.kinds_eq).append hwrites.spells (Or.inl hmark.closed)
  begins := hmark.begins.append text
  ends := hwrites.ends.append mark

/-- Two texts with glue between them. -/
theorem glued {front glue back : String} {kinds : List Token.Kind}
    {language other : Language Token} (hfront : Writes front language) (hglue : Glue glue kinds)
    (hback : Writes back other) :
    Writes (front ++ glue ++ back) (language * ofKinds kinds * other) := by
  refine ⟨?_, (hfront.begins.append glue).append back, hback.ends.append (front ++ glue)⟩
  have hjoined := hfront.spells.append (.of_ofText hglue.kinds_eq) (Or.inr hglue.detached)
  -- What stands in front of the back ends like the glue.
  refine hjoined.append hback.spells (Or.inl ?_)
  rw [String.toList_append, Closed, List.getLast?_append_of_ne_nil _ hglue.ne_nil]
  exact hglue.closed

/-- A text with a mark in front of it and a closing parenthesis behind it. -/
theorem closed_by_rparen {mark text : String} {kinds : List Token.Kind}
    {language : Language Token} (hmark : Mark mark kinds) (hwrites : Writes text language) :
    Writes (mark ++ text ++ ")") (ofKinds kinds * language * ofKinds [.rparen]) where
  spells := (hwrites.after_mark hmark).spells.append (.of_ofText rfl) (Or.inr (by decide))
  begins := (hmark.begins.append text).append ")"
  ends := EndsSolid.append (by decide) (mark ++ text)

/-- Two texts between a mark and a closing parenthesis, with a comma between them. -/
theorem pair_closed_by_rparen {mark comma first second : String} {kinds : List Token.Kind}
    {language other : Language Token} (hmark : Mark mark kinds) (hcomma : Glue comma [.comma])
    (hfirst : Writes first language) (hsecond : Writes second other) :
    Writes (mark ++ first ++ comma ++ second ++ ")")
      (ofKinds kinds * (language * ofKinds [.comma] * other) * ofKinds [.rparen]) := by
  have hwrites := (hfirst.glued hcomma hsecond).closed_by_rparen hmark
  simpa only [String.append_assoc] using hwrites

end Writes

end Sequitur
