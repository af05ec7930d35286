import Sequitur.Proofs.Lexing

/-! # Slices of a text

Where the tokens of a text stand in it. They are slices of the text that do not
overlap and come in order, what lies between them is blank, and each word
reaches as far as it can. These facts determine the tokens, and with them what
the lexer yields. Where no token can be found behind such slices, the lexer
fails, and it fails nowhere else.
-/

namespace Sequitur

namespace Token

/-- The column behind the last character of a token. -/
def stop (token : Token) : Nat :=
  token.column + token.text.toList.length

/-- A column at which a character of the token stands. -/
def Covers (token : Token) (column : Nat) : Prop :=
  token.column ≤ column ∧ column < token.stop

/-- A token that is written as a word: an identifier or a reserved word. -/
def IsWord (token : Token) : Prop :=
  token.kind = .ident ∨ (Kind.ofKeyword? token.text).isSome = true

end Token

namespace Lexer

open Failure

/-- The spellings of the tokens of a kind. -/
inductive Lexeme : Token.Kind → List Char → Prop where
  | word {chars : List Char} (hword : isWord chars = true) :
      Lexeme (.ofWord (String.ofList chars)) chars
  | symbol {c : Char} {kind : Token.Kind} (hsymbol : Token.Kind.ofSymbol? c = some kind) :
      Lexeme kind [c]
  | symbolPair {first second : Char} {kind : Token.Kind}
      (hpair : Token.Kind.ofSymbolPair? first second = some kind) : Lexeme kind [first, second]

/-- Something other than the end of the text stands in front: a blank or a token. -/
def Begins (chars : List Char) : Prop :=
  (∃ c ∈ chars.head?, Text.isBlank c = true) ∨ ∃ kind lexeme, Lexeme kind lexeme ∧ lexeme <+: chars

/-- The tokens, with the blanks between them, fill the first characters of a text that begins at
the given column. -/
structure Divides (column : Nat) (chars : List Char) (length : Nat) (tokens : List Token) :
    Prop where
  length_le : length ≤ chars.length
  /-- Each token is spelled as its kind demands, in particular with some character. -/
  lexeme : ∀ token ∈ tokens, Lexeme token.kind token.text.toList
  within : ∀ token ∈ tokens, column ≤ token.column ∧ token.stop ≤ column + length
  /-- The spelling of each token stands in the text at the column of the token. -/
  slice : ∀ token ∈ tokens, token.text.toList <+: chars.drop (token.column - column)
  ordered : tokens.Pairwise fun first second => first.stop ≤ second.column
  /-- No word is continued by the character behind it, wherever the division ends. -/
  maximal : ∀ token ∈ tokens, token.IsWord → Detached (chars.drop (token.stop - column))
  blank : ∀ index < length, (∀ token ∈ tokens, ¬ token.Covers (column + index)) →
    ∀ c ∈ chars[index]?, Text.isBlank c = true

/-! ## Spellings -/

theorem Lexeme.length_pos {kind : Token.Kind} {chars : List Char} (hlexeme : Lexeme kind chars) :
    0 < chars.length := by
  cases hlexeme with
  | word hword => exact List.length_pos_iff.mpr (ne_nil_of_isWord hword)
  | symbol => exact Nat.zero_lt_one
  | symbolPair => exact Nat.zero_lt_two

theorem ofKeyword?_symbol {c : Char} {kind : Token.Kind}
    (hsymbol : Token.Kind.ofSymbol? c = some kind) :
    Token.Kind.ofKeyword? (String.ofList [c]) = none := by
  unfold Token.Kind.ofSymbol? at hsymbol
  split at hsymbol <;> cases hsymbol <;> decide

theorem ofKeyword?_symbolPair {first second : Char} {kind : Token.Kind}
    (hpair : Token.Kind.ofSymbolPair? first second = some kind) :
    Token.Kind.ofKeyword? (String.ofList [first, second]) = none := by
  unfold Token.Kind.ofSymbolPair? at hpair
  split at hpair <;> cases hpair <;> decide

/-- The tokens that are written as words are the identifiers and the reserved words. -/
theorem Lexeme.isWord_iff {kind : Token.Kind} {chars : List Char} (hlexeme : Lexeme kind chars)
    (column : Nat) :
    Token.IsWord ⟨kind, String.ofList chars, column⟩ ↔ isWord chars = true := by
  cases hlexeme with
  | word hword =>
      rw [Token.IsWord, Token.Kind.ofWord]
      cases Token.Kind.ofKeyword? (String.ofList chars) with
      | none => simp [hword]
      | some kind => simp [hword]
  | symbol hsymbol =>
      obtain ⟨-, hstart, -⟩ := ofSymbol?_cases hsymbol
      simp only [Token.IsWord, (Token.Kind.ofSymbol?_ne hsymbol).2, ofKeyword?_symbol hsymbol,
        Option.isSome_none, Bool.false_eq_true, or_self, isWord, hstart, Bool.false_and]
  | symbolPair hpair =>
      obtain ⟨-, hstart⟩ := opensSymbolPair_cases (opensSymbolPair_of_ofSymbolPair? hpair)
      simp only [Token.IsWord, (Token.Kind.ofSymbolPair?_ne hpair).2, ofKeyword?_symbolPair hpair,
        Option.isSome_none, Bool.false_eq_true, or_self, isWord, hstart, Bool.false_and]

/-! ## Divisions -/

namespace Divides

theorem empty (column : Nat) (chars : List Char) : Divides column chars 0 [] where
  length_le := Nat.zero_le _
  lexeme := by simp
  within := by simp
  slice := by simp
  ordered := .nil
  maximal := by simp
  blank := by simp

theorem of_blank (column : Nat) {c : Char} (rest : List Char) (hblank : Text.isBlank c = true) :
    Divides column (c :: rest) 1 [] where
  length_le := by simp
  lexeme := by simp
  within := by simp
  slice := by simp
  ordered := .nil
  maximal := by simp
  blank := by
    intro index hindex _ other hother
    obtain rfl : index = 0 := by omega
    simp only [List.getElem?_cons_zero, Option.mem_some] at hother
    rwa [← hother]

theorem of_lexeme (column : Nat) {kind : Token.Kind} {chars rest : List Char}
    (hlexeme : Lexeme kind chars) (hdetached : isWord chars = true → Detached rest) :
    Divides column (chars ++ rest) chars.length [⟨kind, String.ofList chars, column⟩] where
  length_le := by simp
  lexeme := by simpa using hlexeme
  within := by simp [Token.stop]
  slice := by simp
  ordered := List.pairwise_singleton _ _
  maximal := by
    intro token htoken hword
    obtain rfl := List.mem_singleton.mp htoken
    have hrest : (chars ++ rest).drop
        (Token.stop ⟨kind, String.ofList chars, column⟩ - column) = rest := by
      simp [Token.stop]
    rw [hrest]
    exact hdetached ((hlexeme.isWord_iff column).mp hword)
  blank := by
    intro index hindex huncovered
    have hcovers : Token.Covers ⟨kind, String.ofList chars, column⟩ (column + index) := by
      simp [Token.Covers, Token.stop, hindex]
    exact absurd hcovers (huncovered _ (List.mem_singleton_self _))

end Divides

/-- Behind the front of a text, places are counted from the end of the front. -/
theorem drop_append_of_le {column place : Nat} {front : List Char} (rest : List Char)
    (hplace : column + front.length ≤ place) :
    (front ++ rest).drop (place - column) = rest.drop (place - (column + front.length)) := by
  rw [List.drop_append, List.drop_eq_nil_of_le (by omega), List.nil_append, Nat.sub_sub]

namespace Divides

/-- A division of the front and one of what follows it make up a division of both. -/
theorem append {column length : Nat} {front rest : List Char} {taken more : List Token}
    (hfront : Divides column (front ++ rest) front.length taken)
    (hrest : Divides (column + front.length) rest length more) :
    Divides column (front ++ rest) (front.length + length) (taken ++ more) where
  length_le := by
    have := hrest.length_le
    rw [List.length_append]
    omega
  lexeme := List.forall_mem_append.mpr ⟨hfront.lexeme, hrest.lexeme⟩
  within := by
    refine List.forall_mem_append.mpr ⟨?_, ?_⟩
    · intro token htoken
      have := hfront.within token htoken
      omega
    · intro token htoken
      have := hrest.within token htoken
      omega
  slice := by
    refine List.forall_mem_append.mpr ⟨hfront.slice, ?_⟩
    intro token htoken
    rw [drop_append_of_le rest (hrest.within token htoken).1]
    exact hrest.slice token htoken
  ordered := by
    refine List.pairwise_append.mpr ⟨hfront.ordered, hrest.ordered, ?_⟩
    intro first hfirst second hsecond
    exact (hfront.within first hfirst).2.trans (hrest.within second hsecond).1
  maximal := by
    refine List.forall_mem_append.mpr ⟨hfront.maximal, ?_⟩
    intro token htoken hword
    have hplace : column + front.length ≤ token.stop :=
      (hrest.within token htoken).1.trans (Nat.le_add_right _ _)
    rw [drop_append_of_le rest hplace]
    exact hrest.maximal token htoken hword
  blank := by
    intro index hindex huncovered
    obtain ⟨htaken, hmore⟩ := List.forall_mem_append.mp huncovered
    by_cases hlt : index < front.length
    · exact hfront.blank index hlt htaken
    · obtain ⟨place, rfl⟩ := Nat.exists_eq_add_of_le (Nat.le_of_not_lt hlt)
      rw [← Nat.add_assoc] at hmore
      rw [List.getElem?_append_right (Nat.le_add_right _ _), Nat.add_sub_cancel_left]
      exact hrest.blank place (by omega) hmore

/-- What a division says about a text behind a front in which some of the tokens lie. -/
theorem of_append {column length : Nat} {front rest : List Char} {taken more : List Token}
    (hdivides : Divides column (front ++ rest) (front.length + length) (taken ++ more))
    (htaken : ∀ token ∈ taken, token.stop ≤ column + front.length)
    (hmore : ∀ token ∈ more, column + front.length ≤ token.column) :
    Divides (column + front.length) rest length more where
  length_le := by
    have := hdivides.length_le
    rw [List.length_append] at this
    omega
  lexeme := (List.forall_mem_append.mp hdivides.lexeme).2
  within := by
    intro token htoken
    have := hdivides.within token (List.mem_append_right taken htoken)
    exact ⟨hmore token htoken, by omega⟩
  slice := by
    intro token htoken
    rw [← drop_append_of_le rest (hmore token htoken)]
    exact hdivides.slice token (List.mem_append_right taken htoken)
  ordered := (List.pairwise_append.mp hdivides.ordered).2.1
  maximal := by
    intro token htoken hword
    have hplace : column + front.length ≤ token.stop :=
      (hmore token htoken).trans (Nat.le_add_right _ _)
    rw [← drop_append_of_le rest hplace]
    exact hdivides.maximal token (List.mem_append_right taken htoken) hword
  blank := by
    intro index hindex huncovered c hc
    apply hdivides.blank (front.length + index) (by omega)
    · refine List.forall_mem_append.mpr ⟨?_, ?_⟩
      · intro token htoken hcovers
        have := htaken token htoken
        have := hcovers.2
        omega
      · rwa [← Nat.add_assoc]
    · rwa [List.getElem?_append_right (Nat.le_add_right _ _), Nat.add_sub_cancel_left]

theorem stop_gt {column length : Nat} {chars : List Char} {tokens : List Token}
    (hdivides : Divides column chars length tokens) {token : Token} (htoken : token ∈ tokens) :
    token.column < token.stop :=
  Nat.lt_add_of_pos_right (hdivides.lexeme token htoken).length_pos

/-- A division whose tokens stand further right begins with a blank. -/
theorem of_later {column length : Nat} {chars : List Char} {tokens : List Token}
    (hdivides : Divides column chars (1 + length) tokens)
    (hlater : ∀ token ∈ tokens, column + 1 ≤ token.column) :
    ∃ c rest, chars = c :: rest ∧ Text.isBlank c = true ∧
      Divides (column + 1) rest length tokens := by
  cases chars with
  | nil =>
      have := hdivides.length_le
      rw [List.length_nil] at this
      omega
  | cons c rest =>
      refine ⟨c, rest, rfl, ?_, ?_⟩
      · apply hdivides.blank 0 (by omega)
        · intro token htoken hcovers
          have := hlater token htoken
          have := hcovers.1
          omega
        · exact rfl
      · have hfront : Divides column ([c] ++ rest) ([c].length + length) ([] ++ tokens) := hdivides
        exact hfront.of_append (by simp) hlater

/-- A division with a token at its first column begins with the spelling of that token. -/
theorem of_first {column length : Nat} {chars : List Char} {token : Token} {more : List Token}
    (hdivides : Divides column chars length (token :: more)) (hcolumn : token.column = column) :
    ∃ rest n, chars = token.text.toList ++ rest ∧ length = token.text.toList.length + n ∧
      (isWord token.text.toList = true → Detached rest) ∧
      Divides (column + token.text.toList.length) rest n more := by
  have hmem : token ∈ token :: more := List.mem_cons_self
  obtain ⟨rest, hrest⟩ := hdivides.slice token hmem
  rw [hcolumn, Nat.sub_self, List.drop_zero] at hrest
  have hstop := (hdivides.within token hmem).2
  rw [Token.stop, hcolumn] at hstop
  obtain ⟨n, rfl⟩ := Nat.exists_eq_add_of_le (Nat.le_of_add_le_add_left hstop)
  refine ⟨rest, n, hrest.symm, rfl, ?_, ?_⟩
  · intro hword
    have hdetached := hdivides.maximal token hmem ?_
    · rwa [Token.stop, hcolumn, Nat.add_sub_cancel_left, ← hrest, List.drop_left] at hdetached
    · have hiff := (hdivides.lexeme token hmem).isWord_iff token.column
      rw [String.ofList_toList] at hiff
      exact hiff.mpr hword
  · rw [← hrest, ← List.singleton_append] at hdivides
    apply hdivides.of_append
    · intro other hother
      rw [List.mem_singleton.mp hother, Token.stop, hcolumn]
    · intro other hother
      have := (List.pairwise_cons.mp hdivides.ordered).1 other hother
      rwa [Token.stop, hcolumn] at this

/-- How a division begins: nothing is divided, or a blank comes first, or a token. -/
theorem first {column length : Nat} {chars : List Char} {tokens : List Token}
    (hdivides : Divides column chars length tokens) :
    (length = 0 ∧ tokens = []) ∨
    (∃ c rest n, chars = c :: rest ∧ length = 1 + n ∧ Text.isBlank c = true ∧
      Divides (column + 1) rest n tokens) ∨
    ∃ kind lexeme rest n more, chars = lexeme ++ rest ∧ length = lexeme.length + n ∧
      Lexeme kind lexeme ∧ (isWord lexeme = true → Detached rest) ∧
      tokens = ⟨kind, String.ofList lexeme, column⟩ :: more ∧
      Divides (column + lexeme.length) rest n more := by
  by_cases hfirst : ∃ token ∈ tokens.head?, token.column = column
  · obtain ⟨token, htoken, hcolumn⟩ := hfirst
    obtain ⟨more, rfl⟩ : ∃ more, tokens = token :: more :=
      ⟨tokens.tail, List.eq_cons_of_mem_head? htoken⟩
    obtain ⟨rest, n, hchars, hlength, hdetached, hmore⟩ := hdivides.of_first hcolumn
    have hlexeme := hdivides.lexeme token List.mem_cons_self
    refine Or.inr (Or.inr ⟨token.kind, _, rest, n, more, hchars, hlength, hlexeme, hdetached, ?_,
      hmore⟩)
    rw [String.ofList_toList, ← hcolumn]
  · have hlater : ∀ token ∈ tokens, column + 1 ≤ token.column := by
      cases tokens with
      | nil => simp
      | cons head more =>
          have hne : head.column ≠ column := fun heq => hfirst ⟨head, rfl, heq⟩
          have hhead : column + 1 ≤ head.column :=
            Nat.lt_of_le_of_ne (hdivides.within head List.mem_cons_self).1 hne.symm
          refine List.forall_mem_cons.mpr ⟨hhead, ?_⟩
          intro token htoken
          have hordered := (List.pairwise_cons.mp hdivides.ordered).1 token htoken
          have hstop := hdivides.stop_gt List.mem_cons_self
          omega
    cases length with
    | zero =>
        refine Or.inl ⟨rfl, List.eq_nil_iff_forall_not_mem.mpr ?_⟩
        intro token htoken
        have := hlater token htoken
        have := (hdivides.within token htoken).2
        have := hdivides.stop_gt htoken
        omega
    | succ n =>
        rw [Nat.add_comm] at hdivides
        obtain ⟨c, rest, hchars, hblank, hrest⟩ := hdivides.of_later hlater
        exact Or.inr (Or.inl ⟨c, rest, n, hchars, Nat.add_comm _ _, hblank, hrest⟩)

end Divides

/-! ## Runs along a division -/

theorem run_lexeme (column : Nat) (read : List Token) {kind : Token.Kind}
    {chars rest : List Char} (hlexeme : Lexeme kind chars)
    (hdetached : isWord chars = true → Detached rest) :
    (run ⟨column, read, .nothing⟩ (chars ++ rest) >>= State.flush) =
      (run ⟨column + chars.length, ⟨kind, String.ofList chars, column⟩ :: read, .nothing⟩ rest >>=
        State.flush) := by
  cases hlexeme with
  | word hword => exact run_word column read hword (hdetached hword)
  | symbol hsymbol =>
      rw [List.singleton_append, run_symbol column read rest hsymbol]
      rfl
  | symbolPair hpair =>
      rw [List.cons_append, List.singleton_append, run_symbolPair column read rest hpair]
      rfl

/-- The lexer takes over the tokens of a division and goes on behind it. -/
theorem run_of_divides {column length : Nat} {chars : List Char} {tokens : List Token}
    (hdivides : Divides column chars length tokens) (read : List Token) :
    (run ⟨column, read, .nothing⟩ chars >>= State.flush) =
      (run ⟨column + length, tokens.reverse ++ read, .nothing⟩ (chars.drop length) >>=
        State.flush) := by
  induction length using Nat.strong_induction_on generalizing column chars tokens read with
  | _ length ih =>
      rcases hdivides.first with ⟨rfl, rfl⟩ | ⟨c, rest, n, rfl, rfl, hblank, hrest⟩ |
        ⟨kind, lexeme, rest, n, more, rfl, rfl, hlexeme, hdetached, rfl, hmore⟩
      · rfl
      · rw [run_blank column read rest hblank, ih n (by omega) hrest]
        simp [Nat.add_assoc, Nat.add_comm 1]
      · have hpos := hlexeme.length_pos
        rw [run_lexeme column read hlexeme hdetached, ih n (by omega) hmore]
        simp [Nat.add_assoc]

/-- Where nothing begins the lexer fails. -/
theorem run_of_not_begins (column : Nat) (read : List Token) {c : Char} {rest : List Char}
    (hbegins : ¬ Begins (c :: rest)) :
    (run ⟨column, read, .nothing⟩ (c :: rest) >>= State.flush) =
      .error (.unexpectedCharacter c column) := by
  have hblank : Text.isBlank c = false := by
    by_contra hblank
    exact hbegins (Or.inl ⟨c, rfl, by simpa using hblank⟩)
  have hlexeme : ∀ kind lexeme, Lexeme kind lexeme → ¬ lexeme <+: c :: rest :=
    fun kind lexeme hlexeme hfront => hbegins (Or.inr ⟨kind, lexeme, hlexeme, hfront⟩)
  have hstart : isWordStart c = false := by
    by_contra hstart
    exact hlexeme _ [c] (.word (by simpa [isWord] using hstart)) ⟨rest, rfl⟩
  have hsymbol : Token.Kind.ofSymbol? c = none := by
    by_contra hsymbol
    obtain ⟨kind, hkind⟩ := Option.ne_none_iff_exists'.mp hsymbol
    exact hlexeme kind [c] (.symbol hkind) ⟨rest, rfl⟩
  rw [run_cons]
  by_cases hopens : opensSymbolPair c = true
  · rw [step_opensSymbolPair column read hopens, ok_bind]
    cases rest with
    | nil => rfl
    | cons second rest =>
        have hpair : Token.Kind.ofSymbolPair? c second = none := by
          by_contra hpair
          obtain ⟨kind, hkind⟩ := Option.ne_none_iff_exists'.mp hpair
          exact hlexeme kind [c, second] (.symbolPair hkind) ⟨rest, rfl⟩
        simp [run_cons, State.step, hpair]
  · simp [State.step, State.beginToken, hblank, hstart, hopens, hsymbol]

/-! ## Every text is divided as far as possible -/

theorem detached_dropWhile (chars : List Char) : Detached (chars.dropWhile isWordPart) := by
  intro c hc
  have hhead := List.head?_dropWhile_not isWordPart chars
  rw [Option.mem_def.mp hc] at hhead
  simpa using hhead

/-- If a token can be found in front, then one that no character behind it continues. -/
theorem Lexeme.exists_detached {kind : Token.Kind} {lexeme chars : List Char}
    (hlexeme : Lexeme kind lexeme) (hfront : lexeme <+: chars) :
    ∃ kind lexeme rest, Lexeme kind lexeme ∧ chars = lexeme ++ rest ∧
      (isWord lexeme = true → Detached rest) := by
  obtain ⟨rest, rfl⟩ := hfront
  cases hlexeme with
  | @word lexeme hword =>
      cases lexeme with
      | nil => cases hword
      | cons c lexeme =>
          simp only [isWord, Bool.and_eq_true] at hword
          refine ⟨_, c :: (lexeme ++ rest).takeWhile isWordPart,
            (lexeme ++ rest).dropWhile isWordPart, .word ?_, ?_, ?_⟩
          · rw [isWord, hword.1, Bool.true_and]
            exact List.all_takeWhile
          · rw [List.cons_append, List.cons_append, List.takeWhile_append_dropWhile]
          · exact fun _ => detached_dropWhile _
  | @symbol c kind hsymbol =>
      refine ⟨kind, [c], rest, .symbol hsymbol, rfl, ?_⟩
      intro hword
      simp [isWord, (ofSymbol?_cases hsymbol).2.1] at hword
  | @symbolPair first second kind hpair =>
      refine ⟨kind, [first, second], rest, .symbolPair hpair, rfl, ?_⟩
      intro hword
      have hopens := opensSymbolPair_of_ofSymbolPair? hpair
      simp [isWord, (opensSymbolPair_cases hopens).2] at hword

/-- Every text is divided up to a place where nothing begins, be it the end of the text or not. -/
theorem exists_divides (column : Nat) (chars : List Char) :
    ∃ length tokens, Divides column chars length tokens ∧ ¬ Begins (chars.drop length) := by
  induction hlength : chars.length using Nat.strong_induction_on generalizing column chars with
  | _ size ih =>
      subst hlength
      by_cases hbegins : Begins chars
      · -- A blank or a token is split off, and the rest is shorter.
        have hsplit : ∃ front rest tokens, chars = front ++ rest ∧ 0 < front.length ∧
            Divides column (front ++ rest) front.length tokens := by
          rcases hbegins with ⟨c, hc, hblank⟩ | ⟨kind, lexeme, hlexeme, hfront⟩
          · exact ⟨[c], chars.tail, [], List.eq_cons_of_mem_head? hc, Nat.zero_lt_one,
              .of_blank column _ hblank⟩
          · obtain ⟨kind, lexeme, rest, hlexeme, hchars, hdetached⟩ :=
              hlexeme.exists_detached hfront
            exact ⟨lexeme, rest, _, hchars, hlexeme.length_pos,
              .of_lexeme column hlexeme hdetached⟩
        obtain ⟨front, rest, tokens, rfl, hpos, hdivides⟩ := hsplit
        have hshorter : rest.length < (front ++ rest).length := by
          rw [List.length_append]
          omega
        obtain ⟨length, more, hrest, hend⟩ :=
          ih rest.length hshorter (column + front.length) rest rfl
        refine ⟨front.length + length, tokens ++ more, hdivides.append hrest, ?_⟩
        rwa [← List.drop_drop, List.drop_left]
      · exact ⟨0, [], .empty column chars, hbegins⟩

end Lexer

open Failure Lexer

namespace TokenStream

/-- A text that is divided up to its end is read as the tokens of the division. -/
theorem ofText_of_divides {text : String} {tokens : List Token}
    (hdivides : Divides 1 text.toList text.toList.length tokens) :
    ofText text = .ok ⟨tokens, text.toList.length + 1⟩ := by
  rw [ofText_eq, State.start, run_of_divides hdivides, List.drop_length]
  simp [run, State.flush, Nat.add_comm 1]

/-- A text in which nothing begins behind a division cannot be read, because of the character that
stands there. -/
theorem ofText_of_not_begins {text : String} {length : Nat} {tokens : List Token}
    (hdivides : Divides 1 text.toList length tokens) (hlength : length < text.toList.length)
    (hbegins : ¬ Begins (text.toList.drop length)) :
    ∃ c, text.toList[length]? = some c ∧
      ofText text = .error (.unexpectedCharacter c (length + 1)) := by
  rw [List.drop_eq_getElem_cons hlength] at hbegins
  refine ⟨text.toList[length], List.getElem?_eq_getElem hlength, ?_⟩
  rw [ofText_eq, State.start, run_of_divides hdivides, List.drop_eq_getElem_cons hlength,
    run_of_not_begins _ _ hbegins, error_bind, Nat.add_comm 1]

theorem ofText_eq_ok_iff_divides (text : String) (stream : TokenStream) :
    ofText text = .ok stream ↔
      Divides 1 text.toList text.toList.length stream.tokens ∧
        stream.stop = text.toList.length + 1 := by
  constructor
  · intro hread
    obtain ⟨length, tokens, hdivides, hbegins⟩ := exists_divides 1 text.toList
    rcases Nat.lt_or_eq_of_le hdivides.length_le with hlt | rfl
    · obtain ⟨c, -, herror⟩ := ofText_of_not_begins hdivides hlt hbegins
      rw [herror] at hread
      contradiction
    · rw [ofText_of_divides hdivides] at hread
      obtain rfl := Except.ok.inj hread
      exact ⟨hdivides, rfl⟩
  · rintro ⟨hdivides, hstop⟩
    rw [ofText_of_divides hdivides, ← hstop]

/-- A text that cannot be read fails where a division of its beginning ends and nothing begins. -/
theorem exists_divides_of_error {text : String} {error : SyntaxError}
    (hread : ofText text = .error error) :
    ∃ length tokens, error.column = length + 1 ∧ length < text.toList.length ∧
      Divides 1 text.toList length tokens ∧ ¬ Begins (text.toList.drop length) := by
  obtain ⟨length, tokens, hdivides, hbegins⟩ := exists_divides 1 text.toList
  rcases Nat.lt_or_eq_of_le hdivides.length_le with hlt | rfl
  · obtain ⟨c, -, herror⟩ := ofText_of_not_begins hdivides hlt hbegins
    rw [herror] at hread
    obtain rfl := Except.error.inj hread
    exact ⟨length, tokens, rfl, hlt, hdivides, hbegins⟩
  · rw [ofText_of_divides hdivides] at hread
    contradiction

/-- The columns of the tokens of a text increase from left to right, up to the end of the text. -/
theorem columns_of_ofText {text : String} {stream : TokenStream}
    (hread : ofText text = .ok stream) :
    stream.toList.Pairwise (fun first second => first.column < second.column) ∧
      ∀ token ∈ stream.toList, 1 ≤ token.column ∧ token.column ≤ text.toList.length + 1 := by
  obtain ⟨hdivides, hstop⟩ := (ofText_eq_ok_iff_divides text stream).mp hread
  have hwithin : ∀ token ∈ stream.tokens,
      1 ≤ token.column ∧ token.column < text.toList.length + 1 := by
    intro token htoken
    have hcolumn := hdivides.within token htoken
    have hlength := hdivides.stop_gt htoken
    omega
  constructor
  · refine List.pairwise_append.mpr ⟨?_, List.pairwise_singleton _ _, ?_⟩
    · refine hdivides.ordered.imp_of_mem ?_
      intro first second hfirst _ hordered
      exact Nat.lt_of_lt_of_le (hdivides.stop_gt hfirst) hordered
    · intro token htoken last hlast
      rw [List.mem_singleton.mp hlast, Token.eof, hstop]
      exact (hwithin token htoken).2
  · refine List.forall_mem_append.mpr ⟨?_, ?_⟩
    · intro token htoken
      exact ⟨(hwithin token htoken).1, (hwithin token htoken).2.le⟩
    · intro token htoken
      rw [List.mem_singleton.mp htoken, Token.eof, hstop]
      exact ⟨Nat.le_add_left _ _, le_rfl⟩

end TokenStream

/-- The lexer loses nothing. A text is read as some tokens if and only if these are slices of it in
increasing order without overlaps, each spelled as its kind demands, the words among them as long
as possible, and all else is blank; the end of the text stands behind its last character. A text
cannot be read, because of the character at some column, if and only if the characters before that
column are divided into such tokens and blanks and neither a token nor a blank begins there. -/
theorem lexer_loses_nothing (text : String) :
    (∀ stream, TokenStream.ofText text = .ok stream ↔
      Divides 1 text.toList text.toList.length stream.tokens ∧
        stream.stop = text.toList.length + 1) ∧
    ∀ column, (∃ error, TokenStream.ofText text = .error error ∧ error.column = column) ↔
      ∃ length tokens, column = length + 1 ∧ length < text.toList.length ∧
        Divides 1 text.toList length tokens ∧ ¬ Begins (text.toList.drop length) := by
  refine ⟨TokenStream.ofText_eq_ok_iff_divides text, ?_⟩
  intro column
  constructor
  · rintro ⟨error, hread, rfl⟩
    exact TokenStream.exists_divides_of_error hread
  · rintro ⟨length, tokens, rfl, hlength, hdivides, hbegins⟩
    obtain ⟨c, -, herror⟩ := TokenStream.ofText_of_not_begins hdivides hlength hbegins
    exact ⟨_, herror, rfl⟩

/-- Words take in digits, underscores and quotes, so that a reserved word in front of them is none;
symbols need nothing between them. -/
example : (TokenStream.ofText "fst1->λa'b⊤A_").toOption =
    some ⟨[⟨.ident, "fst1", 1⟩, ⟨.arrow, "->", 5⟩, ⟨.lambda, "λ", 7⟩, ⟨.ident, "a'b", 8⟩,
      ⟨.truth, "⊤", 11⟩, ⟨.ident, "A_", 12⟩], 14⟩ := by
  decide +kernel

end Sequitur
