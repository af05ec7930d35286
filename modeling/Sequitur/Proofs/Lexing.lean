import Sequitur.Proofs.Failure
import Sequitur.Token.Lexer

/-! # Cuts of a text

A cut divides a text into words, symbols and blanks from left to right, where
no word can be continued by the character behind it. The lexer reads one
character at a time and holds the unfinished token; it succeeds exactly on the
texts that have a cut, and yields the tokens of that cut.
-/

namespace Sequitur.Lexer

open Failure

/-! ## Classes of characters -/

theorem not_isBlank_of_isWordPart {c : Char} (hpart : isWordPart c = true) :
    Text.isBlank c = false := by
  have hbounds : 33 ≤ c.toNat ∧ c.toNat ≤ 122 := by
    simp only [isWordPart, Char.isAlphanum, Char.isAlpha, Char.isUpper, Char.isLower, Char.isDigit,
      UInt32.le_iff_toNat_le, Bool.or_eq_true, Bool.and_eq_true, decide_eq_true_eq,
      beq_iff_eq] at hpart
    rcases hpart with (((hupper | hlower) | hdigit) | rfl) | rfl
    · exact ⟨Nat.le_trans (by decide) hupper.1, Nat.le_trans hupper.2 (by decide)⟩
    · exact ⟨Nat.le_trans (by decide) hlower.1, Nat.le_trans hlower.2 (by decide)⟩
    · exact ⟨Nat.le_trans (by decide) hdigit.1, Nat.le_trans hdigit.2 (by decide)⟩
    · decide
    · decide
  simp only [Text.isBlank, Text.inRanges, Text.blankRanges, List.any_eq_false]
  intro range hrange
  simp only [List.mem_cons, List.not_mem_nil, or_false] at hrange
  rcases hrange with rfl | rfl | rfl | rfl | rfl | rfl | rfl | rfl | rfl | rfl <;>
    simp only [Bool.and_eq_true, decide_eq_true_eq, not_and] <;> omega

theorem isWordPart_of_isWordStart {c : Char} (hstart : isWordStart c = true) :
    isWordPart c = true := by
  simp only [isWordStart] at hstart
  simp [isWordPart, Char.isAlphanum, hstart]

theorem isWordPart_of_mem {word : List Char} (hword : isWord word = true) {c : Char}
    (hc : c ∈ word) : isWordPart c = true := by
  cases word with
  | nil => cases hword
  | cons first rest =>
      simp only [isWord, Bool.and_eq_true, List.all_eq_true] at hword
      rcases List.mem_cons.mp hc with rfl | hrest
      · exact isWordPart_of_isWordStart hword.1
      · exact hword.2 c hrest

theorem ne_nil_of_isWord {word : List Char} (hword : isWord word = true) : word ≠ [] := by
  rintro rfl
  cases hword

theorem opensSymbolPair_cases {c : Char} (hopens : opensSymbolPair c = true) :
    Text.isBlank c = false ∧ isWordStart c = false := by
  simp only [opensSymbolPair, Bool.or_eq_true, beq_iff_eq] at hopens
  rcases hopens with ((rfl | rfl) | rfl) | rfl <;> decide

theorem ofSymbol?_cases {c : Char} {kind : Token.Kind}
    (hsymbol : Token.Kind.ofSymbol? c = some kind) :
    Text.isBlank c = false ∧ isWordStart c = false ∧ opensSymbolPair c = false := by
  unfold Token.Kind.ofSymbol? at hsymbol
  split at hsymbol <;> cases hsymbol <;> decide

theorem opensSymbolPair_of_ofSymbolPair? {first second : Char} {kind : Token.Kind}
    (hpair : Token.Kind.ofSymbolPair? first second = some kind) :
    opensSymbolPair first = true := by
  unfold Token.Kind.ofSymbolPair? at hpair
  split at hpair <;> cases hpair <;> decide

/-! ## Cuts -/

/-- Characters that do not continue a word in front of them. -/
def Detached (chars : List Char) : Prop :=
  ∀ c ∈ chars.head?, isWordPart c = false

/-- The tokens of a text that begins at the given column. -/
inductive Cut : Nat → List Char → List Token → Prop where
  | nil (column : Nat) : Cut column [] []
  | blank {column : Nat} {c : Char} {rest : List Char} {tokens : List Token}
      (hblank : Text.isBlank c = true) (hrest : Cut (column + 1) rest tokens) :
      Cut column (c :: rest) tokens
  | word {column : Nat} {chars rest : List Char} {tokens : List Token}
      (hword : isWord chars = true) (hdetached : Detached rest)
      (hrest : Cut (column + chars.length) rest tokens) :
      Cut column (chars ++ rest) (.word (String.ofList chars) column :: tokens)
  | symbol {column : Nat} {c : Char} {kind : Token.Kind} {rest : List Char}
      {tokens : List Token} (hsymbol : Token.Kind.ofSymbol? c = some kind)
      (hrest : Cut (column + 1) rest tokens) :
      Cut column (c :: rest) (⟨kind, String.ofList [c], column⟩ :: tokens)
  | symbolPair {column : Nat} {first second : Char} {kind : Token.Kind} {rest : List Char}
      {tokens : List Token} (hpair : Token.Kind.ofSymbolPair? first second = some kind)
      (hrest : Cut (column + 2) rest tokens) :
      Cut column (first :: second :: rest)
        (⟨kind, String.ofList [first, second], column⟩ :: tokens)

/-! ## The lexer finds every cut -/

theorem run_cons (state : State) (c : Char) (rest : List Char) :
    run state (c :: rest) = state.step c >>= fun next => run next rest :=
  List.foldlM_cons

/-- Word characters pile up in front of an unfinished word. -/
theorem run_wordParts (column start : Nat) (read : List Token) (held chars rest : List Char)
    (hparts : chars.all isWordPart = true) :
    run ⟨column, read, .word held start⟩ (chars ++ rest) =
      run ⟨column + chars.length, read, .word (chars.reverse ++ held) start⟩ rest := by
  induction chars generalizing column held with
  | nil => rfl
  | cons c chars ih =>
      simp only [List.all_cons, Bool.and_eq_true] at hparts
      have hstep : State.step ⟨column, read, .word held start⟩ c =
          .ok ⟨column + 1, read, .word (c :: held) start⟩ := by
        simp [State.step, State.hold, hparts.1]
      rw [List.cons_append, run_cons, hstep, ok_bind, ih _ _ hparts.2]
      simp [Nat.add_assoc, Nat.add_comm 1]

/-- In front of a character that does not continue it, a word is as good as finished. -/
theorem run_word_detached (column start : Nat) (read : List Token) (held rest : List Char)
    (hdetached : Detached rest) :
    (run ⟨column, read, .word held start⟩ rest >>= State.flush) =
      (run ⟨column, .word (String.ofList held.reverse) start :: read, .nothing⟩ rest >>=
        State.flush) := by
  cases rest with
  | nil => rfl
  | cons c rest =>
      have hpart : isWordPart c = false := hdetached c rfl
      have hstep : State.step ⟨column, read, .word held start⟩ c =
          State.step ⟨column, .word (String.ofList held.reverse) start :: read, .nothing⟩ c := by
        simp [State.step, State.flush, hpart]
      rw [run_cons, run_cons, hstep]

theorem run_blank (column : Nat) (read : List Token) {c : Char} (rest : List Char)
    (hblank : Text.isBlank c = true) :
    run ⟨column, read, .nothing⟩ (c :: rest) = run ⟨column + 1, read, .nothing⟩ rest := by
  have hstep : State.step ⟨column, read, .nothing⟩ c = .ok ⟨column + 1, read, .nothing⟩ := by
    simp [State.step, State.beginToken, State.hold, hblank]
  rw [run_cons, hstep, ok_bind]

theorem run_word (column : Nat) (read : List Token) {chars rest : List Char}
    (hword : isWord chars = true) (hdetached : Detached rest) :
    (run ⟨column, read, .nothing⟩ (chars ++ rest) >>= State.flush) =
      (run ⟨column + chars.length, .word (String.ofList chars) column :: read, .nothing⟩ rest >>=
        State.flush) := by
  cases chars with
  | nil => cases hword
  | cons c chars =>
      simp only [isWord, Bool.and_eq_true] at hword
      have hstep : State.step ⟨column, read, .nothing⟩ c =
          .ok ⟨column + 1, read, .word [c] column⟩ := by
        simp [State.step, State.beginToken, State.hold, hword.1,
          not_isBlank_of_isWordPart (isWordPart_of_isWordStart hword.1)]
      have hcolumn : column + 1 + chars.length = column + (c :: chars).length := by
        simp [Nat.add_assoc, Nat.add_comm 1]
      rw [List.cons_append, run_cons, hstep, ok_bind, run_wordParts _ _ _ _ _ _ hword.2,
        run_word_detached _ _ _ _ _ hdetached, hcolumn]
      simp

theorem run_symbol (column : Nat) (read : List Token) {c : Char} {kind : Token.Kind}
    (rest : List Char) (hsymbol : Token.Kind.ofSymbol? c = some kind) :
    run ⟨column, read, .nothing⟩ (c :: rest) =
      run ⟨column + 1, ⟨kind, String.ofList [c], column⟩ :: read, .nothing⟩ rest := by
  obtain ⟨hblank, hstart, hopens⟩ := ofSymbol?_cases hsymbol
  have hstep : State.step ⟨column, read, .nothing⟩ c =
      .ok ⟨column + 1, ⟨kind, String.ofList [c], column⟩ :: read, .nothing⟩ := by
    simp [State.step, State.beginToken, State.emit, hblank, hstart, hopens, hsymbol]
  rw [run_cons, hstep, ok_bind]

theorem step_opensSymbolPair (column : Nat) (read : List Token) {c : Char}
    (hopens : opensSymbolPair c = true) :
    State.step ⟨column, read, .nothing⟩ c = .ok ⟨column + 1, read, .symbol c column⟩ := by
  obtain ⟨hblank, hstart⟩ := opensSymbolPair_cases hopens
  simp [State.step, State.beginToken, State.hold, hblank, hstart, hopens]

theorem run_symbolPair (column : Nat) (read : List Token) {first second : Char}
    {kind : Token.Kind} (rest : List Char)
    (hpair : Token.Kind.ofSymbolPair? first second = some kind) :
    run ⟨column, read, .nothing⟩ (first :: second :: rest) =
      run ⟨column + 2, ⟨kind, String.ofList [first, second], column⟩ :: read, .nothing⟩ rest := by
  have hfirst := step_opensSymbolPair column read (opensSymbolPair_of_ofSymbolPair? hpair)
  have hsecond : State.step ⟨column + 1, read, .symbol first column⟩ second =
      .ok ⟨column + 2, ⟨kind, String.ofList [first, second], column⟩ :: read, .nothing⟩ := by
    simp [State.step, State.emit, hpair]
  rw [run_cons, hfirst, ok_bind, run_cons, hsecond, ok_bind]

/-- The lexer yields the tokens of a cut. -/
theorem run_of_cut {column : Nat} {chars : List Char} {tokens : List Token}
    (hcut : Cut column chars tokens) (read : List Token) :
    (run ⟨column, read, .nothing⟩ chars >>= State.flush) =
      .ok ⟨column + chars.length, tokens.reverse ++ read, .nothing⟩ := by
  induction hcut generalizing read with
  | nil column => rfl
  | blank hblank _ ih =>
      rw [run_blank _ _ _ hblank, ih]
      simp [Nat.add_assoc, Nat.add_comm 1]
  | word hword hdetached _ ih =>
      rw [run_word _ _ hword hdetached, ih, Nat.add_assoc, ← List.length_append]
      simp
  | symbol hsymbol _ ih =>
      rw [run_symbol _ _ _ hsymbol, ih]
      simp [Nat.add_assoc, Nat.add_comm 1]
  | symbolPair hpair _ ih =>
      rw [run_symbolPair _ _ _ hpair, ih]
      simp [Nat.add_assoc, Nat.add_comm 2]

/-! ## The lexer finds nothing but cuts -/

namespace Pending

/-- The characters that are held back. -/
@[simp]
def chars : Pending → List Char
  | .nothing => []
  | .word chars _ => chars.reverse
  | .symbol first _ => [first]

/-- The column of the first character that is held back, or the next one. -/
@[simp]
def start (column : Nat) : Pending → Nat
  | .nothing => column
  | .word _ start => start
  | .symbol _ start => start

/-- What is held back ends in front of the column, and is a word if it should be one. -/
def WellFormed (column : Nat) : Pending → Prop
  | .nothing => True
  | .word chars start => isWord chars.reverse = true ∧ start + chars.length = column
  | .symbol _ start => start + 1 = column

end Pending

theorem isWord_append_singleton {chars : List Char} {c : Char} (hword : isWord chars = true)
    (hpart : isWordPart c = true) : isWord (chars ++ [c]) = true := by
  cases chars with
  | nil => cases hword
  | cons first chars => simp_all [isWord]

/-- The first character of a token, a symbol of one character, or a blank. -/
theorem beginToken_cases {column : Nat} {read : List Token} {c : Char} {next : State}
    (hstep : State.beginToken ⟨column, read, .nothing⟩ c = .ok next) :
    (Text.isBlank c = true ∧ next = ⟨column + 1, read, .nothing⟩) ∨
    (isWordStart c = true ∧ next = ⟨column + 1, read, .word [c] column⟩) ∨
    next = ⟨column + 1, read, .symbol c column⟩ ∨
    ∃ kind, Token.Kind.ofSymbol? c = some kind ∧
      next = ⟨column + 1, ⟨kind, String.ofList [c], column⟩ :: read, .nothing⟩ := by
  unfold State.beginToken at hstep
  split at hstep
  next hblank => exact Or.inl ⟨hblank, (Except.ok.inj hstep).symm⟩
  next =>
    split at hstep
    next hstart => exact Or.inr (Or.inl ⟨hstart, (Except.ok.inj hstep).symm⟩)
    next =>
      split at hstep
      next => exact Or.inr (Or.inr (Or.inl (Except.ok.inj hstep).symm))
      next =>
        split at hstep
        next kind hkind =>
          exact Or.inr (Or.inr (Or.inr ⟨kind, hkind, (Except.ok.inj hstep).symm⟩))
        next => contradiction

/-- What reading a character does to cuts: a cut of what is held back and of what follows becomes
one that begins a step earlier, with the tokens that the step has finished. -/
def State.Leads (state : State) (c : Char) (next : State) : Prop :=
  ∃ tokens, next = ⟨state.column + 1, tokens.reverse ++ state.tokens, next.pending⟩ ∧
    next.pending.WellFormed next.column ∧
    ∀ rest more, Cut (next.pending.start next.column) (next.pending.chars ++ rest) more →
      Cut (state.pending.start state.column) (state.pending.chars ++ c :: rest) (tokens ++ more)

theorem leads_of_beginToken {column : Nat} {read : List Token} {c : Char} {next : State}
    (hstep : State.beginToken ⟨column, read, .nothing⟩ c = .ok next) :
    State.Leads ⟨column, read, .nothing⟩ c next := by
  rcases beginToken_cases hstep with ⟨hblank, rfl⟩ | ⟨hstart, rfl⟩ | rfl | ⟨kind, hkind, rfl⟩
  · exact ⟨[], rfl, trivial, fun rest more hcut => .blank hblank hcut⟩
  · exact ⟨[], rfl, ⟨by simp [isWord, hstart], rfl⟩, fun rest more hcut => hcut⟩
  · exact ⟨[], rfl, rfl, fun rest more hcut => hcut⟩
  · exact ⟨[_], rfl, trivial, fun rest more hcut => .symbol hkind hcut⟩

/-- A character continues an unfinished word or stands behind the finished one. -/
theorem leads_of_step_word {column start : Nat} {read : List Token} {held : List Char} {c : Char}
    {next : State} (hstep : State.step ⟨column, read, .word held start⟩ c = .ok next)
    (hword : isWord held.reverse = true) (hcolumn : start + held.length = column) :
    State.Leads ⟨column, read, .word held start⟩ c next := by
  simp only [State.step] at hstep
  split at hstep
  next hpart =>
    obtain rfl := Except.ok.inj hstep
    refine ⟨[], rfl, ⟨?_, ?_⟩, ?_⟩
    · rw [List.reverse_cons]
      exact isWord_append_singleton hword hpart
    · simp only [State.hold, List.length_cons]
      omega
    · intro rest more hcut
      simpa [State.hold] using hcut
  next hpart =>
    obtain ⟨tokens, hnext, hpending, hextend⟩ := leads_of_beginToken hstep
    refine ⟨.word (String.ofList held.reverse) start :: tokens, by rw [hnext]; simp, hpending, ?_⟩
    intro rest more hcut
    have hdetached : Detached (c :: rest) := by
      intro other hother
      obtain rfl := Option.some.inj hother
      simpa using hpart
    have hrest : Cut (start + held.reverse.length) (c :: rest) (tokens ++ more) := by
      rw [List.length_reverse, hcolumn]
      exact hextend rest more hcut
    exact .word hword hdetached hrest

theorem leads_of_step {state next : State} {c : Char} (hstep : state.step c = .ok next)
    (hpending : state.pending.WellFormed state.column) : state.Leads c next := by
  obtain ⟨column, read, pending⟩ := state
  cases pending with
  | nothing => exact leads_of_beginToken hstep
  | word held start => exact leads_of_step_word hstep hpending.1 hpending.2
  | symbol first start =>
      obtain rfl : start + 1 = column := hpending
      simp only [State.step] at hstep
      split at hstep
      next kind hpair =>
        obtain rfl := Except.ok.inj hstep
        exact ⟨[_], rfl, trivial, fun rest more hcut => .symbolPair hpair hcut⟩
      next => contradiction

/-- A run that ends between tokens has read a cut of what was held back and of what followed. -/
theorem cut_of_run {state final : State} {chars : List Char}
    (hrun : (run state chars >>= State.flush) = .ok final)
    (hpending : state.pending.WellFormed state.column) :
    ∃ tokens, Cut (state.pending.start state.column) (state.pending.chars ++ chars) tokens ∧
      final = ⟨state.column + chars.length, tokens.reverse ++ state.tokens, .nothing⟩ := by
  induction chars generalizing state with
  | nil =>
      obtain ⟨column, read, pending⟩ := state
      cases pending with
      | nothing => exact ⟨[], .nil column, (Except.ok.inj hrun).symm⟩
      | word held start =>
          refine ⟨[.word (String.ofList held.reverse) start], ?_, (Except.ok.inj hrun).symm⟩
          exact .word hpending.1 (by simp [Detached]) (.nil _)
      | symbol first start => cases hrun
  | cons c rest ih =>
      rw [run_cons, bind_assoc] at hrun
      obtain ⟨next, hstep, hrest⟩ := bind_eq_ok.mp hrun
      obtain ⟨tokens, hnext, hwellFormed, hextend⟩ := leads_of_step hstep hpending
      obtain ⟨more, hmore, rfl⟩ := ih hrest hwellFormed
      refine ⟨tokens ++ more, hextend rest more hmore, ?_⟩
      rw [hnext]
      simp [Nat.add_assoc, Nat.add_comm 1]

end Sequitur.Lexer

namespace Sequitur

open Failure

theorem TokenStream.ofText_eq (text : String) :
    ofText text = (Lexer.run .start text.toList >>= Lexer.State.flush) >>=
      fun state => .ok ⟨state.tokens.reverse, state.column⟩ := by
  rw [bind_assoc]
  rfl

/-- A text is read exactly if it has a cut, and the stream holds the tokens of the cut. -/
theorem TokenStream.ofText_eq_ok_iff (text : String) (stream : TokenStream) :
    ofText text = .ok stream ↔
      Lexer.Cut 1 text.toList stream.tokens ∧ stream.stop = text.toList.length + 1 := by
  rw [ofText_eq]
  constructor
  · intro hread
    obtain ⟨final, hrun, hstream⟩ := bind_eq_ok.mp hread
    obtain rfl := Except.ok.inj hstream
    obtain ⟨tokens, hcut, rfl⟩ := Lexer.cut_of_run hrun trivial
    exact ⟨by simpa [Lexer.State.start] using hcut, Nat.add_comm _ _⟩
  · rintro ⟨hcut, hstop⟩
    have hrun := Lexer.run_of_cut hcut []
    rw [Lexer.State.start, hrun]
    simp [Nat.add_comm 1, ← hstop]

/-! ## Spelling of tokens -/

/-- A token that stands in a text: not the end of it, and an identifier if it is said to be one. -/
def Token.WellSpelled (token : Token) : Prop :=
  token.kind ≠ .eof ∧ (token.kind = .ident → isIdentifier token.text = true)

theorem Token.Kind.ofKeyword?_ne {word : String} {kind : Token.Kind}
    (hkeyword : ofKeyword? word = some kind) : kind ≠ .eof ∧ kind ≠ .ident := by
  unfold ofKeyword? at hkeyword
  split at hkeyword <;> cases hkeyword <;> decide

theorem Token.Kind.ofSymbol?_ne {c : Char} {kind : Token.Kind}
    (hsymbol : ofSymbol? c = some kind) : kind ≠ .eof ∧ kind ≠ .ident := by
  unfold ofSymbol? at hsymbol
  split at hsymbol <;> cases hsymbol <;> decide

theorem Token.Kind.ofSymbolPair?_ne {first second : Char} {kind : Token.Kind}
    (hpair : ofSymbolPair? first second = some kind) : kind ≠ .eof ∧ kind ≠ .ident := by
  unfold ofSymbolPair? at hpair
  split at hpair <;> cases hpair <;> decide

/-- A word is an identifier exactly if it is not reserved. -/
theorem Token.kind_word {text : String} (hword : isWord text.toList = true) (column : Nat) :
    (Token.word text column).kind = .ident ↔ isIdentifier text = true := by
  simp only [Token.word, Kind.ofWord, isIdentifier, hword, Bool.true_and]
  cases hkeyword : Kind.ofKeyword? text with
  | none => simp
  | some kind => simpa using (Kind.ofKeyword?_ne hkeyword).2

theorem isWord_of_isIdentifier {name : String} (hname : isIdentifier name = true) :
    isWord name.toList = true := by
  rw [isIdentifier, Bool.and_eq_true] at hname
  exact hname.1

/-- An identifier is a token of its own, wherever it stands. -/
theorem Lexer.Cut.of_isIdentifier {name : String} (hname : isIdentifier name = true)
    (column : Nat) : Cut column name.toList [⟨.ident, name, column⟩] := by
  have hword := isWord_of_isIdentifier hname
  have hkind : Token.Kind.ofWord name = .ident := (Token.kind_word hword column).mpr hname
  have hcut : Cut column (name.toList ++ []) [.word (String.ofList name.toList) column] :=
    .word hword (by simp [Detached]) (.nil _)
  rwa [List.append_nil, String.ofList_toList, Token.word, hkind] at hcut

theorem Token.wellSpelled_word {text : String} (hword : isWord text.toList = true)
    (column : Nat) : (Token.word text column).WellSpelled := by
  refine ⟨?_, (Token.kind_word hword column).mp⟩
  simp only [Token.word, Kind.ofWord]
  cases hkeyword : Kind.ofKeyword? text with
  | none => decide
  | some kind => exact (Kind.ofKeyword?_ne hkeyword).1

theorem Lexer.Cut.wellSpelled {column : Nat} {chars : List Char} {tokens : List Token}
    (hcut : Cut column chars tokens) : ∀ token ∈ tokens, token.WellSpelled := by
  induction hcut with
  | nil column => simp
  | blank _ _ ih => exact ih
  | word hword _ _ ih =>
      exact List.forall_mem_cons.mpr ⟨Token.wellSpelled_word (by simpa using hword) _, ih⟩
  | symbol hsymbol _ ih =>
      have hne := Token.Kind.ofSymbol?_ne hsymbol
      exact List.forall_mem_cons.mpr ⟨⟨hne.1, fun hident => absurd hident hne.2⟩, ih⟩
  | symbolPair hpair _ ih =>
      have hne := Token.Kind.ofSymbolPair?_ne hpair
      exact List.forall_mem_cons.mpr ⟨⟨hne.1, fun hident => absurd hident hne.2⟩, ih⟩

/-- Every token of a text is well spelled. -/
theorem TokenStream.wellSpelled_of_ofText {text : String} {stream : TokenStream}
    (hread : ofText text = .ok stream) : ∀ token ∈ stream.tokens, token.WellSpelled :=
  ((ofText_eq_ok_iff text stream).mp hread).1.wellSpelled

end Sequitur
