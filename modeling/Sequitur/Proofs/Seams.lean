import Sequitur.Proofs.Lexing

/-! # Seams

Where two texts meet, a token may reach from one into the other. None does if a
separator stands on either side, a character that belongs to no token of more
than one character. Then the lexer reads the two texts as if each stood alone,
except that the second one stands further right. Blanks are separators, so that
a text can be read piece by piece between its blanks.
-/

namespace Sequitur

open Failure

/-! ## Moving a text to the right -/

/-- A token of a text that is moved to the right. -/
def Token.shift (offset : Nat) (token : Token) : Token :=
  { token with column := token.column + offset }

/-- An error of a text that is moved to the right. -/
def SyntaxError.shift (offset : Nat) : SyntaxError → SyntaxError
  | .unexpectedCharacter char column => .unexpectedCharacter char (column + offset)
  | .unexpectedToken wanted found => .unexpectedToken wanted (found.shift offset)

namespace Lexer

/-- An unfinished token of a text that is moved to the right. -/
def Pending.shift (offset : Nat) : Pending → Pending
  | .nothing => .nothing
  | .word chars column => .word chars (column + offset)
  | .symbol first column => .symbol first (column + offset)

/-- The lexer in a text that is moved to the right, behind tokens that it has read before. -/
def State.behind (offset : Nat) (read : List Token) (state : State) : State :=
  ⟨state.column + offset, state.tokens.map (Token.shift offset) ++ read,
    state.pending.shift offset⟩

/-- The answer to a text that is moved to the right. -/
def moved {α β : Type} (offset : Nat) (move : α → β) :
    Except SyntaxError α → Except SyntaxError β
  | .ok a => .ok (move a)
  | .error error => .error (error.shift offset)

theorem moved_bind {α β γ δ : Type} {offset : Nat} {move : α → β} {moveNext : γ → δ}
    {answer : Except SyntaxError α} {next : α → Except SyntaxError γ}
    {nextMoved : β → Except SyntaxError δ}
    (hnext : ∀ a, nextMoved (move a) = moved offset moveNext (next a)) :
    (moved offset move answer >>= nextMoved) = moved offset moveNext (answer >>= next) := by
  cases answer with
  | error error => rfl
  | ok a => exact hnext a

section Behind

variable (offset : Nat) (read : List Token) (state : State)

theorem hold_behind (pending : Pending) :
    (state.behind offset read).hold (pending.shift offset) =
      (state.hold pending).behind offset read := by
  simp only [State.hold, State.behind, Nat.add_right_comm]

theorem emit_behind (token : Token) :
    (state.behind offset read).emit (token.shift offset) =
      (state.emit token).behind offset read := by
  simp only [State.emit, State.behind, Nat.add_right_comm, List.map_cons, List.cons_append]
  rfl

theorem beginToken_behind (c : Char) :
    (state.behind offset read).beginToken c =
      moved offset (State.behind offset read) (state.beginToken c) := by
  unfold State.beginToken
  split
  next => exact congrArg Except.ok (hold_behind offset read state .nothing)
  next =>
    split
    next => exact congrArg Except.ok (hold_behind offset read state (.word [c] state.column))
    next =>
      split
      next => exact congrArg Except.ok (hold_behind offset read state (.symbol c state.column))
      next =>
        cases Token.Kind.ofSymbol? c with
        | none => rfl
        | some kind =>
            exact congrArg Except.ok
              (emit_behind offset read state ⟨kind, String.ofList [c], state.column⟩)

theorem flush_behind :
    (state.behind offset read).flush = moved offset (State.behind offset read) state.flush := by
  obtain ⟨column, tokens, pending⟩ := state
  cases pending <;> rfl

theorem pending_behind : (state.behind offset read).pending = state.pending.shift offset :=
  rfl

theorem step_behind (c : Char) :
    (state.behind offset read).step c =
      moved offset (State.behind offset read) (state.step c) := by
  cases hpending : state.pending with
  | nothing =>
      simp only [State.step, pending_behind, hpending, Pending.shift]
      exact beginToken_behind offset read state c
  | word chars start =>
      simp only [State.step, pending_behind, hpending, Pending.shift]
      split
      next => exact congrArg Except.ok (hold_behind offset read state (.word (c :: chars) start))
      next =>
        rw [flush_behind]
        exact moved_bind fun flushed => beginToken_behind offset read flushed c
  | symbol first start =>
      simp only [State.step, pending_behind, hpending, Pending.shift]
      cases Token.Kind.ofSymbolPair? first c with
      | none => rfl
      | some kind =>
          exact congrArg Except.ok
            (emit_behind offset read state ⟨kind, String.ofList [first, c], start⟩)

/-- A text that is moved to the right, behind tokens that were read before, is read as ever. -/
theorem run_behind (chars : List Char) :
    run (state.behind offset read) chars =
      moved offset (State.behind offset read) (run state chars) := by
  induction chars generalizing state with
  | nil => rfl
  | cons c chars ih =>
      rw [run_cons, run_cons, step_behind]
      exact moved_bind ih

theorem run_flush_behind (chars : List Char) :
    (run (state.behind offset read) chars >>= State.flush) =
      moved offset (State.behind offset read) (run state chars >>= State.flush) := by
  rw [run_behind]
  exact moved_bind (flush_behind offset read)

end Behind

/-! ## Separators -/

/-- A character that belongs to no token of more than one character. -/
def isSeparator (c : Char) : Bool :=
  !isWordPart c && !opensSymbolPair c && c != '>'

theorem isSeparator_cases {c : Char} (hc : isSeparator c = true) :
    isWordPart c = false ∧ opensSymbolPair c = false ∧
      ∀ first, Token.Kind.ofSymbolPair? first c = none := by
  simp only [isSeparator, Bool.and_eq_true, Bool.not_eq_true', bne_iff_ne] at hc
  obtain ⟨⟨hpart, hopens⟩, hgreater⟩ := hc
  refine ⟨hpart, hopens, ?_⟩
  intro first
  unfold Token.Kind.ofSymbolPair?
  split
  next => exact absurd rfl hgreater
  next => exact absurd rfl hgreater
  next => cases hopens
  next => cases hopens
  next => rfl

theorem isSeparator_of_isBlank {c : Char} (hblank : Text.isBlank c = true) :
    isSeparator c = true := by
  have hpart : isWordPart c = false := by
    by_contra hpart
    rw [not_isBlank_of_isWordPart (by simpa using hpart)] at hblank
    contradiction
  have hopens : opensSymbolPair c = false := by
    by_contra hopens
    rw [(opensSymbolPair_cases (by simpa using hopens)).1] at hblank
    contradiction
  have hgreater : c ≠ '>' := by
    rintro rfl
    exact absurd hblank (by decide)
  simp [isSeparator, hpart, hopens, hgreater]

theorem flush_of_nothing {state : State} (hpending : state.pending = .nothing) :
    state.flush = .ok state := by
  simp only [State.flush, hpending]

theorem pending_of_flush {state next : State} (hflush : state.flush = .ok next) :
    next.pending = .nothing := by
  unfold State.flush at hflush
  split at hflush
  next hpending =>
    obtain rfl := Except.ok.inj hflush
    exact hpending
  next =>
    obtain rfl := Except.ok.inj hflush
    rfl
  next => contradiction

/-- A separator continues nothing. -/
theorem step_of_isSeparator (state : State) {c : Char} (hc : isSeparator c = true) :
    state.step c = state.flush >>= fun flushed => flushed.beginToken c := by
  obtain ⟨hpart, -, hpair⟩ := isSeparator_cases hc
  cases hpending : state.pending with
  | nothing =>
      rw [flush_of_nothing hpending, ok_bind]
      simp only [State.step, hpending]
  | word chars start => simp only [State.step, hpending, hpart, Bool.false_eq_true, if_false]
  | symbol first start => simp only [State.step, State.flush, hpending, hpair, error_bind]

/-- A separator begins nothing that goes on behind it. -/
theorem pending_of_beginToken {state next : State} {c : Char} (hc : isSeparator c = true)
    (hstep : state.beginToken c = .ok next) : next.pending = .nothing := by
  obtain ⟨hpart, hopens, -⟩ := isSeparator_cases hc
  have hstart : isWordStart c = false := by
    by_contra hstart
    rw [isWordPart_of_isWordStart (by simpa using hstart)] at hpart
    contradiction
  unfold State.beginToken at hstep
  simp only [hstart, hopens, Bool.false_eq_true, if_false] at hstep
  split at hstep
  next =>
    obtain rfl := Except.ok.inj hstep
    rfl
  next =>
    split at hstep
    next =>
      obtain rfl := Except.ok.inj hstep
      rfl
    next => contradiction

/-- In front of a separator, an unfinished token is as good as finished. -/
theorem step_eq_flush_step (state : State) {c : Char} (hc : isSeparator c = true) :
    state.step c = state.flush >>= fun flushed => flushed.step c := by
  rw [step_of_isSeparator state hc]
  cases hflush : state.flush with
  | error error => rfl
  | ok next =>
      rw [ok_bind, ok_bind, step_of_isSeparator next hc,
        flush_of_nothing (pending_of_flush hflush), ok_bind]

/-- Behind a separator, no token is unfinished. -/
theorem step_flush_eq_step (state : State) {c : Char} (hc : isSeparator c = true) :
    (state.step c >>= State.flush) = state.step c := by
  cases hstep : state.step c with
  | error error => rfl
  | ok next =>
      rw [step_of_isSeparator state hc] at hstep
      obtain ⟨flushed, -, hbegin⟩ := bind_eq_ok.mp hstep
      exact flush_of_nothing (pending_of_beginToken hc hbegin)

/-! ## Reading across a seam -/

/-- A separator stands in front. -/
def BeginsSeparate (chars : List Char) : Prop :=
  ∃ c ∈ chars.head?, isSeparator c = true

/-- A separator stands at the end. -/
def EndsSeparate (chars : List Char) : Prop :=
  ∃ c ∈ chars.getLast?, isSeparator c = true

instance (chars : List Char) : Decidable (BeginsSeparate chars) :=
  decidable_of_iff (chars.head?.any isSeparator = true)
    (by simp [BeginsSeparate, Option.any_eq_true])

instance (chars : List Char) : Decidable (EndsSeparate chars) :=
  decidable_of_iff (chars.getLast?.any isSeparator = true)
    (by simp [EndsSeparate, Option.any_eq_true])

theorem EndsSeparate.append {back : List Char} (hback : EndsSeparate back) (front : List Char) :
    EndsSeparate (front ++ back) := by
  obtain ⟨c, hlast, hc⟩ := hback
  refine ⟨c, ?_, hc⟩
  rw [List.getLast?_append, Option.mem_def.mp hlast, Option.some_or, Option.mem_some]

/-- A separator stands on one side of the place where the texts meet. -/
def Seam (front back : List Char) : Prop :=
  EndsSeparate front ∨ BeginsSeparate back

theorem run_append (state : State) (front back : List Char) :
    run state (front ++ back) = run state front >>= fun next => run next back :=
  List.foldlM_append

theorem run_singleton (state : State) (c : Char) : run state [c] = state.step c := by
  rw [run_cons]
  exact bind_pure _

/-- At a seam the unfinished token can be finished before reading goes on. -/
theorem run_seam (state : State) {front back : List Char} (hseam : Seam front back) :
    (run state (front ++ back) >>= State.flush) =
      (run state front >>= State.flush) >>= fun next => run next back >>= State.flush := by
  rcases hseam with ⟨c, hlast, hc⟩ | ⟨c, hhead, hc⟩
  · obtain ⟨before, rfl⟩ := List.getLast?_eq_some_iff.mp hlast
    have hflush : (run state (before ++ [c]) >>= State.flush) = run state (before ++ [c]) := by
      rw [run_append, bind_assoc]
      congr 1
      funext next
      rw [run_singleton]
      exact step_flush_eq_step next hc
    rw [run_append state (before ++ [c]) back, bind_assoc, hflush]
  · obtain ⟨after, rfl⟩ := List.head?_eq_some_iff.mp hhead
    rw [run_append, bind_assoc, bind_assoc]
    congr 1
    funext next
    rw [run_cons, step_eq_flush_step next hc, bind_assoc, bind_assoc]
    congr 1
    funext flushed
    rw [run_cons, bind_assoc]

end Lexer

namespace TokenStream

open Lexer

/-- The tokens of a text that is moved to the right. -/
def shift (offset : Nat) (stream : TokenStream) : TokenStream :=
  ⟨stream.tokens.map (Token.shift offset), stream.stop + offset⟩

theorem toList_shift (offset : Nat) (stream : TokenStream) :
    (stream.shift offset).toList = stream.toList.map (Token.shift offset) := by
  simp only [toList, shift, List.map_append, List.map_singleton]
  rfl

/-- Two texts that meet at a seam are read one after the other. -/
theorem ofText_append {front back : String} (hseam : Seam front.toList back.toList) :
    ofText (front ++ back) = ofText front >>= fun first =>
      moved front.length (shift front.length) (ofText back) >>= fun second =>
        .ok ⟨first.tokens ++ second.tokens, second.stop⟩ := by
  rw [ofText_eq, String.toList_append, run_seam State.start hseam, ofText_eq front]
  cases hfront : run State.start front.toList >>= State.flush with
  | error error => rfl
  | ok final =>
      -- The lexer stands behind the front as it stood at the start.
      obtain ⟨tokens, -, hfinal⟩ := cut_of_run hfront trivial
      have hbehind : final = State.start.behind front.length tokens.reverse := by
        rw [hfinal, String.length_toList]
        simp [State.behind, State.start, Pending.shift]
      rw [hbehind, ok_bind, ok_bind, ok_bind, run_flush_behind, ofText_eq]
      cases run State.start back.toList >>= State.flush with
      | error error => rfl
      | ok last => simp [moved, shift, State.behind, State.start]

/-- Blanks are read as no tokens. -/
theorem ofText_of_blank {text : String} (hblank : ∀ c ∈ text.toList, Text.isBlank c = true) :
    ofText text = .ok ⟨[], text.length + 1⟩ := by
  have hcut : ∀ (chars : List Char) (column : Nat),
      (∀ c ∈ chars, Text.isBlank c = true) → Cut column chars [] := by
    intro chars
    induction chars with
    | nil => exact fun column _ => .nil column
    | cons c chars ih =>
        intro column hchars
        obtain ⟨hc, hrest⟩ := List.forall_mem_cons.mp hchars
        exact .blank hc (ih (column + 1) hrest)
  exact (ofText_eq_ok_iff text _).mpr ⟨hcut _ 1 hblank, by rw [String.length_toList]⟩

/-- Behind a text and blanks, another text is read as if it stood alone. -/
theorem ofText_append_blank_append {a w b : String} (hne : w ≠ "")
    (hblank : ∀ c ∈ w.toList, Text.isBlank c = true) :
    ofText (a ++ w ++ b) = ofText a >>= fun front =>
      moved (a.length + w.length) (shift (a.length + w.length)) (ofText b) >>= fun back =>
        .ok ⟨front.tokens ++ back.tokens, back.stop⟩ := by
  have hchars : w.toList ≠ [] := fun hnil => hne (String.toList_eq_nil_iff.mp hnil)
  have hfirst : Seam a.toList w.toList :=
    Or.inr ⟨_, List.head?_eq_some_head hchars,
      isSeparator_of_isBlank (hblank _ (List.head_mem hchars))⟩
  have hends : EndsSeparate w.toList :=
    ⟨_, List.getLast?_eq_some_getLast hchars,
      isSeparator_of_isBlank (hblank _ (List.getLast_mem hchars))⟩
  have hsecond : Seam (a ++ w).toList b.toList := by
    rw [String.toList_append]
    exact Or.inl (hends.append a.toList)
  rw [ofText_append hsecond, ofText_append hfirst, ofText_of_blank hblank, bind_assoc,
    String.length_append]
  cases ofText a with
  | error error => rfl
  | ok front => simp [moved, shift]

end TokenStream

/-- Lexing is compositional at blanks. Put blanks between two texts: if both can be read, the whole
is read as the tokens of the first and then those of the second, with the end of the text, all moved
behind the first text and the blanks; if the first cannot be read, the whole fails as the first
does; and if only the second cannot be read, the whole fails as the second does, just as far to the
right. -/
theorem lexing_splits_at_blanks (a w b : String) (hne : w ≠ "")
    (hblank : ∀ c ∈ w.toList, Text.isBlank c = true) :
    (∀ front back, TokenStream.ofText a = .ok front → TokenStream.ofText b = .ok back →
      ∃ whole, TokenStream.ofText (a ++ w ++ b) = .ok whole ∧
        whole.toList = front.tokens ++ back.toList.map (Token.shift (a.length + w.length))) ∧
    (∀ error, TokenStream.ofText a = .error error →
      TokenStream.ofText (a ++ w ++ b) = .error error) ∧
    ∀ front error, TokenStream.ofText a = .ok front → TokenStream.ofText b = .error error →
      TokenStream.ofText (a ++ w ++ b) = .error (error.shift (a.length + w.length)) := by
  rw [TokenStream.ofText_append_blank_append hne hblank]
  refine ⟨?_, ?_, ?_⟩
  · intro front back hfront hback
    rw [hfront, hback]
    refine ⟨_, rfl, ?_⟩
    rw [← TokenStream.toList_shift]
    exact List.append_assoc _ _ _
  · intro error hfront
    rw [hfront]
    rfl
  · intro front error hfront hback
    rw [hfront, hback]
    rfl

/-- Blanks keep words and symbols of two characters apart: what would be one word is read as two,
and half a symbol cannot be read. -/
theorem lexing_splits_at_blanks_cut :
    (∃ whole, TokenStream.ofText ("λ(f" ++ "\t " ++ "un_") = .ok whole ∧
      whole.toList = [⟨.lambda, "λ", 1⟩, ⟨.lparen, "(", 2⟩, ⟨.ident, "f", 3⟩, ⟨.ident, "un_", 6⟩,
        .eof 9]) ∧
    TokenStream.ofText ("A =" ++ " " ++ "> B") = .error (.unexpectedCharacter '=' 3) ∧
    TokenStream.ofText ("A" ++ "  " ++ "∧ B -") = .error (.unexpectedCharacter '-' 8) := by
  have hfront : TokenStream.ofText "λ(f" =
      .ok ⟨[⟨.lambda, "λ", 1⟩, ⟨.lparen, "(", 2⟩, ⟨.ident, "f", 3⟩], 4⟩ := by
    decide +kernel
  have hback : TokenStream.ofText "un_" = .ok ⟨[⟨.ident, "un_", 1⟩], 4⟩ := by
    decide +kernel
  have hbad : TokenStream.ofText "A =" = .error (.unexpectedCharacter '=' 3) := by
    decide +kernel
  have hgood : TokenStream.ofText "A" = .ok ⟨[⟨.ident, "A", 1⟩], 2⟩ := by
    decide +kernel
  have hbadBack : TokenStream.ofText "∧ B -" = .error (.unexpectedCharacter '-' 5) := by
    decide +kernel
  exact ⟨(lexing_splits_at_blanks "λ(f" "\t " "un_" (by decide)
      (List.all_eq_true.mp rfl)).1 _ _ hfront hback,
    (lexing_splits_at_blanks "A =" " " "> B" (by decide) (List.all_eq_true.mp rfl)).2.1 _ hbad,
    (lexing_splits_at_blanks "A" "  " "∧ B -" (by decide)
      (List.all_eq_true.mp rfl)).2.2 _ _ hgood hbadBack⟩

end Sequitur
