import Sequitur.Proofs.Names
import Sequitur.Proofs.Typing

/-! # Natural deduction

Deduction from hypotheses without names, terms or writing conventions. Every
typed term is such a deduction. Conversely a deduction is carried out by a
term whose binders are named by their depth, so that no name hides another.
The propositions that a deduction passes through may hold atoms that cannot be
written; respelling those atoms keeps the deduction and makes the term
writable.
-/

namespace Sequitur

/-- Deducibility in intuitionistic propositional logic. -/
inductive Entails : List Proposition → Proposition → Prop where
  | hypothesis {hyps : List Proposition} {p : Proposition} (hmem : p ∈ hyps) : Entails hyps p
  | impliesIntro {hyps : List Proposition} {a b : Proposition} (hb : Entails (a :: hyps) b) :
      Entails hyps (.implies a b)
  | impliesElim {hyps : List Proposition} {a b : Proposition}
      (hab : Entails hyps (.implies a b)) (ha : Entails hyps a) : Entails hyps b
  | andIntro {hyps : List Proposition} {a b : Proposition} (ha : Entails hyps a)
      (hb : Entails hyps b) : Entails hyps (.and a b)
  | andLeft {hyps : List Proposition} {a b : Proposition} (hab : Entails hyps (.and a b)) :
      Entails hyps a
  | andRight {hyps : List Proposition} {a b : Proposition} (hab : Entails hyps (.and a b)) :
      Entails hyps b
  | orLeft {hyps : List Proposition} {a b : Proposition} (ha : Entails hyps a) :
      Entails hyps (.or a b)
  | orRight {hyps : List Proposition} {a b : Proposition} (hb : Entails hyps b) :
      Entails hyps (.or a b)
  | orElim {hyps : List Proposition} {a b c : Proposition} (hab : Entails hyps (.or a b))
      (ha : Entails (a :: hyps) c) (hb : Entails (b :: hyps) c) : Entails hyps c
  | truthIntro {hyps : List Proposition} : Entails hyps .truth
  | falsityElim {hyps : List Proposition} {p : Proposition} (hfalsity : Entails hyps .falsity) :
      Entails hyps p

namespace Context

/-- The propositions bound in a context, the newest first and without their names. -/
def hypotheses (context : Context) : List Proposition :=
  context.bindings.map Prod.snd

theorem Binds.mem_hypotheses {context : Context} {name : String} {p : Proposition}
    (hbinds : context.Binds name p) : p ∈ context.hypotheses :=
  List.mem_map_of_mem hbinds.mem_bindings

end Context

/-- A typed term is a deduction from the hypotheses of its context. -/
theorem Typing.entails {context : Context} {term : Term} {p : Proposition}
    (htyping : Typing context term p) : Entails context.hypotheses p := by
  induction htyping with
  | var hbinds => exact .hypothesis hbinds.mem_hypotheses
  | lam _ ih => exact .impliesIntro ih
  | app _ _ ihf ihx => exact .impliesElim ihf ihx
  | pair _ _ ihl ihr => exact .andIntro ihl ihr
  | fst _ ih => exact .andLeft ih
  | snd _ ih => exact .andRight ih
  | inl _ ih => exact .orLeft ih
  | inr _ ih => exact .orRight ih
  | cases _ _ _ iht ihu ihv => exact .orElim iht ihu ihv
  | unit => exact .truthIntro
  | absurd _ ih => exact .falsityElim ih

/-! ## Names by depth -/

/-- The name of the hypothesis with the given number of older ones. -/
def depthName (depth : Nat) : String :=
  String.ofList ('x' :: List.replicate depth 'x')

theorem depthName_injective {m n : Nat} (heq : depthName m = depthName n) : m = n := by
  have hlength := congrArg (fun name => name.toList.length) heq
  simpa [depthName] using hlength

/-- No reserved word begins like the names of hypotheses. -/
theorem head_ne_of_ofKeyword? {word : String} {kind : Token.Kind}
    (hkeyword : Token.Kind.ofKeyword? word = some kind) : word.toList.head? ≠ some 'x' := by
  unfold Token.Kind.ofKeyword? at hkeyword
  split at hkeyword <;> cases hkeyword <;> decide

theorem isIdentifier_depthName (depth : Nat) : isIdentifier (depthName depth) = true := by
  have hkeyword : Token.Kind.ofKeyword? (depthName depth) = none := by
    rw [Option.eq_none_iff_forall_ne_some]
    intro kind hkind
    exact head_ne_of_ofKeyword? hkind (by simp [depthName])
  have hword : isWord (depthName depth).toList = true := by
    simp only [depthName, String.toList_ofList, isWord, Bool.and_eq_true, List.all_eq_true]
    refine ⟨by decide, ?_⟩
    intro c hc
    rw [List.eq_of_mem_replicate hc]
    decide
  simp [isIdentifier, hword, hkeyword]

/-- The context of hypotheses that are named by their depth. -/
def Context.numbered : List Proposition → Context
  | [] => .empty
  | p :: rest => (numbered rest).extend (depthName rest.length) p

/-- Names by depth hide nothing: every hypothesis can be referred to. -/
theorem Context.exists_numbered_binds {hyps : List Proposition} {p : Proposition}
    (hmem : p ∈ hyps) : ∃ depth < hyps.length, (numbered hyps).Binds (depthName depth) p := by
  induction hyps with
  | nil => simp at hmem
  | cons q rest ih =>
      rcases List.mem_cons.mp hmem with rfl | hrest
      · exact ⟨rest.length, by simp, .newest _ _ _⟩
      · obtain ⟨depth, hdepth, hbinds⟩ := ih hrest
        refine ⟨depth, by simp; omega, .older _ _ ?_ hbinds⟩
        intro heq
        have := depthName_injective heq
        omega

/-! ## Deductions as writable terms -/

/-- Put truth in place of every atom that cannot be written. -/
def Proposition.respell : Proposition → Proposition
  | .atom name => if isIdentifier name then .atom name else .truth
  | .implies a b => .implies a.respell b.respell
  | .and a b => .and a.respell b.respell
  | .or a b => .or a.respell b.respell
  | .truth => .truth
  | .falsity => .falsity

theorem Proposition.writable_respell (p : Proposition) : p.respell.Writable := by
  induction p with
  | atom name =>
      unfold respell
      split
      next hname => simpa using hname
      next => simp
  | implies a b iha ihb => simp [respell, iha, ihb]
  | and a b iha ihb => simp [respell, iha, ihb]
  | or a b iha ihb => simp [respell, iha, ihb]
  | truth => simp [respell]
  | falsity => simp [respell]

theorem Proposition.respell_of_writable {p : Proposition} (hp : p.Writable) : p.respell = p := by
  induction p with
  | atom name => simp_all [respell]
  | implies a b iha ihb =>
      rw [writable_implies] at hp
      rw [respell, iha hp.1, ihb hp.2]
  | and a b iha ihb =>
      rw [writable_and] at hp
      rw [respell, iha hp.1, ihb hp.2]
  | or a b iha ihb =>
      rw [writable_or] at hp
      rw [respell, iha hp.1, ihb hp.2]
  | truth => rfl
  | falsity => rfl

/-- A writable term carries out the respelled form of a deduction. -/
theorem Entails.exists_writable_term {hyps : List Proposition} {p : Proposition}
    (hentails : Entails hyps p) :
    ∃ term : Term, term.Writable ∧
      Typing (.numbered (hyps.map Proposition.respell)) term p.respell := by
  induction hentails with
  | hypothesis hmem =>
      obtain ⟨depth, _, hbinds⟩ :=
        Context.exists_numbered_binds (List.mem_map_of_mem hmem)
      exact ⟨.var (depthName depth), by simp [isIdentifier_depthName], .var hbinds⟩
  | @impliesIntro hyps a b _ ih =>
      obtain ⟨body, hwritable, hbody⟩ := ih
      refine ⟨.lam (depthName hyps.length) a.respell body, ?_, ?_⟩
      · simp [isIdentifier_depthName, Proposition.writable_respell, hwritable]
      · simp only [List.map_cons, Context.numbered, List.length_map] at hbody
        exact .lam hbody
  | impliesElim _ _ ihab iha =>
      obtain ⟨f, hfw, hf⟩ := ihab
      obtain ⟨x, hxw, hx⟩ := iha
      exact ⟨.app f x, by simp [hfw, hxw], .app hf hx⟩
  | andIntro _ _ iha ihb =>
      obtain ⟨l, hlw, hl⟩ := iha
      obtain ⟨r, hrw, hr⟩ := ihb
      exact ⟨.pair l r, by simp [hlw, hrw], .pair hl hr⟩
  | andLeft _ ih =>
      obtain ⟨t, htw, ht⟩ := ih
      exact ⟨.fst t, by simp [htw], .fst ht⟩
  | andRight _ ih =>
      obtain ⟨t, htw, ht⟩ := ih
      exact ⟨.snd t, by simp [htw], .snd ht⟩
  | @orLeft _ a b _ ih =>
      obtain ⟨t, htw, ht⟩ := ih
      exact ⟨.inl t b.respell, by simp [htw, Proposition.writable_respell], .inl ht⟩
  | @orRight _ a b _ ih =>
      obtain ⟨t, htw, ht⟩ := ih
      exact ⟨.inr a.respell t, by simp [htw, Proposition.writable_respell], .inr ht⟩
  | @orElim hyps a b c _ _ _ ihab iha ihb =>
      obtain ⟨t, htw, ht⟩ := ihab
      obtain ⟨u, huw, hu⟩ := iha
      obtain ⟨v, hvw, hv⟩ := ihb
      -- The branches are at the same depth, so that one name serves for both.
      refine ⟨.cases t (depthName hyps.length) u (depthName hyps.length) v, ?_, ?_⟩
      · simp [isIdentifier_depthName, htw, huw, hvw]
      · simp only [List.map_cons, Context.numbered, List.length_map] at hu hv
        exact .cases ht hu hv
  | truthIntro => exact ⟨.unit, by simp, .unit⟩
  | @falsityElim _ p _ ih =>
      obtain ⟨t, htw, ht⟩ := ih
      exact ⟨.absurd t p.respell, by simp [htw, Proposition.writable_respell], .absurd ht⟩

end Sequitur
