import Sequitur.Proofs.Failure
import Sequitur.Typing

/-! # Typing rules

The judgement that a term proves a proposition under a context, by one rule
for each form of term. The checker computes exactly this judgement, so a
derivation can be built or taken apart wherever the checker succeeds.
-/

namespace Sequitur

open Failure

/-- A name stands for its newest binding: the last one added, or an older one that is hidden by no
binding of the same name. -/
inductive Context.Binds : Context → String → Proposition → Prop where
  | newest (context : Context) (name : String) (p : Proposition) :
      Binds (context.extend name p) name p
  | older {context : Context} {name : String} {p : Proposition} (other : String)
      (q : Proposition) (hne : name ≠ other) (hbinds : Binds context name p) :
      Binds (context.extend other q) name p

/-- The proposition that a term proves under a context. -/
inductive Typing : Context → Term → Proposition → Prop where
  | var {context : Context} {name : String} {p : Proposition}
      (hbinds : context.Binds name p) : Typing context (.var name) p
  | lam {context : Context} {name : String} {a b : Proposition} {body : Term}
      (hbody : Typing (context.extend name a) body b) :
      Typing context (.lam name a body) (.implies a b)
  | app {context : Context} {f x : Term} {a b : Proposition}
      (hf : Typing context f (.implies a b)) (hx : Typing context x a) :
      Typing context (.app f x) b
  | pair {context : Context} {l r : Term} {a b : Proposition}
      (hl : Typing context l a) (hr : Typing context r b) :
      Typing context (.pair l r) (.and a b)
  | fst {context : Context} {t : Term} {a b : Proposition}
      (ht : Typing context t (.and a b)) : Typing context (.fst t) a
  | snd {context : Context} {t : Term} {a b : Proposition}
      (ht : Typing context t (.and a b)) : Typing context (.snd t) b
  | inl {context : Context} {t : Term} {a b : Proposition}
      (ht : Typing context t a) : Typing context (.inl t b) (.or a b)
  | inr {context : Context} {t : Term} {a b : Proposition}
      (ht : Typing context t b) : Typing context (.inr a t) (.or a b)
  | cases {context : Context} {t u v : Term} {x y : String} {a b c : Proposition}
      (ht : Typing context t (.or a b)) (hu : Typing (context.extend x a) u c)
      (hv : Typing (context.extend y b) v c) : Typing context (.cases t x u y v) c
  | unit {context : Context} : Typing context .unit .truth
  | absurd {context : Context} {t : Term} {p : Proposition}
      (ht : Typing context t .falsity) : Typing context (.absurd t p) p

namespace Context

theorem find?_extend (context : Context) (other name : String) (q : Proposition) :
    (context.extend other q).find? name =
      if name = other then some q else context.find? name := by
  simp only [find?, extend, List.lookup_cons]
  by_cases heq : name = other
  · simp [heq]
  · rw [beq_eq_false_iff_ne.mpr heq, if_neg heq]

/-- Looking a name up finds its newest binding. -/
theorem find?_eq_some_iff (context : Context) (name : String) (p : Proposition) :
    context.find? name = some p ↔ context.Binds name p := by
  constructor
  · intro hfind
    obtain ⟨bindings⟩ := context
    induction bindings with
    | nil => simp [find?] at hfind
    | cons binding rest ih =>
        obtain ⟨other, q⟩ := binding
        change (extend ⟨rest⟩ other q).find? name = some p at hfind
        change (extend ⟨rest⟩ other q).Binds name p
        rw [find?_extend] at hfind
        split at hfind
        next heq =>
          obtain rfl := heq
          obtain rfl := Option.some.inj hfind
          exact .newest _ _ _
        next hne => exact .older _ _ hne (ih hfind)
  · intro hbinds
    induction hbinds with
    | newest context name p => simp [find?_extend]
    | older other q hne _ ih => simp [find?_extend, hne, ih]

theorem Binds.mem_bindings {context : Context} {name : String} {p : Proposition}
    (hbinds : context.Binds name p) : (name, p) ∈ context.bindings := by
  induction hbinds with
  | newest context name p => exact List.mem_cons_self
  | older other q hne hbinds ih => exact List.mem_cons_of_mem _ ih

/-- A name has one newest binding. -/
theorem Binds.unique {context : Context} {name : String} {p q : Proposition}
    (hp : context.Binds name p) (hq : context.Binds name q) : p = q := by
  rw [← find?_eq_some_iff] at hp hq
  exact Option.some.inj (hp.symm.trans hq)

end Context

namespace Term

theorem asImplication_eq_ok (t : Term) (p a b : Proposition) :
    t.asImplication p = .ok (a, b) ↔ p = .implies a b := by
  cases p <;> simp [asImplication]

theorem asConjunction_eq_ok (t : Term) (p a b : Proposition) :
    t.asConjunction p = .ok (a, b) ↔ p = .and a b := by
  cases p <;> simp [asConjunction]

theorem asDisjunction_eq_ok (t : Term) (p a b : Proposition) :
    t.asDisjunction p = .ok (a, b) ↔ p = .or a b := by
  cases p <;> simp [asDisjunction]

theorem asFalsity_eq_ok (t : Term) (p : Proposition) :
    t.asFalsity p = .ok () ↔ p = .falsity := by
  cases p <;> simp [asFalsity]

theorem agree_eq_ok (t : Term) (found expected : Proposition) :
    t.agree found expected = .ok () ↔ found = expected := by
  unfold agree
  split
  next heq => simp [heq]
  next hne => simp [hne]

theorem join_eq_ok (left right p : Proposition) :
    join left right = .ok p ↔ left = p ∧ right = p := by
  unfold join
  split
  next heq =>
    subst heq
    simp
  next hne =>
    simp only [reduceCtorEq, false_iff, not_and]
    intro hleft hright
    exact hne (hleft.trans hright.symm)

theorem lookup_eq_ok (context : Context) (name : String) (p : Proposition) :
    context.lookup name = .ok p ↔ context.Binds name p := by
  rw [← Context.find?_eq_some_iff, Context.lookup]
  cases context.find? name with
  | none => simp
  | some q => simp

/-- Every proposition that the checker computes is derived by the rules. -/
theorem typing_of_infer {context : Context} {term : Term} {p : Proposition}
    (hinfer : term.infer context = .ok p) : Typing context term p := by
  induction term generalizing context p with
  | var name => exact .var ((lookup_eq_ok context name p).mp hinfer)
  | lam name domain body ih =>
      obtain ⟨q, hbody, hp⟩ := bind_eq_ok.mp hinfer
      obtain rfl := Except.ok.inj hp
      exact .lam (ih hbody)
  | app f x ihf ihx =>
      obtain ⟨q, hf, hrest⟩ := bind_eq_ok.mp hinfer
      obtain ⟨⟨a, b⟩, hshape, hrest⟩ := bind_eq_ok.mp hrest
      obtain ⟨r, hx, hrest⟩ := bind_eq_ok.mp hrest
      obtain ⟨_, hagree, hp⟩ := bind_eq_ok.mp hrest
      obtain rfl := (asImplication_eq_ok f q a b).mp hshape
      obtain rfl := (agree_eq_ok x r a).mp hagree
      obtain rfl := Except.ok.inj hp
      exact .app (ihf hf) (ihx hx)
  | pair l r ihl ihr =>
      obtain ⟨a, hl, hrest⟩ := bind_eq_ok.mp hinfer
      obtain ⟨b, hr, hp⟩ := bind_eq_ok.mp hrest
      obtain rfl := Except.ok.inj hp
      exact .pair (ihl hl) (ihr hr)
  | fst t ih =>
      obtain ⟨q, ht, hrest⟩ := bind_eq_ok.mp hinfer
      obtain ⟨⟨a, b⟩, hshape, hp⟩ := bind_eq_ok.mp hrest
      obtain rfl := (asConjunction_eq_ok t q a b).mp hshape
      obtain rfl := Except.ok.inj hp
      exact .fst (ih ht)
  | snd t ih =>
      obtain ⟨q, ht, hrest⟩ := bind_eq_ok.mp hinfer
      obtain ⟨⟨a, b⟩, hshape, hp⟩ := bind_eq_ok.mp hrest
      obtain rfl := (asConjunction_eq_ok t q a b).mp hshape
      obtain rfl := Except.ok.inj hp
      exact .snd (ih ht)
  | inl t other ih =>
      obtain ⟨a, ht, hp⟩ := bind_eq_ok.mp hinfer
      obtain rfl := Except.ok.inj hp
      exact .inl (ih ht)
  | inr other t ih =>
      obtain ⟨b, ht, hp⟩ := bind_eq_ok.mp hinfer
      obtain rfl := Except.ok.inj hp
      exact .inr (ih ht)
  | cases t x u y v iht ihu ihv =>
      obtain ⟨q, ht, hrest⟩ := bind_eq_ok.mp hinfer
      obtain ⟨⟨a, b⟩, hshape, hrest⟩ := bind_eq_ok.mp hrest
      obtain ⟨left, hu, hrest⟩ := bind_eq_ok.mp hrest
      obtain ⟨right, hv, hjoin⟩ := bind_eq_ok.mp hrest
      obtain rfl := (asDisjunction_eq_ok t q a b).mp hshape
      obtain ⟨rfl, rfl⟩ := (join_eq_ok left right p).mp hjoin
      exact .cases (iht ht) (ihu hu) (ihv hv)
  | unit =>
      obtain rfl := Except.ok.inj hinfer
      exact .unit
  | absurd t target ih =>
      obtain ⟨q, ht, hrest⟩ := bind_eq_ok.mp hinfer
      obtain ⟨_, hshape, hp⟩ := bind_eq_ok.mp hrest
      obtain rfl := (asFalsity_eq_ok t q).mp hshape
      obtain rfl := Except.ok.inj hp
      exact .absurd (ih ht)

/-- The checker finds every proposition that the rules derive. -/
theorem infer_of_typing {context : Context} {term : Term} {p : Proposition}
    (htyping : Typing context term p) : term.infer context = .ok p := by
  induction htyping with
  | var hbinds => exact (lookup_eq_ok _ _ _).mpr hbinds
  | lam _ ih => simp [infer, ih]
  | app _ _ ihf ihx => simp [infer, ihf, ihx, asImplication, agree]
  | pair _ _ ihl ihr => simp [infer, ihl, ihr]
  | fst _ ih => simp [infer, ih, asConjunction]
  | snd _ ih => simp [infer, ih, asConjunction]
  | inl _ ih => simp [infer, ih]
  | inr _ ih => simp [infer, ih]
  | cases _ _ _ iht ihu ihv => simp [infer, iht, ihu, ihv, asDisjunction, join]
  | unit => rfl
  | absurd _ ih => simp [infer, ih, asFalsity]

theorem infer_eq_ok_iff (context : Context) (term : Term) (p : Proposition) :
    term.infer context = .ok p ↔ Typing context term p :=
  ⟨typing_of_infer, infer_of_typing⟩

theorem check_eq_ok_iff (context : Context) (term : Term) (p : Proposition) :
    term.check context p = .ok () ↔ Typing context term p := by
  rw [← infer_eq_ok_iff, check, bind_eq_ok]
  constructor
  · rintro ⟨found, hinfer, hagree⟩
    rw [hinfer, (agree_eq_ok term found p).mp hagree]
  · intro hinfer
    exact ⟨p, hinfer, (agree_eq_ok term p p).mpr rfl⟩

theorem exists_infer_eq_error_iff (context : Context) (term : Term) :
    (∃ error, term.infer context = .error error) ↔ ¬ ∃ p, Typing context term p := by
  simp only [← infer_eq_ok_iff]
  cases term.infer context with
  | error error => simp
  | ok p => simp

/-- A term proves at most one proposition, since the checker finds each one that it proves. -/
theorem typing_unique {context : Context} {term : Term} {p q : Proposition}
    (hp : Typing context term p) (hq : Typing context term q) : p = q := by
  have hinfer : Except.ok p = .ok q := (infer_of_typing hp).symm.trans (infer_of_typing hq)
  exact Except.ok.inj hinfer

/-- The checker decides the typing rules. It computes the one proposition that they derive and
fails exactly if they derive none, and a proposition passes as the expected one exactly if they
derive it. -/
theorem checker_decides_typing (context : Context) (term : Term) :
    (∀ p, term.infer context = .ok p ↔ Typing context term p) ∧
    ((∃ error, term.infer context = .error error) ↔ ¬ ∃ p, Typing context term p) ∧
    (∀ p q, Typing context term p → Typing context term q → p = q) ∧
    ∀ p, term.check context p = .ok () ↔ Typing context term p := by
  refine ⟨infer_eq_ok_iff context term, exists_infer_eq_error_iff context term, ?_,
    check_eq_ok_iff context term⟩
  intro p q hp hq
  exact typing_unique hp hq

/-- A case distinction on the newer of two bindings of one name, whose branches bind that name
anew: it proves `B` and nothing else. The hidden conjunction has no projections. -/
theorem checker_decides_typing_hidden :
    (Term.cases (.var "x") "x" (.var "x") "y" (.var "y")).infer
        (.ofList [("x", .and (.atom "A") (.atom "A")), ("x", .or (.atom "B") (.atom "B"))]) =
      .ok (.atom "B") ∧
    Typing (.ofList [("x", .and (.atom "A") (.atom "A")), ("x", .or (.atom "B") (.atom "B"))])
      (.cases (.var "x") "x" (.var "x") "y" (.var "y")) (.atom "B") ∧
    (∀ q, Typing
        (.ofList [("x", .and (.atom "A") (.atom "A")), ("x", .or (.atom "B") (.atom "B"))])
        (.cases (.var "x") "x" (.var "x") "y" (.var "y")) q → .atom "B" = q) ∧
    ¬ ∃ p, Typing
      (.ofList [("x", .and (.atom "A") (.atom "A")), ("x", .or (.atom "B") (.atom "B"))])
      (.fst (.var "x")) p := by
  have hinfer : (Term.cases (.var "x") "x" (.var "x") "y" (.var "y")).infer
      (.ofList [("x", .and (.atom "A") (.atom "A")), ("x", .or (.atom "B") (.atom "B"))]) =
      .ok (.atom "B") := rfl
  have htyping := ((checker_decides_typing _ _).1 _).mp hinfer
  refine ⟨hinfer, htyping, ?_, ?_⟩
  · intro q hq
    exact (checker_decides_typing _ _).2.2.1 _ _ htyping hq
  · exact (checker_decides_typing _ _).2.1.mp ⟨_, rfl⟩

end Term

end Sequitur
