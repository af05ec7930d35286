import Sequitur.Proofs.FreeVariables

/-! # Contexts as lists

A context keeps its newest binding in front, since that is the one a name stands
for, and is given and shown from the oldest binding on. The two lists are each
other's reverse. So a context is the list of its bindings in the order in which
they were added, and a name stands for the last of its bindings in that list.
-/

namespace Sequitur

namespace Context

theorem foldl_extend (context : Context) (pairs : List (String × Proposition)) :
    pairs.foldl (fun context pair => context.extend pair.1 pair.2) context =
      ⟨pairs.reverse ++ context.bindings⟩ := by
  induction pairs generalizing context with
  | nil => rfl
  | cons pair rest ih =>
      rw [List.foldl_cons, ih, List.reverse_cons, List.append_assoc]
      rfl

theorem ofList_eq (pairs : List (String × Proposition)) : ofList pairs = ⟨pairs.reverse⟩ := by
  rw [ofList, foldl_extend, empty, List.append_nil]

@[simp]
theorem toList_ofList (pairs : List (String × Proposition)) : (ofList pairs).toList = pairs := by
  rw [ofList_eq, toList, List.reverse_reverse]

@[simp]
theorem ofList_toList (context : Context) : ofList context.toList = context := by
  rw [ofList_eq, toList, List.reverse_reverse]

theorem size_eq_length_toList (context : Context) : context.size = context.toList.length :=
  List.length_reverse.symm

theorem toList_injective : Function.Injective toList :=
  Function.LeftInverse.injective ofList_toList

/-- The newest binding of a name is the last one of it in the order of the list. -/
theorem find?_eq_some_iff_last (context : Context) (name : String) (p : Proposition) :
    context.find? name = some p ↔
      ∃ older newer, context.toList = older ++ (name, p) :: newer ∧
        ∀ binding ∈ newer, binding.1 ≠ name := by
  have hturned : ∀ older newer, context.toList = older ++ (name, p) :: newer ↔
      context.bindings = newer.reverse ++ (name, p) :: older.reverse := by
    intro older newer
    rw [toList, List.reverse_eq_iff]
    simp
  rw [find?, List.lookup_eq_some_iff]
  constructor
  · rintro ⟨newer, older, hbindings, hnewer⟩
    refine ⟨older.reverse, newer.reverse, (hturned _ _).mpr (by simpa using hbindings), ?_⟩
    intro binding hbinding
    exact (bne_iff_ne.mp (hnewer binding (List.mem_reverse.mp hbinding))).symm
  · rintro ⟨older, newer, hlist, hnewer⟩
    refine ⟨newer.reverse, older.reverse, (hturned _ _).mp hlist, ?_⟩
    intro binding hbinding
    exact bne_iff_ne.mpr (hnewer binding (List.mem_reverse.mp hbinding)).symm

theorem lookup_ofList_eq_ok_iff (pairs : List (String × Proposition)) (name : String)
    (p : Proposition) :
    (ofList pairs).lookup name = .ok p ↔
      ∃ older newer, pairs = older ++ (name, p) :: newer ∧
        ∀ binding ∈ newer, binding.1 ≠ name := by
  rw [Term.lookup_eq_ok, ← find?_eq_some_iff, find?_eq_some_iff_last, toList_ofList]

theorem contains_extend (context : Context) (other name : String) (p : Proposition) :
    (context.extend other p).contains name = (other == name || context.contains name) :=
  rfl

theorem contains_extend_self (context : Context) (name : String) (p : Proposition) :
    (context.extend name p).contains name = true := by
  rw [contains_extend, beq_self_eq_true, Bool.true_or]

theorem contains_iff_mem_toList (context : Context) (name : String) :
    context.contains name = true ↔ ∃ p, (name, p) ∈ context.toList := by
  simp [contains, toList]

theorem lookup_eq_error_iff (context : Context) (name : String) (error : TypingError) :
    context.lookup name = .error error ↔
      context.contains name = false ∧ error = .unbound name := by
  rw [contains_eq_isSome, lookup]
  cases context.find? name with
  | none => simp [eq_comm]
  | some p => simp

/-- A context is the list of its bindings. Made from a list, whatever names are repeated in it, it
gives back that list and has its length; made from its own list it is the same context again; and
contexts with the same list are equal. A name stands for the last of its bindings in the list, it
is bound if the list has one, and looking it up fails, because it is unbound, if the list has
none. -/
theorem context_is_list_of_bindings :
    (∀ pairs : List (String × Proposition),
      (ofList pairs).toList = pairs ∧ (ofList pairs).size = pairs.length) ∧
    (∀ context : Context, ofList context.toList = context) ∧
    (∀ (pairs : List (String × Proposition)) (name : String) (p : Proposition),
      (ofList pairs).lookup name = .ok p ↔
        ∃ older newer, pairs = older ++ (name, p) :: newer ∧
          ∀ binding ∈ newer, binding.1 ≠ name) ∧
    (∀ (context : Context) (name : String),
      (context.contains name = true ↔ ∃ p, (name, p) ∈ context.toList) ∧
      (context.contains name = true ↔ ∃ p, context.lookup name = .ok p) ∧
      (context.contains name = false ↔
        ∃ error, context.lookup name = .error error ∧ error.kind = .unboundVariable)) ∧
    ∀ c d : Context, c = d ↔ c.toList = d.toList := by
  refine ⟨?_, ofList_toList, lookup_ofList_eq_ok_iff, ?_, fun c d => toList_injective.eq_iff.symm⟩
  · intro pairs
    exact ⟨toList_ofList pairs, by rw [size_eq_length_toList, toList_ofList]⟩
  · intro context name
    refine ⟨contains_iff_mem_toList context name, contains_iff_lookup_ok context name, ?_⟩
    simp only [lookup_eq_error_iff]
    constructor
    · intro hunbound
      exact ⟨.unbound name, ⟨hunbound, rfl⟩, rfl⟩
    · rintro ⟨error, ⟨hunbound, -⟩, -⟩
      exact hunbound

/-- Of three bindings the newer one called `x` counts, and both are kept. -/
example :
    (ofList [("x", .atom "A"), ("x", .truth), ("y", .falsity)]).toList =
      [("x", .atom "A"), ("x", .truth), ("y", .falsity)] ∧
    (ofList [("x", .atom "A"), ("x", .truth), ("y", .falsity)]).lookup "x" = .ok .truth :=
  ⟨rfl, rfl⟩

end Context

end Sequitur
