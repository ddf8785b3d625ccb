import Stepwise.Value.Basic

/-!
Values bound to names, in the order in which the names were first bound.
-/

namespace Stepwise.Run

structure Bindings where
  entries : List (String × Value)

namespace Bindings

def empty : Bindings := ⟨[]⟩

def get? (bindings : Bindings) (name : String) : Option Value := bindings.entries.lookup name

def names (bindings : Bindings) : List String := bindings.entries.map Prod.fst

/-- Entries in which a name is bound to a value: a name that was bound before keeps its place. -/
def setEntry (name : String) (value : Value) : List (String × Value) → List (String × Value)
  | [] => [(name, value)]
  | entry :: rest =>
      if name == entry.1 then (name, value) :: rest else entry :: setEntry name value rest

def set (bindings : Bindings) (name : String) (value : Value) : Bindings :=
  ⟨setEntry name value bindings.entries⟩

@[simp] theorem get?_empty (name : String) : empty.get? name = none := rfl

theorem lookup_cons_of_ne {name key : String} (different : name ≠ key) (value : Value)
    (entries : List (String × Value)) :
    ((key, value) :: entries).lookup name = entries.lookup name := by
  rw [List.lookup_cons, beq_eq_false_iff_ne.mpr different]

theorem lookup_setEntry (name other : String) (value : Value) (entries : List (String × Value)) :
    (setEntry name value entries).lookup other =
      if other = name then some value else entries.lookup other := by
  induction entries with
  | nil =>
      by_cases wanted : other = name
      · simp [setEntry, wanted]
      · simp [setEntry, lookup_cons_of_ne wanted, wanted]
  | cons entry rest inductionHypothesis =>
      obtain ⟨key, bound⟩ := entry
      by_cases same : name = key
      · subst same
        by_cases wanted : other = name
        · simp [setEntry, wanted]
        · simp [setEntry, lookup_cons_of_ne wanted, wanted]
      · by_cases wanted : other = key
        · have different : ¬ key = name := fun equal => same equal.symm
          simp [setEntry, same, wanted, different]
        · simp [setEntry, same, lookup_cons_of_ne wanted, inductionHypothesis]

/-- After a name is bound it has its new value and every other name its old one. -/
@[simp] theorem get?_set (bindings : Bindings) (name other : String) (value : Value) :
    (bindings.set name value).get? other =
      if other = name then some value else bindings.get? other :=
  lookup_setEntry name other value bindings.entries

end Bindings

end Stepwise.Run
