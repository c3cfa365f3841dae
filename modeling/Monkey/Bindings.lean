/-
# Bindings

Names that stand for things, each name for one thing at most. A later binding of a
name takes the place of the earlier one. Scopes bind identifiers to values in this
way, and a host its slots to whatever it keeps in them.
-/

namespace Monkey

/-- Things under names, no name twice. -/
structure Bindings (α : Type) where
  entries : List (String × α)
  distinct : (entries.map Prod.fst).Nodup
  deriving DecidableEq

namespace Bindings

variable {α : Type}

/-- Nothing is bound. -/
def empty : Bindings α := ⟨[], List.nodup_nil⟩

/-- The thing that a name stands for. -/
def find? (bindings : Bindings α) (name : String) : Option α := bindings.entries.lookup name

/-- The things that are bound, whatever their names. -/
def items (bindings : Bindings α) : List α := bindings.entries.map Prod.snd

/-- Forget what a name stands for. -/
def erase (bindings : Bindings α) (name : String) : Bindings α where
  entries := bindings.entries.filter fun entry => entry.1 != name
  distinct := bindings.distinct.sublist (List.filter_sublist.map Prod.fst)

/-- No entry under the name is left after it has been erased. -/
theorem not_mem_erase (bindings : Bindings α) (name : String) :
    name ∉ (bindings.erase name).entries.map Prod.fst := by
  simp [erase]

/-- Let a name stand for a thing, whatever it stood for before. -/
def insert (bindings : Bindings α) (name : String) (item : α) : Bindings α where
  entries := (name, item) :: (bindings.erase name).entries
  distinct := List.nodup_cons.mpr ⟨bindings.not_mem_erase name, (bindings.erase name).distinct⟩

@[simp]
theorem find?_empty (name : String) : (empty : Bindings α).find? name = none := rfl

/-- Looking up a name does not see the entries under another. -/
theorem lookup_filter_of_ne {entries : List (String × α)} {name other : String}
    (different : other ≠ name) :
    (entries.filter fun entry => entry.1 != name).lookup other = entries.lookup other := by
  induction entries with
  | nil => rfl
  | cons entry entries ih =>
    obtain ⟨key, item⟩ := entry
    by_cases isName : key = name
    · subst isName
      simp [ih, List.lookup_cons, beq_false_of_ne different]
    · simp [isName, ih, List.lookup_cons]

@[simp]
theorem find?_erase_of_ne (bindings : Bindings α) {name other : String}
    (different : other ≠ name) : (bindings.erase name).find? other = bindings.find? other :=
  lookup_filter_of_ne different

@[simp]
theorem find?_insert_self (bindings : Bindings α) (name : String) (item : α) :
    (bindings.insert name item).find? name = some item := by
  simp [find?, insert]

@[simp]
theorem find?_insert_of_ne (bindings : Bindings α) {name other : String} (item : α)
    (different : other ≠ name) : (bindings.insert name item).find? other = bindings.find? other := by
  have unaffected := bindings.find?_erase_of_ne different
  simpa [find?, insert, List.lookup_cons, beq_false_of_ne different] using unaffected

end Bindings

end Monkey
