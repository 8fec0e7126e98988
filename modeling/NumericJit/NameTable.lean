/-!
# Tables by name

A table gives each of its names one value. Setting a name again replaces its value.
-/

namespace NumericJit

structure NameTable (α : Type) where
  entries : List (String × α) := []
deriving Inhabited

namespace NameTable

variable {α : Type}

def get? (t : NameTable α) (name : String) : Option α := t.entries.lookup name

def erase (t : NameTable α) (name : String) : NameTable α :=
  ⟨t.entries.filter fun e => e.1 != name⟩

def set (t : NameTable α) (name : String) (value : α) : NameTable α :=
  ⟨(name, value) :: (t.erase name).entries⟩

/-- Gives a name the value it had before, or takes it out if it had none. -/
def restore (t : NameTable α) (name : String) : Option α → NameTable α
  | some value => t.set name value
  | none => t.erase name

def size (t : NameTable α) : Nat := t.entries.length

def isEmpty (t : NameTable α) : Bool := t.entries.isEmpty

theorem get?_erase (t : NameTable α) (name other : String) :
    (t.erase name).get? other = if other = name then none else t.get? other := by
  obtain ⟨entries⟩ := t
  simp only [get?, erase]
  induction entries with
  | nil => simp
  | cons e es ih =>
    obtain ⟨key, value⟩ := e
    by_cases hk : key = name
    · subst hk
      simp only [List.filter, bne_self_eq_false, ih, List.lookup_cons]
      by_cases ho : other = key
      · simp [ho]
      · simp [ho, beq_eq_false_iff_ne.mpr ho]
    · have hb : (key != name) = true := by simpa using hk
      simp only [List.filter, hb, List.lookup_cons]
      by_cases ho : other = key
      · subst ho
        simp [hk]
      · simp [beq_eq_false_iff_ne.mpr ho, ih]

theorem get?_set (t : NameTable α) (name other : String) (value : α) :
    (t.set name value).get? other = if other = name then some value else t.get? other := by
  by_cases h : other = name
  · simp [get?, set, h]
  · have hb : (other == name) = false := beq_eq_false_iff_ne.mpr h
    have he := get?_erase t name other
    simp only [get?, h, if_false] at he
    simp [get?, set, List.lookup_cons, hb, he, h]

theorem get?_restore (t : NameTable α) (name other : String) (prior : Option α) :
    (t.restore name prior).get? other = if other = name then prior else t.get? other := by
  cases prior with
  | some value => exact get?_set t name other value
  | none => exact get?_erase t name other

end NameTable

abbrev Scope := NameTable Nat

abbrev ArityTable := NameTable Nat

/-- Records an arity, and says which other one it replaces. -/
def ArityTable.record (t : ArityTable) (name : String) (arity : Nat) : Option Nat × ArityTable :=
  ((t.get? name).filter (· != arity), t.set name arity)

end NumericJit
