/-! Names with what they stand for. A name is bound once; binding it again replaces what it stood
for. -/
namespace Lox

abbrev Bindings (α : Type) := List (String × α)

namespace Bindings

variable {α : Type} {name other : String} {value : α}

def get? (name : String) : Bindings α → Option α
  | [] => none
  | (bound, value) :: rest => if bound = name then some value else get? name rest

def binds (b : Bindings α) (name : String) : Bool := (b.get? name).isSome

def put (name : String) (value : α) : Bindings α → Bindings α
  | [] => [(name, value)]
  | (bound, old) :: rest =>
    if bound = name then (name, value) :: rest else (bound, old) :: put name value rest

@[simp] theorem get?_nil : get? name ([] : Bindings α) = none := rfl

@[simp] theorem get?_put_same (b : Bindings α) : (b.put name value).get? name = some value := by
  induction b with
  | nil => simp [put, get?]
  | cons entry rest ih =>
    simp only [put]
    split <;> simp_all [get?]

@[simp] theorem get?_put_other (b : Bindings α) (different : other ≠ name) :
    (b.put name value).get? other = b.get? other := by
  induction b with
  | nil => simp [put, get?, Ne.symm different]
  | cons entry rest ih =>
    simp only [put]
    split
    next same => simp [get?, same, Ne.symm different]
    next => simp [get?, ih]

theorem binds_put (b : Bindings α) :
    (b.put name value).binds other = (decide (other = name) || b.binds other) := by
  by_cases same : other = name
  · simp [binds, same]
  · simp [binds, same]

end Bindings

end Lox
