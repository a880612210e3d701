/-!
# Layers of names

A layer gives each of its names one value and refuses to give a name a second one. Layers are kept
in places; an overlay puts places one atop the other, so that a name means what it means in the
first layer that has it, while new names go into the topmost layer. One place may occur in several
overlays, or several times in one.

Results:
* `Layer.contains_eq_isSome`, `Overlay.contains_eq_isSome`: a name is there exactly if it has a
  value.
* `Overlay.find?_eq_findSome?`: an overlay reads as the list of its places.
-/

namespace StackPrimer

/-- Names with their values, in the order in which they came. -/
structure Layer (α : Type) where
  entries : List (String × α) := []

/-- A name that has a value already. -/
structure AlreadyExists where
  key : String
  deriving DecidableEq, Repr

namespace Layer

variable {α : Type}

/-- The value of a name. -/
def find? (l : Layer α) (key : String) : Option α :=
  (l.entries.find? fun e => e.1 = key).map (·.2)

/-- Whether the name is there. -/
def contains (l : Layer α) (key : String) : Bool := l.entries.any fun e => e.1 = key

/-- The layer with one more name, which is not there yet. -/
def append (l : Layer α) (key : String) (value : α) : Layer α := ⟨l.entries ++ [(key, value)]⟩

/-- The layer with one more name, if the name is not there yet. -/
def mount (l : Layer α) (key : String) (value : α) : Except AlreadyExists (Layer α) :=
  if l.contains key then .error ⟨key⟩ else .ok (l.append key value)

/-- A name is there exactly if it has a value. -/
theorem contains_eq_isSome (l : Layer α) (key : String) :
    l.contains key = (l.find? key).isSome := by
  rcases l with ⟨entries⟩
  induction entries with
  | nil => rfl
  | cons e es ih =>
    by_cases h : e.1 = key
    · simp [contains, find?, h]
    · simpa [contains, find?, h] using ih

end Layer

/-- The layer at each place. -/
abbrev Shelf (ι α : Type) := ι → Layer α

/-- The shelf with another layer at a place. -/
def Shelf.set {ι α : Type} [DecidableEq ι] (shelf : Shelf ι α) (i : ι) (l : Layer α) : Shelf ι α :=
  fun j => if j = i then l else shelf j

/-- Places one atop the other. -/
inductive Overlay (ι : Type)
  | layer (place : ι)
  | atop (top rest : Overlay ι)
  deriving DecidableEq, Repr

namespace Overlay

variable {ι α : Type}

/-- The places from top to bottom. -/
def places : Overlay ι → List ι
  | layer i => [i]
  | atop top rest => top.places ++ rest.places

/-- Whether some layer has the name. -/
def contains (shelf : Shelf ι α) : Overlay ι → String → Bool
  | layer i, key => (shelf i).contains key
  | atop top rest, key => contains shelf top key || contains shelf rest key

/-- The value of the name in the first layer that has it. -/
def find? (shelf : Shelf ι α) : Overlay ι → String → Option α
  | layer i, key => (shelf i).find? key
  | atop top rest, key => (find? shelf top key).or (find? shelf rest key)

/-- The shelf after the name has been given a value in the topmost layer, if that does not have it
yet. -/
def mount [DecidableEq ι] (shelf : Shelf ι α) :
    Overlay ι → String → α → Except AlreadyExists (Shelf ι α)
  | layer i, key, value => ((shelf i).mount key value).map (shelf.set i)
  | atop top _, key, value => mount shelf top key value

/-- A name is there exactly if it has a value. -/
theorem contains_eq_isSome (shelf : Shelf ι α) (o : Overlay ι) (key : String) :
    o.contains shelf key = (o.find? shelf key).isSome := by
  induction o with
  | layer i => exact Layer.contains_eq_isSome _ _
  | atop top rest iht ihr => simp [contains, find?, iht, ihr]

/-- An overlay reads as the list of its places. -/
theorem find?_eq_findSome? (shelf : Shelf ι α) (o : Overlay ι) (key : String) :
    o.find? shelf key = o.places.findSome? fun i => (shelf i).find? key := by
  induction o with
  | layer i => cases h : (shelf i).find? key <;> simp [find?, places, h]
  | atop top rest iht ihr => simp [find?, places, iht, ihr]

end Overlay

end StackPrimer
