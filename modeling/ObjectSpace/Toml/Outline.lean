import ObjectSpace.Toml.Scalar

/-!
# Outlines

An outline says what stands at each path of a settings file. Every path is defined at most once: a
value stays as it is, a table is declared by one header, and a table that came to be by dotted keys
is extended by dotted keys only.
-/

namespace ObjectSpace
namespace Toml

inductive Place where
  | value (i : Item)
  /-- A table that only lies on the way to the one of a header. -/
  | implied
  /-- A table that lies on the way of dotted keys. -/
  | dotted
  /-- A table with a header of its own. -/
  | declared
  /-- The last one of several tables. -/
  | repeated

abbrev KeyPath : Type := List String

structure Outline where
  places : List (KeyPath × Place)

namespace Outline

def empty : Outline := ⟨[]⟩

def place? (o : Outline) (path : KeyPath) : Option Place := o.places.lookup path

def put (o : Outline) (path : KeyPath) (p : Place) : Outline :=
  ⟨(path, p) :: o.places.filter (·.1 != path)⟩

/-- Forgets what is inside a table. -/
def clear (o : Outline) (path : KeyPath) : Outline :=
  ⟨o.places.filter fun e => !(path.isPrefixOf e.1 && path != e.1)⟩

/-- The paths on the way to `path` beyond `root`, the nearest first. -/
def ways (root path : KeyPath) : List KeyPath :=
  (List.range path.length).tail.map fun n => root ++ path.take n

/-- One table on the way of a header. -/
def pass (o : Outline) (path : KeyPath) : Option Outline :=
  match o.place? path with
  | none => some (o.put path .implied)
  | some (.value _) => none
  | some _ => some o

def declare (o : Outline) (path : KeyPath) : Option Outline := do
  let o ← (ways [] path).foldlM pass o
  match o.place? path with
  | none | some .implied => some (o.put path .declared)
  | _ => none

/-- Begins the next one of several tables. -/
def repeatTable (o : Outline) (path : KeyPath) : Option Outline := do
  let o ← (ways [] path).foldlM pass o
  match o.place? path with
  | none => some (o.put path .repeated)
  | some .repeated => some (o.clear path)
  | _ => none

/-- One table on the way of a dotted key. Only the last one has to be dotted itself. -/
def follow (last : KeyPath) (o : Outline) (path : KeyPath) : Option Outline :=
  match o.place? path with
  | none => some (o.put path .dotted)
  | some .dotted => some o
  | some .implied | some .repeated => if path = last then none else some o
  | some (.value _) | some .declared => none

def assign (o : Outline) (root path : KeyPath) (i : Item) : Option Outline := do
  let o ← (ways root path).foldlM (follow (root ++ path.dropLast)) o
  match o.place? (root ++ path) with
  | none => some (o.put (root ++ path) (.value i))
  | some _ => none

/-- What stands under a name at the top; a table is a value of another kind. -/
def get? (o : Outline) (name : String) : Option Item :=
  (o.place? [name]).map fun p =>
    match p with
    | .value i => i
    | _ => .other

end Outline
end Toml
end ObjectSpace
