import HexRules.Error
import HexRules.Table

/-!
# Registries of builders

A registry keeps what builds the objects of a document, keyed by identifiers; bare names land in
the registry's namespace.  An identifier is registered once, so what is there is never replaced.

    names differ → ((ofBuiltins kind builders).builders.get? i = some b
      ↔ i is a name of the library and builders has b under it)              (get?_ofBuiltins)
-/

namespace HexRules

structure Registry (β : Type) where
  /-- What the registry is called in messages. -/
  kind : String
  space : String
  builders : Table Identifier β

namespace Registry

variable {β : Type}

/-- Namespace of the functions that come with the library. -/
def builtinSpace : String := "engine"

def empty (kind space : String) : Registry β := ⟨kind, space, Table.empty⟩

def size (r : Registry β) : Nat := r.builders.size

def contains (r : Registry β) (i : Identifier) : Bool := r.builders.contains i

def get (r : Registry β) (i : Identifier) : Except CompileError β :=
  match r.builders.get? i with
  | some b => .ok b
  | none => .error (.unknownFunction i)

/-- Read a name in the registry's namespace. -/
def identify (r : Registry β) (name : String) : Except CompileError Identifier :=
  match Identifier.parse? name r.space with
  | some i => .ok i
  | none => .error (.badIdentifier name)

/-- The builder that the type of an object names. -/
def resolve (r : Registry β) (name : String) : Except CompileError β := do
  let i ← r.identify name
  r.get i

/-- Register a builder under a name that is still free. -/
def register (r : Registry β) (name : String) (b : β) : Except Error (Registry β) :=
  match r.identify name with
  | .error e => .error (.compile e)
  | .ok i =>
    if r.contains i then .error (.taken r.kind i)
    else .ok { r with builders := r.builders.insert i b }

/-- The registry of the given builders in the library's namespace. -/
def ofBuiltins (kind : String) (builders : List (String × β)) : Registry β :=
  { kind := kind
    space := builtinSpace
    builders := Table.ofList (builders.map fun e => (⟨builtinSpace, e.1⟩, e.2)) }

/-- The same names for other builders. -/
def map {δ : Type} (f : β → δ) (r : Registry β) : Registry δ :=
  ⟨r.kind, r.space, r.builders.mapValues f⟩

/-- The builders of the library are found under their own names, if these differ. -/
theorem get?_ofBuiltins {kind : String} {builders : List (String × β)}
    (h : (builders.map Prod.fst).Nodup) (i : Identifier) (b : β) :
    (ofBuiltins kind builders).builders.get? i = some b ↔
      ∃ name, i = ⟨builtinSpace, name⟩ ∧ (name, b) ∈ builders := by
  have hkeys : ((builders.map fun e => ((⟨builtinSpace, e.1⟩ : Identifier), e.2)).map
      Prod.fst).Nodup := by
    rw [List.map_map, List.nodup_iff_pairwise_ne, List.pairwise_map]
    rw [List.nodup_iff_pairwise_ne, List.pairwise_map] at h
    exact h.imp fun hne heq => hne (congrArg Identifier.name heq)
  rw [Table.get?_eq_some_iff, ofBuiltins, Table.entries_ofList hkeys, List.mem_map]
  constructor
  · rintro ⟨e, he, heq⟩
    cases heq
    exact ⟨e.1, rfl, he⟩
  · rintro ⟨name, rfl, he⟩
    exact ⟨(name, b), he, rfl⟩

end Registry

end HexRules
