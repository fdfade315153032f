import HexRules.Number.Basic
import HexRules.Table

/-!
# JSON values

Numbers keep the form in which they were written, objects keep their members in the order in
which the keys first came.
-/

namespace HexRules

inductive Json
  | null
  | bool (value : Bool)
  | number (value : Number)
  | string (value : String)
  | array (items : List Json)
  | object (members : List (String × Json))

namespace Json

instance : Inhabited Json := ⟨null⟩

/-- A member of an object; other values have none. -/
def member? (j : Json) (key : String) : Option Json :=
  match j with
  | object members => findEntry key members
  | _ => none

/-- Induction over values: an array is reached from its items, an object from the values of its
members. -/
@[elab_as_elim]
theorem induction {motive : Json → Prop} (null : motive null) (bool : ∀ b, motive (bool b))
    (number : ∀ n, motive (number n)) (string : ∀ s, motive (string s))
    (array : ∀ items, (∀ j ∈ items, motive j) → motive (array items))
    (object : ∀ members, (∀ e ∈ members, motive e.2) → motive (object members)) (j : Json) :
    motive j := by
  refine @Json.rec motive (fun items => ∀ j ∈ items, motive j)
    (fun members => ∀ e ∈ members, motive e.2) (fun e => motive e.2)
    null bool number string array object ?_ ?_ ?_ ?_ ?_ j
  · exact fun _ h => nomatch h
  · exact fun _ _ hj hrest => List.forall_mem_cons.2 ⟨hj, hrest⟩
  · exact fun _ h => nomatch h
  · exact fun _ _ he hrest => List.forall_mem_cons.2 ⟨he, hrest⟩
  · exact fun _ _ hj => hj

end Json

end HexRules
