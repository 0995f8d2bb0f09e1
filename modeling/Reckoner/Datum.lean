import Reckoner.Allowance
import Reckoner.Kind
import Reckoner.Text.Quoted

/-!
# Arguments of any type

What may be offered as the kind or the value of a token, and the form in which messages quote it.
A decimal is known by its written form only.
-/

set_option autoImplicit false

namespace Reckoner

inductive Datum where
  | nothing
  | truth (b : Bool)
  | int (n : Int)
  | decimal (form : String)
  | text (s : String)
  | kind (k : Kind)
  | list (items : List Datum)
  deriving Repr

namespace Datum

mutual

/-- The form of an argument, which is written only if nothing stands in the way. -/
def written : Datum → String
  | nothing => "None"
  | truth true => "True"
  | truth false => "False"
  | int n => toString n
  | decimal form => form
  | text s => Text.quote s
  | kind k => k.written
  | list items => String.join ["[", ", ".intercalate (writtenItems items), "]"]

def writtenItems : List Datum → List String
  | [] => []
  | item :: items => item.written :: writtenItems items

end

mutual

/-- What stands in the way of writing the form of an argument; of several causes the one that the
writing, which goes from left to right, meets first. Each item of a list is written by a call of its own,
and the form of a kind takes two. -/
def hindrance? (allowance : Allowance) : Datum → Option Unwritable
  | int n => allowance.digitHindrance? n
  | kind _ => if (allowance.below? 2).isSome then none else some .depth
  | list items => hindranceOfItems? allowance items
  | _ => none

def hindranceOfItems? (allowance : Allowance) : List Datum → Option Unwritable
  | [] => none
  | item :: items =>
    match allowance.below? 1 with
    | none => some .depth
    | some inner => (item.hindrance? inner).or (hindranceOfItems? allowance items)

end

/-- The kind whose code an argument equals as a number; a truth value counts as one or zero. -/
def kind? : Datum → Option Kind
  | truth b => Kind.ofCode? b.toNat
  | int n => Kind.ofCode? n
  | decimal form => Kind.all.find? fun k => form = toString k.code ++ ".0"
  | kind k => some k
  | _ => none

end Datum

end Reckoner
