import ErbLayout.Layout.Attributes

/-!
The order of classes as a list: a class has the rank of its first place in the list. An entry that
ends with an asterisk gives its rank to every class that starts with what stands before the
asterisk; a class that is itself in the list takes the rank of its own entry.
-/

namespace ErbLayout

open Text

structure ClassOrder where
  /-- Classes in full. -/
  exact : List (Text × Nat)
  /-- Beginnings of classes. -/
  stems : List (Text × Nat)
  deriving DecidableEq, Repr

namespace ClassOrder

/-- The entries of a list, ranked from `n` on. -/
def ofListFrom : Nat → List Text → ClassOrder
  | _, [] => ⟨[], []⟩
  | n, entry :: rest =>
    let order := ofListFrom (n + 1) rest
    match before? ['*'] entry with
    | some stem => { order with stems := (stem, n) :: order.stems }
    | none => { order with exact := (entry, n) :: order.exact }

def ofList (entries : List Text) : ClassOrder := ofListFrom 0 entries

def isEmpty (o : ClassOrder) : Bool := o.exact.isEmpty && o.stems.isEmpty

def rank (o : ClassOrder) : Layout.Ranking := fun name =>
  (o.exact.lookup name).or ((o.stems.find? fun (stem, _) => startsWith stem name).map Prod.snd)

end ClassOrder

end ErbLayout
