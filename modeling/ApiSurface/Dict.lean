/-!
# Sorted dictionaries

Pairs with the keys in increasing order.

* `Dict.insert`: a value under a key, in the place of the one that has the key;
* `Dict.get?`: the value under a key.
-/

namespace ApiSurface

/-- Values by name, the names in increasing order. -/
abbrev Dict (α : Type) : Type := List (String × α)

namespace Dict

variable {α : Type}

/-- A value under a key, in the place of the one that has the key. -/
def insert (k : String) (a : α) : Dict α → Dict α
  | [] => [(k, a)]
  | (l, b) :: d =>
    if k < l then (k, a) :: (l, b) :: d
    else if k = l then (k, a) :: d
    else (l, b) :: insert k a d

/-- The value under a key. -/
def get? (d : Dict α) (k : String) : Option α := d.lookup k

/-- The keys in order. -/
def keys (d : Dict α) : List String := d.map (·.1)

end Dict

end ApiSurface
