namespace Listing

/-- The largest size that a word of 64 bits holds. -/
def maxSize : Nat := Nat.pow 2 64 - 1

/-- Where a page stands in a list. -/
structure PageInfo where
  page : Nat
  limit : Nat
  total : Nat
  totalPages : Nat
  hasNext : Bool
  hasPrev : Bool
  deriving DecidableEq

namespace PageInfo

/-- The number of items before a page. -/
def offset (page limit : Nat) : Nat := min ((page - 1) * limit) maxSize

/-- The place of a page of at most `limit` items in a list of `total` items. Pages and limits count
from one, and a place past the largest size is that size. -/
def of (page limit total : Nat) : PageInfo :=
  let page := max page 1
  let limit := max limit 1
  { page := page
    limit := limit
    total := total
    totalPages := (total + (limit - 1)) / limit
    hasNext := min (offset page limit + limit) maxSize < total
    hasPrev := 1 < page }

end PageInfo

/-- A page of a list, and where it stands. -/
structure Page (α : Type) where
  items : List α
  info : PageInfo

namespace Page

def maxLimit : Nat := 100

/-- The page of a list with at least one and at most a hundred items a page. -/
def ofItems {α : Type} (items : List α) (page limit : Nat) : Page α :=
  let page := max page 1
  let limit := min (max limit 1) maxLimit
  ⟨(items.drop (PageInfo.offset page limit)).take limit, .of page limit items.length⟩

end Page

end Listing
