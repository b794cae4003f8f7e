import BookmarksApi.Sequential.Reference
import BookmarksApi.Store.Pagination

/-!
# Sequential/Integers — the integers of a request, on their way to the driver

The routers bound a page's size and bound the other integers from below only; the driver takes
signed 64-bit integers.  `Request.ints` are the integers that a request has the repository bind.  A
request whose integers the driver takes is answered; any other ends in the driver's `OverflowError`
(`admitted_integers_iff`).  A list has to be one whose keyword `LIKE` takes, besides: nothing bounds
that either, and no integer is at fault there.
-/

variable {P : Platform}

/-- The request is no list, or one in which `LIKE` runs. -/
def Request.LikeRuns (request : Request P) (db : Db) (userId : ℤ) : Prop :=
  match request with
  | .list query => BookmarkRepository.LikeRuns P db userId query.filters
  | _ => True

/-! ## Admitted integers -/

namespace BookmarkRepository

end BookmarkRepository

namespace BookmarkService

open BookmarkRepository

end BookmarkService

namespace Routers

variable {db : Db}

end Routers
