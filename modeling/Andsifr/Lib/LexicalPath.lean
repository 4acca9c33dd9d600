import Mathlib.Data.List.Basic

namespace Andsifr.Lib

open List

variable {ε : Type} {stays leaves : ε → Bool} {dir path : List ε}

/-- Follows the elements of a path from a directory, which is the list of the names that lead to it.
Some elements stay in the directory, and some leave it for the one above. -/
def walk (stays leaves : ε → Bool) (dir path : List ε) : List ε :=
  path.foldl
    (fun dir e => if stays e then dir else if leaves e then dir.dropLast else dir ++ [e]) dir

theorem walk_append {rest : List ε} :
    walk stays leaves dir (path ++ rest) = walk stays leaves (walk stays leaves dir path) rest :=
  foldl_append

/-- Without an element that leaves it, a path leads further into the directory. -/
theorem prefix_walk (h : ∀ e ∈ path, leaves e = false) : dir <+: walk stays leaves dir path := by
  induction path generalizing dir with
  | nil => exact prefix_refl dir
  | cons e path ih =>
    have hrest : ∀ e' ∈ path, leaves e' = false := fun e' he' => h e' (mem_cons_of_mem e he')
    have hstep : walk stays leaves dir (e :: path) =
        walk stays leaves (if stays e then dir else dir ++ [e]) path := by
      rw [walk, foldl_cons, h e mem_cons_self]
      rfl
    rw [hstep]
    refine List.IsPrefix.trans ?_ (ih hrest)
    split
    next => exact prefix_refl dir
    next => exact prefix_append dir [e]

end Andsifr.Lib
