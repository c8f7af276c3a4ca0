import CodeInterpreter.Python.Value

/-!
# Paths and symbolic links

`os.path.realpath` on absolute paths: the names of a path are followed one after another, and the
target of a symbolic link is followed in its place. What it returns for a link that leads back to
itself is left open.

## Main definitions

* `pathNames`, `pathText`: a path and its names.
* `follow`, `realpath`.

## Main results

* `follow_append`: a path is followed part by part.
* `follow_name`: an entry that is no link is an entry of the directory that is resolved.
-/

namespace CodeInterpreter

/-! ### Names -/

/-- The names of a path; empty ones and `.` stay where they are. -/
def pathNames (path : Str) : List Str := (path.splitOn 47).filter fun s => s ≠ [] ∧ s ≠ str "."

/-- The absolute path of names. -/
def pathText (names : List Str) : Str :=
  if names = [] then [47] else names.flatMap fun name => 47 :: name

theorem pathNames_append (s t : Str) :
    pathNames (s ++ 47 :: t) = pathNames s ++ pathNames t := by
  have hsplit : (s ++ 47 :: t).splitOn 47 = s.splitOn 47 ++ t.splitOn 47 :=
    List.splitOnP_append_cons s t (beq_self_eq_true 47)
  rw [pathNames, hsplit, List.filter_append]
  rfl

/-- A name has one step. -/
theorem pathNames_name {name : Str} (hslash : 47 ∉ name) (hnil : name ≠ [])
    (hdot : name ≠ str ".") : pathNames name = [name] := by
  have hsplit : name.splitOn 47 = [name] :=
    List.splitOnP_eq_singleton fun c hc => by
      rw [beq_eq_false_iff_ne]
      rintro rfl
      exact hslash hc
  rw [pathNames, hsplit, List.filter_cons_of_pos (by simp [hnil, hdot]), List.filter_nil]

theorem pathText_append {names : List Str} (h : names ≠ []) (name : Str) :
    pathText (names ++ [name]) = pathText names ++ [47] ++ name := by
  rw [pathText, if_neg (by simp), pathText, if_neg h, List.flatMap_append]
  simp

/-! ### Links -/

section

variable (links : List Str → Option Str)

/-- Follow names from a directory that is resolved. The first argument bounds how deep links are
nested; `links` gives the target of a symbolic link. -/
def follow : ℕ → List Str → List Str → Option (List Str)
  | _, dir, [] => some dir
  | depth, dir, name :: rest =>
    if name = str ".." then follow depth dir.dropLast rest
    else
      match links (dir ++ [name]) with
      | none => follow depth (dir ++ [name]) rest
      | some target =>
        match depth with
        | 0 => none
        | depth + 1 =>
          let start := if target.head? = some 47 then [] else dir
          (follow depth start (pathNames target)).bind fun dir => follow (depth + 1) dir rest
termination_by depth _ names => (depth, names.length)

/-- `os.path.realpath` of an absolute path. -/
def realpath (depth : ℕ) (path : Str) : Option Str :=
  (follow links depth [] (pathNames path)).map pathText

variable {links}

/-- A path is followed part by part. -/
theorem follow_append (depth : ℕ) (dir names more : List Str) :
    follow links depth dir (names ++ more) =
      (follow links depth dir names).bind fun dir => follow links depth dir more := by
  induction names generalizing dir with
  | nil => simp [follow]
  | cons name names ih =>
    rw [List.cons_append, follow, follow]
    split
    · exact ih _
    · split
      · exact ih _
      · cases depth with
        | zero => rfl
        | succ depth => simp only [ih, Option.bind_assoc]

/-- A name that is no link. -/
theorem follow_name {dir : List Str} {name : Str} (hdots : name ≠ str "..")
    (hlink : links (dir ++ [name]) = none) (depth : ℕ) :
    follow links depth dir [name] = some (dir ++ [name]) := by
  rw [follow, if_neg hdots, hlink, follow]

end

end CodeInterpreter
