import ScriptOptimizer.Text.Bytes

/-!
Texts in pieces. A text is cut at each occurrence of a byte, and what is joined can be cut again.
-/

namespace ScriptOptimizer.Bytes

variable {sep : UInt8} {text : Bytes}

theorem splitOn_ne_nil : splitOn sep text ≠ [] := by
  fun_cases splitOn sep text <;> simp_all

theorem splitOn_cons (b : UInt8) (rest : Bytes) : splitOn sep (b :: rest) =
    if b = sep then [] :: splitOn sep rest else (splitOn sep rest).modifyHead (b :: ·) := by
  rw [splitOn]
  split
  · rfl
  · cases h : splitOn sep rest with
    | nil => exact absurd h splitOn_ne_nil
    | cons piece pieces => rfl

theorem splitOn_head : (splitOn sep text)[0]? = some (text.takeWhile (· ≠ sep)) := by
  induction text with
  | nil => rfl
  | cons b rest ih =>
    rw [splitOn_cons]
    split
    · simp_all
    · simp_all

theorem splitOn_of_not_mem (h : sep ∉ text) : splitOn sep text = [text] := by
  induction text with
  | nil => rfl
  | cons b rest ih =>
    rw [List.mem_cons, not_or] at h
    rw [splitOn_cons, if_neg (Ne.symm h.1), ih h.2]
    rfl

/-- The text behind the last separator is the last piece. -/
theorem splitOn_concat (front : Bytes) (h : sep ∉ text) :
    splitOn sep (front ++ sep :: text) = splitOn sep front ++ [text] := by
  induction front with
  | nil => rw [List.nil_append, splitOn_cons, if_pos rfl, splitOn_of_not_mem h]; rfl
  | cons b front ih =>
    rw [List.cons_append, splitOn_cons, splitOn_cons, ih]
    split
    · rfl
    · cases hPieces : splitOn sep front with
      | nil => exact absurd hPieces splitOn_ne_nil
      | cons piece pieces => rfl

theorem not_mem_of_mem_splitOn {piece : Bytes} (h : piece ∈ splitOn sep text) : sep ∉ piece := by
  induction text generalizing piece with
  | nil => simp_all [splitOn]
  | cons b rest ih =>
    rw [splitOn_cons] at h
    split at h
    · rcases List.mem_cons.1 h with rfl | h
      · simp
      · exact ih h
    · rename_i hNe
      cases hPieces : splitOn sep rest with
      | nil => exact absurd hPieces splitOn_ne_nil
      | cons first pieces =>
        rw [hPieces] at h ih
        rcases List.mem_cons.1 h with rfl | h
        · simpa [Ne.symm hNe] using ih List.mem_cons_self
        · exact ih (List.mem_cons_of_mem _ h)

theorem join_concat {glue : Bytes} {pieces : List Bytes} (h : pieces ≠ []) :
    join glue (pieces ++ [text]) = join glue pieces ++ glue ++ text := by
  induction pieces with
  | nil => exact absurd rfl h
  | cons piece pieces ih =>
    cases pieces with
    | nil => rfl
    | cons next pieces =>
      have hMore := ih (List.cons_ne_nil _ _)
      simp only [List.cons_append, join] at hMore ⊢
      rw [hMore]
      simp only [List.append_assoc]

end ScriptOptimizer.Bytes
