import Mathlib.Data.List.Basic

/-! # `strings`

`TrimPrefix`, and `Split` at a separator of one character. A string is the list of its characters;
that the separator is in ASCII makes bytes and characters agree. -/

namespace CodeHive.Go.Strings

set_option autoImplicit false

/-- `strings.TrimPrefix`. -/
def TrimPrefix (s pre : String) : String :=
  if pre.toList <+: s.toList then String.ofList (s.toList.drop pre.toList.length) else s

theorem TrimPrefix_append (pre s : String) : TrimPrefix (pre ++ s) pre = s := by
  unfold TrimPrefix
  rw [String.toList_append, if_pos (List.prefix_append _ _), List.drop_left, String.ofList_toList]

/-- `strings.Split`. -/
def Split (s : String) (sep : Char) : List String := (s.toList.splitOn sep).map String.ofList

/-- `strings.Join`. -/
def Join (parts : List String) (sep : Char) : String :=
  String.ofList ([sep].intercalate (parts.map String.toList))

section
variable {s : String} {sep : Char} {parts : List String}

theorem Join_cons {part : String} (h : parts ≠ []) :
    Join (part :: parts) sep = part ++ String.ofList [sep] ++ Join parts sep := by
  unfold Join
  obtain ⟨next, rest, rfl⟩ := List.exists_cons_of_ne_nil h
  rw [List.map_cons, List.map_cons, List.intercalate_cons_cons, String.ofList_append,
    String.ofList_append, String.ofList_toList]

theorem Join_singleton (part : String) : Join [part] sep = part := by
  unfold Join
  rw [List.map_singleton, List.intercalate_singleton, String.ofList_toList]

theorem not_mem_of_mem_splitOn {l : List Char} : ∀ piece ∈ l.splitOn sep, sep ∉ piece := by
  induction l with
  | nil => simp
  | cons c l ih =>
    rw [List.splitOn_cons_eq_if_modifyHead]
    split
    · simpa using ih
    · next hc =>
      obtain ⟨piece, rest, hl⟩ := List.exists_cons_of_ne_nil (List.splitOn_ne_nil sep l)
      rw [hl] at ih ⊢
      rw [List.modifyHead_cons]
      intro p hp
      rcases List.mem_cons.mp hp with rfl | hp
      · have hne : sep ≠ c := fun h => hc (beq_iff_eq.mpr h.symm)
        have hpiece := ih piece List.mem_cons_self
        simp [hne, hpiece]
      · exact ih p (List.mem_cons_of_mem _ hp)

theorem not_mem_of_mem_Split : ∀ part ∈ Split s sep, sep ∉ part.toList := by
  intro part hpart
  obtain ⟨piece, hpiece, rfl⟩ := List.mem_map.mp hpart
  rw [String.toList_ofList]
  exact not_mem_of_mem_splitOn piece hpiece

/-- **What is split can be joined again.** -/
theorem Join_Split (s : String) (sep : Char) : Join (Split s sep) sep = s := by
  unfold Join Split
  rw [List.map_map]
  have hid : String.toList ∘ String.ofList = id := funext fun l => String.toList_ofList
  rw [hid, List.map_id, List.intercalate_splitOn, String.ofList_toList]

/-- **What is joined is split into the same parts**, where none of them holds the separator. -/
theorem Split_Join (hsep : ∀ part ∈ parts, sep ∉ part.toList) (h : parts ≠ []) :
    Split (Join parts sep) sep = parts := by
  unfold Join Split
  rw [String.toList_ofList, List.splitOn_intercalate, List.map_map]
  · have hid : String.ofList ∘ String.toList = id := funext fun s => String.ofList_toList
    rw [hid, List.map_id]
  · simpa using hsep
  · simpa using h

theorem Split_eq_iff (h : parts ≠ []) :
    Split s sep = parts ↔ s = Join parts sep ∧ ∀ part ∈ parts, sep ∉ part.toList := by
  constructor
  · rintro rfl
    exact ⟨(Join_Split s sep).symm, not_mem_of_mem_Split⟩
  · rintro ⟨rfl, hsep⟩
    exact Split_Join hsep h

end

end CodeHive.Go.Strings
