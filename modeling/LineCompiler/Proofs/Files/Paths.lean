import LineCompiler.Files.Writing
import LineCompiler.Proofs.Text.Split

/-!
# Following paths

Where a path leads does not depend on the file system: if a path can be followed at all, it ends at
the place that its parts spell out (`eq_walk_of_follow`).  The file system decides whether it can be
followed.  Empty parts go nowhere, but each of them asks for a directory, so an empty part at the
end of a path tells a file from a directory (`follow_of_filled`, `follow_of_filled_of_file`).

The text of a location leads to the location again (`follow_of_locate_pathText`), if its names can
stand in a path: not empty, not made of dots, and without slashes.
-/

namespace LineCompiler

open Text

/-! ## Walks -/

namespace Location

/-- The place that parts of a path spell out. -/
def walk (here : Location) (parts : List String) : Location :=
  parts.foldl step here

@[simp] theorem walk_nil (here : Location) : here.walk [] = here := rfl

@[simp] theorem walk_cons (here : Location) (part : String) (rest : List String) :
    here.walk (part :: rest) = (here.step part).walk rest := rfl

@[simp] theorem step_empty (here : Location) : here.step "" = here := by
  simp [step]

/-- Empty parts go nowhere. -/
theorem walk_filter (here : Location) (parts : List String) :
    here.walk (parts.filter (· ≠ "")) = here.walk parts := by
  induction parts generalizing here with
  | nil => rfl
  | cons part rest ih =>
      by_cases hpart : part = ""
      · rw [List.filter_cons_of_neg (by simpa using hpart), ih, walk_cons, hpart, step_empty]
      · rw [List.filter_cons_of_pos (by simpa using hpart), walk_cons, ih, walk_cons]

/-- Without a part that goes up, a walk only goes on from where it starts. -/
theorem walk_of_no_dots (here : Location) {parts : List String} (hup : ".." ∉ parts) :
    here.walk parts = here ++ parts.filter fun part => part ≠ "" ∧ part ≠ "." := by
  induction parts generalizing here with
  | nil => simp
  | cons part rest ih =>
      rw [List.mem_cons, not_or] at hup
      rw [walk_cons, ih _ hup.2, step]
      by_cases hstay : part = "" ∨ part = "."
      · rw [if_pos hstay, List.filter_cons_of_neg]
        rcases hstay with rfl | rfl <;> decide
      · rw [if_neg hstay, if_neg (Ne.symm hup.1), List.filter_cons_of_pos]
        · simp
        · simpa [not_or] using hstay

/-- The names of a location can stand in a path: none is empty, made of dots, or has a slash. -/
def IsProper (location : Location) : Prop :=
  ∀ name ∈ location, (name ≠ "" ∧ name ≠ "." ∧ name ≠ "..") ∧ '/' ∉ name.toList

/-- The names of a location lead to it. -/
theorem IsProper.walk_nil_eq {location : Location} (hproper : location.IsProper) :
    walk [] location = location := by
  have hup : ".." ∉ location := fun hmem => (hproper _ hmem).1.2.2 rfl
  rw [walk_of_no_dots [] hup, List.nil_append, List.filter_eq_self]
  intro name hname
  obtain ⟨⟨hempty, hdot, -⟩, -⟩ := hproper name hname
  simp [hempty, hdot]

end Location

/-! ## Following -/

namespace FileSystem

variable {files : FileSystem} {here place : Location} {part : String} {parts rest : List String}

/-- A part is followed in a directory, and its name is not too long. -/
theorem follow_cons_eq_ok_iff :
    files.follow here (part :: rest) = .ok place ↔
      files.get? here = some .directory ∧ part.utf8ByteSize ≤ nameLimit ∧
        files.follow (here.step part) rest = .ok place := by
  rw [follow]
  cases hhere : files.get? here with
  | none => simp
  | some entry =>
      cases entry with
      | file content => simp
      | directory =>
          by_cases hlong : nameLimit < part.utf8ByteSize
          · simp [hlong, Nat.not_le.mpr hlong]
          · simp [hlong, Nat.not_lt.mp hlong]

/-- An empty part stays where it is, in a directory. -/
theorem follow_empty_cons (hhere : files.get? here = some .directory) (rest : List String) :
    files.follow here ("" :: rest) = files.follow here rest := by
  rw [follow, hhere]
  simp

theorem eq_walk_of_follow (hfollow : files.follow here parts = .ok place) :
    place = here.walk parts := by
  induction parts generalizing here with
  | nil => exact (Except.ok.inj hfollow).symm
  | cons part rest ih => exact ih (follow_cons_eq_ok_iff.mp hfollow).2.2

private theorem follow_append_eq_ok {first second : List String}
    (hfollow : files.follow here (first ++ second) = .ok place) :
    files.follow (here.walk first) second = .ok place := by
  induction first generalizing here with
  | nil => exact hfollow
  | cons part rest ih => exact ih (follow_cons_eq_ok_iff.mp hfollow).2.2

/-- A new entry where there is no directory is not in the way. -/
theorem follow_set {other : Location} (hother : files.get? other ≠ some .directory) (entry : Entry)
    (hfollow : files.follow here parts = .ok place) :
    (files.set other entry).follow here parts = .ok place := by
  induction parts generalizing here with
  | nil => exact hfollow
  | cons part rest ih =>
      obtain ⟨hhere, hshort, hrest⟩ := follow_cons_eq_ok_iff.mp hfollow
      have hne : here ≠ other := by
        rintro rfl
        exact hother hhere
      exact follow_cons_eq_ok_iff.mpr ⟨(get?_set_other files entry hne).trans hhere,
        hshort, ih hrest⟩

/-! ## Empty parts -/

/-- A path that can be followed without its empty parts can be followed with them, unless one of
them stands at its end. -/
theorem follow_of_filled (hfollow : files.follow here (parts.filter (· ≠ "")) = .ok place)
    (hlast : parts.getLast? ≠ some "") : files.follow here parts = .ok place := by
  induction parts generalizing here with
  | nil => exact hfollow
  | cons part rest ih =>
      by_cases hpart : part = ""
      · subst hpart
        rw [List.filter_cons_of_neg (by simp)] at hfollow
        cases rest with
        | nil => exact absurd rfl hlast
        | cons next others =>
            rw [List.getLast?_cons_cons] at hlast
            have hrest := ih hfollow hlast
            rwa [follow_empty_cons (follow_cons_eq_ok_iff.mp hrest).1]
      · rw [List.filter_cons_of_pos (by simpa using hpart)] at hfollow
        obtain ⟨hhere, hshort, hrest⟩ := follow_cons_eq_ok_iff.mp hfollow
        refine follow_cons_eq_ok_iff.mpr ⟨hhere, hshort, ih hrest fun hempty => hlast ?_⟩
        rw [List.getLast?_cons, hempty]
        rfl

/-- An empty part at the end of a path is refused behind a file. -/
theorem follow_of_filled_of_file {content : List UInt8}
    (hfollow : files.follow here (parts.filter (· ≠ "")) = .ok place)
    (hfile : files.get? place = some (.file content)) (hlast : parts.getLast? = some "") :
    files.follow here parts = .error .notADirectory := by
  induction parts generalizing here with
  | nil => simp at hlast
  | cons part rest ih =>
      by_cases hpart : part = ""
      · subst hpart
        rw [List.filter_cons_of_neg (by simp)] at hfollow
        cases rest with
        | nil =>
            obtain rfl := Except.ok.inj hfollow
            rw [follow, hfile]
        | cons next others =>
            rw [List.getLast?_cons_cons] at hlast
            have hrest := ih hfollow hlast
            -- The place is the same, so the part behind asks for a directory there as well.
            cases hhere : files.get? here with
            | none =>
                rw [follow, hhere] at hrest
                cases hrest
            | some entry =>
                cases entry with
                | file content => rw [follow, hhere]
                | directory => rwa [follow_empty_cons hhere]
      · rw [List.filter_cons_of_pos (by simpa using hpart)] at hfollow
        obtain ⟨hhere, hshort, hrest⟩ := follow_cons_eq_ok_iff.mp hfollow
        cases rest with
        | nil => exact absurd (by simpa using hlast) hpart
        | cons next others =>
            rw [List.getLast?_cons_cons] at hlast
            rw [follow, hhere]
            simp only [Nat.not_lt.mpr hshort, if_false]
            exact ih hrest hlast

/-! ## The text of a path -/

/-- The pieces of a text have no separator, and each character of the text but the separators. -/
theorem mem_of_mem_splitOn {text : List Char} {c : Char} :
    (c ≠ '/' ∧ c ∈ text) ↔ ∃ piece ∈ splitOn '/' text, c ∈ piece := by
  induction text with
  | nil => simp [splitOn]
  | cons first rest ih =>
      rw [splitOn]
      by_cases hslash : first = '/'
      · rw [if_pos hslash]
        simp only [List.mem_cons, exists_eq_or_imp, List.not_mem_nil, false_or, ← ih, hslash]
        grind
      · rw [if_neg hslash]
        cases hsplit : splitOn '/' rest with
        | nil => exact absurd hsplit (splitOn_ne_nil _ _)
        | cons piece pieces =>
            rw [hsplit] at ih
            simp only [List.mem_cons, exists_eq_or_imp] at ih ⊢
            grind

theorem mem_path_iff {path : String} {c : Char} :
    (c ≠ '/' ∧ c ∈ path.toList) ↔ ∃ part ∈ pathParts path, c ∈ part.toList := by
  rw [mem_of_mem_splitOn]
  constructor
  · rintro ⟨piece, hpiece, hc⟩
    exact ⟨String.ofList piece, List.mem_map_of_mem hpiece, by rwa [String.toList_ofList]⟩
  · rintro ⟨part, hpart, hc⟩
    obtain ⟨piece, hpiece, rfl⟩ := List.mem_map.mp hpart
    exact ⟨piece, hpiece, by rwa [String.toList_ofList] at hc⟩

theorem slash_not_mem_of_mem_pathParts {path : String} (hpart : part ∈ pathParts path) :
    '/' ∉ part.toList :=
  fun hslash => (mem_path_iff.mpr ⟨part, hpart, hslash⟩).1 rfl

/-- A slash at the end of a text leaves an empty piece behind it. -/
theorem splitOn_append_slash (text : List Char) :
    splitOn '/' (text ++ ['/']) = splitOn '/' text ++ [[]] := by
  induction text with
  | nil => rfl
  | cons c rest ih =>
      rw [List.cons_append, splitOn, splitOn, ih]
      split
      · rfl
      · cases hsplit : splitOn '/' rest with
        | nil => exact absurd hsplit (splitOn_ne_nil _ _)
        | cons piece pieces => rfl

theorem getLast?_pathParts {path : String} (hne : path ≠ "") :
    (pathParts path).getLast? = some "" ↔ path.toList.getLast? = some '/' := by
  have htext : path.toList ≠ [] := by simpa using hne
  obtain ⟨front, last, hpath⟩ : ∃ front last, path.toList = front ++ [last] :=
    ⟨_, _, (List.dropLast_concat_getLast htext).symm⟩
  rw [pathParts, hpath, List.getLast?_concat, List.getLast?_map]
  by_cases hslash : last = '/'
  · rw [hslash, splitOn_append_slash, List.getLast?_concat]
    simp
  · obtain ⟨pieces, piece, -, hsplit⟩ := splitOn_append_tail
      (List.not_mem_cons_of_ne_of_not_mem (Ne.symm hslash) List.not_mem_nil) front
    rw [hsplit, List.getLast?_concat]
    simp [hslash]

/-- The parts of the text of the working directory. -/
def homeParts (home : Location) : List String :=
  if home = [] then [""] else home

theorem toList_pathText (home : Location) (parts : List String) :
    (pathText home parts).toList =
      (homeParts home ++ parts).flatMap fun part => '/' :: part.toList := by
  have hhome : home.text.toList = (homeParts home).flatMap fun part => '/' :: part.toList := by
    cases home with
    | nil => rfl
    | cons first rest =>
        rw [homeParts, if_neg (List.cons_ne_nil _ _), Location.text, String.toList_append,
          String.toList_intercalate]
        induction rest generalizing first with
        | nil => simp
        | cons next others ih =>
            have hnext := ih next
            simp only [List.map_cons, List.intercalate_cons_cons, List.flatMap_cons] at hnext ⊢
            rw [← hnext]
            simp
  rw [pathText, String.toList_append, hhome, String.toList_join, List.flatMap_append,
    List.flatMap_map]
  simp

/-- The text of a path falls into its parts again. -/
theorem pathParts_pathText {home : Location} (hhome : home.IsProper) {parts : List String}
    (hparts : ∀ part ∈ parts, '/' ∉ part.toList) :
    pathParts (pathText home parts) = "" :: (homeParts home ++ parts) := by
  have hslash : ∀ part ∈ homeParts home ++ parts, '/' ∉ part.toList := by
    intro part hpart
    rcases List.mem_append.mp hpart with hname | hpart
    · unfold homeParts at hname
      split at hname
      · rw [List.mem_singleton.mp hname]
        decide
      · exact (hhome part hname).2
    · exact hparts part hpart
  have hpieces : ∀ piece ∈ (homeParts home ++ parts).map String.toList, '/' ∉ piece := by
    intro piece hpiece
    obtain ⟨part, hpart, rfl⟩ := List.mem_map.mp hpiece
    exact hslash part hpart
  have hsplit := splitOn_append_flatMap List.not_mem_nil hpieces
  rw [List.nil_append, List.flatMap_map] at hsplit
  rw [pathParts, toList_pathText, hsplit, List.map_cons, List.map_map]
  simp [Function.comp_def]

private theorem head?_pathText (home : Location) (parts : List String) :
    (pathText home parts).toList.head? = some '/' := by
  rw [toList_pathText, homeParts]
  split
  · rfl
  · next hne =>
      obtain ⟨first, others, rfl⟩ := List.exists_cons_of_ne_nil hne
      rfl

theorem pathFault?_eq_none_iff {path : String} :
    pathFault? path = none ↔
      '\x00' ∉ path.toList ∧ path.utf8ByteSize ≤ pathLimit ∧ path ≠ "" := by
  unfold pathFault?
  by_cases hnull : '\x00' ∈ path.toList
  · simp [hnull]
  · by_cases hlong : pathLimit < path.utf8ByteSize
    · simp [hnull, hlong, Nat.not_le.mpr hlong]
    · simp [hnull, hlong, Nat.not_lt.mp hlong]

theorem locate_eq_ok_iff {home : Location} {path : String} :
    files.locate home path = .ok place ↔
      pathFault? path = none ∧
        files.follow (if path.toList.head? = some '/' then [] else home) (pathParts path) =
          .ok place := by
  rw [locate]
  cases pathFault? path <;> simp

/-- **The text of a path below a directory is followed from the directory.** -/
theorem follow_of_locate_pathText {home anywhere : Location} (hhome : home.IsProper)
    (hparts : ∀ part ∈ parts, '/' ∉ part.toList)
    (hlocate : files.locate anywhere (pathText home parts) = .ok place) :
    files.follow home parts = .ok place := by
  have hfollow := (locate_eq_ok_iff.mp hlocate).2
  rw [if_pos (head?_pathText home parts), pathParts_pathText hhome hparts, ← List.cons_append]
    at hfollow
  have hwalk : Location.walk [] ("" :: homeParts home) = home := by
    rw [Location.walk_cons, Location.step_empty, homeParts]
    split
    · next hroot => rw [hroot, Location.walk_cons, Location.step_empty, Location.walk_nil]
    · exact hhome.walk_nil_eq
  have hrest := follow_append_eq_ok hfollow
  rwa [hwalk] at hrest

end FileSystem

end LineCompiler
