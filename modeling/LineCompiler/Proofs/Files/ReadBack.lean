import LineCompiler.Files.Reading
import LineCompiler.Proofs.Files.Paths
import LineCompiler.Proofs.Text.Lines
import LineCompiler.Proofs.Text.Utf8

/-!
# What is written is read back

Writing follows a path from the working directory, whether or not the path starts with a slash, and
passes over its empty parts.  Reading follows the path as it is.  So the two agree about the file
that a path names unless

* the path starts with a slash, since reading then starts at the root (`locate_ne_of_below`);
* the path ends with a slash, since reading then asks for a directory (`locate_of_follow`);
* the path is longer than the limit, since writing takes its empty parts out before it is judged.

On the way to the file only entries that were missing are made, so a write changes no other entry
(`Extends`).
-/

namespace LineCompiler

open Text

/-! ## Lines of a text -/

/-- The options ask for lines, and settle the size of a chunk. -/
structure ReadOptions.ByLine (options : ReadOptions) : Prop where
  mode : options.mode = some ReadMode.byLine.number
  size : ∃ size, options.chunkSize = .ok size

/-- The pieces make up a text, and nothing is missing. -/
structure Pieces.MakeUp (pieces : Pieces) (text : String) : Prop where
  whole : pieces.fault = none
  join : String.join pieces.parts = text

/-- The bytes of a text without carriage returns are read as lines that make it up. -/
theorem Pieces.makeUp_ofBytes {text : String} (htext : '\r' ∉ text.toList) (size : Int) :
    (ofBytes .byLine size (encode text.toList)).MakeUp text := by
  have hbytes : ofBytes .byLine size (encode text.toList) =
      { parts := (lines text.toList).map String.ofList } := by
    rw [ofBytes, decode_encode]
    simp only [ofText, unifyNewlines_eq_self htext]
  rw [hbytes]
  refine ⟨rfl, String.toList_inj.mp ?_⟩
  calc (String.join ((lines text.toList).map String.ofList)).toList
      = (lines text.toList).flatMap fun line => (String.ofList line).toList := by
        rw [String.toList_join, List.flatMap_map]
    _ = (lines text.toList).flatten := by
        simp only [String.toList_ofList, List.flatMap_id']
    _ = text.toList := flatten_lines _

namespace FileSystem

variable {files after : FileSystem} {home place : Location} {path text : String}
  {options : ReadOptions}

/-! ## Growing file systems -/

/-- Everything that a file system holds is in another one. -/
def Extends (files after : FileSystem) : Prop :=
  ∀ location entry, files.get? location = some entry → after.get? location = some entry

theorem Extends.refl (files : FileSystem) : files.Extends files :=
  fun _ _ hget => hget

theorem Extends.trans {middle : FileSystem} (hfirst : files.Extends middle)
    (hsecond : middle.Extends after) :
    files.Extends after :=
  fun location entry hget => hsecond location entry (hfirst location entry hget)

/-- A new entry where there is none changes no other. -/
theorem extends_set (hnew : files.get? place = none) (entry : Entry) :
    files.Extends (files.set place entry) := by
  intro location held hget
  have hne : location ≠ place := by
    rintro rfl
    rw [hnew] at hget
    cases hget
  exact (get?_set_other files entry hne).trans hget

private theorem extends_touch (htouch : files.touch place = .ok after) : files.Extends after := by
  unfold touch at htouch
  split at htouch
  · cases htouch
  · cases htouch
    exact .refl files
  · next hnew =>
      cases htouch
      exact extends_set hnew _

private theorem extends_makeDirectory (hmake : files.makeDirectory place = .ok after) :
    files.Extends after := by
  unfold makeDirectory at hmake
  split at hmake
  · cases hmake
  · next hnew =>
      cases hmake
      exact extends_set hnew _

private theorem extends_makePart {parts : List String} {isFile : Bool}
    (hmake : files.makePart home parts isFile = .ok after) : files.Extends after := by
  simp only [makePart] at hmake
  by_cases hleads : files.leads home (pathText home (parts.filter (· ≠ "."))) = true
  · rw [if_pos hleads] at hmake
    cases hmake
    exact .refl files
  · rw [if_neg hleads] at hmake
    cases hlocate : files.locate home (pathText home (parts.filter (· ≠ "."))) with
    | error fault =>
        rw [hlocate] at hmake
        cases hmake
    | ok place =>
        rw [hlocate] at hmake
        cases isFile with
        | true => exact extends_touch hmake
        | false => exact extends_makeDirectory hmake

/-! ## Writing -/

/-- A path that is created is the path without its empty parts, below the working directory. -/
theorem extends_createFrom {done parts : List String}
    (hcreate : (files.createFrom home done parts).outcome = .ok text) :
    files.Extends (files.createFrom home done parts).files ∧
      text = pathText home (done ++ parts.filter (· ≠ "")) := by
  induction parts generalizing files done with
  | nil =>
      cases hcreate
      exact ⟨.refl files, by rw [List.filter_nil, List.append_nil]⟩
  | cons part rest ih =>
      rw [createFrom] at hcreate ⊢
      by_cases hempty : part = ""
      · rw [if_pos hempty] at hcreate ⊢
        rw [List.filter_cons_of_neg (by simpa using hempty)]
        exact ih hcreate
      · rw [if_neg hempty] at hcreate ⊢
        rw [List.filter_cons_of_pos (by simpa using hempty)]
        cases hmake : files.makePart home (done ++ [part]) rest.isEmpty with
        | error fault =>
            simp only [hmake] at hcreate
            cases hcreate
        | ok middle =>
            simp only [hmake] at hcreate ⊢
            obtain ⟨hextends, htext⟩ := ih hcreate
            exact ⟨(extends_makePart hmake).trans hextends, by rw [htext, List.append_assoc]; rfl⟩

/-- Opening a path gives a content to a place that is not a directory. -/
theorem putAt_eq_ok {content : List UInt8} (hput : files.putAt home path content = .ok after) :
    ∃ place, files.locate home path = .ok place ∧ files.get? place ≠ some .directory ∧
      after = files.set place (.file content) := by
  unfold putAt at hput
  cases hlocate : files.locate home path with
  | error fault =>
      rw [hlocate] at hput
      cases hput
  | ok place =>
      rw [hlocate] at hput
      simp only [bind, Except.bind, putContent] at hput
      split at hput
      · cases hput
      · next hfile =>
          cases hput
          exact ⟨place, rfl, hfile, rfl⟩

/-- The path that a write opens, after it was created if it has a slash. -/
def opened (files : FileSystem) (home : Location) (path : String) : Action String :=
  if path.toList.contains '/' then files.createPath home path else { outcome := .ok path, files }

private theorem write_eq (files : FileSystem) (home : Location) (path text : String) :
    files.write home path text =
      match (files.opened home path).outcome with
      | .error fault => { files.opened home path with outcome := .error fault }
      | .ok named =>
          match (files.opened home path).files.putAt home named (encode text.toList) with
          | .error fault => { files.opened home path with outcome := .error fault }
          | .ok after => { files.opened home path with outcome := .ok (), files := after } :=
  rfl

/-- A write opens a path and gives its file the text. -/
theorem opened_of_write (hwrite : (files.write home path text).outcome = .ok ()) :
    ∃ named place, (files.opened home path).outcome = .ok named ∧
      (files.opened home path).files.locate home named = .ok place ∧
      (files.opened home path).files.get? place ≠ some .directory ∧
      (files.write home path text).files =
        (files.opened home path).files.set place (.file (encode text.toList)) := by
  rw [write_eq] at hwrite ⊢
  cases hopened : (files.opened home path).outcome with
  | error fault =>
      simp only [hopened] at hwrite
      cases hwrite
  | ok named =>
      simp only [hopened] at hwrite ⊢
      cases hput : (files.opened home path).files.putAt home named (encode text.toList) with
      | error fault =>
          simp only [hput] at hwrite
          cases hwrite
      | ok after =>
          obtain ⟨place, hlocate, hfile, rfl⟩ := putAt_eq_ok hput
          exact ⟨named, place, rfl, hlocate, hfile, rfl⟩

/-- **What a write does.**  The path is followed from the working directory without its empty parts,
in a file system that extends the one before, and the file at its end gets the text. -/
theorem exists_of_write (hhome : home.IsProper)
    (hwrite : (files.write home path text).outcome = .ok ()) :
    ∃ made place, files.Extends made ∧
      made.follow home ((pathParts path).filter (· ≠ "")) = .ok place ∧
      made.get? place ≠ some .directory ∧
      (files.write home path text).files = made.set place (.file (encode text.toList)) ∧
      '\x00' ∉ path.toList ∧ path ≠ "" := by
  obtain ⟨named, place, hnamed, hlocate, hfile, hfiles⟩ := opened_of_write hwrite
  refine ⟨(files.opened home path).files, place, ?_⟩
  by_cases hslash : path.toList.contains '/' = true
  · have hopened : files.opened home path = files.createPath home path := if_pos hslash
    rw [hopened] at hnamed hlocate hfile hfiles ⊢
    obtain ⟨hextends, rfl⟩ := @extends_createFrom files home _ [] _ hnamed
    have hparts : ∀ part ∈ (pathParts path).filter (· ≠ ""), '/' ∉ part.toList :=
      fun part hpart => slash_not_mem_of_mem_pathParts (List.mem_filter.mp hpart).1
    refine ⟨hextends, follow_of_locate_pathText hhome hparts hlocate, hfile, hfiles, ?_, ?_⟩
    · intro hnull
      obtain ⟨part, hpart, hmem⟩ := mem_path_iff.mp ⟨by decide, hnull⟩
      refine (pathFault?_eq_none_iff.mp (locate_eq_ok_iff.mp hlocate).1).1 ?_
      rw [toList_pathText]
      refine List.mem_flatMap.mpr ⟨part, List.mem_append_right _ ?_, List.mem_cons_of_mem _ hmem⟩
      refine List.mem_filter.mpr ⟨hpart, decide_eq_true ?_⟩
      rintro rfl
      cases hmem
    · rintro rfl
      cases hslash
  · have hopened : files.opened home path = { outcome := .ok path, files } := if_neg hslash
    rw [hopened] at hnamed hlocate hfile hfiles ⊢
    obtain rfl := Except.ok.inj hnamed
    obtain ⟨hfault, hfollow⟩ := locate_eq_ok_iff.mp hlocate
    obtain ⟨hnull, -, hne⟩ := pathFault?_eq_none_iff.mp hfault
    have hmem : '/' ∉ path.toList := by simpa using hslash
    have hhead : path.toList.head? ≠ some '/' := fun hhead => hmem (List.mem_of_head? hhead)
    have hparts : pathParts path = [path] := by
      rw [pathParts, splitOn_of_not_mem hmem]
      simp
    rw [if_neg hhead, hparts] at hfollow
    rw [hparts, List.filter_cons_of_pos (by simpa using hne)]
    exact ⟨.refl files, hfollow, hfile, hfiles, hnull, hne⟩

/-- What was there can still be followed. -/
theorem follow_of_extends {here : Location} {parts : List String} (hextends : files.Extends after)
    (hfollow : files.follow here parts = .ok place) : after.follow here parts = .ok place := by
  induction parts generalizing here with
  | nil => exact hfollow
  | cons part rest ih =>
      obtain ⟨hhere, hshort, hrest⟩ := follow_cons_eq_ok_iff.mp hfollow
      exact follow_cons_eq_ok_iff.mpr ⟨hextends _ _ hhere, hshort, ih hrest⟩

/-! ## Reading -/

/-- Reading by line depends on the file that the path leads to. -/
theorem read_eq {size : Int} (hmode : options.mode = some ReadMode.byLine.number)
    (hsize : options.chunkSize = .ok size) (files : FileSystem) (home : Location) (path : String) :
    files.read home path options =
      match files.locate home path >>= files.contentAt with
      | .error fault => { fault := some fault }
      | .ok content => Pieces.ofBytes .byLine size content := by
  rw [read, hsize, hmode]
  cases hlocate : files.locate home path with
  | error fault => rfl
  | ok place =>
      simp only [bind, Except.bind]
      cases hcontent : files.contentAt place with
      | error fault => rfl
      | ok content => rfl

private theorem read_of_locate_error (hoptions : options.ByLine) {fault : Fault}
    (hlocate : files.locate home path = .error fault) :
    files.read home path options = { fault := some fault } := by
  obtain ⟨size, hsize⟩ := hoptions.size
  rw [read_eq hoptions.mode hsize, hlocate]
  rfl

theorem makeUp_read (hoptions : options.ByLine) (htext : '\r' ∉ text.toList)
    (hlocate : files.locate home path = .ok place)
    (hfile : files.get? place = some (.file (encode text.toList))) :
    (files.read home path options).MakeUp text := by
  obtain ⟨size, hsize⟩ := hoptions.size
  have hcontent : files.contentAt place = .ok (encode text.toList) := by
    rw [contentAt, hfile]
  rw [read_eq hoptions.mode hsize, hlocate]
  simp only [bind, Except.bind, hcontent]
  exact Pieces.makeUp_ofBytes htext size

/-! ## Reading after writing -/

/-- Why a path that was written below the directory it starts from is not read: nothing shortens it,
and a slash at its end asks for a directory. -/
def readFault? (path : String) : Option Fault :=
  if pathLimit < path.utf8ByteSize then some .pathTooLong
  else if path.toList.getLast? = some '/' then some .notADirectory
  else none

/-- Where a path leads that was followed without its empty parts to a file. -/
theorem locate_of_follow {content : List UInt8}
    (hfollow : files.follow home ((pathParts path).filter (· ≠ "")) = .ok place)
    (hfile : files.get? place = some (.file content)) (hnull : '\x00' ∉ path.toList)
    (hne : path ≠ "") (hstart : path.toList.head? ≠ some '/' ∨ home = []) :
    files.locate home path =
      match readFault? path with
      | some fault => .error fault
      | none => .ok place := by
  have hfrom : (if path.toList.head? = some '/' then [] else home) = home := by
    rcases hstart with hhead | rfl
    · rw [if_neg hhead]
    · exact ite_self _
  rw [locate, pathFault?, readFault?, hfrom]
  by_cases hlong : pathLimit < path.utf8ByteSize
  · simp [hnull, hlong]
  · have hlast := getLast?_pathParts hne
    by_cases hslash : path.toList.getLast? = some '/'
    · simp only [List.contains_eq_mem, hnull, hlong, hne, hslash, decide_false, if_false, if_true]
      exact follow_of_filled_of_file hfollow hfile (hlast.mpr hslash)
    · simp only [List.contains_eq_mem, hnull, hlong, hne, hslash, decide_false, if_false]
      exact follow_of_filled hfollow (fun hempty => hslash (hlast.mp hempty))

/-- Below a directory that is not the root, a path leads elsewhere than from the root. -/
theorem walk_ne_of_below {parts : List String} (hbelow : home ≠ []) (hup : ".." ∉ parts) :
    Location.walk [] parts ≠ home.walk parts := by
  rw [Location.walk_of_no_dots _ hup, Location.walk_of_no_dots _ hup, List.nil_append]
  intro hsame
  exact hbelow (List.self_eq_append_left.mp hsame)

/-- What a write of a text leaves behind: the file that the path names below the working directory
holds the text, and all else that was there is still there and can still be reached. -/
structure Written (files after : FileSystem) (home : Location) (path text : String) : Prop where
  target : after.get? (home.walk (pathParts path)) = some (.file (encode text.toList))
  kept : ∀ location entry, location ≠ home.walk (pathParts path) →
    files.get? location = some entry → after.get? location = some entry
  reached : after.follow home ((pathParts path).filter (· ≠ "")) = .ok (home.walk (pathParts path))
  followed : ∀ here parts place, files.follow here parts = .ok place →
    after.follow here parts = .ok place
  noNull : '\x00' ∉ path.toList
  nonempty : path ≠ ""

private theorem written_of_write (hhome : home.IsProper)
    (hwrite : (files.write home path text).outcome = .ok ()) :
    Written files (files.write home path text).files home path text := by
  obtain ⟨made, place, hextends, hfollow, hfile, hafter, hnull, hne⟩ := exists_of_write hhome hwrite
  obtain rfl : place = home.walk (pathParts path) := by
    rw [eq_walk_of_follow hfollow, Location.walk_filter]
  have hbelow : home.walk (pathParts path) ≠ [] := by
    intro hroot
    rw [hroot] at hfile
    exact hfile rfl
  rw [hafter]
  refine ⟨get?_set_self made _ hbelow, ?_, follow_set hfile _ hfollow, ?_, hnull, hne⟩
  · intro location entry hother hentry
    rw [get?_set_other made _ hother]
    exact hextends location entry hentry
  · intro here parts place hfollowed
    exact follow_set hfile _ (follow_of_extends hextends hfollowed)

/-- From where writing starts, the text is read back, unless the text of the path stands against
it. -/
theorem Written.read_below (hwritten : Written files after home path text)
    (htext : '\r' ∉ text.toList) (hoptions : options.ByLine)
    (hstart : path.toList.head? ≠ some '/' ∨ home = []) :
    match readFault? path with
    | none => (after.read home path options).MakeUp text
    | some fault => after.read home path options = { fault := some fault } := by
  have hlocate :=
    locate_of_follow hwritten.reached hwritten.target hwritten.noNull hwritten.nonempty hstart
  cases hfault : readFault? path with
  | none =>
      rw [hfault] at hlocate
      exact makeUp_read hoptions htext hlocate hwritten.target
  | some fault =>
      rw [hfault] at hlocate
      exact read_of_locate_error hoptions hlocate

/-- From the root, a path does not lead where it leads from below. -/
theorem locate_ne_of_below (hslash : path.toList.head? = some '/') (hbelow : home ≠ [])
    (hup : ".." ∉ pathParts path) : files.locate home path ≠ .ok (home.walk (pathParts path)) := by
  intro hlocate
  have hroot := (locate_eq_ok_iff.mp hlocate).2
  rw [if_pos hslash] at hroot
  exact walk_ne_of_below hbelow hup (eq_walk_of_follow hroot).symm

/-- From the root, an entry that the path led to is read as before. -/
theorem Written.read_elsewhere (hwritten : Written files after home path text)
    (hslash : path.toList.head? = some '/') (hbelow : home ≠ []) (hup : ".." ∉ pathParts path)
    (hoptions : options.ByLine) (hlocate : files.locate home path = .ok place)
    (hentry : files.get? place ≠ none) :
    after.read home path options = files.read home path options := by
  obtain ⟨hfault, hfollow⟩ := locate_eq_ok_iff.mp hlocate
  have hsame : after.locate home path = .ok place :=
    locate_eq_ok_iff.mpr ⟨hfault, hwritten.followed _ _ _ hfollow⟩
  have hne : place ≠ home.walk (pathParts path) := by
    rintro rfl
    exact locate_ne_of_below hslash hbelow hup hsame
  obtain ⟨entry, hheld⟩ := Option.ne_none_iff_exists'.mp hentry
  have hcontent : after.contentAt place = files.contentAt place := by
    rw [contentAt, contentAt, hwritten.kept place entry hne hheld, hheld]
  obtain ⟨size, hsize⟩ := hoptions.size
  rw [read_eq hoptions.mode hsize, read_eq hoptions.mode hsize, hsame, hlocate]
  simp only [bind, Except.bind, hcontent]

/-- **What is written is read back** by every path that leads to the file from where reading starts.
Such are the paths that do not start with a slash, and in the root all of them, apart from those
that are too long and those that end with a slash.  Elsewhere a path that starts with a slash leads
to another place, unless it goes up: if there was an entry, it is read as before.  Either way no
entry is changed but that of the file that was written. -/
theorem write_read (hhome : home.IsProper) (htext : '\r' ∉ text.toList) (hoptions : options.ByLine)
    (hwrite : (files.write home path text).outcome = .ok ()) :
    let after := (files.write home path text).files
    let target := home.walk (pathParts path)
    after.get? target = some (.file (encode text.toList)) ∧
      (∀ location entry, location ≠ target → files.get? location = some entry →
        after.get? location = some entry) ∧
      (after.locate home path = .ok target → (after.read home path options).MakeUp text) ∧
      (path.toList.head? ≠ some '/' ∨ home = [] →
        match readFault? path with
        | none => (after.read home path options).MakeUp text
        | some fault => after.read home path options = { fault := some fault }) ∧
      (path.toList.head? = some '/' → home ≠ [] → ".." ∉ pathParts path →
        after.locate home path ≠ .ok target ∧
          ∀ place, files.locate home path = .ok place → files.get? place ≠ none →
            after.read home path options = files.read home path options) := by
  intro after target
  have hwritten : Written files after home path text := written_of_write hhome hwrite
  refine ⟨hwritten.target, hwritten.kept, ?_, hwritten.read_below htext hoptions, ?_⟩
  · intro hlocate
    exact makeUp_read hoptions htext hlocate hwritten.target
  · intro hslash hbelow hup
    refine ⟨locate_ne_of_below hslash hbelow hup, ?_⟩
    intro place hlocate hentry
    exact hwritten.read_elsewhere hslash hbelow hup hoptions hlocate hentry

/-- A file system with a directory to work in. -/
def workplace : FileSystem where
  entries := [(["work"], .directory)]

theorem write_read_workplace :
    (workplace.write ["work"] "a//b.txt" "x\ny").outcome = .ok () ∧
      ((workplace.write ["work"] "a//b.txt" "x\ny").files.read ["work"] "a//b.txt"
        {}).MakeUp "x\ny" := by
  have hhome : Location.IsProper ["work"] := by simp [Location.IsProper]
  have hwrite : (workplace.write ["work"] "a//b.txt" "x\ny").outcome = .ok () := by rfl
  have hread := write_read hhome (by decide) (⟨rfl, 24, rfl⟩ : ReadOptions.ByLine {}) hwrite
  exact ⟨hwrite, hread.2.2.2.1 (by decide)⟩

/-- What is written to a path that starts with a slash is not found where reading looks for it. -/
theorem not_write_read_slash :
    (workplace.write ["work"] "/b.txt" "x").outcome = .ok () ∧
      ((workplace.write ["work"] "/b.txt" "x").files.read ["work"] "/b.txt" {}).fault =
        some .fileNotFound :=
  ⟨rfl, rfl⟩

end FileSystem

end LineCompiler
