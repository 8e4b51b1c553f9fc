import DbClinic.Runtime.PersistenceFaults

/-!
What a save does to the files around a session file: the file itself, its
temporary sibling and its rotated copies. The lookups of the tree after the
replacement and after the clean-up are given exactly.
-/

namespace DbClinic.Runtime

open List

theorem withFileName_injective (path : Path) : Function.Injective (withFileName path) := by
  intro a b h
  unfold withFileName at h
  simpa using h

theorem dot_not_mem_toString (n : Nat) : '.' ∉ (toString n).toList := by
  intro h
  rw [Nat.toString_eq_repr, Nat.toList_repr] at h
  have hdigit := Nat.isDigit_of_mem_toDigits (by decide) (by decide) h
  cases hdigit

/-- The last dot of a temporary name is the one before `tmp`. -/
theorem extension_temporary (name : String) (stamp : Stamp) :
    Path.extension (name ++ ".tmp-" ++ toString stamp.millis ++ "-" ++ toString stamp.counter) =
      if name = "" then none
      else some ("tmp-" ++ toString stamp.millis ++ "-" ++ toString stamp.counter) := by
  have hname : name ++ ".tmp-" ++ toString stamp.millis ++ "-" ++ toString stamp.counter =
      name ++ "." ++ ("tmp-" ++ toString stamp.millis ++ "-" ++ toString stamp.counter) := by
    apply String.toList_injective
    simp only [String.toList_append, append_assoc]
    rfl
  have hdot : '.' ∉ ("tmp-" ++ toString stamp.millis ++ "-" ++ toString stamp.counter).toList := by
    simp only [String.toList_append, mem_append, not_or]
    exact ⟨⟨⟨by decide, dot_not_mem_toString _⟩, by decide⟩, dot_not_mem_toString _⟩
  rw [hname, Path.extension_append name hdot]

theorem isRotatedName_temporary (stem name : String) (stamp : Stamp) :
    isRotatedName stem (name ++ ".tmp-" ++ toString stamp.millis ++ "-" ++
      toString stamp.counter) = false := by
  unfold isRotatedName
  rw [extension_temporary, Bool.and_eq_false_iff]
  right
  by_cases hempty : name = ""
  · simp [hempty]
  · simp only [hempty, if_false, decide_eq_false_iff_not]
    intro heq
    rw [String.toList_append, String.toList_append, String.toList_append, append_assoc,
      append_assoc, map_append] at heq
    cases heq

variable {path : Path} {t : SessionTree}

theorem rotated_ne_temporary {name : String} {temp : Stamp}
    (hname : isRotatedName (Path.stem (fileName path)) name = true) :
    withFileName path name ≠ temporaryPathFor path temp := by
  intro heq
  rw [withFileName_injective path heq, isRotatedName_temporary] at hname
  cases hname

theorem isRotatedName_rotated (stem : String) (millis : Nat) :
    isRotatedName stem (stem ++ ".rot-" ++ toString millis ++ ".jsonl") = true := by
  have hext : Path.extension (stem ++ ".rot-" ++ toString millis ++ "." ++ "jsonl") =
      some "jsonl" := by
    rw [Path.extension_append _ (by decide), if_neg]
    intro hempty
    have hlen := congrArg String.length hempty
    simp only [String.length_append] at hlen
    have hrot : ".rot-".length = 5 := rfl
    have hzero : "".length = 0 := rfl
    omega
  have hjsonl : stem ++ ".rot-" ++ toString millis ++ ".jsonl" =
      stem ++ ".rot-" ++ toString millis ++ "." ++ "jsonl" := by
    apply String.toList_injective
    simp only [String.toList_append, append_assoc]
    rfl
  unfold isRotatedName
  rw [hjsonl, hext, Bool.and_eq_true]
  refine ⟨?_, by decide⟩
  rw [List.isPrefixOf_iff_prefix]
  simp [String.toList_append, append_assoc]

theorem takeWhile_congr {α : Type} {f g : α → Bool} {items : List α}
    (h : ∀ a ∈ items, f a = g a) : items.takeWhile f = items.takeWhile g := by
  induction items with
  | nil => rfl
  | cons a rest ih =>
    rw [takeWhile_cons, takeWhile_cons, h a mem_cons_self,
      ih fun b hb => h b (mem_cons_of_mem a hb)]

theorem get_removeFiles {paths : List Path} (hnodup : paths.Nodup) (q : Path) :
    (removeFiles t paths).1.get q =
      if q ∈ paths.takeWhile (fun p => (t.fileAt p).isSome) then none else t.get q := by
  induction paths generalizing t with
  | nil => simp [removeFiles]
  | cons p rest ih =>
    obtain ⟨hfresh, hrest⟩ := nodup_cons.mp hnodup
    unfold removeFiles
    cases hremoved : t.removeFile p with
    | error e =>
      have hnone : t.fileAt p = none := by
        unfold FileTree.removeFile at hremoved
        unfold FileTree.fileAt
        split at hremoved
        · cases hremoved
        · simp [‹t.get p = some .dir›]
        · simp [‹t.get p = none›]
      rw [takeWhile_cons_of_neg (by simp [hnone])]
      simp
    | ok t' =>
      have hfile : (t.fileAt p).isSome = true := by
        unfold FileTree.removeFile at hremoved
        unfold FileTree.fileAt
        split at hremoved
        · simp [‹t.get p = _›]
        · cases hremoved
        · cases hremoved
      have hget := FileTree.get_of_removeFile hremoved
      have hsame : rest.takeWhile (fun p => (t'.fileAt p).isSome) =
          rest.takeWhile fun p => (t.fileAt p).isSome := by
        refine takeWhile_congr fun r hr => ?_
        have hne : r ≠ p := by
          rintro rfl
          exact hfresh hr
        unfold FileTree.fileAt
        rw [hget, if_neg hne]
      dsimp only
      rw [ih hrest, hsame, hget, takeWhile_cons_of_pos (by exact hfile)]
      by_cases hq : q = p
      · simp [hq]
      · simp [hq]

theorem rotatedPaths_nodup (t : SessionTree) (path : Path) : (rotatedPaths t path).Nodup := by
  unfold rotatedPaths
  rw [(perm_insertionSort _ _).nodup_iff]
  exact ((t.readDir_nodup _).filter _).map (withFileName_injective path)

/-- The rotated copies the clean-up removes: of those beyond the three most
recent ones, the files that come before the first directory. -/
def staleCopies (t : SessionTree) (path : Path) : List Path :=
  ((rotatedPaths t path).take ((rotatedPaths t path).length - MAX_ROTATED_FILES)).takeWhile
    fun p => (t.fileAt p).isSome

theorem get_cleanup (t : SessionTree) (path q : Path) :
    (cleanupRotatedLogs t path).1.get q = if q ∈ staleCopies t path then none else t.get q :=
  get_removeFiles ((rotatedPaths_nodup t path).sublist (take_sublist _ _)) q

theorem mem_staleCopies {q : Path} (h : q ∈ staleCopies t path) :
    ∃ name, isRotatedName (Path.stem (fileName path)) name = true ∧ q = withFileName path name := by
  unfold staleCopies at h
  have hmem := mem_of_mem_take (takeWhile_subset _ h)
  unfold rotatedPaths at hmem
  rw [mem_insertionSort, mem_map] at hmem
  obtain ⟨name, hname, rfl⟩ := hmem
  exact ⟨name, (mem_filter.mp hname).2, rfl⟩

theorem staleCopies_congr {t' : SessionTree}
    (hnames : (t'.readDir path.dropLast).filter (isRotatedName (Path.stem (fileName path))) =
      (t.readDir path.dropLast).filter (isRotatedName (Path.stem (fileName path))))
    (hfiles : ∀ name, isRotatedName (Path.stem (fileName path)) name = true →
      t'.get (withFileName path name) = t.get (withFileName path name)) :
    staleCopies t' path = staleCopies t path := by
  have hfileAt : ∀ p ∈ ((t.readDir path.dropLast).filter
      (isRotatedName (Path.stem (fileName path)))).map (withFileName path),
      t'.fileAt p = t.fileAt p := by
    intro p hp
    obtain ⟨name, hname, rfl⟩ := mem_map.mp hp
    unfold FileTree.fileAt
    rw [hfiles name (mem_filter.mp hname).2]
  have hpaths : rotatedPaths t' path = rotatedPaths t path := by
    unfold rotatedPaths
    dsimp only
    rw [hnames]
    have hmap := map_insertionSort (l := ((t.readDir path.dropLast).filter
        (isRotatedName (Path.stem (fileName path)))).map (withFileName path))
      (r := fun a b => ((t'.fileAt a).map SessionFile.modified).getD 0 ≤
        ((t'.fileAt b).map SessionFile.modified).getD 0)
      (s := fun a b => ((t.fileAt a).map SessionFile.modified).getD 0 ≤
        ((t.fileAt b).map SessionFile.modified).getD 0) id
      fun a ha b hb => by rw [hfileAt a ha, hfileAt b hb]; rfl
    rwa [map_id, map_id] at hmap
  unfold staleCopies
  rw [hpaths]
  refine takeWhile_congr fun p hp => ?_
  have hmem := mem_of_mem_take hp
  unfold rotatedPaths at hmem
  rw [mem_insertionSort] at hmem
  rw [hfileAt p hmem]

section Replacement

variable {t : SessionTree} {path : Path} {temp : Stamp}

theorem temporaryPathFor_dropLast : (temporaryPathFor path temp).dropLast = path.dropLast := by
  unfold temporaryPathFor withFileName
  rw [dropLast_concat]

theorem writeAtomic_blocked (hparent : t.get path.dropLast = some .dir)
    (hblocked : t.get (temporaryPathFor path temp) = some .dir) (contents : List TextUnit)
    (time : Nat) :
    writeAtomic t path contents temp time = (t, .error (.io .isADirectory)) := by
  unfold writeAtomic FileTree.writeFile
  rw [FileTree.createDirAll_of_dir hparent]
  dsimp only
  rw [dif_pos hblocked]

theorem writeAtomic_done (hpath : path ≠ []) (hparent : t.get path.dropLast = some .dir)
    (hdir : t.get path ≠ some .dir) (htemp : t.get (temporaryPathFor path temp) ≠ some .dir)
    (contents : List TextUnit) (time : Nat) :
    ∃ t', writeAtomic t path contents temp time = (t', .ok ()) ∧
      (∀ q, t'.get q = if q = path then some (.file ⟨contents, time⟩)
        else if q = temporaryPathFor path temp then none else t.get q) ∧
      staleCopies t' path = staleCopies t path := by
  obtain ⟨written, hwritten⟩ := FileTree.writeFile_ok (⟨contents, time⟩ : SessionFile) htemp
    (by rwa [temporaryPathFor_dropLast])
  have hget := FileTree.get_of_writeFile hwritten
  have hne := temporaryPathFor_ne hpath temp
  have hsource : written.get (temporaryPathFor path temp) = some (.file ⟨contents, time⟩) := by
    rw [hget, if_pos rfl]
  have htarget : written.get path ≠ some .dir := by rwa [hget, if_neg hne.symm]
  have hshorter : path.dropLast ≠ temporaryPathFor path temp := by
    intro heq
    rw [heq] at hparent
    exact htemp hparent
  obtain ⟨renamed, hrenamed⟩ := FileTree.rename_ok hsource htarget
    (by rwa [hget, if_neg hshorter])
  obtain ⟨file, hfile, hlookup⟩ := FileTree.get_of_rename hrenamed
  rw [hsource] at hfile
  cases hfile
  have hafter : ∀ q, renamed.get q = if q = path then some (.file ⟨contents, time⟩)
      else if q = temporaryPathFor path temp then none else t.get q := by
    intro q
    rw [hlookup]
    by_cases hq : q = temporaryPathFor path temp
    · rw [if_pos hq, if_pos hq]
    · rw [if_neg hq, if_neg hq, hget, if_neg hq]
  refine ⟨renamed, ?_, hafter, staleCopies_congr ?_ ?_⟩
  · unfold writeAtomic
    rw [FileTree.createDirAll_of_dir hparent]
    dsimp only
    rw [hwritten]
    dsimp only
    rw [hrenamed]
  · rw [FileTree.filter_readDir_of_rename hrenamed, FileTree.filter_readDir_of_writeFile hwritten]
    · intro name heq
      rw [← isRotatedName_temporary (Path.stem (fileName path)) (fileName path) temp]
      exact congrArg _ (withFileName_injective path heq).symm
    · intro name hname hbelow
      refine rotated_ne_temporary hname (hbelow.eq_of_length ?_).symm
      unfold temporaryPathFor withFileName
      rw [length_append, length_append]
      rfl
    · intro name heq
      rw [Bool.eq_false_iff]
      exact fun hname => rotated_ne hpath hname heq.symm
  · intro name hname
    rw [hafter, if_neg (rotated_ne hpath hname), if_neg (rotated_ne_temporary hname)]

end Replacement

section Rotation

variable {t : SessionTree} {path : Path} {file : SessionFile}

theorem fileAt_of_file (h : t.get path = some (.file file)) : t.fileAt path = some file := by
  unfold FileTree.fileAt
  rw [h]

theorem get_of_fileAt (h : t.fileAt path = some file) : t.get path = some (.file file) := by
  unfold FileTree.fileAt at h
  split at h
  · cases h
    assumption
  · cases h

theorem ne_nil_of_file (h : t.get path = some (.file file)) : path ≠ [] := by
  rintro rfl
  cases h

theorem parent_of_file (h : t.get path = some (.file file)) : t.get path.dropLast = some .dir := by
  rw [← dropLast_append_getLast (ne_nil_of_file h)] at h
  exact FileTree.get_parent h

theorem rotate_short (hfile : t.get path = some (.file file))
    (hshort : file.len < ROTATE_AFTER_BYTES) (millis : Nat) :
    rotateSessionFileIfNeeded t path millis = (t, .ok ()) := by
  unfold rotateSessionFileIfNeeded
  rw [fileAt_of_file hfile]
  dsimp only
  rw [if_pos hshort]

theorem rotate_absent (h : t.get path = none) (millis : Nat) :
    rotateSessionFileIfNeeded t path millis = (t, .ok ()) := by
  unfold rotateSessionFileIfNeeded FileTree.fileAt
  rw [h]

variable {millis : Nat}

theorem rotate_refused (hfile : t.get path = some (.file file))
    (hlong : ¬ file.len < ROTATE_AFTER_BYTES)
    (hrefused : t.get (rotatedLogPath path millis) = some .dir) :
    rotateSessionFileIfNeeded t path millis = (t, .error (.io .isADirectory)) := by
  unfold rotateSessionFileIfNeeded FileTree.rename
  rw [fileAt_of_file hfile, hfile]
  dsimp only
  rw [if_neg hlong, if_pos hrefused]

theorem rotate_done (hfile : t.get path = some (.file file))
    (hlong : ¬ file.len < ROTATE_AFTER_BYTES)
    (hfree : t.get (rotatedLogPath path millis) ≠ some .dir) :
    ∃ rotated, rotateSessionFileIfNeeded t path millis = (rotated, .ok ()) ∧
      ∀ q, rotated.get q = if q = rotatedLogPath path millis then some (.file file)
        else if q = path then none else t.get q := by
  have hparent : t.get (rotatedLogPath path millis).dropLast = some .dir := by
    unfold rotatedLogPath withFileName
    rw [dropLast_concat]
    exact parent_of_file hfile
  obtain ⟨rotated, hrotated⟩ := FileTree.rename_ok hfile hfree hparent
  obtain ⟨moved, hmoved, hget⟩ := FileTree.get_of_rename hrotated
  rw [hfile] at hmoved
  cases hmoved
  refine ⟨rotated, ?_, hget⟩
  unfold rotateSessionFileIfNeeded
  rw [fileAt_of_file hfile]
  dsimp only
  rw [if_neg hlong, hrotated]

theorem rotate_free (hdir : t.get path ≠ some .dir)
    (hfree : t.get (rotatedLogPath path millis) ≠ some .dir) :
    ∃ rotated, rotateSessionFileIfNeeded t path millis = (rotated, .ok ()) ∧
      ∀ q, rotated.get q = t.get q ∨ (q = path ∧ rotated.get q = none) ∨
        (q = rotatedLogPath path millis ∧ rotated.get q = t.get path) := by
  cases hnode : t.get path with
  | none => exact ⟨t, rotate_absent hnode millis, fun q => .inl rfl⟩
  | some node =>
    cases node with
    | dir => exact absurd hnode hdir
    | file file =>
      by_cases hshort : file.len < ROTATE_AFTER_BYTES
      · exact ⟨t, rotate_short hnode hshort millis, fun q => .inl rfl⟩
      · obtain ⟨rotated, hrotated, hget⟩ := rotate_done hnode hshort hfree
        refine ⟨rotated, hrotated, fun q => ?_⟩
        rw [hget]
        split
        · exact .inr (.inr ⟨‹_›, rfl⟩)
        · split
          · exact .inr (.inl ⟨‹_›, rfl⟩)
          · exact .inl rfl

end Rotation

section Save

variable {session : Session} {snapshot : List Char} {t rotated : SessionTree} {path : Path}
  {stamps : SaveStamps}

theorem saveToPath_blocked (hsnap : session.renderJsonlSnapshot = .ok snapshot)
    (hrotated : rotateSessionFileIfNeeded t path stamps.rotated = (rotated, .ok ()))
    (hparent : rotated.get path.dropLast = some .dir)
    (hblocked : rotated.get (temporaryPathFor path stamps.temp) = some .dir) :
    (session.saveToPath t path stamps).1 = rotated := by
  unfold Session.saveToPath
  rw [hsnap]
  dsimp only
  rw [hrotated]
  dsimp only
  rw [writeAtomic_blocked hparent hblocked]

theorem saveToPath_done (hpath : path ≠ [])
    (hsnap : session.renderJsonlSnapshot = .ok snapshot)
    (hrotated : rotateSessionFileIfNeeded t path stamps.rotated = (rotated, .ok ()))
    (hparent : rotated.get path.dropLast = some .dir) (hdir : rotated.get path ≠ some .dir)
    (htemp : rotated.get (temporaryPathFor path stamps.temp) ≠ some .dir) (q : Path) :
    (session.saveToPath t path stamps).1.get q =
      if q ∈ staleCopies rotated path then none
      else if q = path then some (.file ⟨snapshot.map .char, stamps.written⟩)
      else if q = temporaryPathFor path stamps.temp then none
      else rotated.get q := by
  obtain ⟨written, hwritten, hget, hstale⟩ := writeAtomic_done hpath hparent hdir htemp
    (snapshot.map .char) stamps.written
  unfold Session.saveToPath
  rw [hsnap]
  dsimp only
  rw [hrotated]
  dsimp only
  rw [hwritten]
  dsimp only
  rw [get_cleanup, hstale, hget]

/-- What a save leaves where no directory is in its way: the file, every path that is no copy
of it and not its temporary sibling, and among the copies at most one new one. -/
structure Saved (t t' : SessionTree) (path : Path) (stamps : SaveStamps) (file : SessionFile) :
    Prop where
  own : t'.get path = some (.file file)
  others : ∀ q, q ≠ path → q ≠ temporaryPathFor path stamps.temp →
    (∀ name, isRotatedName (Path.stem (fileName path)) name = true → q ≠ withFileName path name) →
    t'.get q = t.get q
  entries : ∀ q node, t'.get q = some node →
    q = path ∨ t.get q = some node ∨
      (q = rotatedLogPath path stamps.rotated ∧ t.get path = some node)

theorem saveToPath_saved (hpath : path ≠ [])
    (hsnap : session.renderJsonlSnapshot = .ok snapshot)
    (hparent : t.get path.dropLast = some .dir) (hdir : t.get path ≠ some .dir)
    (hcopy : t.get (rotatedLogPath path stamps.rotated) ≠ some .dir)
    (htemp : t.get (temporaryPathFor path stamps.temp) ≠ some .dir) :
    Saved t (session.saveToPath t path stamps).1 path stamps
      ⟨snapshot.map .char, stamps.written⟩ := by
  obtain ⟨rotated, hrotated, hget⟩ := rotate_free hdir hcopy
  have hdirs {q : Path} (h : t.get q ≠ some .dir) : rotated.get q ≠ some .dir := by
    rcases hget q with heq | ⟨-, heq⟩ | ⟨-, heq⟩
    · rwa [heq]
    · simp [heq]
    · rwa [heq]
  have hkept : rotated.get path.dropLast = some .dir := by
    have hshorter (name : String) : path.dropLast ≠ withFileName path name := by
      simp [withFileName]
    rcases hget path.dropLast with heq | ⟨heq, -⟩ | ⟨heq, -⟩
    · rwa [heq]
    · have hlength := congrArg List.length heq
      have hpos := length_pos_of_ne_nil hpath
      rw [length_dropLast] at hlength
      omega
    · exact absurd heq (hshorter _)
  have hafter := saveToPath_done hpath hsnap hrotated hkept (hdirs hdir) (hdirs htemp)
  have hname : isRotatedName (Path.stem (fileName path))
      (Path.stem (fileName path) ++ ".rot-" ++ toString stamps.rotated ++ ".jsonl") = true :=
    isRotatedName_rotated _ _
  constructor
  · rw [hafter, if_neg, if_pos rfl]
    intro hstale
    obtain ⟨name, hrotatedName, heq⟩ := mem_staleCopies hstale
    exact rotated_ne hpath hrotatedName heq.symm
  · intro q hq htempq hcopies
    rw [hafter, if_neg, if_neg hq, if_neg htempq]
    · rcases hget q with heq | ⟨heq, -⟩ | ⟨heq, -⟩
      · exact heq
      · exact absurd heq hq
      · exact absurd heq (hcopies _ hname)
    · intro hstale
      obtain ⟨name, hrotatedName, heq⟩ := mem_staleCopies hstale
      exact hcopies name hrotatedName heq
  · intro q node hnode
    rw [hafter] at hnode
    split at hnode
    · cases hnode
    split at hnode
    · exact .inl ‹_›
    split at hnode
    · cases hnode
    rcases hget q with heq | ⟨-, heq⟩ | ⟨hcopyq, heq⟩
    · exact .inr (.inl (heq ▸ hnode))
    · rw [heq] at hnode
      cases hnode
    · exact .inr (.inr ⟨hcopyq, heq ▸ hnode⟩)

end Save

end DbClinic.Runtime
