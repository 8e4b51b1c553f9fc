import DbClinic.Persistence.StoredMeta
import DbClinic.Persistence.JsonlBackend

/-!
The file tree of the JSONL backend while no record names a user: one level of
session directories with files only in each. Every data call makes the
session's directory and writes one file in it, so one description of a write
serves them all.
-/

namespace DbClinic.Persistence

open JsonlBackend List

/-- The shape of the sessions directory while only flat records are saved. -/
structure Flat (b : JsonlBackend) : Prop where
  base : b.tree.get (sessionsDir b.root) = some .dir
  dirs : ∀ x v, b.tree.get (sessionsDir b.root ++ [x]) = some v → v = .dir ∧ Path.IsName x
  files : ∀ x y, b.tree.get (sessionsDir b.root ++ [x, y]) ≠ some .dir

/-- The effect of writing the file `y` of the session `x`: the directory is
there, the file has its new content, the temporary file `tmp` is gone. -/
structure Wrote (b b' : JsonlBackend) (x y : String) (content : List Line)
    (tmp : Option String) : Prop where
  root : b'.root = b.root
  base : b'.tree.get (sessionsDir b.root) = some .dir
  dirs : ∀ x', b'.tree.get (sessionsDir b.root ++ [x']) =
    if x' = x then some .dir else b.tree.get (sessionsDir b.root ++ [x'])
  items : ∀ x' y', b'.tree.get (sessionsDir b.root ++ [x', y']) =
    if x' = x ∧ y' = y then some (.file content)
    else if x' = x ∧ some y' = tmp then none
    else b.tree.get (sessionsDir b.root ++ [x', y'])

variable {b b' : JsonlBackend} {saved : String → Option SessionRecord} {x sid y : String}
variable {stored : SessionRecord} {tmp : Option String} {content : List Line}

theorem Wrote.flat (h : Wrote b b' x y content tmp) (hx : Path.IsName x) (hb : Flat b) :
    Flat b' := by
  constructor
  · rw [h.root]
    exact h.base
  · intro x' v hv
    rw [h.root, h.dirs] at hv
    split at hv
    · rename_i heq
      cases hv
      exact ⟨rfl, heq ▸ hx⟩
    · exact hb.dirs x' v hv
  · intro x' y' hdir
    rw [h.root, h.items] at hdir
    split at hdir
    · cases hdir
    · split at hdir
      · cases hdir
      · exact hb.files x' y' hdir

private theorem createSessionDir (hb : Flat b) (x : String) :
    ∃ t, b.tree.createDirAll (sessionsDir b.root ++ [x]) = .ok t ∧
      ∀ q, t.get q = if q <+: sessionsDir b.root ++ [x] then some .dir else b.tree.get q := by
  have hfree : ∀ q data, q <+: sessionsDir b.root ++ [x] →
      b.tree.get q ≠ some (.file data) := by
    intro q data hq hfile
    rcases prefix_concat_iff.mp hq with rfl | hpre
    · cases (hb.dirs x _ hfile).1
    · by_cases hne : q = sessionsDir b.root
      · rw [hne, hb.base] at hfile
        cases hfile
      · rw [FileTree.get_ancestor hb.base hpre hne] at hfile
        cases hfile
  obtain ⟨t, ht⟩ := (FileTree.createDirAll_ok_iff b.tree _).mpr hfree
  exact ⟨t, ht, FileTree.get_of_createDirAll ht⟩

/-- A backend whose session directory `x` has just been made. -/
structure Made (b b' : JsonlBackend) (x : String) : Prop where
  root : b'.root = b.root
  base : b'.tree.get (sessionsDir b.root) = some .dir
  dirs : ∀ x', b'.tree.get (sessionsDir b.root ++ [x']) =
    if x' = x then some .dir else b.tree.get (sessionsDir b.root ++ [x'])
  items : ∀ x' y', b'.tree.get (sessionsDir b.root ++ [x', y']) =
    b.tree.get (sessionsDir b.root ++ [x', y'])

theorem Made.here (hb : Flat b) (hx : b.tree.get (sessionsDir b.root ++ [x]) = some .dir) :
    Made b b x := by
  refine ⟨rfl, hb.base, fun x' => ?_, fun _ _ => rfl⟩
  split
  · rename_i heq
    rw [heq, hx]
  · rfl

theorem make_dir (hb : Flat b) (x : String) :
    ∃ t, b.tree.createDirAll (sessionsDir b.root ++ [x]) = .ok t ∧
      Made b { b with tree := t } x := by
  obtain ⟨t, ht, hget⟩ := createSessionDir hb x
  refine ⟨t, ht, rfl, ?_, fun x' => ?_, fun x' y' => ?_⟩
  · simp [hget]
  · by_cases hx : x' = x
    · simp [hget, hx]
    · have hnot : ¬ sessionsDir b.root ++ [x'] <+: sessionsDir b.root ++ [x] := by
        simp [prefix_append_right_inj, cons_prefix_cons, hx]
      simp [hget, hx, hnot]
  · have hnot : ¬ sessionsDir b.root ++ [x', y'] <+: sessionsDir b.root ++ [x] := by
      simp [prefix_append_right_inj, cons_prefix_cons]
    simp [hget, hnot]

variable {b₁ : JsonlBackend} {saved' : String → Option SessionRecord} {record : SessionRecord}
variable {msg : MessageRecord}

private theorem Made.write {b₂ : JsonlBackend} (hmade : Made b b₁ x) (hroot : b₂.root = b₁.root)
    (hget : ∀ q, b₂.tree.get q =
      if q = sessionsDir b.root ++ [x, y] then some (.file content)
      else if ∃ z, tmp = some z ∧ q = sessionsDir b.root ++ [x, z] then none
      else b₁.tree.get q) :
    Wrote b b₂ x y content tmp := by
  have hbase : ∀ y' : String, sessionsDir b.root ≠ sessionsDir b.root ++ [x, y'] := by
    intro y' heq
    simpa using congrArg List.length heq
  have hdir : ∀ x' y' : String, sessionsDir b.root ++ [x'] ≠ sessionsDir b.root ++ [x, y'] := by
    intro x' y' heq
    simpa using congrArg List.length heq
  refine ⟨hroot.trans hmade.root, ?_, fun x' => ?_, fun x' y' => ?_⟩
  · rw [hget, if_neg (hbase y), if_neg (by rintro ⟨z, -, h⟩; exact hbase z h)]
    exact hmade.base
  · rw [hget, if_neg (hdir x' y), if_neg (by rintro ⟨z, -, h⟩; exact hdir x' z h)]
    exact hmade.dirs x'
  · rw [hget, hmade.items]
    cases tmp <;> simp [eq_comm]

/-- Appending a line to the file `y` of the session `x` of a flat tree. -/
theorem append_wrote (hb : Flat b) (x y : String) (line : Line) :
    ∃ b', b.inDir (sessionsDir b.root ++ [x])
        (fun t => appendJsonlLine t (sessionsDir b.root ++ [x] ++ [y]) line) = (b', .ok ()) ∧
      Wrote b b' x y
        ((b.tree.fileAt (sessionsDir b.root ++ [x, y])).getD [] ++ [line]) none := by
  obtain ⟨t, ht, hmade⟩ := make_dir hb x
  have hpath : sessionsDir b.root ++ [x] ++ [y] = sessionsDir b.root ++ [x, y] := by simp
  have hfile : t.fileAt (sessionsDir b.root ++ [x, y]) =
      b.tree.fileAt (sessionsDir b.root ++ [x, y]) := by
    have hitem : t.get (sessionsDir b.root ++ [x, y]) = _ := hmade.items x y
    unfold FileTree.fileAt
    rw [hitem]
  obtain ⟨t', ht'⟩ := FileTree.writeFile_ok (t := t) (p := sessionsDir b.root ++ [x] ++ [y])
    ((b.tree.fileAt (sessionsDir b.root ++ [x, y])).getD [] ++ [line])
    (by
      rw [hpath]
      exact (hmade.items x y).trans_ne (hb.files x y))
    (by simpa using hmade.dirs x)
  refine ⟨{ b with tree := t' }, ?_, hmade.write rfl ?_⟩
  · simp only [inDir, ht, appendJsonlLine]
    rw [hpath] at ht' ⊢
    rw [hfile, ht']
  · intro q
    rw [FileTree.get_of_writeFile ht', hpath]
    simp

/-- An atomic write of the file `y` of the session `x`, its directory made. -/
theorem atomicWrite_wrote (hb : Flat b) {z : String} (hmade : Made b b₁ x)
    (hz : Path.stem y ++ "." ++ "tmp" = z) (hzy : z ≠ y) (content : List Line) :
    ∃ t, atomicWrite b₁.tree (sessionsDir b.root ++ [x] ++ [y]) content = (t, .ok ()) ∧
      Wrote b { b₁ with tree := t } x y content (some z) := by
  have hpath : ∀ w, sessionsDir b.root ++ [x] ++ [w] = sessionsDir b.root ++ [x, w] := by simp
  have htmp : Path.withExtension (sessionsDir b.root ++ [x] ++ [y]) "tmp" =
      sessionsDir b.root ++ [x] ++ [z] := by
    simp [Path.withExtension, hz]
  have hnotdir : ∀ w, b₁.tree.get (sessionsDir b.root ++ [x] ++ [w]) ≠ some .dir := by
    intro w
    rw [hpath, hmade.items]
    exact hb.files x w
  have hdir : b₁.tree.get (sessionsDir b.root ++ [x]) = some .dir := by simp [hmade.dirs]
  obtain ⟨written, hwrite⟩ := FileTree.writeFile_ok (t := b₁.tree) content (hnotdir z)
    (by simpa using hdir)
  have hwritten := FileTree.get_of_writeFile hwrite
  have hne : sessionsDir b.root ++ [x] ++ [y] ≠ sessionsDir b.root ++ [x] ++ [z] := by
    intro heq
    exact hzy (by simpa using heq.symm)
  have hrename : ∃ t, written.rename (sessionsDir b.root ++ [x] ++ [z])
      (sessionsDir b.root ++ [x] ++ [y]) = .ok t := by
    have hsrc : written.get (sessionsDir b.root ++ [x] ++ [z]) = some (.file content) := by
      rw [hwritten, if_pos rfl]
    have hdst : written.get (sessionsDir b.root ++ [x] ++ [y]) ≠ some .dir := by
      rw [hwritten, if_neg hne]
      exact hnotdir y
    have hprune := FileTree.get_prune_file hsrc
    simp only [FileTree.rename, hsrc, if_neg hdst]
    apply FileTree.writeFile_ok
    · rw [hprune, if_neg hne]
      exact hdst
    · rw [dropLast_concat, hprune, if_neg (by simp), hwritten, if_neg (by simp), hdir]
  obtain ⟨t, ht⟩ := hrename
  obtain ⟨data, hsrc, hget⟩ := FileTree.get_of_rename ht
  have hdata : data = content := by
    rw [hwritten, if_pos rfl] at hsrc
    cases hsrc
    rfl
  refine ⟨t, ?_, hmade.write rfl ?_⟩
  · simp only [atomicWrite, htmp, hwrite, ht]
  · intro q
    rw [hget, hdata, hwritten, hpath, hpath]
    by_cases hy : q = sessionsDir b.root ++ [x, y]
    · simp [hy]
    · by_cases hq : q = sessionsDir b.root ++ [x, z]
      · simp [hq]
      · simp [hy, hq]

/-- The record stored for the session `x` of a flat tree. -/
def storedMeta (b : JsonlBackend) (x : String) : Option SessionRecord :=
  match b.tree.get (sessionsDir b.root ++ [x, "meta.json"]) with
  | some (.file [.session record]) => some record
  | _ => none

/-- The invariant of the JSONL backend along flat histories. -/
structure JsonlInv (b : JsonlBackend) (saved : String → Option SessionRecord) : Prop where
  flat : Flat b
  own : ∀ x lines, b.tree.get (sessionsDir b.root ++ [x, "meta.json"]) = some (.file lines) →
    ∃ stored, lines = [.session stored] ∧ stored.sessionId = x ∧ stored.username = none
  found : ∀ sid record, saved sid = some record →
    ∃ stored, b.tree.get (sessionsDir b.root ++ [sid, "meta.json"]) =
      some (.file [.session stored]) ∧ SavedAs record stored

theorem sessionDir_of_isName (root : Path) (h : Path.IsName sid) :
    sessionDir root sid = sessionsDir root ++ [sid] :=
  Path.join_of_isName _ h

theorem JsonlInv.loadSessionMeta (h : JsonlInv b saved) (hsid : Path.IsName sid) :
    b.loadSessionMeta sid = .ok (storedMeta b sid) := by
  unfold JsonlBackend.loadSessionMeta storedMeta FileTree.pathExists FileTree.readFile
  simp only [sessionDir_of_isName _ hsid, metaPath, append_assoc, cons_append,
    nil_append]
  cases hget : b.tree.get (sessionsDir b.root ++ [sid, "meta.json"]) with
  | none => rfl
  | some node =>
    cases node with
    | dir => exact absurd hget (h.flat.files sid "meta.json")
    | file lines =>
      obtain ⟨stored, rfl, -, -⟩ := h.own sid lines hget
      rfl

theorem JsonlInv.storedMeta_own (h : JsonlInv b saved) (hx : storedMeta b x = some stored) :
    stored.sessionId = x := by
  unfold storedMeta at hx
  split at hx
  · rename_i record hget
    cases hx
    obtain ⟨other, heq, hid, -⟩ := h.own x _ hget
    cases heq
    exact hid
  · cases hx

private theorem mapM_ok {α β : Type} {f : α → Except PersistenceError β} {g : α → β}
    {items : List α} (h : ∀ a ∈ items, f a = .ok (g a)) :
    items.mapM f = .ok (items.map g) := by
  induction items with
  | nil => rfl
  | cons a rest ih =>
    rw [mapM_cons, h a (by simp), ih fun b hb => h b (by simp [hb])]
    rfl

theorem JsonlInv.recordsBelow (h : JsonlInv b saved) (hx : Path.IsName x) :
    b.recordsBelow x = .ok (storedMeta b x).toList := by
  have hnosub : (b.tree.readDir (sessionsDir b.root ++ [x])).filter (fun sid =>
      b.tree.get (sessionsDir b.root ++ [x] ++ [sid]) = some .dir) = [] := by
    rw [filter_eq_nil_iff]
    intro sid _
    have hfile := h.flat.files x sid
    simpa using hfile
  unfold JsonlBackend.recordsBelow
  simp only [hnosub, h.loadSessionMeta hx]
  split
  · rfl
  · rename_i hmissing
    have hnone : storedMeta b x = none := by
      have hget : b.tree.get (sessionsDir b.root ++ [x, "meta.json"]) = none := by
        simpa [FileTree.pathExists, metaPath] using hmissing
      simp [storedMeta, hget]
    rw [hnone]
    rfl

private theorem filter_flatMap_own {names : List String} {f : String → Option SessionRecord}
    (hnodup : names.Nodup) (hown : ∀ x stored, f x = some stored → stored.sessionId = x)
    (sid : String) :
    (names.flatMap fun x => (f x).toList).filter (fun r => r.sessionId = sid) =
      if sid ∈ names then (f sid).toList else [] := by
  induction names with
  | nil => rfl
  | cons x rest ih =>
    rw [nodup_cons] at hnodup
    have hhead : (f x).toList.filter (fun r => r.sessionId = sid) =
        if x = sid then (f sid).toList else [] := by
      cases hfx : f x with
      | none =>
        split
        · rename_i heq
          rw [← heq, hfx]
          rfl
        · rfl
      | some stored =>
        have hid := hown x stored hfx
        by_cases heq : x = sid
        · simp [← heq, hfx, hid]
        · simp [heq, hid]
    rw [flatMap_cons, filter_append, hhead, ih hnodup.2]
    by_cases hx : x = sid
    · subst hx
      simp [hnodup.1]
    · have hne : sid ≠ x := fun heq => hx heq.symm
      simp [hx, hne]

theorem JsonlInv.listed (h : JsonlInv b saved)
    (hget : b.tree.get (sessionsDir b.root ++ [sid, "meta.json"]) =
      some (.file [.session stored])) :
    ∃ listed, b.listSessions = .ok listed ∧
      listed.filter (fun r => r.sessionId = sid) = [stored] := by
  have hstored : storedMeta b sid = some stored := by simp [storedMeta, hget]
  let names := (b.tree.readDir (sessionsDir b.root)).filter fun name =>
    b.tree.get (sessionsDir b.root ++ [name]) = some .dir
  have hbelow : ∀ x ∈ names, b.recordsBelow x = .ok (storedMeta b x).toList := by
    intro x hx
    have hdir := of_decide_eq_true (mem_filter.mp hx).2
    exact h.recordsBelow (h.flat.dirs x _ hdir).2
  have hmem : sid ∈ names := by
    have hdir : b.tree.get (sessionsDir b.root ++ [sid]) = some .dir :=
      FileTree.get_parent (n := "meta.json") (v := .file [.session stored]) (by simpa using hget)
    exact mem_filter.mpr ⟨(FileTree.mem_readDir _ _ _).mpr ⟨_, hdir⟩, decide_eq_true hdir⟩
  have hexists : b.tree.pathExists (sessionsDir b.root) = true := by
    simp [FileTree.pathExists, h.flat.base]
  refine ⟨sortByKey SessionRecord.createdAtMs (names.map fun x => (storedMeta b x).toList).flatten,
    ?_, filter_sortByKey ?_⟩
  · unfold listSessions
    simp only [hexists, if_true]
    change (do
      let results ← names.mapM b.recordsBelow
      return sortByKey SessionRecord.createdAtMs results.flatten) = _
    rw [mapM_ok hbelow]
    rfl
  · have hnodup : names.Nodup := (FileTree.readDir_nodup _ _).filter _
    rw [← flatMap_def, filter_flatMap_own hnodup fun x s hx => h.storedMeta_own hx]
    simp [hmem, hstored]

theorem JsonlInv.deleteSession (h : JsonlInv b saved) (hsid : Path.IsName sid) :
    JsonlInv (b.deleteSession sid).1 (Function.update saved sid none) ∧
      (b.deleteSession sid).1.root = b.root ∧
      (∀ y, (b.deleteSession sid).1.tree.get (sessionsDir b.root ++ [sid, y]) = none) ∧
      (b.deleteSession sid).2 = .ok (b.tree.pathExists (sessionsDir b.root ++ [sid])) := by
  have hfound : ∀ b' : JsonlBackend, (∀ x y, x ≠ sid →
      b'.tree.get (sessionsDir b.root ++ [x, y]) = b.tree.get (sessionsDir b.root ++ [x, y])) →
      ∀ x record, Function.update saved sid none x = some record →
      ∃ stored, b'.tree.get (sessionsDir b.root ++ [x, "meta.json"]) =
        some (.file [.session stored]) ∧ SavedAs record stored := by
    intro b' hsame x record hrecord
    by_cases hx : x = sid
    · subst hx
      simp at hrecord
    · rw [Function.update_of_ne hx] at hrecord
      rw [hsame x _ hx]
      exact h.found x record hrecord
  unfold JsonlBackend.deleteSession
  simp only [sessionDir_of_isName _ hsid]
  cases hdir : b.tree.get (sessionsDir b.root ++ [sid]) with
  | none =>
    have hbelow : ∀ y, b.tree.get (sessionsDir b.root ++ [sid, y]) = none := by
      intro y
      by_contra hsome
      obtain ⟨v, hv⟩ := Option.ne_none_iff_exists'.mp hsome
      have hparent : b.tree.get (sessionsDir b.root ++ [sid]) = some .dir :=
        FileTree.get_parent (n := y) (v := v) (by simpa using hv)
      rw [hdir] at hparent
      cases hparent
    simp only [FileTree.pathExists, hdir, Option.isSome_none, Bool.false_eq_true, if_false]
    exact ⟨⟨h.flat, h.own, hfound b fun _ _ _ => rfl⟩, trivial, hbelow, trivial⟩
  | some v =>
    obtain ⟨rfl, -⟩ := h.flat.dirs sid v hdir
    have hget := FileTree.get_prune b.tree (sessionsDir b.root ++ [sid]) (by simp)
    simp only [FileTree.pathExists, FileTree.removeDirAll, hdir, Option.isSome_some, if_true]
    have hkeep : ∀ x y, x ≠ sid → (b.tree.prune (sessionsDir b.root ++ [sid])).get
        (sessionsDir b.root ++ [x, y]) = b.tree.get (sessionsDir b.root ++ [x, y]) := by
      intro x y hx
      rw [hget, if_neg]
      simp [prefix_append_right_inj, cons_prefix_cons, hx.symm]
    have hgone : ∀ y, (b.tree.prune (sessionsDir b.root ++ [sid])).get
        (sessionsDir b.root ++ [sid, y]) = none := by
      intro y
      rw [hget, if_pos]
      simp [prefix_append_right_inj, cons_prefix_cons]
    refine ⟨⟨⟨?_, ?_, ?_⟩, ?_, hfound _ hkeep⟩, trivial, hgone, trivial⟩
    · rw [hget, if_neg]
      · exact h.flat.base
      · intro hpre
        have hlen := hpre.length_le
        simp at hlen
    · intro x w hw
      rw [hget] at hw
      split at hw
      · cases hw
      · exact h.flat.dirs x w hw
    · intro x y hxy
      rw [hget] at hxy
      split at hxy
      · cases hxy
      · exact h.flat.files x y hxy
    · intro x lines hlines
      rw [hget] at hlines
      split at hlines
      · cases hlines
      · exact h.own x lines hlines

/-- Writing a file other than the metadata keeps the invariant. -/
theorem JsonlInv.wrote_other (h : JsonlInv b saved) (hx : Path.IsName x)
    (hwrote : Wrote b b' x y content tmp) (hy : y ≠ "meta.json") (htmp : tmp ≠ some "meta.json") :
    JsonlInv b' saved := by
  have hsame : ∀ z, b'.tree.get (sessionsDir b.root ++ [z, "meta.json"]) =
      b.tree.get (sessionsDir b.root ++ [z, "meta.json"]) := by
    intro z
    rw [hwrote.items, if_neg (fun hz => hy hz.2.symm), if_neg (fun hz => htmp hz.2.symm)]
  refine ⟨hwrote.flat hx h.flat, ?_, ?_⟩
  · intro z lines
    rw [hwrote.root, hsame]
    exact h.own z lines
  · intro sid record hsaved
    rw [hwrote.root, hsame]
    exact h.found sid record hsaved

theorem JsonlInv.wrote_meta (h : JsonlInv b saved) (hx : Path.IsName stored.sessionId)
    (hwrote : Wrote b b' stored.sessionId "meta.json" [.session stored] tmp)
    (huser : stored.username = none)
    (hself : ∀ record, saved' stored.sessionId = some record → SavedAs record stored)
    (hothers : ∀ sid, sid ≠ stored.sessionId → saved' sid = saved sid) : JsonlInv b' saved' := by
  have hitem : ∀ z, b'.tree.get (sessionsDir b.root ++ [z, "meta.json"]) =
      if z = stored.sessionId then some (.file [.session stored])
      else b.tree.get (sessionsDir b.root ++ [z, "meta.json"]) := by
    intro z
    rw [hwrote.items]
    by_cases hz : z = stored.sessionId
    · simp [hz]
    · simp [hz]
  refine ⟨hwrote.flat hx h.flat, ?_, ?_⟩
  · intro z lines
    rw [hwrote.root, hitem]
    split
    · rename_i hz
      rintro ⟨⟩
      exact ⟨stored, rfl, hz.symm, huser⟩
    · exact h.own z lines
  · intro sid record hsaved
    rw [hwrote.root, hitem]
    split
    · rename_i hz
      exact ⟨stored, rfl, hself record (hz ▸ hsaved)⟩
    · rename_i hz
      exact h.found sid record (hothers sid hz ▸ hsaved)

private theorem JsonlInv.append_line (h : JsonlInv b saved) (hsid : Path.IsName sid)
    (hy : y ≠ "meta.json") (line : Line) :
    ∃ b', b.inDir (sessionDir b.root sid)
        (fun t => appendJsonlLine t (sessionDir b.root sid ++ [y]) line) = (b', .ok ()) ∧
      JsonlInv b' saved ∧ b'.root = b.root := by
  obtain ⟨b', hwrite, hwrote⟩ := append_wrote h.flat sid y line
  refine ⟨b', ?_, h.wrote_other hsid hwrote hy (by simp), hwrote.root⟩
  rw [sessionDir_of_isName _ hsid]
  exact hwrite

theorem JsonlInv.saveCheckpoint (h : JsonlInv b saved) {checkpoint : Checkpoint}
    (hsid : Path.IsName checkpoint.sessionId) :
    JsonlInv (b.saveCheckpoint checkpoint).1 saved := by
  have hname : "checkpoints.jsonl" ≠ "meta.json" := by decide
  obtain ⟨b', hwrite, hinv, -⟩ := h.append_line hsid hname (.checkpoint checkpoint)
  unfold JsonlBackend.saveCheckpoint checkpointsPath
  rw [hwrite]
  exact hinv

theorem JsonlInv.savePromptHistory (h : JsonlInv b saved) {record : PromptHistoryRecord}
    (hsid : Path.IsName record.sessionId) :
    JsonlInv (b.savePromptHistory record).1 saved := by
  have hname : "prompt_history.jsonl" ≠ "meta.json" := by decide
  obtain ⟨b', hwrite, hinv, -⟩ := h.append_line hsid hname (.prompt record)
  unfold JsonlBackend.savePromptHistory promptHistoryPath
  rw [hwrite]
  exact hinv

theorem JsonlInv.saveCompaction (h : JsonlInv b saved) {record : CompactionRecord}
    (hsid : Path.IsName record.sessionId) :
    JsonlInv (b.saveCompaction record).1 saved := by
  obtain ⟨t, ht, hmade⟩ := make_dir h.flat record.sessionId
  obtain ⟨t', hwrite, hwrote⟩ := atomicWrite_wrote h.flat (y := "compaction.json") hmade rfl
    (by decide) [.compaction record]
  have hres : (b.saveCompaction record).1 = { b with tree := t' } := by
    simp only [JsonlBackend.saveCompaction, sessionDir_of_isName _ hsid, inDir, ht,
      compactionPath]
    rw [hwrite]
  rw [hres]
  exact h.wrote_other hsid hwrote (by decide) (by decide)

theorem JsonlInv.saveSessionMeta (h : JsonlInv b saved) (hsid : Path.IsName record.sessionId)
    (huser : record.username = none) :
    JsonlInv (b.saveSessionMeta record).1
      (Function.update saved record.sessionId (some record)) := by
  obtain ⟨t, ht, hmade⟩ := make_dir h.flat record.sessionId
  obtain ⟨t', hwrite, hwrote⟩ := atomicWrite_wrote h.flat (y := "meta.json") hmade rfl
    (by decide) [.session record]
  have hres : (b.saveSessionMeta record).1 = { b with tree := t' } := by
    simp only [JsonlBackend.saveSessionMeta, recordDir, huser, sessionDir_of_isName _ hsid, inDir,
      ht, metaPath]
    rw [hwrite]
  rw [hres]
  apply h.wrote_meta hsid hwrote huser
  · intro r hr
    rw [Function.update_self] at hr
    cases hr
    exact SavedAs.refl record
  · intro sid hne
    exact Function.update_of_ne hne _ _

theorem JsonlInv.appendMessage_cases (h : JsonlInv b saved) (hsid : Path.IsName msg.sessionId) :
    ∃ b₁, JsonlInv b₁ saved ∧
      ((storedMeta b₁ msg.sessionId = none ∧ (b.appendMessage msg).1 = b₁) ∨
        ∃ stored, storedMeta b₁ msg.sessionId = some stored ∧
          Wrote b₁ (b.appendMessage msg).1 msg.sessionId "meta.json"
            [.session { stored with updatedAtMs := msg.timestampMs }] (some "meta.tmp")) := by
  have hname : "messages.jsonl" ≠ "meta.json" := by decide
  obtain ⟨b₁, hwrite, hinv, hroot⟩ := h.append_line hsid hname (.message msg)
  have hload := hinv.loadSessionMeta hsid
  refine ⟨b₁, hinv, ?_⟩
  unfold JsonlBackend.appendMessage messagesPath
  simp only [hwrite, hload]
  cases hstored : storedMeta b₁ msg.sessionId with
  | none => exact .inl ⟨rfl, rfl⟩
  | some stored =>
    right
    have hdir : b₁.tree.get (sessionsDir b₁.root ++ [msg.sessionId]) = some .dir := by
      unfold storedMeta at hstored
      split at hstored
      · rename_i record hget
        exact FileTree.get_parent (n := "meta.json") (by simpa using hget)
      · cases hstored
    obtain ⟨t, hatomic, hwrote⟩ := atomicWrite_wrote hinv.flat (y := "meta.json")
      (Made.here hinv.flat hdir) rfl (by decide)
      [.session { stored with updatedAtMs := msg.timestampMs }]
    refine ⟨stored, rfl, ?_⟩
    rw [sessionDir_of_isName _ hsid, ← hroot]
    dsimp only [metaPath]
    rw [hatomic]
    exact hwrote

theorem JsonlInv.storedMeta_username (h : JsonlInv b saved) (hx : storedMeta b x = some stored) :
    stored.username = none := by
  unfold storedMeta at hx
  split at hx
  · rename_i record hget
    cases hx
    obtain ⟨other, heq, -, huser⟩ := h.own x _ hget
    cases heq
    exact huser
  · cases hx

theorem JsonlInv.savedAs_stored (h : JsonlInv b saved) (hsaved : saved sid = some record)
    (hstored : storedMeta b sid = some stored) :
    SavedAs record stored := by
  obtain ⟨s, hget, has⟩ := h.found sid record hsaved
  have heq : storedMeta b sid = some s := by simp [storedMeta, hget]
  rw [hstored] at heq
  cases heq
  exact has

theorem JsonlInv.appendMessage (h : JsonlInv b saved) (hsid : Path.IsName msg.sessionId)
    (hothers : ∀ sid record, saved' sid = some record → saved sid = some record)
    (htime : ∀ record, saved' msg.sessionId = some record →
      record.updatedAtMs ≤ msg.timestampMs) :
    JsonlInv (b.appendMessage msg).1 saved' := by
  obtain ⟨b₁, hinv, ⟨hnone, heq⟩ | ⟨stored, hstored, hwrote⟩⟩ := h.appendMessage_cases hsid
  · rw [heq]
    exact ⟨hinv.flat, hinv.own, fun sid record hr => hinv.found sid record (hothers sid record hr)⟩
  · have hid := hinv.storedMeta_own hstored
    have hweak : JsonlInv b₁ saved' :=
      ⟨hinv.flat, hinv.own, fun sid record hr => hinv.found sid record (hothers sid record hr)⟩
    let touched := { stored with updatedAtMs := msg.timestampMs }
    have hwrote' : Wrote b₁ (b.appendMessage msg).1 touched.sessionId "meta.json"
        [.session touched] (some "meta.tmp") := hid.symm ▸ hwrote
    have hname : Path.IsName touched.sessionId := hid.symm ▸ hsid
    have huser := hinv.storedMeta_username hstored
    apply hweak.wrote_meta hname hwrote' huser
    · intro record hrecord
      have hsaved' : saved' msg.sessionId = some record := hid ▸ hrecord
      have has := hinv.savedAs_stored (hothers _ _ hsaved') hstored
      exact has.touch (htime record hsaved')
    · exact fun _ _ => rfl

theorem JsonlInv.deleteCheckpoints (h : JsonlInv b saved) (hsid : Path.IsName sid) :
    JsonlInv (b.deleteCheckpoints sid).1 saved := by
  unfold JsonlBackend.deleteCheckpoints
  simp only [sessionDir_of_isName _ hsid, checkpointsPath]
  split
  · split
    · rename_i t ht
      have hget := FileTree.get_of_removeFile ht
      have hmeta : ∀ x, t.get (sessionsDir b.root ++ [x, "meta.json"]) =
          b.tree.get (sessionsDir b.root ++ [x, "meta.json"]) := by
        intro x
        rw [hget, if_neg (by simp)]
      refine ⟨⟨?_, ?_, ?_⟩, ?_, ?_⟩
      · rw [hget, if_neg]
        · exact h.flat.base
        · intro heq
          simpa using congrArg List.length heq
      · intro x v hv
        rw [hget] at hv
        split at hv
        · cases hv
        · exact h.flat.dirs x v hv
      · intro x y hxy
        rw [hget] at hxy
        split at hxy
        · cases hxy
        · exact h.flat.files x y hxy
      · intro x lines
        rw [hmeta]
        exact h.own x lines
      · intro x record hsaved
        rw [hmeta]
        exact h.found x record hsaved
    · exact h
  · exact h

end DbClinic.Persistence
