import LosslessYaml.Proofs.File.Saving
import LosslessYaml.Proofs.Gzip.Stored

/-!
# Loading what was saved

A file that was saved is loaded as the text that was printed. Saving and loading decide in two ways
whether the file is compressed: saving by the end of the path, loading by the extension of its name.
A path that can be saved ends with a name, and for such a path the two agree unless the name is
`.gz`, which has no extension. A file with that name is packed, and cannot be loaded.

Main statement: `loadFile_saved`.
-/

namespace LosslessYaml

namespace FileName

/-! ## Names of compressed files -/

/-- The end of the names of compressed files. -/
def gz : Text := ".gz".toList

/-- A path has the end of its name. -/
theorem Names.suffix_iff {path name : Text} (h : Names path name) {ending : Text}
    (hending : '/' ∉ ending) : ending <:+ path ↔ ending <:+ name := by
  cases h with
  | alone => rfl
  | inside front hname =>
      have hlast : '/' :: name <:+ front ++ '/' :: name := List.suffix_append _ _
      constructor
      · intro hpath
        obtain hshort | hlong := List.suffix_or_suffix_of_suffix hpath hlast
        · obtain rfl | hsuffix := List.suffix_cons_iff.mp hshort
          · simp at hending
          · exact hsuffix
        · exact absurd (hlong.subset List.mem_cons_self) hending
      · intro hsuffix
        exact (hsuffix.trans (List.suffix_cons _ _)).trans hlast

/-- Saving packs a file if its name ends in `.gz`. -/
theorem Names.compresses_iff {path name : Text} (h : Names path name) :
    compresses path = true ↔ ∃ stem, name = stem ++ gz := by
  rw [compresses, List.isSuffixOf_iff_suffix, h.suffix_iff (by decide)]
  constructor
  · rintro ⟨stem, rfl⟩
    exact ⟨stem, rfl⟩
  · rintro ⟨stem, rfl⟩
    exact ⟨stem, rfl⟩

/-- Loading unpacks a file if its name ends in `.gz` and has something before that. -/
theorem Names.isCompressed_iff {path name : Text} (h : Names path name) :
    isCompressed path = true ↔ ∃ stem, stem ≠ [] ∧ name = stem ++ gz := by
  have hextension : isCompressed path = true ↔ extension? path = some ['g', 'z'] := by
    simp [isCompressed]
  rw [hextension, extension?, h.name?, Option.bind_eq_bind, Option.bind_some]
  constructor
  · intro hmatch
    split at hmatch
    · cases hmatch
    · cases hmatch
    next dot c stem hdrop =>
      have hending := congrArg List.reverse (Option.some.inj hmatch)
      rw [List.reverse_reverse] at hending
      obtain rfl : dot = '.' := by
        have hhead := List.head?_dropWhile_not (· != '.') name.reverse
        rw [hdrop] at hhead
        simpa using hhead
      refine ⟨(c :: stem).reverse, by simp, ?_⟩
      calc name = name.reverse.reverse := (List.reverse_reverse name).symm
        _ = (['z', 'g'] ++ '.' :: c :: stem).reverse := by
            rw [← List.takeWhile_append_dropWhile (p := (· != '.')) (l := name.reverse), hdrop,
              hending]
            rfl
        _ = (c :: stem).reverse ++ gz := by simp [gz]
  · rintro ⟨stem, hstem, rfl⟩
    obtain ⟨c, more, hreverse⟩ : ∃ c more, stem.reverse = c :: more :=
      List.exists_cons_of_ne_nil (by simpa using hstem)
    simp [gz, hreverse]

/-- The two agree unless nothing comes before the dot. -/
theorem Names.isCompressed_eq_iff {path name : Text} (h : Names path name) :
    isCompressed path = compresses path ↔ name ≠ gz := by
  rw [Bool.eq_iff_iff, h.isCompressed_iff, h.compresses_iff]
  constructor
  · rintro hagree rfl
    obtain ⟨stem, hstem, heq⟩ := hagree.mpr ⟨[], rfl⟩
    exact hstem (List.self_eq_append_left.mp heq)
  · intro hname
    constructor
    · rintro ⟨stem, -, heq⟩
      exact ⟨stem, heq⟩
    · rintro ⟨stem, rfl⟩
      refine ⟨stem, ?_, rfl⟩
      rintro rfl
      exact hname rfl

/-- A file with that name is packed, and is not unpacked. -/
theorem Names.packed_of_eq {path name : Text} (h : Names path name) (hname : name = gz) :
    compresses path = true ∧ isCompressed path = false := by
  have hpacked : compresses path = true := h.compresses_iff.mpr ⟨[], hname⟩
  refine ⟨hpacked, ?_⟩
  rw [Bool.eq_false_iff, ← hpacked]
  exact fun hagree => h.isCompressed_eq_iff.mp hagree hname

end FileName

/-! ## Reading a saved file -/

open FileName

/-- The text of a saved file is the printed text, if saving and loading agree. -/
theorem textOfFile_fileBytes {path name : Text} (h : Names path name) (text : Text) :
    textOfFile path (some (fileBytes path text)) =
      if name = gz then .error (.unreadable path) else .ok text := by
  have htext := Bytes.toText?_toBytes text
  split
  next hname =>
    obtain ⟨hpacked, hplain⟩ := h.packed_of_eq hname
    simp [textOfFile, fileBytes, hpacked, hplain, Gzip.toText?_pack]
  next hname =>
    have hagree := h.isCompressed_eq_iff.mpr hname
    cases hpacked : compresses path with
    | false => simp [textOfFile, fileBytes, hagree, hpacked, htext]
    | true => simp [textOfFile, fileBytes, hagree, hpacked, Gzip.unpack_pack, htext]

/-- What a text in a file is loaded as. -/
theorem streamOfFile_of_text {settings : Settings} {path text : Text} {bytes : Option Bytes}
    (h : textOfFile path bytes = .ok text) :
    streamOfFile settings path bytes =
      if settings.validateInput && !Strict.acceptsInput text then
        .error (.during (.loading path) .invalidInput)
      else ((Stream.parse text).map (·.mark (.provenance path))).mapError
        fun error => .during (.loading path) (.unparsed error) := by
  rw [streamOfFile, h]
  show (loadText settings text).mapError (FileError.during (.loading path)) >>= _ = _
  rw [loadText]
  split
  · rfl
  · cases Stream.parse text <;> rfl

/-- A machine that refuses nothing says what is on its disk. -/
theorem Session.exec_look {α : Type} {s : Session} (hfaults : s.faults = []) (failed : α)
    (question : Disk → α) :
    Session.exec (liftM (Session.look failed question)) s = (.ok (question s.disk), s) := by
  obtain ⟨disk, input, output, faults⟩ := s
  obtain rfl : faults = [] := hfaults
  rfl

/-- A machine that refuses nothing loads what a file holds. -/
theorem Session.exec_loadFile {s : Session} (hfaults : s.faults = []) {path : Text} {bytes : Bytes}
    (hbytes : s.disk.bytes? path = some bytes) (settings : Settings) :
    Session.exec (loadFile settings path) s = (streamOfFile settings path (some bytes), s) := by
  have hfound : (s.disk.find? path).isSome = true := by
    obtain ⟨place, hplace, hnode⟩ := Disk.exists_place hbytes
    simp [Disk.find?, hplace, hnode]
  have hexists : Session.exec (liftM (Machine.exists? path : SessionM Bool)) s =
      (.ok true, s) := by
    rw [← hfound]
    exact Session.exec_look hfaults false _
  have hread : Session.exec (liftM (Machine.read? path : SessionM (Option Bytes))) s =
      (.ok (some bytes), s) := by
    rw [← hbytes]
    exact Session.exec_look hfaults none _
  have hrequire : Session.exec (require (.unopened path) (Machine.exists? path)) s =
      (.ok (), s) := by
    rw [require, Session.exec_bind, hexists]
    rfl
  rw [loadFile]
  dsimp only
  split
  · rw [Session.exec_bind, hrequire]
    dsimp only
    rw [Session.exec_bind, hread]
    rfl
  · rw [Session.exec_bind, hread]
    rfl

/-- The file that was saved ends with a name and holds the printed text. -/
theorem Session.saved_bytes {settings : Settings} {path : Text} {stream : Stream}
    {s saved : Session}
    (hsave : Session.exec (saveFile settings path stream) s = (.ok (), saved)) :
    (∃ name, Names path name) ∧
      saved.disk.bytes? path = some (fileBytes path stream.print) := by
  have hends := Session.Ends.saveFile settings path stream s
  rw [Session.Ends, hsave] at hends
  obtain ⟨directory, name, hsaved⟩ := hends
  have hplace := (hsaved.agrees.resolve? path).trans hsaved.leads.place
  exact ⟨Disk.exists_names hplace (by simp [hsaved.holds]),
    (Disk.bytes?_eq hplace).mpr hsaved.holds⟩

/-- A file that was saved is loaded as the text that was printed, whatever the settings are, unless
its name is `.gz`. For such a name saving and loading do not agree on whether the file is
compressed, and nothing can be loaded. For all other names they agree: what is loaded is what the
printed text is read into, with the path as its provenance, if a strict reading is not asked for or
accepts the text. -/
theorem loadFile_saved (settings loading : Settings) (path : Text) (stream : Stream)
    {s saved later : Session}
    (hsave : Session.exec (saveFile settings path stream) s = (.ok (), saved))
    (hdisk : later.disk = saved.disk) (hfaults : later.faults = []) :
    (isCompressed path = compresses path ↔ name? path ≠ some gz) ∧
    (name? path ≠ some gz → Session.exec (loadFile loading path) later =
      (if loading.validateInput && !Strict.acceptsInput stream.print then
          .error (.during (.loading path) .invalidInput)
        else ((Stream.parse stream.print).map (·.mark (.provenance path))).mapError
          fun error => .during (.loading path) (.unparsed error), later)) ∧
    (name? path = some gz → compresses path = true ∧ isCompressed path = false ∧
      Session.exec (loadFile loading path) later = (.error (.unreadable path), later)) := by
  obtain ⟨⟨name, hnames⟩, hbytes⟩ := Session.saved_bytes hsave
  rw [← hdisk] at hbytes
  have hload := Session.exec_loadFile hfaults hbytes loading
  have htext := textOfFile_fileBytes hnames stream.print
  rw [hnames.name?, ne_eq, Option.some.injEq]
  refine ⟨hnames.isCompressed_eq_iff, fun hname => ?_, fun hname => ?_⟩
  · rw [if_neg hname] at htext
    rw [hload, streamOfFile_of_text htext]
  · rw [if_pos hname] at htext
    rw [hload, streamOfFile, htext]
    obtain ⟨hpacked, hplain⟩ := hnames.packed_of_eq hname
    exact ⟨hpacked, hplain, rfl⟩

/-- A file that has `.gz` for its whole name is saved, and cannot be loaded. -/
theorem loadFile_saved_hidden :
    ∃ saved, Session.exec (saveFile {} ".gz".toList ⟨[], [], "# new".toList⟩) {} =
        (.ok (), saved) ∧ saved.faults = [] ∧
      Session.exec (loadFile {} ".gz".toList) saved =
        (.error (.unreadable ".gz".toList), saved) := by
  cases hsave : Session.exec (saveFile {} ".gz".toList ⟨[], [], "# new".toList⟩) {} with
  | mk result saved =>
      have hended : (Session.exec (saveFile {} ".gz".toList ⟨[], [], "# new".toList⟩) {}).1.toBool =
          true := by decide +kernel
      have hfaults : (Session.exec (saveFile {} ".gz".toList ⟨[], [], "# new".toList⟩)
          {}).2.faults = [] := by decide +kernel
      rw [hsave] at hended hfaults
      cases result with
      | error => cases hended
      | ok =>
          exact ⟨saved, rfl, hfaults,
            ((loadFile_saved {} {} _ _ hsave rfl hfaults).2.2 (by decide +kernel)).2.2⟩

end LosslessYaml
