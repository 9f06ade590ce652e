import LosslessYaml.Disk

/-!
# The files beside a file

Where the paths lead to that are made from the path of a file by giving its name a suffix: to the
directory of the file, and there to the name with the suffix. The path may hold empty parts and dots
that are dropped on the way, so the two paths need not agree in their texts. They agree in where
they lead, because a part that names the same place again changes nothing as long as a further part
follows.
-/

namespace LosslessYaml

/-! ## The parts of a path -/

namespace Text

theorem splitAt_ne_nil (separator : Char) (text : Text) : splitAt separator text ≠ [] := by
  cases text with
  | nil => simp [splitAt]
  | cons c rest =>
      rw [splitAt]
      split
      · simp
      · split <;> simp

theorem splitAt_append_cons (separator : Char) (first second : Text) :
    splitAt separator (first ++ separator :: second) =
      splitAt separator first ++ splitAt separator second := by
  induction first with
  | nil =>
      obtain ⟨part, parts, h⟩ := List.exists_cons_of_ne_nil (splitAt_ne_nil separator second)
      simp [splitAt, h]
  | cons c first ih =>
      obtain ⟨part, parts, h⟩ := List.exists_cons_of_ne_nil (splitAt_ne_nil separator first)
      rw [h] at ih
      by_cases hc : c = separator <;> simp [splitAt, ih, h, hc]

theorem splitAt_of_notMem {separator : Char} {text : Text} (h : separator ∉ text) :
    splitAt separator text = [text] := by
  induction text with
  | nil => rfl
  | cons c rest ih =>
      rw [List.mem_cons, not_or] at h
      have hc : (c == separator) = false := by simpa using Ne.symm h.1
      simp [splitAt, ih h.2, hc]

/-- A text is one part, or ends with a part after a separator. -/
theorem exists_last_part (separator : Char) (text : Text) :
    separator ∉ text ∨ ∃ front last, separator ∉ last ∧ text = front ++ separator :: last := by
  induction text with
  | nil => exact .inl (by simp)
  | cons c rest ih =>
      obtain h | ⟨front, last, hlast, rfl⟩ := ih
      · by_cases hc : c = separator
        · exact .inr ⟨[], rest, h, by simp [hc]⟩
        · exact .inl (by simp [h, Ne.symm hc])
      · exact .inr ⟨c :: front, last, hlast, rfl⟩

end Text

namespace FileName

open Text

/-- A part of a path that leads on to a name of its own. -/
structure IsName (part : Text) : Prop where
  slash : '/' ∉ part
  ne_nil : part ≠ []
  ne_dot : part ≠ ['.']
  ne_dots : part ≠ ['.', '.']

/-- A name with a suffix is a name. -/
theorem IsName.suffixed {name suffix : Text} (h : IsName name) (hsuffix : '/' ∉ suffix)
    (hne : suffix ≠ []) : IsName (name ++ '.' :: suffix) := by
  have hlength : 0 < name.length := List.length_pos_iff.mpr h.ne_nil
  have hmore : 0 < suffix.length := List.length_pos_iff.mpr hne
  refine ⟨by simp [h.slash, hsuffix], by simp, ?_, ?_⟩
  · intro heq
    have := congrArg List.length heq
    simp only [List.length_append, List.length_cons, List.length_nil] at this
    omega
  · intro heq
    have := congrArg List.length heq
    simp only [List.length_append, List.length_cons, List.length_nil] at this
    omega

theorem name?_of_name {name : Text} (h : IsName name) : name? name = some name := by
  have hempty : name.isEmpty = false := by simpa using h.ne_nil
  simp [name?, parts, splitAt_of_notMem h.slash, hempty, h.ne_dot, h.ne_dots]

theorem name?_append {name : Text} (h : IsName name) (front : Text) :
    name? (front ++ '/' :: name) = some name := by
  obtain ⟨first, more, hfront⟩ := List.exists_cons_of_ne_nil (splitAt_ne_nil '/' front)
  have hempty : name.isEmpty = false := by simpa using h.ne_nil
  have hdot : (name != ['.']) = true := by simpa using h.ne_dot
  simp [name?, parts, splitAt_append_cons, splitAt_of_notMem h.slash, hfront, hempty, hdot,
    h.ne_dot, h.ne_dots, List.filter_append, ← List.append_assoc]

/-- A path ends with a name. -/
inductive Names : Text → Text → Prop where
  | alone {name : Text} : IsName name → Names name name
  | inside (front : Text) {name : Text} : IsName name → Names (front ++ '/' :: name) name

theorem Names.name? {path name : Text} (h : Names path name) : name? path = some name := by
  cases h with
  | alone hname => exact name?_of_name hname
  | inside front hname => exact name?_append hname front

/-- Nothing is dropped at the end of a path that ends with a name. -/
theorem trimEnd_name {name : Text} (h : IsName name) (rest : Text) :
    trimEnd (name.reverse ++ rest) = name.reverse ++ rest := by
  have hslash : '/' ∉ name.reverse := by simpa using h.slash
  have hne : name.reverse ≠ [] := by simpa using h.ne_nil
  have hdot : name.reverse ≠ ['.'] := by
    intro heq
    exact h.ne_dot (by simpa using congrArg List.reverse heq)
  generalize name.reverse = turned at hslash hne hdot
  match turned with
  | [c] =>
      have hc : c ≠ '/' := by rintro rfl; simp at hslash
      have hc' : c ≠ '.' := by rintro rfl; exact hdot rfl
      rw [trimEnd.eq_3]
      · intro _ _ heq
        exact hc (List.cons.inj heq).1
      · intro _ heq
        exact hc' (List.cons.inj heq).1
  | c :: next :: more =>
      have hc : c ≠ '/' := by rintro rfl; simp at hslash
      have hnext : next ≠ '/' := by rintro rfl; simp at hslash
      rw [trimEnd.eq_3]
      · intro _ _ heq
        exact hc (List.cons.inj heq).1
      · intro _ heq
        exact hnext (List.cons.inj (List.cons.inj heq).2).1

theorem dropWhile_name {name : Text} (h : IsName name) (rest : Text) :
    (name.reverse ++ rest).dropWhile (· != '/') = rest.dropWhile (· != '/') := by
  apply List.dropWhile_append_of_pos
  intro c hc
  have hne : c ≠ '/' := by rintro rfl; exact h.slash (by simpa using hc)
  simpa using hne

/-- The directory of a name on its own is the working directory. -/
theorem parent?_of_name {name : Text} (h : IsName name) : parent? name = some [] := by
  have htrim : trimEnd name.reverse = name.reverse := by simpa using trimEnd_name h []
  have hdrop : name.reverse.dropWhile (· != '/') = [] := by simpa using dropWhile_name h []
  have hslash : name.reverse ≠ ['/'] := by
    intro heq
    exact h.slash (by rw [← List.mem_reverse, heq]; simp)
  simp [parent?, htrim, hdrop, h.ne_nil, hslash, trimEnd]

/-- The directory of a name after a slash is what comes before, without what can be dropped at its
end. -/
theorem parent?_append {name : Text} (h : IsName name) (front : Text) :
    parent? (front ++ '/' :: name) = some (trimEnd ('/' :: front.reverse)).reverse := by
  have hreverse : (front ++ '/' :: name).reverse = name.reverse ++ '/' :: front.reverse := by simp
  have hdrop : (name.reverse ++ '/' :: front.reverse).dropWhile (· != '/') =
      '/' :: front.reverse := by
    rw [dropWhile_name h]
    simp
  have hslash : name.reverse ++ '/' :: front.reverse ≠ ['/'] := by
    intro heq
    have hlength := congrArg List.length heq
    have hpos : 0 < name.length := List.length_pos_iff.mpr h.ne_nil
    simp only [List.length_append, List.length_reverse, List.length_cons, List.length_nil]
      at hlength
    omega
  simp [parent?, hreverse, trimEnd_name h, hdrop, hslash]

/-- Whether there are paths beside a path does not depend on the suffix. -/
theorem sibling?_eq_none_iff (path suffix : Text) :
    sibling? path suffix = none ↔ name? path = none ∨ parent? path = none := by
  cases hname : name? path <;> cases hparent : parent? path <;> simp [sibling?, hname, hparent]

/-- What a sibling's path has before its name. -/
def base (front : Text) : Text :=
  let directory := (trimEnd ('/' :: front.reverse)).reverse
  if directory.isEmpty || directory.getLast? == some '/' then directory else directory ++ ['/']

theorem sibling?_of_name {name : Text} (h : IsName name) (suffix : Text) :
    sibling? name suffix = some (name ++ '.' :: suffix) := by
  simp [sibling?, name?_of_name h, parent?_of_name h]

theorem sibling?_append {name : Text} (h : IsName name) (front suffix : Text) :
    sibling? (front ++ '/' :: name) suffix = some (base front ++ (name ++ '.' :: suffix)) := by
  simp [sibling?, name?_append h, parent?_append h, base]

end FileName

/-! ## Walking -/

namespace Disk

open Text FileName

theorem node?_root (disk : Disk) : disk.node? [] = some .directory := rfl

theorem walk_append (disk : Disk) (names : List Text) (parts more : List Text) :
    disk.walk names (parts ++ more) =
      (disk.walk names parts).bind fun names => disk.walk names more := by
  induction parts generalizing names with
  | nil => rfl
  | cons part parts ih =>
      rw [List.cons_append, walk, walk]
      split
      · rfl
      · split
        · exact ih names
        · split
          · exact ih names.dropLast
          · exact ih (names ++ [part])

/-- A name leads on from a directory. -/
theorem walk_name {name : Text} (h : IsName name) (disk : Disk) (names : List Text) :
    disk.walk names [name] =
      if disk.node? names = some .directory then some (names ++ [name]) else none := by
  by_cases hdirectory : disk.node? names = some .directory <;>
    simp [walk, hdirectory, h.ne_nil, h.ne_dot, h.ne_dots]

/-- A part that names the same place again does not matter if another part follows. -/
theorem walk_stay {part : Text} (hpart : part = [] ∨ part = ['.']) (disk : Disk)
    (names : List Text) (parts : List Text) (last : Text) :
    disk.walk names (parts ++ [part, last]) = disk.walk names (parts ++ [last]) := by
  have hstay : ∀ place, disk.walk place [part, last] = disk.walk place [last] := by
    intro place
    by_cases hdirectory : disk.node? place = some .directory
    · obtain rfl | rfl := hpart <;> simp [walk, hdirectory]
    · simp [walk, hdirectory]
  rw [walk_append, walk_append]
  simp only [hstay]

/-- What is dropped at the end of a path does not matter if another part follows. -/
theorem walk_trimEnd (disk : Disk) (names : List Text) (last front : Text) :
    disk.walk names (splitAt '/' (trimEnd front).reverse ++ [last]) =
      disk.walk names (splitAt '/' front.reverse ++ [last]) := by
  fun_induction trimEnd front with
  | case1 c rest ih =>
      have hsplit : splitAt '/' ('/' :: c :: rest).reverse =
          splitAt '/' (c :: rest).reverse ++ [[]] := by
        rw [List.reverse_cons, splitAt_append_cons]
        rfl
      rw [ih, hsplit, List.append_assoc]
      exact (walk_stay (.inl rfl) disk names _ last).symm
  | case2 rest hrest =>
      obtain rfl : rest = [] := by simpa using hrest
      exact (walk_stay (.inl rfl) disk names [[]] last).trans
        (walk_stay (.inr rfl) disk names [[]] last).symm
  | case3 rest hrest ih =>
      have hsplit : splitAt '/' ('.' :: '/' :: rest).reverse =
          splitAt '/' rest.reverse ++ [['.']] := by
        rw [List.reverse_cons, List.reverse_cons, List.append_assoc, List.singleton_append,
          splitAt_append_cons]
        rfl
      rw [ih, hsplit, List.append_assoc]
      exact (walk_stay (.inr rfl) disk names _ last).symm
  | case4 => rfl

/-- A sibling lies where the parts before the name lead to. -/
theorem walk_base (disk : Disk) (front : Text) {last : Text} (hlast : '/' ∉ last) :
    disk.walk [] (splitAt '/' (base front ++ last)) =
      disk.walk [] (splitAt '/' front ++ [last]) := by
  have htrim := walk_trimEnd disk [] last ('/' :: front.reverse)
  have hfront : splitAt '/' ('/' :: front.reverse).reverse = splitAt '/' front ++ [[]] := by
    rw [List.reverse_cons, List.reverse_reverse, splitAt_append_cons]
    rfl
  rw [hfront, List.append_assoc, List.singleton_append, walk_stay (.inl rfl)] at htrim
  rw [← htrim, base]
  generalize (trimEnd ('/' :: front.reverse)).reverse = directory
  split
  next hclosed =>
    -- The directory is written as it is: it is empty, or a slash is its end.
    obtain rfl | ⟨more, rfl⟩ : directory = [] ∨ ∃ more, directory = more ++ ['/'] := by
      simpa [List.getLast?_eq_some_iff] using hclosed
    · rw [List.nil_append, splitAt_of_notMem hlast]
      exact (walk_stay (.inl rfl) disk [] [] last).symm
    · rw [List.append_assoc, List.singleton_append, splitAt_append_cons, splitAt_of_notMem hlast,
        splitAt_append_cons, List.append_assoc]
      exact (walk_stay (.inl rfl) disk [] _ last).symm
  next =>
    rw [List.append_assoc, List.singleton_append, splitAt_append_cons, splitAt_of_notMem hlast]

/-! ## Places -/

/-- A place that all lies in directories. -/
inductive Open (disk : Disk) : List Text → Prop where
  | root : Open disk []
  | inside {names : List Text} (name : Text) : Open disk names →
      disk.node? names = some .directory → Open disk (names ++ [name])

theorem Open.dropLast {disk : Disk} {names : List Text} (h : disk.Open names) :
    disk.node? names.dropLast = some .directory ∧ disk.Open names.dropLast := by
  cases h with
  | root => exact ⟨rfl, .root⟩
  | inside name hopen hdirectory => simpa using ⟨hdirectory, hopen⟩

theorem Open.walk {disk : Disk} {names place : List Text} {parts : List Text}
    (hopen : disk.Open names) (h : disk.walk names parts = some place) : disk.Open place := by
  induction parts generalizing names with
  | nil =>
      obtain rfl : names = place := by simpa [Disk.walk] using h
      exact hopen
  | cons part parts ih =>
      rw [Disk.walk] at h
      split at h
      · cases h
      next hdirectory =>
        have hdirectory : disk.node? names = some .directory := by simpa using hdirectory
        split at h
        · exact ih hopen h
        · split at h
          · exact ih hopen.dropLast.2 h
          · exact ih (.inside part hopen hdirectory) h

/-- A path that does not lead to a directory ends with a name. -/
theorem Open.isName_last {disk : Disk} {names place : List Text} {last : Text}
    (hopen : disk.Open names) (hslash : '/' ∉ last) (h : disk.walk names [last] = some place)
    (hnode : disk.node? place ≠ some .directory) : IsName last := by
  -- Any other last part leads to a directory: the one before it, or the one that holds that.
  have hdirectory : disk.node? names = some .directory := by
    apply Classical.byContradiction
    intro hnot
    simp [Disk.walk, hnot] at h
  refine ⟨hslash, ?_, ?_, ?_⟩
  · rintro rfl
    obtain rfl : names = place := by simpa [Disk.walk, hdirectory] using h
    exact hnode hdirectory
  · rintro rfl
    obtain rfl : names = place := by simpa [Disk.walk, hdirectory] using h
    exact hnode hdirectory
  · rintro rfl
    obtain rfl : names.dropLast = place := by simpa [Disk.walk, hdirectory] using h
    exact hnode hopen.dropLast.1

theorem resolve?_eq {path : Text} (h : path ≠ []) (disk : Disk) :
    disk.resolve? path = disk.walk [] (splitAt '/' path) := by
  simp [resolve?, h]

/-- A path leads to a name in a directory, and the paths beside it to that name with a suffix. -/
structure LeadsTo (disk : Disk) (path : Text) (directory : List Text) (name : Text) : Prop where
  place : disk.resolve? path = some (directory ++ [name])
  beside : ∀ suffix, '/' ∉ suffix → suffix ≠ [] → ∃ sibling,
    FileName.sibling? path suffix = some sibling ∧
      disk.resolve? sibling = some (directory ++ [name ++ '.' :: suffix])

/-- A path that does not lead to a directory ends with a name. -/
theorem exists_names {disk : Disk} {path : Text} {place : List Text}
    (h : disk.resolve? path = some place) (hnode : disk.node? place ≠ some .directory) :
    ∃ name, Names path name := by
  have hpath : path ≠ [] := by rintro rfl; simp [resolve?] at h
  rw [resolve?_eq hpath] at h
  obtain hslash | ⟨front, name, hslash, rfl⟩ := exists_last_part '/' path
  · rw [splitAt_of_notMem hslash] at h
    exact ⟨path, .alone (Open.root.isName_last hslash h hnode)⟩
  · rw [splitAt_append_cons, splitAt_of_notMem hslash, walk_append] at h
    obtain ⟨directory, hwalk, hlast⟩ := Option.bind_eq_some_iff.mp h
    exact ⟨name, .inside front ((Open.root.walk hwalk).isName_last hslash hlast hnode)⟩

/-- A path that does not lead to a directory leads to a name in one. -/
theorem exists_leadsTo {disk : Disk} {path : Text} {place : List Text}
    (h : disk.resolve? path = some place) (hnode : disk.node? place ≠ some .directory) :
    ∃ directory name, place = directory ++ [name] ∧ disk.LeadsTo path directory name := by
  obtain ⟨name, hnames⟩ := exists_names h hnode
  cases hnames with
  | alone hname =>
      have hplace : disk.resolve? path = some ([] ++ [path]) := by
        rw [resolve?_eq hname.ne_nil, splitAt_of_notMem hname.slash, walk_name hname,
          if_pos disk.node?_root]
      refine ⟨[], path, Option.some.inj (h.symm.trans hplace), hplace, ?_⟩
      intro suffix hsuffix hne
      have hsuffixed := hname.suffixed hsuffix hne
      refine ⟨_, sibling?_of_name hname suffix, ?_⟩
      rw [resolve?_eq hsuffixed.ne_nil, splitAt_of_notMem hsuffixed.slash, walk_name hsuffixed,
        if_pos disk.node?_root]
  | inside front hname =>
      have hparts := h
      rw [resolve?_eq (by simp), splitAt_append_cons, splitAt_of_notMem hname.slash, walk_append]
        at hparts
      obtain ⟨directory, hwalk, hlast⟩ := Option.bind_eq_some_iff.mp hparts
      rw [walk_name hname] at hlast
      split at hlast
      next hdirectory =>
        obtain rfl := Option.some.inj hlast
        refine ⟨directory, name, rfl, h, fun suffix hsuffix hne => ?_⟩
        have hsuffixed := hname.suffixed hsuffix hne
        refine ⟨_, sibling?_append hname front suffix, ?_⟩
        rw [resolve?_eq (by simp [hname.ne_nil]), walk_base disk front hsuffixed.slash, walk_append,
          hwalk, Option.bind_some, walk_name hsuffixed, if_pos hdirectory]
      next => cases hlast

end Disk

end LosslessYaml
